import Runbook.Procedure.Graph
import Runbook.Proofs.Procedure.Repetition

/-!
# What a valid definition has

`ProcedureGraph.valid` says that a definition has no violations. Here are the facts that the parts
of `ProcedureDefinition.violations` stand for: there is a step, the identifiers are distinct
(`stepIds_nodup`), every edge leads to a step (`edge_declared`), neither the procedure nor a step
lists a device twice (`devicesFor_nodup`), and a step is without a device only when it says so
(`devicesFor_eq_nil_iff`).
-/

namespace Runbook

/-! ## Repetitions -/

theorem nodup_of_repetitions {xs : List String} (h : repetitions xs = []) : xs.Nodup :=
  repeatedAt_two.eq_nil_iff.1 h

theorem nodup_of_repeatedTexts {xs : List String} (h : repeatedTexts xs = []) : xs.Nodup :=
  repeatedAt_one.eq_nil_iff.1 h

namespace ProcedureDefinition

variable {p : ProcedureDefinition}

@[simp] theorem length_stepIds : p.stepIds.length = p.steps.length := by simp [stepIds]

/-- A declared identifier belongs to a step. -/
theorem exists_identified {id : String} (h : id ∈ p.stepIds) : ∃ s, (id, s) ∈ p.identified := by
  obtain ⟨i, hi, rfl⟩ := List.mem_iff_getElem.1 h
  have hs : i < p.steps.length := by simpa using hi
  exact ⟨p.steps[i], List.mem_iff_getElem.2 ⟨i, by simpa [identified] using hs, by simp [identified]⟩⟩

end ProcedureDefinition

namespace ProcedureGraph

variable (g : ProcedureGraph)

theorem violations_split :
    g.definition.steps ≠ [] ∧ repeatedTexts g.definition.stepIds = [] ∧
      repetitions g.definition.devices = [] ∧
      ∀ x ∈ g.definition.identified, g.definition.stepViolations x.1 x.2 = [] := by
  have h := g.valid
  simp only [ProcedureDefinition.violations, List.append_eq_nil_iff, List.map_eq_nil_iff,
    List.flatMap_eq_nil_iff] at h
  obtain ⟨⟨⟨hs, hi⟩, hd⟩, hv⟩ := h
  refine ⟨?_, hi, hd, hv⟩
  rintro he
  simp [he] at hs

theorem stepIds_nodup : g.definition.stepIds.Nodup :=
  nodup_of_repeatedTexts g.violations_split.2.1

/-- The entry is a declared step. -/
theorem entry_mem : g.entry ∈ g.definition.stepIds := by
  have hs := g.violations_split.1
  unfold entry
  cases h : g.definition.stepIds with
  | nil => exact absurd (by simpa using congrArg List.length h) hs
  | cons id ids => simp

variable {g} {id next : String} {s : StepDefinition}

theorem step?_of_mem (h : id ∈ g.definition.stepIds) : ∃ s, g.step? id = some s := by
  obtain ⟨s, hs⟩ := ProcedureDefinition.exists_identified h
  have hf : (g.definition.identified.find? (·.1 == id)).isSome :=
    List.find?_isSome.2 ⟨(id, s), hs, by simp⟩
  obtain ⟨x, hx⟩ := Option.isSome_iff_exists.1 hf
  exact ⟨x.2, by simp [step?, hx]⟩

/-- The edges of a step lead to declared steps. -/
theorem edge_declared (h : (id, s) ∈ g.definition.identified)
    (he : s.onSuccess = some next ∨ s.onFailure = some next) : next ∈ g.definition.stepIds := by
  have hv := g.violations_split.2.2.2 (id, s) h
  simp only [ProcedureDefinition.stepViolations, List.append_eq_nil_iff] at hv
  have hd := hv.1.2
  simp only [ProcedureDefinition.danglingOf, List.filterMap_eq_nil_iff] at hd
  apply Classical.byContradiction
  intro hn
  rcases he with he | he
  · simpa [he, hn] using hd ("on_success", s.onSuccess) (by simp)
  · simpa [he, hn] using hd ("on_failure", s.onFailure) (by simp)

/-- Neither the procedure nor a step lists a device twice. -/
theorem devicesFor_nodup (h : (id, s) ∈ g.definition.identified) : (g.devicesFor s).Nodup := by
  obtain ⟨-, -, hp, hv⟩ := g.violations_split
  have hs := hv (id, s) h
  simp only [ProcedureDefinition.stepViolations, List.append_eq_nil_iff] at hs
  unfold devicesFor
  cases hd : s.devices with
  | none => exact nodup_of_repetitions hp
  | some ds =>
    have := hs.2
    simp only [ProcedureDefinition.deviceViolations, hd, List.map_eq_nil_iff] at this
    exact nodup_of_repetitions this

/-- A step has no devices exactly when it declares an empty list of them. -/
theorem devicesFor_eq_nil_iff (h : (id, s) ∈ g.definition.identified) :
    g.devicesFor s = [] ↔ s.devices = some [] := by
  have hv := g.violations_split.2.2.2 (id, s) h
  simp only [ProcedureDefinition.stepViolations, List.append_eq_nil_iff] at hv
  unfold devicesFor
  cases hd : s.devices with
  | none =>
    have hne : g.definition.devices ≠ [] := by
      simpa [ProcedureDefinition.deviceViolations, hd] using hv.2
    simp [hne]
  | some ds => simp

end ProcedureGraph
end Runbook

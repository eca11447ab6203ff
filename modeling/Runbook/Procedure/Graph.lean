import Runbook.Procedure.Violation
import Runbook.Registry

/-!
# Graphs of procedures

A graph is a definition without violations: its steps have distinct identifiers, every edge leads
to a step, and the first step is the entry. Whether handlers exist for its steps is a question to
a registry (`ProcedureGraph.handlerViolations`).
-/

namespace Runbook

/-- A definition without violations. -/
structure ProcedureGraph where
  definition : ProcedureDefinition
  valid : definition.violations = []

namespace ProcedureGraph

/-- The graph of a definition, or its violations. -/
def ofDefinition (p : ProcedureDefinition) : Except (List Violation) ProcedureGraph :=
  if h : p.violations = [] then .ok ⟨p, h⟩ else .error p.violations

/-- The name of the procedure. -/
def name (g : ProcedureGraph) : String := g.definition.name

/-- The identifier of the first step. -/
def entry (g : ProcedureGraph) : String := g.definition.stepIds.head?.getD ""

/-- The step of an identifier. -/
def step? (g : ProcedureGraph) (id : String) : Option StepDefinition :=
  (g.definition.identified.find? (·.1 == id)).map (·.2)

/-- Whether there is a step of an identifier. -/
def contains (g : ProcedureGraph) (id : String) : Bool := g.definition.stepIds.contains id

/-- The devices of a step; none stands for one invocation without a device. -/
def devicesFor (g : ProcedureGraph) (s : StepDefinition) : List String :=
  s.devices.getD g.definition.devices

/-- What a registry lacks for one step. -/
def handlerViolation? (r : Registry) (id : String) (s : StepDefinition) : Option Violation :=
  match r.resolve s.stepType with
  | .error _ => some (.unknownStepType id s.stepType)
  | .ok h =>
    match h.missingRequired (.obj s.params) with
    | [] => none
    | missing => some (.missingParams id missing)

/-- Everything that a registry lacks for the steps of a graph. -/
def handlerViolations (g : ProcedureGraph) (r : Registry) : List Violation :=
  g.definition.identified.filterMap fun (id, s) => handlerViolation? r id s

end ProcedureGraph
end Runbook

import Runbook.Procedure.Definition
import Runbook.Text.Blank

/-!
# Violations

What keeps a definition from being a procedure that can run. `ProcedureDefinition.violations` lists
every violation of the rules that concern the definition alone, and never stops at the first.
-/

namespace Runbook

/-- A rule that a definition breaks. -/
inductive Violation where
  | noSteps
  | duplicateStepId (id : String)
  | missingStepType (step : String)
  | danglingTransition (step edge target : String)
  | noDevices (step : String)
  | duplicateDevice (step : Option String) (device : String)
  | unknownStepType (step stepType : String)
  | missingParams (step : String) (params : List String)
  deriving Repr, BEq, DecidableEq, Inhabited

namespace Violation

/-- The wording of a violation. -/
def message : Violation → String
  | .noSteps => "procedure has no steps"
  | .duplicateStepId id => "duplicate step id '" ++ id ++ "'"
  | .missingStepType s => "step '" ++ s ++ "' has no type"
  | .danglingTransition s edge target =>
    "step '" ++ s ++ "': " ++ edge ++ " points to undeclared step '" ++ target ++ "'"
  | .noDevices s =>
    "step '" ++ s ++ "' has no devices: the procedure device list is empty and the step does not " ++
      "override it"
  | .duplicateDevice (some s) d => "step '" ++ s ++ "' lists device '" ++ d ++ "' twice"
  | .duplicateDevice none d => "procedure lists device '" ++ d ++ "' twice"
  | .unknownStepType s t => "step '" ++ s ++ "': unknown step type '" ++ t ++ "'"
  | .missingParams s ps =>
    "step '" ++ s ++ "': missing required params: " ++ String.intercalate ", " ps

/-- The wording of several violations. -/
def joined (vs : List Violation) : String :=
  "invalid procedure: " ++ String.intercalate "; " (vs.map message)

end Violation

/-- The texts that occur twice or more, in the order of `pick`, each once. `before` holds those
already met and `reported` those already listed. -/
def repeatedFrom (before reported : List String) : List String → List String
  | [] => []
  | x :: xs =>
    if before.contains x && !reported.contains x then
      x :: repeatedFrom before (x :: reported) xs
    else repeatedFrom (x :: before) reported xs

/-- The texts that a list repeats, each once, in the order of their first repetition. -/
def repetitions (xs : List String) : List String := repeatedFrom [] [] xs

/-- The texts that a list repeats, each once, in the order of their first occurrence. -/
def repeatedTexts (xs : List String) : List String :=
  xs.eraseDups.filter fun x => 1 < xs.count x

namespace ProcedureDefinition

/-- The transitions of a step that lead nowhere. -/
def danglingOf (declared : List String) (id : String) (s : StepDefinition) : List Violation :=
  [("on_success", s.onSuccess), ("on_failure", s.onFailure)].filterMap fun (edge, target) =>
    match target with
    | some t => if declared.contains t then none else some (.danglingTransition id edge t)
    | none => none

/-- What is wrong with the devices of a step. -/
def deviceViolations (defaults : List String) (id : String) (s : StepDefinition) :
    List Violation :=
  match s.devices with
  | none => if defaults.isEmpty then [.noDevices id] else []
  | some ds => (repetitions ds).map (.duplicateDevice (some id))

/-- What is wrong with one step. -/
def stepViolations (p : ProcedureDefinition) (id : String) (s : StepDefinition) : List Violation :=
  (if (Text.trim s.stepType).isEmpty then [.missingStepType id] else []) ++
    danglingOf p.stepIds id s ++ deviceViolations p.devices id s

/-- Every violation of a definition, in the order they are reported. -/
def violations (p : ProcedureDefinition) : List Violation :=
  (if p.steps.isEmpty then [.noSteps] else []) ++
    (repeatedTexts p.stepIds).map .duplicateStepId ++
    (repetitions p.devices).map (.duplicateDevice none) ++
    p.identified.flatMap fun (id, s) => p.stepViolations id s

end ProcedureDefinition
end Runbook

import Runbook.Step.Result

/-!
# Faults of steps

Everything that keeps a handler from doing its work. `StepFault.message` is the wording; a fault
becomes an invocation's result through `StepFault.result`.
-/

namespace Runbook

/-- Why an invocation could not do its work. -/
inductive StepFault where
  | unknownStepType (name : String)
  | duplicateHandler (name : String)
  | invalidParams (detail : String)
  | resolution (detail : String)
  | missingDevice (stepType : String)
  | transport (detail : String)
  | http (detail : String)
  | relay (detail : String)
  | timeout (seconds : Nat)
  | rejected (pattern reason : String)
  | script (detail : String)
  | panic (detail : String)
  | check (detail : String)
  | json (detail : String)
  | io (detail : String)
  deriving Repr, BEq, DecidableEq

namespace StepFault

/-- The wording of a fault. -/
def message : StepFault → String
  | .unknownStepType name => "Unknown step type: " ++ name
  | .duplicateHandler name => "Handler already registered: " ++ name
  | .invalidParams d => "Invalid parameters: " ++ d
  | .resolution d => "Unresolved reference: " ++ d
  | .missingDevice t => "Step type '" ++ t ++ "' requires a target device"
  | .transport d => "Transport error: " ++ d
  | .http d => "HTTP error: " ++ d
  | .relay d => "Relay error: " ++ d
  | .timeout s => "Execution timed out after " ++ toString s ++ " seconds"
  | .rejected p r =>
    "Security rejection: code matches deny-listed pattern '" ++ p ++ "' (" ++ r ++ ")"
  | .script d => "Script error: " ++ d
  | .panic d => "Handler panicked: " ++ d
  | .check d => "Check error: " ++ d
  | .json d => "JSON error: " ++ d
  | .io d => "I/O error: " ++ d

/-- The result of an invocation that met a fault. -/
def result (f : StepFault) : StepResult := .error f.message

end StepFault
end Runbook

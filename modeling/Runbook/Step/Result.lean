import Runbook.Json.Decode

/-!
# Results of steps

One invocation of a handler ends in a `StepResult`: its status, a message, data and a duration.
`Status.aggregate` joins the statuses of all invocations of a step.
-/

namespace Runbook

/-- How an invocation ended: the work held, it was done but does not hold, or it could not be
done. -/
inductive Status where
  | success
  | failed
  | error
  deriving Repr, BEq, DecidableEq, Inhabited

namespace Status

/-- The name of a status. -/
def text : Status → String
  | .success => "success"
  | .failed => "failed"
  | .error => "error"

/-- Whether the work held. -/
def isSuccess : Status → Bool
  | .success => true
  | _ => false

/-- Whether the work did not hold or could not be done. -/
def isFailure (s : Status) : Bool := !s.isSuccess

/-- The status of a step: any failure makes it failed, and without invocations it holds. -/
def aggregate (statuses : List Status) : Status :=
  if statuses.any isFailure then .failed else .success

/-- The statuses by name. -/
def named : List (String × Status) :=
  [("success", .success), ("failed", .failed), ("error", .error)]

/-- Reads a status. -/
def decode : Decoder Status := Decode.variant named

/-- The status as a value. -/
def toJson (s : Status) : Json := .str s.text

end Status

/-- The end of one invocation. -/
structure StepResult where
  status : Status
  message : String
  data : Json
  durationMs : Nat
  deriving Inhabited

namespace StepResult

/-- The work held. -/
def success (message : String) (data : Json) : StepResult := ⟨.success, message, data, 0⟩

/-- The work was done but does not hold. -/
def failed (message : String) (data : Json) : StepResult := ⟨.failed, message, data, 0⟩

/-- The work could not be done. -/
def error (message : String) : StepResult := ⟨.error, message, .null, 0⟩

/-- The result with a duration. -/
def withDuration (r : StepResult) (ms : Nat) : StepResult := { r with durationMs := ms }

/-- Whether the work held. -/
def isSuccess (r : StepResult) : Bool := r.status.isSuccess

/-- The result as a value. -/
def toJson (r : StepResult) : Json :=
  .ofFields [("status", r.status.toJson), ("message", .str r.message), ("data", r.data),
    ("duration_ms", .ofNat r.durationMs)]

/-- The fields of a result; only the status has to be there. -/
def fields : List Decode.Field :=
  [Decode.field "status" .required Status.decode,
   Decode.field "message" .defaulted Decode.text,
   Decode.field "data" .defaulted Decode.any,
   Decode.field "duration_ms" .defaulted Decode.unsigned]

/-- Reads a result. -/
def decode : Decoder StepResult := fun v => do
  let fs ← Decode.record "StepResult" fields v
  let status ← Decode.get fs "status" Status.decode
  let message ← Decode.getD fs "message" Decode.text ""
  let data ← Decode.getD fs "data" Decode.any .null
  let durationMs ← Decode.getD fs "duration_ms" Decode.unsigned 0
  return ⟨status, message, data, durationMs⟩

end StepResult
end Runbook

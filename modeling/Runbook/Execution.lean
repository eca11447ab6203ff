import Runbook.Context
import Runbook.Identifier

/-!
# Executions

An `Execution` is the record of one run of a procedure: its status, the log of all invocations, the
steps it visited, why it was given up if it was, and the context as it stood when the run ended.
-/

namespace Runbook

/-- Where a run stands. -/
inductive RunStatus where
  | pending
  | running
  | success
  | failed
  | cancelled
  deriving Repr, BEq, DecidableEq, Inhabited

namespace RunStatus

/-- The statuses by name. -/
def named : List (String × RunStatus) :=
  [("pending", .pending), ("running", .running), ("success", .success), ("failed", .failed),
   ("cancelled", .cancelled)]

/-- The name of a status. -/
def text : RunStatus → String
  | .pending => "pending"
  | .running => "running"
  | .success => "success"
  | .failed => "failed"
  | .cancelled => "cancelled"

/-- Whether a run with the status is over. -/
def isTerminal : RunStatus → Bool
  | .pending | .running => false
  | .success | .failed | .cancelled => true

/-- The status as a value. -/
def toJson (s : RunStatus) : Json := .str s.text

/-- Reads a status. -/
def decode : Decoder RunStatus := Decode.variant named

/-- The status of a run that ends after a step of this status. -/
def ofStep : Status → RunStatus
  | .success => .success
  | _ => .failed

end RunStatus

/-- One invocation in the log of a run. -/
structure StepRecord where
  step : String
  device : Option String
  result : StepResult
  deriving Inhabited

namespace StepRecord

/-- The record as a value; a missing device is left out. -/
def toJson (r : StepRecord) : Json :=
  .ofFields (("step_id", .str r.step) :: ("result", r.result.toJson) ::
    (r.device.map fun d => ("device", Json.str d)).toList)

/-- Reads a record. -/
def decode : Decoder StepRecord := fun v => do
  let device := Decode.optional Decode.text
  let fs ← Decode.record "StepRecord"
    [Decode.field "step_id" .required Decode.text,
     Decode.field "device" .optional device,
     Decode.field "result" .required StepResult.decode] v
  return { step := ← Decode.get fs "step_id" Decode.text
           device := ← Decode.getD fs "device" device none
           result := ← Decode.get fs "result" StepResult.decode }

end StepRecord

/-- The record of one run of a procedure. -/
structure Execution where
  id : Identifier
  procedure : String
  status : RunStatus := .pending
  startedAt : Option Instant := none
  completedAt : Option Instant := none
  /-- The invocations, step by step in the order of the visits and by device within a step. -/
  log : List StepRecord := []
  /-- The visited steps in order. -/
  visited : List String := []
  /-- Why the run was given up. -/
  error : Option String := none
  context : Context := {}
  deriving Inhabited

namespace Execution

/-- The records of a step in the order of the log. -/
def resultsFor (e : Execution) (step : String) : List StepRecord :=
  e.log.filter fun r => r.step == step

/-- How long the run took in milliseconds, once it is over. -/
def durationMs? (e : Execution) : Option Int :=
  match e.startedAt, e.completedAt with
  | some start, some stop => some (Instant.millisBetween start stop)
  | _, _ => none

/-- The execution as a value; what is not there is left out. -/
def toJson (e : Execution) : Json :=
  let optional (name : String) (v : Option Json) : List (String × Json) :=
    (v.map fun v => (name, v)).toList
  .ofFields <|
    [("execution_id", .str e.id.text), ("procedure", .str e.procedure), ("status", e.status.toJson),
     ("log", .arr (e.log.map StepRecord.toJson)), ("visited", .ofStrings e.visited),
     ("context", e.context.toJson)] ++
    optional "started_at" (e.startedAt.map fun t => .str t.text) ++
    optional "completed_at" (e.completedAt.map fun t => .str t.text) ++
    optional "error" (e.error.map .str)

/-- Reads an identifier. -/
def identifier : Decoder Identifier
  | .str s =>
    match Identifier.parse s with
    | .ok i => .ok i
    | .error e => .error (.refused ("UUID parsing failed: " ++ e.message))
  | v => Decode.wrongType v "a UUID string"

/-- Reads an execution. -/
def decode : Decoder Execution := fun v => do
  let instant := Decode.optional Visit.instant
  let reason := Decode.optional Decode.text
  let log := Decode.list StepRecord.decode
  let visited := Decode.list Decode.text
  let fs ← Decode.record "Execution"
    [Decode.field "execution_id" .required identifier,
     Decode.field "procedure" .required Decode.text,
     Decode.field "status" .required RunStatus.decode,
     Decode.field "started_at" .optional instant,
     Decode.field "completed_at" .optional instant,
     Decode.field "log" .required log,
     Decode.field "visited" .required visited,
     Decode.field "error" .optional reason,
     Decode.field "context" .required Context.decode] v
  return { id := ← Decode.get fs "execution_id" identifier
           procedure := ← Decode.get fs "procedure" Decode.text
           status := ← Decode.get fs "status" RunStatus.decode
           startedAt := ← Decode.getD fs "started_at" instant none
           completedAt := ← Decode.getD fs "completed_at" instant none
           log := ← Decode.get fs "log" log
           visited := ← Decode.get fs "visited" visited
           error := ← Decode.getD fs "error" reason none
           context := ← Decode.get fs "context" Context.decode }

end Execution
end Runbook

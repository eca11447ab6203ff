import Runbook.Step.Result
import Runbook.Time.Instant

/-!
# Contexts

The context is what the steps of one run share: global variables, a namespace per device, the
results of the invocations, the status of each step and the history of visits.
`Context.stepsTree` is the part that templates and scripts see of the results.
-/

namespace Runbook

/-- One visit of a step. -/
structure Visit where
  step : String
  started : Instant
  finished : Instant
  deriving Repr, BEq, DecidableEq, Inhabited

namespace Visit

/-- The visit as a value. -/
def toJson (v : Visit) : Json :=
  .ofFields [("step_id", .str v.step), ("started_at", .str v.started.text),
    ("finished_at", .str v.finished.text)]

/-- Reads an instant. -/
def instant : Decoder Instant
  | .str s =>
    match Instant.parse s with
    | .ok t => .ok t
    | .error e => .error (.refused e.message)
  | v => Decode.wrongType v "an RFC 3339 formatted date and time string"

/-- Reads a visit. -/
def decode : Decoder Visit := fun v => do
  let fs ← Decode.record "HistoryEntry"
    [Decode.field "step_id" .required Decode.text,
     Decode.field "started_at" .required instant,
     Decode.field "finished_at" .required instant] v
  let step ← Decode.get fs "step_id" Decode.text
  let started ← Decode.get fs "started_at" instant
  let finished ← Decode.get fs "finished_at" instant
  return ⟨step, started, finished⟩

end Visit

/-- What the steps of one run share. -/
structure Context where
  globals : Fields := []
  devices : Table Fields := []
  stepResults : Table (Table StepResult) := []
  stepStatus : Table Status := []
  history : List Visit := []
  deriving Inhabited

namespace Context

/-- The key of results without a device. -/
def noDevice : String := "_"

/-- The context with these globals and nothing else. -/
def ofGlobals (globals : Fields) : Context := { globals }

/-- The context with a global set. -/
def setGlobal (c : Context) (name : String) (value : Json) : Context :=
  { c with globals := Table.insert name value c.globals }

/-- The namespace of a device. -/
def device? (c : Context) (device : String) : Option Fields := Table.get? device c.devices

/-- The context with the namespace of a device replaced. -/
def setDevice (c : Context) (device : String) (vars : Fields) : Context :=
  { c with devices := Table.insert device vars c.devices }

/-- The context with the result of an invocation. -/
def recordResult (c : Context) (step : String) (device : Option String) (r : StepResult) :
    Context :=
  let ofStep := (Table.get? step c.stepResults).getD []
  { c with
    stepResults := Table.insert step (Table.insert (device.getD noDevice) r ofStep) c.stepResults }

/-- The result of an invocation. -/
def resultFor? (c : Context) (step : String) (device : Option String) : Option StepResult :=
  (Table.get? step c.stepResults).bind (Table.get? (device.getD noDevice))

/-- The context with the status of a step. -/
def setStatus (c : Context) (step : String) (s : Status) : Context :=
  { c with stepStatus := Table.insert step s c.stepStatus }

/-- The context with one more visit. -/
def pushVisit (c : Context) (v : Visit) : Context := { c with history := c.history ++ [v] }

/-- The results of a step by device, as a value. -/
def resultsJson (ofStep : Table StepResult) : Json :=
  .obj (ofStep.map fun (d, r) => (d, r.toJson))

/-- The result that a step has for an invocation: that of its own device, else the one without a
device. -/
def ownResult? (ofStep : Table StepResult) (device : Option String) : Option StepResult :=
  (device.bind fun d => Table.get? d ofStep).or (Table.get? noDevice ofStep)

/-- What an invocation sees of one step. -/
def stepEntry (c : Context) (device : Option String) (step : String)
    (ofStep : Table StepResult) : Json :=
  .ofFields <|
    ((Table.get? step c.stepStatus).map fun s => ("status", s.toJson)).toList ++
      ("results", resultsJson ofStep) ::
      ((ownResult? ofStep device).map fun r => ("result", r.toJson)).toList

/-- What an invocation sees of the steps that have results. -/
def stepsTree (c : Context) (device : Option String) : Json :=
  .obj (c.stepResults.map fun (step, ofStep) => (step, c.stepEntry device step ofStep))

/-- The namespaces of all devices as a value. -/
def devicesJson (c : Context) : Json := .obj (c.devices.map fun (d, fs) => (d, .obj fs))

/-- The context as a value. -/
def toJson (c : Context) : Json :=
  .ofFields [("globals", .obj c.globals), ("devices", c.devicesJson),
    ("step_results", .obj (c.stepResults.map fun (s, rs) => (s, resultsJson rs))),
    ("step_status", .obj (c.stepStatus.map fun (s, t) => (s, t.toJson))),
    ("history", .arr (c.history.map Visit.toJson))]

/-- Reads the results by step and device. -/
def decodeResults : Decoder (Table (Table StepResult)) :=
  Decode.table (Decode.table StepResult.decode)

/-- Reads a context; every part may be left out. -/
def decode : Decoder Context := fun v => do
  let fs ← Decode.record "ExecutionContext"
    [Decode.field "globals" .defaulted Decode.object,
     Decode.field "devices" .defaulted (Decode.table Decode.object),
     Decode.field "step_results" .defaulted decodeResults,
     Decode.field "step_status" .defaulted (Decode.table Status.decode),
     Decode.field "history" .defaulted (Decode.list Visit.decode)] v
  let globals ← Decode.getD fs "globals" Decode.object []
  let devices ← Decode.getD fs "devices" (Decode.table Decode.object) []
  let stepResults ← Decode.getD fs "step_results" decodeResults []
  let stepStatus ← Decode.getD fs "step_status" (Decode.table Status.decode) []
  let history ← Decode.getD fs "history" (Decode.list Visit.decode) []
  return { globals, devices, stepResults, stepStatus, history }

end Context
end Runbook

import Runbook.Execution
import Runbook.Procedure.Graph
import Runbook.Run.Schedule
import Runbook.Config
import Runbook.Template.Resolver

/-!
# Visits of steps

A visit of a step makes one invocation per target: per device, or a single one without a device.
The invocations work on the context as it stood before the visit, each with a namespace of its own,
and share a number of slots (`Engine.invocations`). They end in any order; when all are over, they
are merged in the order of their devices (`Engine.merge`): an invocation that ended with an error
changes nothing but its record and the summary under the step's name.
-/

namespace Runbook

/-- What a run works with. -/
structure Engine where
  registry : Registry
  config : Config
  /-- The identifier of the execution. -/
  execution : Identifier
  /-- The moment at which the run starts. -/
  startedAt : Instant

/-- One invocation of a step: its target, its result, the namespace it leaves and, from the start of
the visit, when it starts and what it does. -/
structure Invocation where
  device : Option String
  result : StepResult
  vars : Fields
  start : Nat
  duration : Nat
  events : List (Nat × Event)
  deriving Inhabited

namespace Invocation

/-- The record of an invocation in the log. -/
def record (step : String) (i : Invocation) : StepRecord :=
  { step, device := i.device, result := i.result }

/-- What an invocation came to: a fault and a breakdown are results too. -/
def resultOf (t : Timeline (StepResult × Fields)) : StepResult :=
  match t.outcome with
  | .value (r, _) => r
  | .fault f => f.result
  | .panic m => (StepFault.panic m).result

/-- The namespace that an invocation leaves, that it started with when it did not come to an end. -/
def varsOf (initial : Fields) (t : Timeline (StepResult × Fields)) : Fields :=
  match t.outcome with
  | .value (_, vars) => vars
  | _ => initial

/-- The invocation that a timeline tells of. -/
def ofTimeline (device : Option String) (initial : Fields) (start : Nat)
    (t : Timeline (StepResult × Fields)) : Invocation :=
  { device
    result := (resultOf t).withDuration t.elapsed
    vars := varsOf initial t
    start
    duration := t.elapsed
    events := Timeline.later start t.events }

end Invocation

/-- Whether a target does not come after another; none comes first. -/
def targetNotAfter : Option String → Option String → Bool
  | none, _ => true
  | some _, none => false
  | some a, some b => !decide (b < a)

/-- The targets of a step: its devices, or one without a device. -/
def ProcedureGraph.targets (g : ProcedureGraph) (s : StepDefinition) : List (Option String) :=
  match g.devicesFor s with
  | [] => [none]
  | ds => ds.map some

namespace Engine

/-- The seconds that an invocation of a step may take. -/
def timeout (e : Engine) (s : StepDefinition) : Nat :=
  s.timeoutSeconds.getD e.config.stepTimeoutSecs

/-- What an invocation does: the handler of its type of step on the resolved parameters, cut off
when the time is up. -/
def invoke (e : Engine) (s : StepDefinition) (scope : Scope) : Timeline (StepResult × Fields) := do
  let h ← Timeline.ofExcept (e.registry.resolve s.stepType)
  let params ← Timeline.ofExcept (Template.resolveParams (.obj s.params) scope h.raw)
  let seconds := e.timeout s
  (h.run params scope).within (seconds * 1000) (.fault (.timeout seconds))

/-- The scope of an invocation. -/
def scopeFor (e : Engine) (id : String) (c : Context) (device : Option String) : Scope :=
  Scope.new e.execution id device c

/-- What the invocations of a step do, for each of its targets. -/
def timelines (e : Engine) (g : ProcedureGraph) (id : String) (s : StepDefinition) (c : Context) :
    List (Timeline (StepResult × Fields)) :=
  (g.targets s).map fun d => e.invoke s (e.scopeFor id c d)

/-- How many invocations may go on at a time. -/
def slots (e : Engine) : Nat := max 1 e.config.maxParallelDevices

/-- The invocations of a step in the order in which they start. -/
def invocations (e : Engine) (g : ProcedureGraph) (id : String) (s : StepDefinition) (c : Context) :
    List Invocation :=
  let ts := e.timelines g id s c
  let starts := Schedule.starts e.slots (ts.map (·.elapsed))
  ((g.targets s).zip (starts.zip ts)).map fun (d, start, t) =>
    Invocation.ofTimeline d (e.scopeFor id c d).vars start t

end Engine

/-- What the namespace of a device tells of a result. -/
def StepResult.summary (r : StepResult) : Json :=
  .ofFields [("status", r.status.toJson), ("message", .str r.message), ("data", r.data)]

/-- The context with one invocation of a step merged into it. -/
def Context.commit (step : String) (c : Context) (i : Invocation) : Context :=
  let kept := i.result.status != .error
  let c := match i.device with
    | some d =>
      let vars := if kept then i.vars else (c.device? d).getD []
      c.setDevice d (Table.insert step i.result.summary vars)
    | none => if kept then { c with globals := i.vars } else c
  c.recordResult step i.device i.result

/-- What a visit of a step came to. -/
structure StepVisit where
  /-- The invocations in the order in which they started. -/
  started : List Invocation
  /-- The invocations in the order in which they ended. -/
  ended : List Invocation
  /-- How long the visit took. -/
  elapsed : Nat
  deriving Inhabited

namespace StepVisit

/-- The invocations in the order of their devices. -/
def merged (v : StepVisit) : List Invocation :=
  v.ended.mergeSort fun a b => targetNotAfter a.device b.device

/-- The records of the invocations. -/
def records (step : String) (v : StepVisit) : List StepRecord :=
  v.merged.map (Invocation.record step)

/-- The status of the step. -/
def status (v : StepVisit) : Status := Status.aggregate (v.merged.map (·.result.status))

/-- The calls to the outside, in order. -/
def events (v : StepVisit) : List (Nat × Event) :=
  Schedule.inOrder (v.started.map fun i => (i.start, i.events))

end StepVisit

namespace Engine

/-- Visits a step. -/
def visit (e : Engine) (g : ProcedureGraph) (id : String) (s : StepDefinition) (c : Context) :
    StepVisit :=
  let is := e.invocations g id s c
  { started := is
    ended := is.mergeSort fun a b => a.start + a.duration ≤ b.start + b.duration
    elapsed := Schedule.ending (is.map (·.start)) (is.map (·.duration)) }

/-- The context after a visit that began some milliseconds after the start of the run. -/
def merge (e : Engine) (id : String) (began : Nat) (v : StepVisit) (c : Context) : Context :=
  ((v.merged.foldl (Context.commit id) c).setStatus id v.status).pushVisit
    { step := id
      started := e.startedAt.addMillis began
      finished := e.startedAt.addMillis (began + v.elapsed) }

end Engine
end Runbook

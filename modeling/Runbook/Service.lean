import Runbook.Run.Walk

/-!
# The service

The service starts runs in the background, tells where they stand, waits for them and cancels them,
all on one clock. A run that is submitted begins when the caller next waits, at the moment of its
submission. While the caller waits, the clock moves on and the runs with it; what the caller does
takes no time. When the clock has reached a moment, what is due at it may still lie ahead
(`Service.settled`): a caller that only lets time pass goes first, one that waits for a run goes
last.
-/

namespace Runbook

/-- A run that has been submitted. -/
structure Submission where
  graph : ProcedureGraph
  overrides : Fields
  /-- The moment of the submission. -/
  moment : Nat
  /-- Whether the run has begun. -/
  begun : Bool := false
  /-- From which moment after its begin on the run is cancelled. -/
  cancelFrom : Option Nat := none

/-- Why the service cannot do what it is asked. -/
inductive ServiceFault where
  | notFound (id : Identifier)
  | invalid (violations : List Violation)

/-- The wording of a fault. -/
def ServiceFault.message : ServiceFault → String
  | .notFound id => "Execution not found: " ++ id.text
  | .invalid vs => Violation.joined vs

/-- The runs of a service and its clock. -/
structure Service where
  registry : Registry
  config : Config
  /-- The moment at which the clock starts. -/
  origin : Instant
  /-- The runs that are kept, the last one first. -/
  runs : List (Identifier × Submission) := []
  /-- How many runs there have been. -/
  count : Nat := 0
  /-- The milliseconds since the start of the clock. -/
  clock : Nat := 0
  /-- Whether what is due at this moment has happened. -/
  settled : Bool := true

namespace Service

/-- The engine of a run that starts at a moment. -/
def engine (s : Service) (id : Identifier) (start : Nat) : Engine :=
  { registry := s.registry
    config := s.config
    execution := id
    startedAt := s.origin.addMillis start }

/-- The whole course of a submitted run, as far as it is decided now. -/
def course (s : Service) (id : Identifier) (r : Submission) : Run :=
  (s.engine id r.moment).run r.graph r.overrides r.cancelFrom

/-- Whether what is due at a moment has happened. -/
def isPast (s : Service) (t : Nat) : Bool := t < s.clock || (t == s.clock && s.settled)

/-- The moment at which a run is over. -/
def finish (s : Service) (id : Identifier) (r : Submission) : Nat :=
  r.moment + (s.course id r).elapsed

/-- Whether a run is over. -/
def isOver (s : Service) (id : Identifier) (r : Submission) : Bool :=
  r.begun && s.isPast (s.finish id r)

/-- Where a run stands. -/
def statusOf (s : Service) (id : Identifier) (r : Submission) : RunStatus :=
  if !r.begun then .pending
  else if s.isOver id r then (s.course id r).execution.status
  else .running

/-- The run of an identifier. -/
def find (s : Service) (id : Identifier) : Except ServiceFault Submission :=
  match s.runs.find? fun r => r.1 == id with
  | some (_, r) => .ok r
  | none => .error (.notFound id)

/-- The service with all submitted runs begun and the clock at a moment. -/
def waitUntil (s : Service) (t : Nat) (settled : Bool) : Service :=
  { s with
    runs := s.runs.map fun (id, r) => (id, { r with begun := true })
    clock := t
    settled }

/-- A new identifier. -/
def fresh (s : Service) : Identifier := ⟨s.count + 1⟩

/-- Refuses a graph for whose steps there are no handlers. -/
def accept (s : Service) (g : ProcedureGraph) : Except ServiceFault Unit :=
  match g.handlerViolations s.registry with
  | [] => .ok ()
  | vs => .error (.invalid vs)

/-- Submits a run. -/
def submit (s : Service) (g : ProcedureGraph) (overrides : Fields) :
    Except ServiceFault (Identifier × Service) := do
  s.accept g
  let id := s.fresh
  return (id, { s with
    runs := (id, { graph := g, overrides, moment := s.clock }) :: s.runs
    count := s.count + 1 })

/-- Lets time pass. No time at all is no wait. -/
def advance (s : Service) (ms : Nat) : Service :=
  if ms == 0 then s else s.waitUntil (s.clock + ms) false

/-- Runs a graph and waits for its end. -/
def run (s : Service) (g : ProcedureGraph) (overrides : Fields) :
    Except ServiceFault (Execution × Service) := do
  s.accept g
  let r := (s.engine s.fresh s.clock).run g overrides none
  return (r.execution, { s.advance r.elapsed with count := s.count + 1 })

/-- Runs a definition and waits for its end. -/
def runDefinition (s : Service) (p : ProcedureDefinition) (overrides : Fields) :
    Except ServiceFault (Execution × Service) :=
  match ProcedureGraph.ofDefinition p with
  | .ok g => s.run g overrides
  | .error vs => .error (.invalid vs)

/-- Where a run stands. -/
def status (s : Service) (id : Identifier) : Except ServiceFault RunStatus := do
  return s.statusOf id (← s.find id)

/-- Cancels a run: it enters no step that is still ahead. -/
def cancel (s : Service) (id : Identifier) : Except ServiceFault Service := do
  let r ← s.find id
  let first := if r.begun then s.clock - r.moment + (if s.settled then 1 else 0) else 0
  let r := { r with cancelFrom := some ((r.cancelFrom.map (min first)).getD first) }
  return { s with runs := s.runs.map fun (k, q) => if k == id then (k, r) else (k, q) }

/-- Waits for the end of a run. -/
def wait (s : Service) (id : Identifier) : Except ServiceFault (Execution × Service) := do
  let r ← s.find id
  let e := (s.course id r).execution
  if s.isOver id r then return (e, s)
  else return (e, s.waitUntil (max s.clock (s.finish id r)) true)

/-- Drops a run that is over. -/
def forget (s : Service) (id : Identifier) : Except ServiceFault Service := do
  let r ← s.find id
  if (s.statusOf id r).isTerminal then
    return { s with runs := s.runs.filter fun q => q.1 != id }
  else return s

end Service
end Runbook

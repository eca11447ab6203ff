import Runbook.Relay
import Runbook.Step.Fault
import Runbook.Transport

/-!
# Timelines

What a handler does is told by a timeline: the calls it makes to the outside with the moment of
each, how long it takes and how it ends. Moments count in milliseconds from the start. Timelines
follow one another (`Timeline.bind`), and a limit cuts one off (`Timeline.within`): one that ends
at the very moment of the limit is complete.
-/

namespace Runbook

/-- A call to the outside. -/
inductive Event where
  | command (c : CommandCall)
  | notice (n : Notification)
  deriving Repr, BEq, DecidableEq, Inhabited

/-- How a timeline ends: with a value, with a fault or by breaking down. -/
inductive Outcome (α : Type) where
  | value (a : α)
  | fault (f : StepFault)
  | panic (message : String)
  deriving Inhabited

/-- What a call to the outside meets: how long it takes and how it ends. -/
structure Response (α : Type) where
  elapsed : Nat
  outcome : Outcome α
  deriving Inhabited

/-- What is done, how long it takes and how it ends. -/
structure Timeline (α : Type) where
  events : List (Nat × Event)
  elapsed : Nat
  outcome : Outcome α
  deriving Inhabited

namespace Timeline

variable {α β : Type}

/-- Ends at once with a value. -/
def pure (a : α) : Timeline α := ⟨[], 0, .value a⟩

/-- Ends at once with a fault. -/
def fail (f : StepFault) : Timeline α := ⟨[], 0, .fault f⟩

/-- Ends at once by breaking down. -/
def panic (message : String) : Timeline α := ⟨[], 0, .panic message⟩

/-- Waits for some milliseconds. -/
def sleep (ms : Nat) : Timeline Unit := ⟨[], ms, .value ()⟩

/-- Makes a call at once. -/
def emit (e : Event) : Timeline Unit := ⟨[(0, e)], 0, .value ()⟩

/-- Waits for the response to a call, and ends as it does. -/
def await (r : Response α) : Timeline α := ⟨[], r.elapsed, r.outcome⟩

/-- The timeline as the response to a call. -/
def response (t : Timeline α) : Response α := ⟨t.elapsed, t.outcome⟩

/-- The events some milliseconds later. -/
def later (ms : Nat) (events : List (Nat × Event)) : List (Nat × Event) :=
  events.map fun (t, e) => (t + ms, e)

/-- One timeline after another; the second depends on the value of the first. -/
def bind (t : Timeline α) (f : α → Timeline β) : Timeline β :=
  match t.outcome with
  | .value a =>
    let u := f a
    ⟨t.events ++ later t.elapsed u.events, t.elapsed + u.elapsed, u.outcome⟩
  | .fault e => ⟨t.events, t.elapsed, .fault e⟩
  | .panic m => ⟨t.events, t.elapsed, .panic m⟩

instance : Monad Timeline where
  pure := pure
  bind := bind

/-- A value, or the fault that stands in its place, at once. -/
def ofExcept : Except StepFault α → Timeline α
  | .ok a => pure a
  | .error f => fail f

/-- The timeline with a limit: when it takes longer it is cut off there and ends with the
outcome `expired`. -/
def within (limit : Nat) (expired : Outcome α) (t : Timeline α) : Timeline α :=
  if t.elapsed ≤ limit then t
  else ⟨t.events.filter fun e => e.1 ≤ limit, limit, expired⟩

/-- The commands called, in order. -/
def commands (t : Timeline α) : List CommandCall :=
  t.events.filterMap fun
    | (_, .command c) => some c
    | _ => none

/-- The notifications handed over, in order. -/
def notices (t : Timeline α) : List Notification :=
  t.events.filterMap fun
    | (_, .notice n) => some n
    | _ => none

end Timeline
end Runbook

import Runbook.Timeline

/-!
# Schedules

How the invocations of one step share a number of slots. They start in the order given; each takes
a slot that is free, or waits for the one that is free next (`Schedule.starts`). What they do at the
same time is put into one order by `Schedule.inOrder`: of several that wake at one moment, the one
that began to wait first goes first, and those that start at that moment go last.
-/

namespace Runbook.Schedule

/-- When the next invocation may start, and what is then under way: `busy` are the moments at which
the invocations under way end, at most `slots` of them. -/
def next (slots : Nat) (busy : List Nat) : Nat × List Nat :=
  if busy.length < slots then (0, busy)
  else
    match busy.min? with
    | some t => (t, busy.erase t)
    | none => (0, [])

/-- The starts of invocations of given durations, those in `busy` being under way. -/
def startsFrom (slots : Nat) : List Nat → List Nat → List Nat
  | _, [] => []
  | busy, d :: ds =>
    let (t, rest) := next slots busy
    t :: startsFrom slots ((t + d) :: rest) ds

/-- The starts of invocations of given durations. -/
def starts (slots : Nat) (durations : List Nat) : List Nat := startsFrom slots [] durations

/-- When the last of some invocations is over. -/
def ending (starts durations : List Nat) : Nat :=
  (List.zipWith (· + ·) starts durations).foldl max 0

/-- The moments at which something happens, each once. -/
def moments (events : List (Nat × Event)) : List Nat := (events.map (·.1)).eraseDups

/-- What decides the order at one moment: the moments of an invocation up to it, the last one
first, and its start again at the end. -/
def rank (start : Nat) (events : List (Nat × Event)) (t : Nat) : List Nat :=
  let polls := start :: (moments events).filter fun m => start < m && m ≤ t
  polls.reverse ++ [start]

/-- Whether a rank does not come after another. -/
def notAfter : List Nat → List Nat → Bool
  | [], _ => true
  | _ :: _, [] => false
  | a :: as, b :: bs => a < b || (a == b && notAfter as bs)

/-- What invocations do, in one order; each is given by its start and its events. -/
def inOrder (lanes : List (Nat × List (Nat × Event))) : List (Nat × Event) :=
  let ranked := lanes.flatMap fun (start, events) =>
    events.map fun (t, e) => (rank start events t, t, e)
  (ranked.mergeSort fun a b => notAfter a.1 b.1).map fun (_, t, e) => (t, e)

end Runbook.Schedule

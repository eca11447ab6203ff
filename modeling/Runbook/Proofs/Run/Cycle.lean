import Mathlib.Logic.Relation
import Runbook.Proofs.Run.Budget

/-!
# Cycles of edges

`ProcedureGraph.Edge` are the declared edges of a graph, whatever their kind. At every moment of a
run the visits and the step that is due form a path of such edges from the entry
(`Reaches.isChain`), so a step that comes up again lies on a cycle (`Reaches.on_cycle`). The main
statement is that a run is given up for its budget only at such a step, and that a run of a graph
without a cycle in reach is never given up and visits no step twice (`run_acyclic`).
-/

namespace Runbook

open Relation (ReflTransGen TransGen)

namespace ProcedureGraph

/-- An edge is declared from one step to another, for its success or for its failure. -/
def Edge (g : ProcedureGraph) (a b : String) : Prop :=
  ∃ s, g.step? a = some s ∧ (s.onSuccess = some b ∨ s.onFailure = some b)

/-- The step lies on a cycle of declared edges. -/
def OnCycle (g : ProcedureGraph) (id : String) : Prop := TransGen g.Edge id id

/-- No cycle of declared edges can be reached from the entry. -/
def Acyclic (g : ProcedureGraph) : Prop := ∀ id, ReflTransGen g.Edge g.entry id → ¬g.OnCycle id

theorem LeadsTo.edge {g : ProcedureGraph} {v : LoggedVisit} {next : String}
    (h : g.LeadsTo v next) : g.Edge v.step next := by
  obtain ⟨s, hs, ⟨-, he⟩ | ⟨-, he⟩⟩ := h
  · exact ⟨s, hs, .inl he⟩
  · exact ⟨s, hs, .inr he⟩

end ProcedureGraph

namespace Engine

variable {e : Engine} {g : ProcedureGraph} {overrides : Fields} {cancelFrom : Option Nat}
  {id : String} {w : Walk}

theorem Followed.isChain {visits : List LoggedVisit} (h : Followed e g w visits) :
    w.visited.IsChain g.Edge := by
  rw [← h.steps, List.isChain_map]
  exact h.chain.imp fun _ _ hl => hl.edge

theorem Followed.head?_visited {visits : List LoggedVisit} (h : Followed e g w visits) :
    ∀ i ∈ w.visited.head?, i = g.entry := by
  intro i hi
  rw [← h.steps, List.head?_map] at hi
  obtain ⟨v, hv, rfl⟩ := Option.map_eq_some_iff.1 hi
  exact h.entry v hv

/-- **The visits are a path.** They follow declared edges from the entry on, and so does the step
that is due after them. -/
theorem Reaches.isChain (h : Reaches e g overrides cancelFrom id w) :
    (w.visited ++ [id]).IsChain g.Edge ∧ ∀ i ∈ (w.visited ++ [id]).head?, i = g.entry := by
  obtain ⟨visits, hf, hd⟩ := h.followed
  constructor
  · refine List.isChain_append.2 ⟨hf.isChain, List.isChain_singleton _, ?_⟩
    intro a ha b hb
    obtain rfl : id = b := by simpa using hb
    rw [← hf.steps, List.getLast?_map] at ha
    obtain ⟨v, hv, rfl⟩ := Option.map_eq_some_iff.1 ha
    have hl : g.LeadsTo v id := by simpa [ProcedureGraph.Due, hv] using hd
    exact hl.edge
  · intro i hi
    cases hw : w.visited with
    | nil =>
      have hv : visits = [] := List.map_eq_nil_iff.1 (hf.steps.trans hw)
      have he : id = g.entry := by simpa [ProcedureGraph.Due, hv] using hd
      rw [hw] at hi
      simp only [List.nil_append, List.head?_cons, Option.mem_def, Option.some.injEq] at hi
      rw [← hi, he]
    | cons a as =>
      apply hf.head?_visited
      rw [hw] at hi ⊢
      exact hi

/-- From each visit, declared edges lead to each later one and to the step that is due. -/
theorem Reaches.pairwise (h : Reaches e g overrides cancelFrom id w) :
    (w.visited ++ [id]).Pairwise (TransGen g.Edge) :=
  (h.isChain.1.imp fun _ _ => TransGen.single).pairwise

/-- **A step that comes up again** lies on a cycle. -/
theorem Reaches.on_cycle (h : Reaches e g overrides cancelFrom id w) (hv : id ∈ w.visited) :
    g.OnCycle id :=
  (List.pairwise_append.1 h.pairwise).2.2 id hv id List.mem_cons_self

/-- Declared edges lead from the entry to each visit and to the step that is due. -/
theorem Reaches.from_entry (h : Reaches e g overrides cancelFrom id w) :
    ∀ i ∈ w.visited ++ [id], ReflTransGen g.Edge g.entry i := by
  have hp := h.pairwise
  have hh := h.isChain.2
  intro i hi
  cases hw : w.visited ++ [id] with
  | nil => simp at hw
  | cons a as =>
    rw [hw] at hp hh hi
    obtain rfl : a = g.entry := hh a rfl
    rcases List.mem_cons.1 hi with rfl | hi
    · exact .refl
    · exact ((List.pairwise_cons.1 hp).1 i hi).to_reflTransGen

/-- Without a cycle in reach, no step comes up twice. -/
theorem Reaches.nodup (h : Reaches e g overrides cancelFrom id w) (hg : g.Acyclic) :
    (w.visited ++ [id]).Nodup := by
  refine h.pairwise.imp_of_mem ?_
  intro a b ha _ hab he
  subst he
  exact hg a (h.from_entry a ha) hab

theorem budget_pos : 0 < e.budget := Nat.lt_of_lt_of_le Nat.zero_lt_one (Nat.le_max_left _ _)

/-- A step that is due and has no visits left lies on a cycle. -/
theorem Reaches.on_cycle_of_exhausted (h : Reaches e g overrides cancelFrom id w)
    (hb : e.budget ≤ w.visited.count id) : g.OnCycle id :=
  h.on_cycle (List.count_pos_iff.1 (Nat.lt_of_lt_of_le budget_pos hb))

/-- A run that is given up for its budget lacks visits for a step on a cycle. -/
theorem outcome_on_cycle {step : String} {visits budget : Nat}
    (h : e.outcome g overrides cancelFrom = (.fault (.budgetExceeded step visits budget), w)) :
    g.OnCycle step := by
  obtain ⟨id, w', hr, ht⟩ := outcome_stops e g overrides cancelFrom
  rw [h] at ht
  rcases turn_stop ht with ⟨hx, -⟩ | ⟨s, -, -, hx, -⟩
  · cases hx with
    | exhausted _ hb => exact hr.on_cycle_of_exhausted hb
  · cases hx

/-- Without a cycle in reach, the walk of a run visits no step twice and meets no fault. -/
theorem outcome_acyclic (e : Engine) (overrides : Fields) (cancelFrom : Option Nat)
    (hg : g.Acyclic) :
    (e.outcome g overrides cancelFrom).2.visited.Nodup ∧
      ∀ f, (e.outcome g overrides cancelFrom).1 ≠ .fault f := by
  obtain ⟨id, w, hr, ht⟩ := outcome_stops e g overrides cancelFrom
  have hn := hr.nodup hg
  generalize e.outcome g overrides cancelFrom = o at ht
  rcases turn_stop ht with ⟨hx, hw⟩ | ⟨s, hs, -, hx, hw⟩
  · rw [hw]
    refine ⟨(List.nodup_append.1 hn).1, ?_⟩
    intro f hf
    rw [hf] at hx
    cases hx with
    | unknown source _ hnone =>
      obtain ⟨s, hs⟩ := hr.declared
      rw [hs] at hnone
      cases hnone
    | exhausted _ hb =>
      exact hg id (hr.from_entry id (by simp)) (hr.on_cycle_of_exhausted hb)
  · rw [hw, hx]
    exact ⟨hn, nofun⟩

/-- **A run is given up for its budget only on a cycle.** Whatever the budget and whatever the
invocations come to: when no cycle of declared edges can be reached from the entry, the run is not
given up, its visits are of different steps, and there are at most as many as the procedure has; and
a step whose budget is used up lies on a cycle. -/
theorem run_acyclic (e : Engine) (g : ProcedureGraph) (overrides : Fields)
    (cancelFrom : Option Nat) :
    let x := (e.run g overrides cancelFrom).execution
    (g.Acyclic →
      (∀ step visits budget w,
        e.outcome g overrides cancelFrom ≠ (.fault (.budgetExceeded step visits budget), w)) ∧
      x.error = none ∧ x.visited.Nodup ∧ x.visited.length ≤ g.definition.steps.length) ∧
    ∀ step visits budget w,
      e.outcome g overrides cancelFrom = (.fault (.budgetExceeded step visits budget), w) →
      g.OnCycle step := by
  intro x
  refine ⟨fun hg => ?_, fun step visits budget w h => outcome_on_cycle h⟩
  obtain ⟨hn, hf⟩ := outcome_acyclic e overrides cancelFrom hg
  obtain ⟨vs, hfollowed, -⟩ := outcome_followed e g overrides cancelFrom
  refine ⟨?_, ?_, hn, ?_⟩
  · intro step visits budget w h
    exact hf _ (congrArg Prod.fst h)
  · change (e.outcome g overrides cancelFrom).1.reason? = none
    cases ho : (e.outcome g overrides cancelFrom).1 with
    | status s => rfl
    | fault f => exact absurd ho (hf f)
  · have hcount (i : String) : x.visited.count i ≤ 1 := List.nodup_iff_count_le_one.1 hn i
    have hlength := length_le_mul_of_count_le hfollowed.declared hcount
    rw [ProcedureDefinition.length_stepIds, Nat.mul_one] at hlength
    exact hlength

/-! ## An instance -/

/-- A procedure of two steps, the first of which leads to the second in any case. -/
def relayRace : ProcedureGraph :=
  ⟨{ name := "Relay"
     steps :=
       [{ name := "Run", id := some "run", stepType := "delay", devices := some [],
          onSuccess := some "hand over", onFailure := some "hand over" },
        { name := "Hand over", id := some "hand over", stepType := "delay", devices := some [] }] },
   by decide⟩

theorem relayRace_edge {a b : String} (h : relayRace.Edge a b) : a = "run" ∧ b = "hand over" := by
  obtain ⟨s, hs, he⟩ := h
  have hm := step?_mem hs
  rcases List.mem_cons.1 hm with heq | hm
  · obtain ⟨rfl, rfl⟩ := Prod.mk.injEq .. ▸ heq
    rcases he with he | he
    · exact ⟨rfl, (Option.some.inj he).symm⟩
    · exact ⟨rfl, (Option.some.inj he).symm⟩
  · obtain ⟨rfl, rfl⟩ := Prod.mk.injEq .. ▸ List.mem_singleton.1 hm
    rcases he with he | he <;> cases he

theorem relayRace_acyclic : relayRace.Acyclic := by
  intro id _ hc
  obtain ⟨b, hb, -⟩ := Relation.TransGen.head'_iff.1 hc
  obtain ⟨c, -, hc⟩ := Relation.TransGen.tail'_iff.1 hc
  have hrun : id = "run" := (relayRace_edge hb).1
  have hover : id = "hand over" := (relayRace_edge hc).2
  rw [hrun] at hover
  exact absurd hover (by decide)

/-- An engine that knows no type of step. -/
def bareEngine : Engine := ⟨⟨[]⟩, {}, default, default⟩

/-- Both steps fail, and the run is not given up for it. -/
theorem run_acyclic_relayRace :
    let x := (bareEngine.run relayRace [] none).execution
    relayRace.Acyclic ∧ x.error = none ∧ x.visited.Nodup ∧ x.visited.length ≤ 2 :=
  ⟨relayRace_acyclic, ((run_acyclic bareEngine relayRace [] none).1 relayRace_acyclic).2⟩

end Engine
end Runbook

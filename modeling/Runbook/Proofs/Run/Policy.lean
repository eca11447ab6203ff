import Mathlib.Data.List.Chain
import Runbook.Proofs.Run.Reach
import Runbook.Proofs.Run.Visit

/-!
# The transitions of a run

The log of an execution falls into the records of its visits (`Execution.visits`). A visit leads on
by the edge that its records select, the one for success when each of them is a success and the one
for failure otherwise (`ProcedureGraph.LeadsTo`). The main statement is that a run follows these
edges from the entry on and ends in one of three ways (`Engine.run_follows_edges`): it is cancelled
while a step is due, the budget of the step that is due is used up, or its last visit leads nowhere.
`Engine.Followed` is the invariant of the turns of a run behind it.
-/

namespace Runbook

theorem Status.aggregate_isSuccess {statuses : List Status} :
    (Status.aggregate statuses).isSuccess = true ↔ ∀ s ∈ statuses, s = .success := by
  have hs (s : Status) : s.isFailure = true ↔ s ≠ .success := by cases s <;> decide
  unfold aggregate
  split
  · rename_i h
    obtain ⟨s, hm, hf⟩ := List.any_eq_true.1 h
    exact iff_of_false (by decide) fun ha => (hs s).1 hf (ha s hm)
  · rename_i h
    refine iff_of_true rfl fun s hm => ?_
    by_contra hn
    exact h (List.any_eq_true.2 ⟨s, hm, (hs s).2 hn⟩)

/-- A visit of a step as the log shows it. -/
structure LoggedVisit where
  step : String
  records : List StepRecord

namespace LoggedVisit

/-- All invocations of the visit were successes. -/
def Held (v : LoggedVisit) : Prop := ∀ r ∈ v.records, r.result.status = .success

/-- Some invocation of the visit was none. -/
def Fell (v : LoggedVisit) : Prop :=
  ∃ r ∈ v.records, r.result.status = .failed ∨ r.result.status = .error

theorem fell_iff {v : LoggedVisit} : v.Fell ↔ ¬v.Held := by
  simp only [Fell, Held, not_forall]
  refine exists_congr fun r => ?_
  cases r.result.status <;> simp

end LoggedVisit

namespace ProcedureGraph

/-- How many records a visit of a step leaves. -/
def width (g : ProcedureGraph) (id : String) : Nat :=
  (g.step? id).elim 0 fun s => (g.targets s).length

/-- The log cut into the records of some visits. -/
def cut (g : ProcedureGraph) : List String → List StepRecord → List LoggedVisit
  | [], _ => []
  | id :: ids, log => ⟨id, log.take (g.width id)⟩ :: g.cut ids (log.drop (g.width id))

/-- The edge that a visit selects leads to the step `next`. -/
def LeadsTo (g : ProcedureGraph) (v : LoggedVisit) (next : String) : Prop :=
  ∃ s, g.step? v.step = some s ∧
    (v.Held ∧ s.onSuccess = some next ∨ v.Fell ∧ s.onFailure = some next)

/-- The edge that a visit selects is missing. -/
def LeadsNowhere (g : ProcedureGraph) (v : LoggedVisit) : Prop :=
  ∃ s, g.step? v.step = some s ∧
    (v.Held ∧ s.onSuccess = none ∨ v.Fell ∧ s.onFailure = none)

/-- The records of a visit are those of its step, one for each target in order. -/
def IsVisit (g : ProcedureGraph) (v : LoggedVisit) : Prop :=
  ∃ s, g.step? v.step = some s ∧
    v.records.map (fun r => (r.step, r.device)) = (g.order s).map fun d => (v.step, d)

/-- The step `id` is due after some visits: the one that the last of them leads to, and the entry
before the first. -/
def Due (g : ProcedureGraph) (visits : List LoggedVisit) (id : String) : Prop :=
  match visits.getLast? with
  | none => id = g.entry
  | some v => g.LeadsTo v id

theorem IsVisit.length_records {g : ProcedureGraph} {v : LoggedVisit} (h : g.IsVisit v) :
    v.records.length = g.width v.step := by
  obtain ⟨s, hs, hr⟩ := h
  simpa [width, hs] using congrArg List.length hr

theorem cut_flatMap (g : ProcedureGraph) {visits : List LoggedVisit}
    (h : ∀ v ∈ visits, g.IsVisit v) :
    g.cut (visits.map (·.step)) (visits.flatMap (·.records)) = visits := by
  induction visits with
  | nil => rfl
  | cons v visits ih =>
    have hv := (h v List.mem_cons_self).length_records
    have hvs := ih fun u hu => h u (List.mem_cons_of_mem _ hu)
    simp only [List.map_cons, List.flatMap_cons, cut, ← hv, List.take_left, List.drop_left, hvs]

end ProcedureGraph

/-- The visits of an execution of a graph, each with its records in the log. -/
def Execution.visits (x : Execution) (g : ProcedureGraph) : List LoggedVisit := g.cut x.visited x.log

namespace Engine

variable {e : Engine} {g : ProcedureGraph} {overrides : Fields} {cancelFrom : Option Nat}
  {id next : String} {s : StepDefinition} {w w' : Walk} {c : Context}

/-! ## One visit -/

/-- A visit that the engine makes, as the log shows it. -/
def logged (e : Engine) (g : ProcedureGraph) (id : String) (s : StepDefinition) (c : Context) :
    LoggedVisit := ⟨id, (e.visit g id s c).records id⟩

theorem logged_isVisit (hs : g.step? id = some s) : g.IsVisit (e.logged g id s c) :=
  ⟨s, hs, by simp [logged, visit_admits.records_eq, Invocation.record, settled, invocation,
    Invocation.ofTimeline, Invocation.settled]⟩

theorem held_iff :
    (e.visit g id s c).status.isSuccess = true ↔ (e.logged g id s c).Held := by
  rw [visit_admits.status_eq, Status.aggregate_isSuccess]
  simp [LoggedVisit.Held, logged, visit_admits.records_eq, Invocation.record]

/-- The edge for the status of a visit is the one that its records select. -/
theorem edge?_eq_some_iff (hs : g.step? id = some s) :
    s.edge? (e.visit g id s c).status = some next ↔ g.LeadsTo (e.logged g id s c) next := by
  unfold StepDefinition.edge?
  split
  all_goals
    rename_i hh
    rw [held_iff] at hh
    simp [ProcedureGraph.LeadsTo, LoggedVisit.fell_iff, hh,
      show g.step? (e.logged g id s c).step = _ from hs]

theorem edge?_eq_none_iff (hs : g.step? id = some s) :
    s.edge? (e.visit g id s c).status = none ↔ g.LeadsNowhere (e.logged g id s c) := by
  unfold StepDefinition.edge?
  split
  all_goals
    rename_i hh
    rw [held_iff] at hh
    simp [ProcedureGraph.LeadsNowhere, LoggedVisit.fell_iff, hh,
      show g.step? (e.logged g id s c).step = _ from hs]

/-! ## The turns of a run -/

/-- The invariant of the turns of a run: the visits up to now fill the log, each follows from the
one before it, and the step that is due follows from the last. -/
structure Followed (e : Engine) (g : ProcedureGraph) (w : Walk) (visits : List LoggedVisit) :
    Prop where
  steps : visits.map (·.step) = w.visited
  records : visits.flatMap (·.records) = w.log
  areVisits : ∀ v ∈ visits, g.IsVisit v
  entry : ∀ v ∈ visits.head?, v.step = g.entry
  chain : visits.IsChain fun a b => g.LeadsTo a b.step
  within : ∀ i, w.visited.count i ≤ e.budget

theorem Followed.start : Followed e g { context := c } [] := by
  constructor <;> simp

/-- A visit of the step that is due keeps the invariant. -/
theorem Followed.advance {visits : List LoggedVisit} (h : Followed e g w visits)
    (hd : g.Due visits id) (hs : Enters e g cancelFrom id w s) :
    Followed e g (e.advance id (e.visit g id s w.context) w)
      (visits ++ [e.logged g id s w.context]) where
  steps := by simp [Engine.advance, h.steps, logged]
  records := by simp [Engine.advance, h.records, logged]
  areVisits := by
    intro v hv
    rcases List.mem_append.1 hv with hv | hv
    · exact h.areVisits v hv
    · exact List.mem_singleton.1 hv ▸ logged_isVisit hs.step
  entry := by
    cases visits with
    | nil => simpa [ProcedureGraph.Due, logged] using hd
    | cons v visits => simpa using h.entry
  chain := by
    refine List.isChain_append.2 ⟨h.chain, List.isChain_singleton _, fun v hv u hu => ?_⟩
    obtain rfl : e.logged g id s w.context = u := by simpa using hu
    simpa [ProcedureGraph.Due, Option.mem_def.1 hv, logged] using hd
  within := by
    intro i
    have := h.within i
    have := hs.room
    simp only [Engine.advance, List.count_append, List.count_singleton]
    split
    · rename_i hi
      obtain rfl : id = i := by simpa using hi
      omega
    · omega

/-- **Every moment of a run** is reached along the edges, and the step that is due there is the one
that they lead to. -/
theorem Reaches.followed (h : Reaches e g overrides cancelFrom id w) :
    ∃ visits, Followed e g w visits ∧ g.Due visits id := by
  induction h with
  | start => exact ⟨[], .start, rfl⟩
  | next _ ht ih =>
    obtain ⟨visits, hf, hd⟩ := ih
    obtain ⟨s, hs, he, rfl⟩ := turn_next ht
    have hs := enter_eq_ok.1 hs
    refine ⟨_, hf.advance hd hs, ?_⟩
    simpa [ProcedureGraph.Due] using (edge?_eq_some_iff hs.step).1 he

/-! ## The end of a run -/

/-- What a walk stops with, by its visits. -/
inductive Stops (e : Engine) (g : ProcedureGraph) (cancelFrom : Option Nat) (w : Walk)
    (visits : List LoggedVisit) : Ending → Prop
  | cancelled {next : String} : g.Due visits next → Cancelled cancelFrom w →
      Stops e g cancelFrom w visits (.status .cancelled)
  | exhausted {next : String} : g.Due visits next → w.visited.count next = e.budget →
      Stops e g cancelFrom w visits (.fault (.budgetExceeded next (e.budget + 1) e.budget))
  | held {v : LoggedVisit} : v ∈ visits.getLast? → g.LeadsNowhere v → v.Held →
      Stops e g cancelFrom w visits (.status .success)
  | fell {v : LoggedVisit} : v ∈ visits.getLast? → g.LeadsNowhere v → v.Fell →
      Stops e g cancelFrom w visits (.status .failed)

theorem Followed.visits_eq {visits : List LoggedVisit} (h : Followed e g w visits) :
    g.cut w.visited w.log = visits := by
  rw [← h.steps, ← h.records, g.cut_flatMap h.areVisits]

/-- The walk of a run keeps the invariant to its end. -/
theorem outcome_followed (e : Engine) (g : ProcedureGraph) (overrides : Fields)
    (cancelFrom : Option Nat) :
    ∃ visits, Followed e g (e.outcome g overrides cancelFrom).2 visits ∧
      Stops e g cancelFrom (e.outcome g overrides cancelFrom).2 visits
        (e.outcome g overrides cancelFrom).1 := by
  obtain ⟨id, w, hr, ht⟩ := outcome_stops e g overrides cancelFrom
  generalize e.outcome g overrides cancelFrom = o at ht ⊢
  obtain ⟨visits, hf, hd⟩ := hr.followed
  rcases turn_stop ht with ⟨hx, hw⟩ | ⟨s, hs, hn, hx, hw⟩
  · rw [hw]
    refine ⟨visits, hf, ?_⟩
    generalize o.1 = ending at hx
    cases hx with
    | cancelled hc => exact .cancelled hd hc
    | unknown source _ hn =>
      obtain ⟨s, hs⟩ := hr.declared
      simp [hs] at hn
    | exhausted _ hb =>
      have hc : w.visited.count id = e.budget := Nat.le_antisymm (hf.within id) hb
      rw [hc]
      exact .exhausted hd hc
  · have hl := (edge?_eq_none_iff hs.step).1 hn
    rw [hw, hx]
    refine ⟨_, hf.advance hd hs, ?_⟩
    have hst : (e.visit g id s w.context).status.isSuccess = true ↔
        (e.logged g id s w.context).Held := held_iff
    cases hv : (e.visit g id s w.context).status with
    | success => exact .held (by simp) hl (hst.1 (by simp [hv, Status.isSuccess]))
    | failed | error =>
      exact .fell (by simp) hl (LoggedVisit.fell_iff.2 (by simp [← hst, hv, Status.isSuccess]))

theorem run_execution (e : Engine) (g : ProcedureGraph) (overrides : Fields)
    (cancelFrom : Option Nat) :
    let o := e.outcome g overrides cancelFrom
    let r := e.run g overrides cancelFrom
    r.execution.status = o.1.runStatus ∧ r.execution.error = o.1.reason? ∧
      r.execution.log = o.2.log ∧ r.execution.visited = o.2.visited ∧
      r.execution.context = o.2.context ∧ r.elapsed = o.2.elapsed :=
  ⟨rfl, rfl, rfl, rfl, rfl, rfl⟩

end Engine
end Runbook

import Runbook.Proofs.Run.Policy

/-!
# The budget of visits

No step is visited more often than the budget allows, so a run visits at most as many steps as the
budget times the steps of its graph (`length_visited_le`). A run is given up for its budget exactly
at a moment at which the step that is due has used it up, and stays as it is at this moment
(`outcome_exhausted_iff`). The main statement joins both and tells what the execution shows of it
(`run_within_budget`).

The walk counts without a bound. Where the visits of a step are counted in 32 bits (`counter32`),
the same steps are let in for every budget of 32 bits but the greatest (`refused32_iff`): to refuse
a visit the counter has to get beyond the budget, and there it starts again at zero
(`counter32_restarts`).
-/

namespace Runbook.Engine

variable {e : Engine} {g : ProcedureGraph} {overrides : Fields} {cancelFrom : Option Nat}
  {id : String} {w : Walk}

/-- A list over some texts is no longer than their number times how often each may occur. -/
theorem length_le_mul_of_count_le {ids xs : List String} {n : Nat} (hm : ∀ x ∈ xs, x ∈ ids)
    (hc : ∀ x, xs.count x ≤ n) : xs.length ≤ ids.length * n := by
  induction ids generalizing xs with
  | nil =>
    have : xs = [] := List.eq_nil_iff_forall_not_mem.2 fun x hx => by simpa using hm x hx
    simp [this]
  | cons i ids ih =>
    have hrest : (xs.filter (· != i)).length ≤ ids.length * n := by
      refine ih (fun x hx => ?_) fun x => (List.filter_sublist.count_le x).trans (hc x)
      obtain ⟨hx, hne⟩ := List.mem_filter.1 hx
      exact (List.mem_cons.1 (hm x hx)).resolve_left (by simpa using hne)
    have hsplit : xs.length = xs.count i + (xs.filter (· != i)).length := by
      rw [List.count_eq_length_filter]
      exact List.length_eq_length_filter_add (· == i)
    have := hc i
    simp only [List.length_cons, Nat.add_mul, Nat.one_mul]
    omega

theorem Followed.declared {visits : List LoggedVisit} (h : Followed e g w visits) :
    ∀ i ∈ w.visited, i ∈ g.definition.stepIds := by
  intro i hi
  rw [← h.steps] at hi
  obtain ⟨v, hv, rfl⟩ := List.mem_map.1 hi
  obtain ⟨s, hs, -⟩ := h.areVisits v hv
  exact step?_mem_stepIds hs

theorem Followed.length_visited_le {visits : List LoggedVisit} (h : Followed e g w visits) :
    w.visited.length ≤ g.definition.steps.length * e.budget := by
  simpa using length_le_mul_of_count_le h.declared h.within

/-- A walk stops for the budget at a step that has used it up, and is left as it is. -/
theorem turn_exhausted_iff (hr : Reaches e g overrides cancelFrom id w) {ending : RunFault}
    {w' : Walk} {step : String} {visits budget : Nat}
    (he : ending = .budgetExceeded step visits budget) :
    e.turn g cancelFrom id w = .stop (.fault ending) w' ↔
      w' = w ∧ step = id ∧ visits = e.budget + 1 ∧ budget = e.budget ∧
        ¬Cancelled cancelFrom w ∧ w.visited.count id = e.budget := by
  obtain ⟨vs, hf, -⟩ := hr.followed
  subst he
  constructor
  · intro h
    rcases turn_stop h with ⟨hx, rfl⟩ | ⟨s, -, -, hx, -⟩
    · cases hx with
      | exhausted hc hb =>
        have hcount := Nat.le_antisymm (hf.within id) hb
        exact ⟨rfl, rfl, by rw [hcount], rfl, hc, hcount⟩
    · cases hx
  · rintro ⟨rfl, rfl, rfl, rfl, hc, hcount⟩
    obtain ⟨s, hs⟩ := hr.declared
    rw [← any_cancelled] at hc
    simp [turn, enter, hc, hs, hcount]

/-- **A run is given up for its budget** exactly when a step is due that has used it up, and is left
as it is at this moment. -/
theorem outcome_exhausted_iff {step : String} {visits budget : Nat} :
    e.outcome g overrides cancelFrom = (.fault (.budgetExceeded step visits budget), w) ↔
      visits = e.budget + 1 ∧ budget = e.budget ∧ Reaches e g overrides cancelFrom step w ∧
        ¬Cancelled cancelFrom w ∧ w.visited.count step = e.budget := by
  constructor
  · intro h
    obtain ⟨id, w', hr, ht⟩ := outcome_stops e g overrides cancelFrom
    rw [h, turn_exhausted_iff hr rfl] at ht
    obtain ⟨rfl, rfl, hv, hb, hc, hcount⟩ := ht
    exact ⟨hv, hb, hr, hc, hcount⟩
  · rintro ⟨rfl, rfl, hr, hc, hcount⟩
    rw [hr.outcome_eq]
    exact walk_stop ((turn_exhausted_iff hr rfl).2 ⟨rfl, rfl, rfl, rfl, hc, hcount⟩)

/-! ## Counting in 32 bits -/

/-- The visits of a step in a counter of 32 bits, which is raised with each of them and starts again
at zero after the greatest number that it holds. -/
def counter32 (id : String) (visited : List String) : UInt32 :=
  visited.foldl (fun n i => if i = id then n + 1 else n) 0

/-- The counter finds the step that is due beyond the budget, with the visit that it would be. -/
def Refused32 (e : Engine) (id : String) (w : Walk) : Prop :=
  UInt32.ofNat e.budget < counter32 id w.visited + 1

theorem counter32_eq (id : String) (visited : List String) :
    counter32 id visited = UInt32.ofNat (visited.count id) := by
  have hfold (n : Nat) : visited.foldl (fun n i => if i = id then n + 1 else n) (UInt32.ofNat n) =
      UInt32.ofNat (n + visited.count id) := by
    induction visited generalizing n with
    | nil => rfl
    | cons i visited ih =>
      rw [List.foldl_cons, List.count_cons]
      by_cases hi : i = id
      · have hone : UInt32.ofNat n + 1 = UInt32.ofNat (n + 1) := (UInt32.ofNat_add n 1).symm
        rw [if_pos hi, hone, ih (n + 1), if_pos (by simp [hi])]
        congr 1
        omega
      · rw [if_neg hi, ih n, if_neg (by simpa using hi), Nat.add_zero]
  simpa [counter32] using hfold 0

/-- **A counter of 32 bits decides as the walk does**, unless the budget is the greatest number that
it holds: then it refuses no visit. -/
theorem refused32_iff (hr : Reaches e g overrides cancelFrom id w) (hb : e.budget < UInt32.size) :
    Refused32 e id w ↔ w.visited.count id = e.budget ∧ e.budget ≠ UInt32.size - 1 := by
  obtain ⟨vs, hf, -⟩ := hr.followed
  have hcount := hf.within id
  have hbudget : (UInt32.ofNat e.budget).toNat = e.budget := UInt32.toNat_ofNat_of_lt' hb
  have hvisits : (UInt32.ofNat (w.visited.count id) + 1).toNat =
      (w.visited.count id + 1) % UInt32.size := by
    rw [UInt32.toNat_add, UInt32.toNat_ofNat_of_lt' (hcount.trans_lt hb)]
    rfl
  rw [Refused32, counter32_eq, UInt32.lt_iff_toNat_lt, hbudget, hvisits]
  by_cases hlast : w.visited.count id + 1 = UInt32.size
  · -- the counter is at zero again
    rw [hlast, Nat.mod_self]
    omega
  · rw [Nat.mod_eq_of_lt (by omega)]
    omega

/-- **A run keeps to its budget.** It visits no step more often than the budget allows, and it is
given up with a budget fault exactly when, not being cancelled, it comes to a step that was visited
so often; then the step is not entered and everything is as the visits before it left it. A counter
of 32 bits refuses the same visits if the budget is below the greatest number that it holds, and
none at all if it is this number. -/
theorem run_within_budget (e : Engine) (g : ProcedureGraph) (overrides : Fields)
    (cancelFrom : Option Nat) :
    let x := (e.run g overrides cancelFrom).execution
    let b := max 1 e.config.maxStepVisits
    (∀ id, x.visited.count id ≤ b) ∧ x.visited.length ≤ g.definition.steps.length * b ∧
      (∀ w step visits budget,
        e.outcome g overrides cancelFrom = (.fault (.budgetExceeded step visits budget), w) ↔
          visits = b + 1 ∧ budget = b ∧ Reaches e g overrides cancelFrom step w ∧
            ¬Cancelled cancelFrom w ∧ w.visited.count step = b) ∧
      (∀ w step, Reaches e g overrides cancelFrom step w → ¬Cancelled cancelFrom w →
        w.visited.count step = b →
        x.status = .failed ∧ x.error = some (RunFault.budgetExceeded step (b + 1) b).message ∧
          x.log = w.log ∧ x.visited = w.visited ∧ x.context = w.context) ∧
      (b < UInt32.size → ∀ w step, Reaches e g overrides cancelFrom step w →
        (Refused32 e step w ↔ w.visited.count step = b ∧ b ≠ UInt32.size - 1)) := by
  intro x b
  obtain ⟨hstatus, herror, hlog, hvisited, hcontext, -⟩ := run_execution e g overrides cancelFrom
  obtain ⟨vs, hf, -⟩ := outcome_followed e g overrides cancelFrom
  refine ⟨fun id => hvisited ▸ hf.within id, hvisited ▸ hf.length_visited_le,
    fun w step visits budget => outcome_exhausted_iff, fun w step hr hc hcount => ?_,
    fun hb w step hr => refused32_iff hr hb⟩
  have ho := outcome_exhausted_iff.2 ⟨rfl, rfl, hr, hc, hcount⟩
  rw [ho] at hstatus herror hlog hvisited hcontext
  exact ⟨hstatus, herror, hlog, hvisited, hcontext⟩

/-! ## The greatest budget of 32 bits -/

/-- An engine without handlers that lets a step be visited as often as 32 bits can say. -/
def patientEngine : Engine := ⟨⟨[]⟩, { maxStepVisits := UInt32.size - 1 }, default, default⟩

/-- A step that is tried again as long as it does not succeed. -/
def knock : StepDefinition :=
  { name := "Knock", id := some "knock", stepType := "knock", devices := some [],
    onFailure := some "knock" }

def knocking : ProcedureGraph := ⟨{ name := "Knocking", steps := [knock] }, by decide⟩

/-- There is no handler for the step, so it is due again after each visit. -/
theorem turn_knock {w : Walk} (hw : w.visited.count "knock" < UInt32.size - 1) :
    ∃ w', patientEngine.turn knocking none "knock" w = .next "knock" w' ∧
      w'.visited = w.visited ++ ["knock"] := by
  let v := patientEngine.visit knocking "knock" knock w.context
  have hstep : knocking.step? "knock" = some knock := rfl
  have henter : patientEngine.enter knocking none "knock" w = .ok knock :=
    enter_eq_ok.2 ⟨nofun, hstep, hw⟩
  have hstatus : v.status = .failed := by
    have horder : knocking.order knock = [none] := List.mergeSort_singleton _
    rw [visit_admits.status_eq, horder]
    rfl
  refine ⟨patientEngine.advance "knock" v w, ?_, rfl⟩
  rw [turn, henter]
  change patientEngine.leave "knock" knock v w = _
  rw [leave, hstatus]
  rfl

theorem reaches_knock {n : Nat} (hn : n ≤ UInt32.size - 1) :
    ∃ w, Reaches patientEngine knocking [] none "knock" w ∧
      w.visited = List.replicate n "knock" := by
  induction n with
  | zero => exact ⟨_, .start, rfl⟩
  | succ n ih =>
    obtain ⟨w, hr, hw⟩ := ih (Nat.le_of_succ_le hn)
    have hroom : w.visited.count "knock" < UInt32.size - 1 := by
      rw [hw, List.count_replicate_self]
      exact hn
    obtain ⟨w', ht, hw'⟩ := turn_knock hroom
    refine ⟨w', hr.next ht, ?_⟩
    rw [hw', hw, List.replicate_succ']

/-- **A counter of 32 bits starts again** at the greatest budget: the step has used it up, and is
let in once more. -/
theorem counter32_restarts :
    let b := max 1 patientEngine.config.maxStepVisits
    b = UInt32.size - 1 ∧ ∃ w, Reaches patientEngine knocking [] none "knock" w ∧
      w.visited.count "knock" = b ∧ counter32 "knock" w.visited + 1 = 0 ∧
      ¬Refused32 patientEngine "knock" w := by
  intro b
  have hb : b = UInt32.size - 1 := rfl
  obtain ⟨w, hr, hw⟩ := reaches_knock (Nat.le_refl _)
  have hcount : w.visited.count "knock" = UInt32.size - 1 := by rw [hw, List.count_replicate_self]
  have hzero : counter32 "knock" w.visited + 1 = 0 := by
    rw [counter32_eq, hcount]
    rfl
  refine ⟨hb, w, hr, hcount.trans hb.symm, hzero, ?_⟩
  rw [Refused32, hzero]
  exact UInt32.not_lt_zero

end Runbook.Engine

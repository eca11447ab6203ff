import Mathlib.Algebra.GroupWithZero.Nat
import Mathlib.Order.Bounds.Basic
import Runbook.Proofs.Run.Fault

/-!
# How a visit fans out

The invocations of a visit share a number of slots. What is under way stands for all that was
started before (`Schedule.Stands`): this is kept from one start to the next, so each invocation
starts at the first moment at which a slot is free for it (`Schedule.startsFrom_isLeast`). Nothing
else is needed for the rest: at no moment are more invocations under way than there are slots, and
fewer are only when none waits (`FansOut.ofIsLeast`); and with a limit on each of them an invocation
starts after as many limits as rounds of the slots come before it (`start_le`). The main statement
says this of every visit, and bounds the time that a run takes (`Engine.fan_out_keeps_slots`).
-/

namespace Runbook

namespace Schedule

/-! ## Slots -/

/-- How many of some moments are ahead of `t`. -/
def ahead (moments : List Nat) (t : Nat) : Nat := moments.countP fun m => t < m

variable {slots start t : Nat} {before busy rest ends ds : List Nat}

theorem ahead_append (ms ns : List Nat) : ahead (ms ++ ns) t = ahead ms t + ahead ns t :=
  List.countP_append

theorem ahead_cons (m : Nat) (ms : List Nat) :
    ahead (m :: ms) t = ahead ms t + if t < m then 1 else 0 := by simp [ahead, List.countP_cons]

theorem ahead_le_length (ms : List Nat) : ahead ms t ≤ ms.length := List.countP_le_length

/-- The ends of what is under way, `busy`, stand for the ends of all that was started `before`: as
far as the slots go, as many of the ones as of the others are ahead of any moment. -/
structure Stands (slots : Nat) (before busy : List Nat) : Prop where
  length : busy.length = min slots before.length
  ahead : ∀ t, ahead busy t = min slots (ahead before t)

namespace Stands

theorem nil : Stands slots [] [] := ⟨by simp, fun t => by simp [Schedule.ahead]⟩

/-- The next start is the first moment at which a slot is free, and what is under way then goes on
to stand for what was started. -/
theorem next (h : Stands slots before busy) (hs : 0 < slots)
    (hn : Schedule.next slots busy = (start, rest)) :
    IsLeast {t | Schedule.ahead before t < slots} start ∧
      ∀ d, Stands slots (before ++ [start + d]) ((start + d) :: rest) := by
  have hlength := h.length
  unfold Schedule.next at hn
  split at hn
  · rename_i hfree
    obtain ⟨rfl, rfl⟩ := Prod.mk.inj hn
    have hlt (t : Nat) : Schedule.ahead before t < slots := by
      have := ahead_le_length (t := t) before
      omega
    refine ⟨⟨hlt 0, fun t _ => Nat.zero_le t⟩, fun d => ⟨?_, fun t => ?_⟩⟩
    · simp only [List.length_cons, List.length_append, List.length_nil]
      omega
    · have := h.ahead t
      have := hlt t
      rw [ahead_cons, ahead_append, ahead_cons]
      simp only [Schedule.ahead, List.countP_nil] at *
      split <;> omega
  · rename_i hfull
    have hfull : busy.length = slots := by omega
    cases hmin : busy.min? with
    | none =>
      rw [List.min?_eq_none_iff] at hmin
      simp only [hmin, List.length_nil] at hfull
      omega
    | some m =>
      rw [hmin] at hn
      obtain ⟨rfl, rfl⟩ := Prod.mk.inj hn
      obtain ⟨hm, hle⟩ := List.min?_eq_some_iff.1 hmin
      -- Before `m` everything under way is ahead, and from `m` on at least `m` is not.
      have hearly (t : Nat) (ht : t < m) : Schedule.ahead busy t = slots := by
        rw [← hfull, Schedule.ahead, List.countP_eq_length]
        intro x hx
        have := hle x hx
        simp only [decide_eq_true_eq]
        omega
      have hlate (t : Nat) (ht : m ≤ t) : Schedule.ahead busy t < slots := by
        rw [← hfull]
        refine lt_of_le_of_ne (ahead_le_length _) fun he => ?_
        have := List.countP_eq_length.1 he m hm
        simp only [decide_eq_true_eq] at this
        omega
      have herase (t : Nat) : Schedule.ahead (busy.erase m) t =
          Schedule.ahead busy t - if t < m then 1 else 0 := by
        have := (List.perm_cons_erase hm).countP_eq fun x => decide (t < x)
        simp only [Schedule.ahead, List.countP_cons, decide_eq_true_eq] at this ⊢
        omega
      refine ⟨⟨?_, fun t ht => ?_⟩, fun d => ⟨?_, fun t => ?_⟩⟩
      · have := h.ahead m
        have := hlate m (Nat.le_refl m)
        simp only [Set.mem_ofPred_eq]
        omega
      · by_contra hlt
        have := h.ahead t
        have := hearly t (by omega)
        simp only [Set.mem_ofPred_eq] at ht
        omega
      · have := List.length_pos_of_mem hm
        simp only [List.length_cons, List.length_append, List.length_nil,
          List.length_erase_of_mem hm]
        omega
      · have ha := h.ahead t
        have hb := herase t
        rw [ahead_cons, ahead_append, ahead_cons]
        by_cases ht : t < m
        · have := hearly t ht
          have htd : t < m + d := by omega
          simp only [ht, htd, if_true, Schedule.ahead, List.countP_nil] at *
          omega
        · have := hlate t (by omega)
          simp only [ht, if_false, Schedule.ahead, List.countP_nil] at *
          split <;> omega

end Stands

/-- **Each start is the first moment at which a slot is free**: fewer of the invocations before it
than there are slots are still to end. -/
theorem startsFrom_isLeast (h : Stands slots before busy) (hs : 0 < slots) {i : Nat}
    (hi : (startsFrom slots busy ds)[i]? = some start) :
    let ends := List.zipWith (· + ·) (startsFrom slots busy ds) ds
    IsLeast {t | ahead (before ++ ends.take i) t < slots} start := by
  induction ds generalizing before busy i with
  | nil => simp [startsFrom] at hi
  | cons d ds ih =>
    cases hn : Schedule.next slots busy with
    | mk first rest =>
      obtain ⟨hleast, hstands⟩ := h.next hs hn
      simp only [startsFrom, hn] at hi ⊢
      cases i with
      | zero =>
        obtain rfl : first = start := by simpa using hi
        simpa using hleast
      | succ i =>
        have := ih (hstands d) (i := i) (by simpa using hi)
        simpa using this

/-- With two slots, the third of three invocations waits for the second. -/
example : starts 2 [5, 3, 4] = [0, 0, 3] := by decide

end Schedule

/-! ## Invocations that share slots -/

/-- The moment at which an invocation is over. -/
def Invocation.finish (i : Invocation) : Nat := i.start + i.duration

/-- How many of some invocations are unfinished at a moment. -/
def unfinished (is : List Invocation) (t : Nat) : Nat := is.countP fun i => t < i.finish

/-- How many of some invocations are under way at a moment. -/
def underWay (is : List Invocation) (t : Nat) : Nat :=
  is.countP fun i => i.start ≤ t && t < i.finish

/-- The invocations share a number of slots: each starts at the first moment at which fewer of those
before it than there are slots are unfinished. So they start in order, at no moment are more under
way than there are slots, and fewer are only when none waits. -/
structure FansOut (slots : Nat) (is : List Invocation) : Prop where
  starts : ∀ i (_ : i < is.length), IsLeast {t | unfinished (is.take i) t < slots} is[i].start
  inOrder : is.Pairwise fun a b => a.start ≤ b.start
  atMost : ∀ t, underWay is t ≤ slots
  noneIdle : ∀ i ∈ is, ∀ t < i.start, underWay is t = slots

section
variable {slots limit t i : Nat} {is : List Invocation}

theorem unfinished_take_le {j : Nat} (h : i ≤ j) :
    unfinished (is.take i) t ≤ unfinished (is.take j) t :=
  (List.take_sublist_take_left h).countP_le

theorem underWay_take_le (i : Nat) : underWay (is.take i) t ≤ underWay is t :=
  (List.take_sublist i is).countP_le

theorem underWay_le_unfinished : underWay is t ≤ unfinished is t :=
  List.countP_mono_left fun i _ h => by simp_all

/-- The later the moment, the fewer are unfinished. -/
theorem unfinished_anti {u : Nat} (h : t ≤ u) : unfinished is u ≤ unfinished is t :=
  List.countP_mono_left fun i _ hi => by
    simp only [decide_eq_true_eq] at hi ⊢
    omega

variable (h : ∀ i (_ : i < is.length), IsLeast {t | unfinished (is.take i) t < slots} is[i].start)
include h

/-- At an invocation's start and later fewer of those before it than there are slots are
unfinished. -/
theorem unfinished_lt (hi : i < is.length) (ht : is[i].start ≤ t) :
    unfinished (is.take i) t < slots :=
  lt_of_le_of_lt (unfinished_anti ht) (h i hi).1

/-- Before an invocation's start, at least as many of those before it as there are slots are
unfinished. -/
theorem le_unfinished (hi : i < is.length) (ht : t < is[i].start) :
    slots ≤ unfinished (is.take i) t := by
  by_contra hlt
  have := (h i hi).2 (by simpa using hlt : t ∈ {t | unfinished (is.take i) t < slots})
  omega

theorem underWay_take_le_slots (i : Nat) (t : Nat) : underWay (is.take i) t ≤ slots := by
  induction i with
  | zero => simp [underWay]
  | succ i ih =>
    by_cases hi : i < is.length
    · rw [List.take_succ_eq_append_getElem hi, underWay, List.countP_append]
      change underWay (is.take i) t + _ ≤ slots
      by_cases hstart : is[i].start ≤ t
      · have := unfinished_lt h hi hstart
        have : underWay (is.take i) t ≤ unfinished (is.take i) t := underWay_le_unfinished
        have : [is[i]].countP (fun i => i.start ≤ t && t < i.finish) ≤ 1 := List.countP_le_length
        omega
      · simpa [hstart] using ih
    · have hall : is.take (i + 1) = is.take i := by
        rw [List.take_of_length_le (by omega), List.take_of_length_le (by omega)]
      rwa [hall]

/-- While an invocation waits, all slots are taken by those before it. -/
theorem le_underWay_take (hi : i < is.length) (ht : t < is[i].start) :
    slots ≤ underWay (is.take i) t := by
  -- By strong induction: the first one that waits has none before it that waits too.
  induction i using Nat.strongRecOn with
  | ind i ih =>
    by_cases hj : ∃ j, ∃ hj : j < i, t < is[j].start
    · obtain ⟨j, hji, hj⟩ := hj
      refine (ih j hji (by omega) hj).trans ?_
      exact (List.take_sublist_take_left hji.le).countP_le
    · have heq : underWay (is.take i) t = unfinished (is.take i) t := by
        refine List.countP_congr fun x hx => ?_
        obtain ⟨j, hj', rfl⟩ := List.mem_iff_getElem.1 hx
        rw [List.length_take] at hj'
        have hstart : is[j].start ≤ t := by
          by_contra hlt
          exact hj ⟨j, by omega, by omega⟩
        simp [hstart]
      rw [heq]
      exact le_unfinished h hi ht

theorem start_le_start {j : Nat} (hij : i ≤ j) (hj : j < is.length) :
    is[i].start ≤ is[j].start := by
  refine (h i (by omega)).2 ?_
  exact lt_of_le_of_lt (unfinished_take_le hij) (h j hj).1

/-- That each starts when a slot is free for it is all there is to sharing slots. -/
theorem FansOut.ofIsLeast : FansOut slots is where
  starts := h
  inOrder := List.pairwise_iff_getElem.2 fun i j hi hj hij => start_le_start h hij.le hj
  atMost t := by
    simpa using underWay_take_le_slots h is.length t
  noneIdle x hx t ht := by
    obtain ⟨i, hi, rfl⟩ := List.mem_iff_getElem.1 hx
    refine Nat.le_antisymm ?_ ((le_underWay_take h hi ht).trans (underWay_take_le i))
    simpa using underWay_take_le_slots h is.length t

/-- **With a limit on each**, an invocation starts after one limit for every round of the slots that
is before it. -/
theorem start_le (hs : 0 < slots) (hlimit : ∀ x ∈ is, x.duration ≤ limit) (hi : i < is.length) :
    is[i].start ≤ i / slots * limit := by
  induction i using Nat.strongRecOn with
  | ind i ih =>
    refine (h i hi).2 ?_
    -- Only the last `slots - 1` before it can be unfinished after so many limits.
    let m := i + 1 - slots
    have hfirst : unfinished (is.take m) (i / slots * limit) = 0 := by
      refine List.countP_eq_zero.2 fun x hx => ?_
      obtain ⟨j, hj, rfl⟩ := List.mem_iff_getElem.1 hx
      rw [List.length_take] at hj
      have hstart := ih j (by omega) (by omega)
      have hduration := hlimit is[j] (List.getElem_mem _)
      have hround : j / slots + 1 ≤ i / slots := by
        rw [← Nat.add_div_right j hs]
        exact Nat.div_le_div_right (by omega)
      have := Nat.mul_le_mul_right limit hround
      simp only [List.getElem_take, Invocation.finish, decide_eq_true_eq, Nat.add_mul,
        Nat.one_mul] at *
      omega
    have hrest : unfinished ((is.take i).drop m) (i / slots * limit) < slots := by
      refine lt_of_le_of_lt List.countP_le_length ?_
      rw [List.length_drop, List.length_take]
      omega
    have hsplit : is.take i = is.take m ++ (is.take i).drop m := by
      have hm : (is.take i).take m = is.take m := by rw [List.take_take, min_eq_left (by omega)]
      rw [← hm, List.take_append_drop]
    rw [Set.mem_ofPred_eq, hsplit, unfinished, List.countP_append]
    change unfinished (is.take m) _ + unfinished ((is.take i).drop m) _ < slots
    omega

/-- Invocations that share slots and have a limit on each are over after one limit for every round
of the slots. -/
theorem finish_le (hs : 0 < slots) (hlimit : ∀ x ∈ is, x.duration ≤ limit) :
    ∀ x ∈ is, x.finish ≤ (is.length + slots - 1) / slots * limit := by
  intro x hx
  obtain ⟨i, hi, rfl⟩ := List.mem_iff_getElem.1 hx
  have hstart := start_le h hs hlimit hi
  have hduration := hlimit is[i] hx
  have hround : i / slots + 1 ≤ (is.length + slots - 1) / slots := by
    rw [← Nat.add_div_right i hs]
    exact Nat.div_le_div_right (by omega)
  have := Nat.mul_le_mul_right limit hround
  simp only [Invocation.finish, Nat.add_mul, Nat.one_mul] at *
  omega

end

/-! ## Visits -/

namespace Engine

variable {e : Engine} {g : ProcedureGraph} {overrides : Fields} {cancelFrom : Option Nat}
  {id : String} {s : StepDefinition} {c : Context} {w : Walk}

theorem slots_pos (e : Engine) : 0 < e.slots := by
  unfold slots
  omega

theorem map_start_invocations : (e.invocations g id s c).map (·.start) =
    Schedule.starts e.slots ((e.timelines g id s c).map (·.elapsed)) := by
  refine List.ext_getElem (by simp [invocations, timelines]) fun i h₁ h₂ => ?_
  simp [invocations_eq, invocation, Invocation.ofTimeline]

theorem map_duration_invocations : (e.invocations g id s c).map (·.duration) =
    (e.timelines g id s c).map (·.elapsed) := by
  refine List.ext_getElem (by simp [invocations, timelines]) fun i h₁ h₂ => ?_
  simp [invocations_eq, invocation, Invocation.ofTimeline, timelines]

theorem map_device_invocations : (e.invocations g id s c).map (·.device) = g.targets s := by
  refine List.ext_getElem (by simp [invocations, timelines]) fun i h₁ h₂ => ?_
  simp [invocations_eq, invocation, Invocation.ofTimeline]

theorem length_targets : (g.targets s).length = max 1 (g.devicesFor s).length := by
  unfold ProcedureGraph.targets
  split
  · rename_i hd
    simp [hd]
  · rename_i hd
    have := List.length_pos_iff.2 hd
    rw [List.length_map]
    omega

theorem length_invocations :
    (e.invocations g id s c).length = max 1 (g.devicesFor s).length := by
  have h : (e.invocations g id s c).map (·.device) = g.targets s := map_device_invocations
  rw [← length_targets, ← h, List.length_map]

/-- The invocations of a visit share the slots of the engine. -/
theorem invocations_fansOut : FansOut e.slots (e.invocations g id s c) := by
  refine .ofIsLeast fun i hi => ?_
  have hstart : (Schedule.starts e.slots ((e.timelines g id s c).map (·.elapsed)))[i]? =
      some ((e.invocations g id s c)[i].start) := by
    rw [← map_start_invocations, List.getElem?_map, List.getElem?_eq_getElem hi]
    rfl
  have hends : List.zipWith (· + ·)
      (Schedule.starts e.slots ((e.timelines g id s c).map (·.elapsed)))
      ((e.timelines g id s c).map (·.elapsed)) =
        (e.invocations g id s c).map Invocation.finish := by
    rw [← map_start_invocations, ← map_duration_invocations, List.zipWith_map, List.zipWith_self]
    rfl
  have hleast := Schedule.startsFrom_isLeast .nil e.slots_pos hstart
  have hahead (t : Nat) :
      Schedule.ahead (((e.invocations g id s c).map Invocation.finish).take i) t =
        unfinished ((e.invocations g id s c).take i) t := by
    rw [← List.map_take, Schedule.ahead, List.countP_map]
    rfl
  unfold Schedule.starts at hends
  simpa only [hends, List.nil_append, hahead] using hleast

/-- No invocation takes longer than the step allows. -/
theorem invoke_elapsed_le (scope : Scope) : (e.invoke s scope).elapsed ≤ e.timeout s * 1000 := by
  rcases invoke_cases e s scope with ⟨h, p, hc⟩ | ⟨-, hi⟩ | ⟨h, f, -, -, hi⟩
  · rw [hc.invoke_eq, Timeline.within]
    split
    · assumption
    · exact Nat.le_refl _
  · rw [hi]
    exact Nat.zero_le _
  · rw [hi]
    exact Nat.zero_le _

theorem duration_le {i : Invocation} (hi : i ∈ e.invocations g id s c) :
    i.duration ≤ e.timeout s * 1000 := by
  have hm : i.duration ∈ (e.timelines g id s c).map (·.elapsed) := by
    rw [← map_duration_invocations]
    exact List.mem_map_of_mem hi
  obtain ⟨t, ht, hd⟩ := List.mem_map.1 hm
  obtain ⟨d, -, rfl⟩ := List.mem_map.1 ht
  exact hd ▸ invoke_elapsed_le _

/-- A visit is over with the last of its invocations. -/
theorem elapsed_isGreatest :
    IsGreatest {t | ∃ i ∈ e.invocations g id s c, i.finish = t} (e.visit g id s c).elapsed := by
  have hzip : List.zipWith (· + ·) ((e.invocations g id s c).map (·.start))
      ((e.invocations g id s c).map (·.duration)) =
        (e.invocations g id s c).map Invocation.finish := by
    rw [List.zipWith_map, List.zipWith_self]
    rfl
  have hne : (e.invocations g id s c).map Invocation.finish ≠ [] := by
    rw [ne_eq, List.map_eq_nil_iff, ← List.length_eq_zero_iff, length_invocations]
    omega
  obtain ⟨m, hm⟩ := Option.ne_none_iff_exists'.1 (mt List.max?_eq_none_iff.1 hne)
  have he : (e.visit g id s c).elapsed = m := by
    change Schedule.ending _ _ = m
    rw [Schedule.ending, hzip, List.foldl_max, hm]
    simp
  rw [he]
  obtain ⟨hmem, hle⟩ := List.max?_eq_some_iff.1 hm
  refine ⟨List.mem_map.1 hmem, ?_⟩
  rintro _ ⟨i, hi, rfl⟩
  exact hle _ (List.mem_map_of_mem hi)

/-- How long a visit of a step may take: one limit for every round of the slots. -/
def span (e : Engine) (g : ProcedureGraph) (id : String) : Nat :=
  (g.step? id).elim 0 fun s =>
    (max 1 (g.devicesFor s).length + e.slots - 1) / e.slots * (e.timeout s * 1000)

theorem visit_elapsed_le : (e.visit g id s c).elapsed ≤
    (max 1 (g.devicesFor s).length + e.slots - 1) / e.slots * (e.timeout s * 1000) := by
  have hlength : (e.invocations g id s c).length = max 1 (g.devicesFor s).length :=
    length_invocations
  obtain ⟨i, hi, he⟩ :
      (e.visit g id s c).elapsed ∈ {t | ∃ i ∈ e.invocations g id s c, i.finish = t} :=
    elapsed_isGreatest.1
  rw [← he, ← hlength]
  exact finish_le invocations_fansOut.starts e.slots_pos (fun x hx => duration_le hx) i hi

/-! ## Runs -/

/-- A visit adds no more to the time that a walk has taken than its step may take. -/
theorem advance_elapsed_le (hs : g.step? id = some s)
    (h : w.elapsed ≤ (w.visited.map (e.span g)).sum) :
    (e.advance id (e.visit g id s w.context) w).elapsed ≤
      ((e.advance id (e.visit g id s w.context) w).visited.map (e.span g)).sum := by
  have hv : (e.visit g id s w.context).elapsed ≤ _ := visit_elapsed_le
  have hspan : e.span g id =
      (max 1 (g.devicesFor s).length + e.slots - 1) / e.slots * (e.timeout s * 1000) := by
    rw [span, hs, Option.elim_some]
  simp only [advance, List.map_append, List.sum_append, List.map_cons, List.map_nil,
    List.sum_singleton]
  omega

theorem Reaches.elapsed_le (h : Reaches e g overrides cancelFrom id w) :
    w.elapsed ≤ (w.visited.map (e.span g)).sum := by
  induction h with
  | start => exact Nat.zero_le _
  | next _ ht ih =>
    obtain ⟨s, hs, -, rfl⟩ := turn_next ht
    exact advance_elapsed_le (enter_eq_ok.1 hs).step ih

theorem outcome_elapsed_le (e : Engine) (g : ProcedureGraph) (overrides : Fields)
    (cancelFrom : Option Nat) :
    (e.outcome g overrides cancelFrom).2.elapsed ≤
      ((e.outcome g overrides cancelFrom).2.visited.map (e.span g)).sum := by
  obtain ⟨id, w, hr, ht⟩ := outcome_stops e g overrides cancelFrom
  generalize e.outcome g overrides cancelFrom = o at ht ⊢
  rcases turn_stop ht with ⟨-, hw⟩ | ⟨s, hs, -, -, hw⟩
  · rw [hw]
    exact hr.elapsed_le
  · rw [hw]
    exact advance_elapsed_le hs.step hr.elapsed_le

/-- **A visit keeps its slots busy and its time.** Its invocations start in the order in which the
devices are declared, each at the first moment at which fewer of those before it than there are slots
are unfinished, and none takes longer than the step allows. So the visit, which is over with the last
of them, takes at most this time for every round of the slots, and a run takes no longer than its
visits may take together, whatever the delays of the calls are. -/
theorem fan_out_keeps_slots (e : Engine) (g : ProcedureGraph) (overrides : Fields)
    (cancelFrom : Option Nat) :
    (∀ id s c,
      let v := e.visit g id s c
      let n := max 1 (g.devicesFor s).length
      let k := max 1 e.config.maxParallelDevices
      let limit := s.timeoutSeconds.getD e.config.stepTimeoutSecs * 1000
      v.started.map (·.device) = g.targets s ∧ v.started.length = n ∧ FansOut k v.started ∧
        (∀ i ∈ v.started, i.duration ≤ limit) ∧
        IsGreatest {t | ∃ i ∈ v.started, i.finish = t} v.elapsed ∧
        v.elapsed ≤ (n + k - 1) / k * limit ∧
        (g.step? id = some s → e.span g id = (n + k - 1) / k * limit)) ∧
      (e.run g overrides cancelFrom).elapsed ≤
        ((e.run g overrides cancelFrom).execution.visited.map (e.span g)).sum := by
  refine ⟨fun id s c => ?_, outcome_elapsed_le e g overrides cancelFrom⟩
  refine ⟨map_device_invocations, length_invocations, invocations_fansOut,
    fun i hi => duration_le hi, elapsed_isGreatest, visit_elapsed_le, fun hs => ?_⟩
  rw [span, hs]
  rfl

end Engine
end Runbook

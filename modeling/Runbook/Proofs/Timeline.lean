import Mathlib.Data.List.Basic
import Runbook.Timeline

/-!
# Laws of timelines

Timelines in which a value is there at once are those of its continuation (`pure_bind`). The events
of a timeline that is put together from the primitives are in order (`Ordered`), so that a limit
keeps the first of them (`Ordered.getElem?_within`). Two timelines may differ only in what comes
after a limit (`AlikeUpTo`); then the limit makes them equal (`AlikeUpTo.within_eq`), and so do the
timelines that follow them (`AlikeUpTo.bind`, `bind_alike`). What holds of the value that a timeline
ends with, if it does, goes from one to the next (`Yields.bind`), and so does what holds of its
faults (`FaultsOnly.bind`).
-/

namespace Runbook.Timeline

variable {α β : Type} {t u : Timeline α} {f g : α → Timeline β} {a : α} {limit : Nat}

/-! ## Equations -/

@[simp] theorem later_zero (events : List (Nat × Event)) : later 0 events = events := by
  simp [later]

theorem bind_value (h : t.outcome = .value a) :
    t >>= f = ⟨t.events ++ later t.elapsed (f a).events, t.elapsed + (f a).elapsed, (f a).outcome⟩ := by
  change bind t f = _
  simp [bind, h]

theorem bind_fault {e : StepFault} (h : t.outcome = .fault e) :
    t >>= f = ⟨t.events, t.elapsed, .fault e⟩ := by
  change bind t f = _
  rw [bind, h]

theorem bind_panic {m : String} (h : t.outcome = .panic m) :
    t >>= f = ⟨t.events, t.elapsed, .panic m⟩ := by
  change bind t f = _
  rw [bind, h]

theorem bind_not_value (h : ∀ a, t.outcome ≠ .value a) :
    (t >>= f).events = t.events ∧ (t >>= f).elapsed = t.elapsed ∧ (t >>= f) = (t >>= g) := by
  change (bind t f).events = _ ∧ (bind t f).elapsed = _ ∧ bind t f = bind t g
  cases ho : t.outcome with
  | value a => exact absurd ho (h a)
  | fault _ | panic _ => simp [bind, ho]

@[simp] theorem pure_bind : (Timeline.pure a >>= f) = f a := by
  rw [bind_value (a := a) rfl]
  simp [Timeline.pure]

@[simp] theorem ofExcept_ok_bind : (ofExcept (.ok a) >>= f) = f a := pure_bind

@[simp] theorem ofExcept_error_bind (e : StepFault) :
    (ofExcept (.error e : Except StepFault α) >>= f) = fail e := rfl

/-- No limit is too short for what is there at once. -/
theorem within_ofExcept (x : Except StepFault α) (limit : Nat) (expired : Outcome α) :
    (ofExcept x).within limit expired = ofExcept x := by
  cases x <;> exact if_pos (Nat.zero_le _)

/-- What follows a timeline comes after its events. -/
theorem getElem?_bind {n : Nat} {x : Nat × Event} (h : t.events[n]? = some x) :
    (t >>= f).events[n]? = some x := by
  by_cases hv : ∃ a, t.outcome = .value a
  · obtain ⟨a, ha⟩ := hv
    rw [bind_value ha]
    exact List.getElem?_append_left (List.getElem?_eq_some_iff.1 h).1 ▸ h
  · rw [(bind_not_value (g := f) (not_exists.1 hv)).1, h]

/-- What follows a value comes after its events, that much later. -/
theorem getElem?_bind_value {n : Nat} {x : Nat × Event} (ha : t.outcome = .value a)
    (h : (f a).events[n]? = some x) :
    (t >>= f).events[t.events.length + n]? = some (x.1 + t.elapsed, x.2) := by
  rw [bind_value ha, List.getElem?_append_right (Nat.le_add_right _ _)]
  simp [later, h]

/-! ## Calls -/

/-- The calls to the outside, in order. -/
def calls (t : Timeline α) : List Event := t.events.map (·.2)

@[simp] theorem calls_fail (e : StepFault) : (fail e : Timeline α).calls = [] := rfl

theorem calls_bind (h : t.outcome = .value a) : (t >>= f).calls = t.calls ++ (f a).calls := by
  rw [bind_value h, calls, List.map_append, later, List.map_map]
  rfl

/-! ## Order -/

/-- The events are in the order of their moments, and none comes after the end. -/
structure Ordered (t : Timeline α) : Prop where
  sorted : t.events.Pairwise fun x y => x.1 ≤ y.1
  within : ∀ x ∈ t.events, x.1 ≤ t.elapsed

theorem ordered_of_events_nil (h : t.events = []) : Ordered t := by constructor <;> simp [h]

theorem ordered_pure (a : α) : Ordered (pure a : Timeline α) := ordered_of_events_nil rfl

theorem ordered_await (r : Response α) : Ordered (await r) := ordered_of_events_nil rfl

theorem ordered_ofExcept (x : Except StepFault α) : Ordered (ofExcept x) :=
  ordered_of_events_nil (by cases x <;> rfl)

theorem ordered_emit (e : Event) : Ordered (emit e) := by constructor <;> simp [emit]

theorem ordered_later (ms : Nat) (h : Ordered t) :
    (later ms t.events).Pairwise (fun x y => x.1 ≤ y.1) ∧
      ∀ x ∈ later ms t.events, ms ≤ x.1 ∧ x.1 ≤ t.elapsed + ms := by
  refine ⟨List.pairwise_map.2 (h.sorted.imp fun hxy => Nat.add_le_add_right hxy ms), fun x hx => ?_⟩
  obtain ⟨y, hy, rfl⟩ := List.mem_map.1 hx
  have := h.within y hy
  dsimp only
  omega

theorem Ordered.bind {f : α → Timeline β} (h : Ordered t) (hf : ∀ a, Ordered (f a)) : Ordered (t >>= f) := by
  by_cases hv : ∃ a, t.outcome = .value a
  · obtain ⟨a, ha⟩ := hv
    obtain ⟨hs, hl⟩ := ordered_later t.elapsed (hf a)
    rw [bind_value ha]
    refine ⟨List.pairwise_append.2 ⟨h.sorted, hs, fun x hx y hy => ?_⟩, fun x hx => ?_⟩
    · exact Nat.le_trans (h.within x hx) (hl y hy).1
    · rcases List.mem_append.1 hx with hx | hx
      · exact Nat.le_trans (h.within x hx) (Nat.le_add_right _ _)
      · rw [Nat.add_comm]
        exact (hl x hx).2
  · obtain ⟨he, hl, -⟩ := bind_not_value (f := f) (g := f) (not_exists.1 hv)
    exact ⟨he ▸ h.sorted, by rw [he, hl]; exact h.within⟩

theorem Ordered.within_limit (h : Ordered t) (expired : Outcome α) :
    Ordered (t.within limit expired) := by
  unfold Timeline.within
  split
  · exact h
  · exact ⟨h.sorted.sublist List.filter_sublist, fun x hx => by simpa using (List.mem_filter.1 hx).2⟩

/-- The elements of a sorted list up to a bound are its first ones. -/
theorem getElem?_filter_le {events : List (Nat × Event)} {n : Nat} {x : Nat × Event}
    (hs : events.Pairwise fun x y => x.1 ≤ y.1) (hx : events[n]? = some x) (hl : x.1 ≤ limit) :
    (events.filter fun e => e.1 ≤ limit)[n]? = some x := by
  induction events generalizing n with
  | nil => simp at hx
  | cons y events ih =>
    obtain ⟨hy, hs⟩ := List.pairwise_cons.1 hs
    cases n with
    | zero =>
      obtain rfl : y = x := by simpa using hx
      simp [hl]
    | succ n =>
      have hx : events[n]? = some x := by simpa using hx
      have hyl : y.1 ≤ limit := Nat.le_trans (hy x (List.mem_of_getElem? hx)) hl
      simpa [hyl] using ih hs hx

/-- A limit keeps the events up to it in their places. -/
theorem Ordered.getElem?_within (h : Ordered t) {n : Nat} {x : Nat × Event}
    (hx : t.events[n]? = some x) (hl : x.1 ≤ limit) (expired : Outcome α) :
    (t.within limit expired).events[n]? = some x := by
  unfold Timeline.within
  split
  · exact hx
  · exact getElem?_filter_le h.sorted hx hl

/-- A limit keeps the events up to it and no others. -/
theorem Ordered.events_within (h : Ordered t) (limit : Nat) (expired : Outcome α) :
    (t.within limit expired).events = t.events.filter fun e => e.1 ≤ limit := by
  unfold Timeline.within
  split
  · rename_i hl
    exact (List.filter_eq_self.2 fun x hx => by simpa using Nat.le_trans (h.within x hx) hl).symm
  · rfl

/-! ## Timelines that differ after a limit -/

/-- The timelines differ only in what comes after a limit. -/
def AlikeUpTo (limit : Nat) (t u : Timeline α) : Prop :=
  t = u ∨ limit < t.elapsed ∧ limit < u.elapsed ∧
    (t.events.filter fun e => e.1 ≤ limit) = u.events.filter fun e => e.1 ≤ limit

theorem AlikeUpTo.refl (limit : Nat) (t : Timeline α) : AlikeUpTo limit t t := .inl rfl

/-- The limit makes such timelines equal. -/
theorem AlikeUpTo.within_eq (h : AlikeUpTo limit t u) (expired : Outcome α) :
    t.within limit expired = u.within limit expired := by
  rcases h with rfl | ⟨ht, hu, he⟩
  · rfl
  · rw [within, within, if_neg (by omega), if_neg (by omega), he]

theorem filter_later {events : List (Nat × Event)} {ms : Nat} (h : ms ≤ limit) :
    ((later ms events).filter fun e => e.1 ≤ limit) =
      later ms (events.filter fun e => e.1 ≤ limit - ms) := by
  unfold later
  rw [List.filter_map]
  refine congrArg _ (List.filter_congr fun x _ => ?_)
  simp only [Function.comp_apply, decide_eq_decide]
  omega

theorem filter_later_eq_nil {events : List (Nat × Event)} {ms : Nat} (h : limit < ms) :
    ((later ms events).filter fun e => e.1 ≤ limit) = [] := by
  refine List.filter_eq_nil_iff.2 fun x hx => ?_
  obtain ⟨y, -, rfl⟩ := List.mem_map.1 hx
  simp only [decide_eq_true_eq]
  omega

/-- Timelines that begin in one way and go on alike. -/
theorem bind_alike (h : ∀ a, t.outcome = .value a → t.elapsed ≤ limit →
    AlikeUpTo (limit - t.elapsed) (f a) (g a)) : AlikeUpTo limit (t >>= f) (t >>= g) := by
  by_cases hv : ∃ a, t.outcome = .value a
  · obtain ⟨a, ha⟩ := hv
    rw [bind_value ha, bind_value ha]
    by_cases hl : t.elapsed ≤ limit
    · rcases h a ha hl with he | ⟨hf, hg, he⟩
      · rw [he]
        exact .refl _ _
      · refine .inr ⟨by dsimp only; omega, by dsimp only; omega, ?_⟩
        simp only [List.filter_append, filter_later hl, he]
    · have hl : limit < t.elapsed := by omega
      refine .inr ⟨by dsimp only; omega, by dsimp only; omega, ?_⟩
      simp only [List.filter_append, filter_later_eq_nil hl]
  · exact .inl (bind_not_value (not_exists.1 hv)).2.2

theorem le_elapsed_bind (t : Timeline α) (f : α → Timeline β) : t.elapsed ≤ (t >>= f).elapsed := by
  by_cases hv : ∃ a, t.outcome = .value a
  · obtain ⟨a, ha⟩ := hv
    rw [bind_value ha]
    exact Nat.le_add_right _ _
  · exact Nat.le_of_eq (bind_not_value (g := f) (not_exists.1 hv)).2.1.symm

/-- What comes of a timeline that takes longer than a limit leaves the events up to it. -/
theorem filter_bind (h : limit < t.elapsed) :
    ((t >>= f).events.filter fun e => e.1 ≤ limit) = t.events.filter fun e => e.1 ≤ limit := by
  by_cases hv : ∃ a, t.outcome = .value a
  · obtain ⟨a, ha⟩ := hv
    rw [bind_value ha, List.filter_append, filter_later_eq_nil h, List.append_nil]
  · rw [(bind_not_value (g := f) (not_exists.1 hv)).1]

/-- Timelines that begin alike and go on in one way. -/
theorem AlikeUpTo.bind (h : AlikeUpTo limit t u) (f : α → Timeline β) :
    AlikeUpTo limit (t >>= f) (u >>= f) := by
  rcases h with rfl | ⟨ht, hu, he⟩
  · exact .refl _ _
  · exact .inr ⟨Nat.lt_of_lt_of_le ht (le_elapsed_bind t f),
      Nat.lt_of_lt_of_le hu (le_elapsed_bind u f), by rw [filter_bind ht, filter_bind hu, he]⟩

/-! ## Values -/

/-- The value that the timeline ends with has a property, if it ends with one. -/
def Yields (t : Timeline α) (P : α → Prop) : Prop := ∀ a, t.outcome = .value a → P a

variable {P : α → Prop} {Q : β → Prop}

theorem Yields.bind (h : t.Yields P) (hf : ∀ a, P a → (f a).Yields Q) : (t >>= f).Yields Q := by
  intro b hb
  by_cases hv : ∃ a, t.outcome = .value a
  · obtain ⟨a, ha⟩ := hv
    rw [bind_value ha] at hb
    exact hf a (h a ha) b hb
  · -- A fault or a breakdown stays one.
    change (Timeline.bind t f).outcome = _ at hb
    cases ho : t.outcome with
    | value a => exact absurd ⟨a, ho⟩ hv
    | fault _ | panic _ => simp [Timeline.bind, ho] at hb

/-- A limit puts a fault in the place of a value. -/
theorem Yields.within (h : t.Yields P) (limit : Nat) (f : StepFault) :
    (t.within limit (.fault f)).Yields P := by
  unfold Timeline.within
  split
  · exact h
  · nofun

theorem yields_true (t : Timeline α) : t.Yields fun _ => True := fun _ _ => trivial

theorem yields_pure (h : P a) : (pure a : Timeline α).Yields P := by
  intro b hb
  cases hb
  exact h

theorem yields_fail (e : StepFault) : (fail e : Timeline α).Yields P := nofun

theorem yields_ofExcept {x : Except StepFault α} (h : ∀ a, x = .ok a → P a) :
    (ofExcept x).Yields P := by
  cases x with
  | ok a => exact yields_pure (h a rfl)
  | error e => exact yields_fail e

/-! ## Faults -/

/-- The fault that the timeline ends with has a property, if it ends with one. -/
def FaultsOnly (t : Timeline α) (R : StepFault → Prop) : Prop := ∀ e, t.outcome = .fault e → R e

variable {R : StepFault → Prop}

theorem FaultsOnly.bind (h : t.FaultsOnly R) (hf : ∀ a, (f a).FaultsOnly R) :
    (t >>= f).FaultsOnly R := by
  intro e he
  by_cases hv : ∃ a, t.outcome = .value a
  · obtain ⟨a, ha⟩ := hv
    rw [bind_value ha] at he
    exact hf a e he
  · change (Timeline.bind t f).outcome = _ at he
    cases ho : t.outcome with
    | value a => exact absurd ⟨a, ho⟩ hv
    | fault e' =>
      rw [Timeline.bind, ho] at he
      cases he
      exact h _ ho
    | panic m =>
      rw [Timeline.bind, ho] at he
      cases he

theorem FaultsOnly.within (h : t.FaultsOnly R) (limit : Nat) {e : StepFault} (he : R e) :
    (t.within limit (.fault e)).FaultsOnly R := by
  unfold Timeline.within
  split
  · exact h
  · intro e' he'
    cases he'
    exact he

theorem faultsOnly_pure (a : α) : (pure a : Timeline α).FaultsOnly R := nofun

theorem faultsOnly_emit (e : Event) : (emit e).FaultsOnly R := nofun

theorem faultsOnly_sleep (ms : Nat) : (sleep ms).FaultsOnly R := nofun

theorem faultsOnly_fail {e : StepFault} (he : R e) : (fail e : Timeline α).FaultsOnly R := by
  intro e' he'
  cases he'
  exact he

theorem faultsOnly_await {r : Response α} (h : ∀ e, r.outcome = .fault e → R e) :
    (await r).FaultsOnly R := h

theorem faultsOnly_ofExcept {x : Except StepFault α} (h : ∀ e, x = .error e → R e) :
    (ofExcept x).FaultsOnly R := by
  cases x with
  | ok a => exact faultsOnly_pure a
  | error e => exact faultsOnly_fail (h e rfl)

end Runbook.Timeline

import Mathlib.Data.List.Infix
import Mathlib.Data.List.Nodup
import Runbook.Procedure.Violation

/-!
# Repetitions

What a list of texts repeats is reported in one of two orders: by the first occurrence of each text
or by the second. `RepeatedAt n xs ys` says that `ys` is what `xs` repeats in the order of the
`n`-th occurrences. There is one such list (`RepeatedAt.unique`); for the first occurrences it is
`repeatedTexts` (`repeatedAt_one_iff`), and for the second ones `repetitions`
(`repeatedAt_two_iff`).
-/

namespace Runbook

/-- The `n`-th `x` of a list comes before its `n`-th `y`, which may be missing: some first part of
the list has the one and not the other. -/
def OccursBefore (n : Nat) (xs : List String) (x y : String) : Prop :=
  ∃ ys, ys <+: xs ∧ n ≤ ys.count x ∧ ys.count y < n

/-- The list `ys` holds the texts that `xs` repeats, in the order of their `n`-th occurrences. -/
structure RepeatedAt (n : Nat) (xs ys : List String) : Prop where
  mem : ∀ x, x ∈ ys ↔ 2 ≤ xs.count x
  sorted : ys.Pairwise (OccursBefore n xs)

variable {n : Nat} {x y : String} {xs ys zs before reported met : List String}

theorem OccursBefore.asymm (h : OccursBefore n xs x y) : ¬OccursBefore n xs y x := by
  obtain ⟨as, ha, hax, hay⟩ := h
  rintro ⟨bs, hb, hby, hbx⟩
  rcases List.prefix_or_prefix_of_prefix ha hb with hp | hp
  · have := hp.count_le x
    omega
  · have := hp.count_le y
    omega

namespace RepeatedAt

/-- Each text is listed once. -/
theorem nodup (h : RepeatedAt n xs ys) : ys.Nodup :=
  h.sorted.imp fun {x y} hxy he => by
    subst he
    exact hxy.asymm hxy

theorem unique (h : RepeatedAt n xs ys) (h' : RepeatedAt n xs zs) : ys = zs := by
  have hp : ys.Perm zs := (List.perm_ext_iff_of_nodup h.nodup h'.nodup).2 fun x =>
    (h.mem x).trans (h'.mem x).symm
  exact hp.eq_of_pairwise (fun _ _ _ _ hxy hyx => absurd hyx hxy.asymm) h.sorted h'.sorted

theorem eq_nil_iff (h : RepeatedAt n xs ys) : ys = [] ↔ xs.Nodup := by
  rw [List.eq_nil_iff_forall_not_mem, List.nodup_iff_count_le_one]
  refine forall_congr' fun x => ?_
  rw [h.mem]
  omega

end RepeatedAt

/-! ## The `n`-th occurrences -/

/-- The texts of a list that occur for the `n`-th time, in order; `met` holds those before. -/
def occurring (n : Nat) (met : List String) : List String → List String
  | [] => []
  | x :: xs =>
    if met.count x + 1 = n then x :: occurring n (x :: met) xs else occurring n (x :: met) xs

theorem occurring_cons (x : String) : occurring n met (x :: xs) =
    if met.count x + 1 = n then x :: occurring n (x :: met) xs else occurring n (x :: met) xs := rfl

theorem mem_occurring :
    x ∈ occurring n met xs ↔ met.count x < n ∧ n ≤ met.count x + xs.count x := by
  induction xs generalizing met with
  | nil =>
    simp only [occurring, List.not_mem_nil, List.count_nil, false_iff]
    omega
  | cons y xs ih =>
    have hmem : x ∈ occurring n met (y :: xs) ↔
        (met.count y + 1 = n ∧ x = y) ∨ x ∈ occurring n (y :: met) xs := by
      rw [occurring_cons]
      split <;> simp [*]
    rw [hmem, ih, List.count_cons, List.count_cons]
    by_cases hxy : x = y
    · subst hxy
      simp only [BEq.rfl, if_true, and_true]
      omega
    · simp [hxy, Ne.symm hxy]

/-- The `n`-th occurrences are in order. -/
theorem pairwise_occurring : (occurring n met xs).Pairwise fun x y =>
    ∃ ys, ys <+: xs ∧ n ≤ met.count x + ys.count x ∧ met.count y + ys.count y < n := by
  induction xs generalizing met with
  | nil => exact List.Pairwise.nil
  | cons a xs ih =>
    have hrest : (occurring n (a :: met) xs).Pairwise fun x y => ∃ ys, ys <+: a :: xs ∧
        n ≤ met.count x + ys.count x ∧ met.count y + ys.count y < n := by
      refine ih.imp fun ⟨ys, hp, hx, hy⟩ => ⟨a :: ys, List.cons_prefix_cons.2 ⟨rfl, hp⟩, ?_, ?_⟩
      · rw [List.count_cons] at hx ⊢
        omega
      · rw [List.count_cons] at hy ⊢
        omega
    rw [occurring_cons]
    split
    · refine List.pairwise_cons.2 ⟨fun y hy => ⟨[a], ?_, ?_, ?_⟩, hrest⟩
      · simp
      · rw [List.count_singleton_self]
        omega
      · have hy := (mem_occurring.1 hy).1
        rw [List.count_cons] at hy
        rwa [List.count_cons, List.count_nil, Nat.zero_add]
    · exact hrest

theorem pairwise_occurring_nil : (occurring n [] xs).Pairwise (OccursBefore n xs) :=
  pairwise_occurring.imp fun ⟨ys, hp, hx, hy⟩ => ⟨ys, hp, by simpa using hx, by simpa using hy⟩

/-! ## By the first occurrence -/

theorem occurring_one :
    occurring 1 met xs = (xs.filter fun x => !met.contains x).eraseDups := by
  induction xs generalizing met with
  | nil => rfl
  | cons a xs ih =>
    have hrest : (xs.filter fun x => !(a :: met).contains x) =
        (xs.filter fun x => !met.contains x).filter fun x => !x == a := by
      rw [List.filter_filter]
      refine List.filter_congr fun x _ => ?_
      rw [List.contains_cons, Bool.not_or]
    rw [occurring_cons]
    by_cases ha : a ∈ met
    · have hc : met.count a + 1 ≠ 1 := by
        have := List.count_pos_iff.2 ha
        omega
      -- A text that was met before is left out of the list already.
      have hskip : ((xs.filter fun x => !met.contains x).filter fun x => !x == a) =
          xs.filter fun x => !met.contains x := by
        refine List.filter_eq_self.2 fun x hx => ?_
        have hx : x ∉ met := by simpa using (List.mem_filter.1 hx).2
        simpa using fun he : x = a => hx (he ▸ ha)
      rw [if_neg hc, ih, hrest, hskip, List.filter_cons_of_neg (by simpa using ha)]
    · have hc : met.count a + 1 = 1 := by rw [List.count_eq_zero_of_not_mem ha]
      rw [if_pos hc, ih, hrest, List.filter_cons_of_pos (by simpa using ha), List.eraseDups_cons]

theorem repeatedAt_one : RepeatedAt 1 xs (repeatedTexts xs) where
  mem x := by
    have hx := List.count_pos_iff (a := x) (l := xs)
    rw [repeatedTexts, List.mem_filter, List.mem_eraseDups, decide_eq_true_eq, ← hx]
    omega
  sorted := by
    have hs : (occurring 1 [] xs).Pairwise (OccursBefore 1 xs) := pairwise_occurring_nil
    have he : occurring 1 [] xs = xs.eraseDups := by simp [occurring_one]
    exact (he ▸ hs).sublist List.filter_sublist

/-- What a list repeats by the first occurrences is `repeatedTexts`. -/
theorem repeatedAt_one_iff : RepeatedAt 1 xs ys ↔ ys = repeatedTexts xs :=
  ⟨fun h => h.unique repeatedAt_one, fun h => h ▸ repeatedAt_one⟩

/-! ## By the second occurrence -/

/-- The texts that are reported are those that occur for the second time. -/
theorem repeatedFrom_eq (hb : ∀ x, x ∈ before ↔ x ∈ met)
    (hr : ∀ x, x ∈ reported ↔ 2 ≤ met.count x) :
    repeatedFrom before reported xs = occurring 2 met xs := by
  induction xs generalizing before reported met with
  | nil => rfl
  | cons a xs ih =>
    have hcond : (before.contains a && !reported.contains a) = true ↔ met.count a + 1 = 2 := by
      simp only [Bool.and_eq_true, Bool.not_eq_true', List.contains_iff_mem, hb,
        ← Bool.not_eq_true, hr, ← List.count_pos_iff]
      omega
    have hcount (x : String) : (a :: met).count x = met.count x + if x = a then 1 else 0 := by
      rw [List.count_cons]
      simp only [beq_iff_eq, @eq_comm _ a x]
    rw [repeatedFrom, occurring_cons]
    by_cases ha : met.count a + 1 = 2
    · rw [if_pos (hcond.2 ha), if_pos ha]
      refine congrArg (a :: ·) (ih (fun x => ?_) fun x => ?_)
      · have hm : a ∈ met := List.count_pos_iff.1 (by omega)
        rw [hb, List.mem_cons]
        exact ⟨.inr, fun h => h.elim (fun he => he ▸ hm) id⟩
      · rw [List.mem_cons, hr, hcount]
        by_cases hx : x = a
        · subst hx
          simp only [true_or, if_true, true_iff]
          omega
        · simp [hx]
    · rw [if_neg (mt hcond.1 ha), if_neg ha]
      refine ih (fun x => ?_) fun x => ?_
      · rw [List.mem_cons, List.mem_cons, hb]
      · rw [hr, hcount]
        by_cases hx : x = a
        · subst hx
          rw [if_pos rfl]
          omega
        · rw [if_neg hx, Nat.add_zero]

theorem repeatedAt_two : RepeatedAt 2 xs (repetitions xs) := by
  have he : repetitions xs = occurring 2 [] xs := repeatedFrom_eq (by simp) (by simp)
  rw [he]
  exact ⟨fun x => by simp [mem_occurring], pairwise_occurring_nil⟩

/-- What a list repeats by the second occurrences is `repetitions`. -/
theorem repeatedAt_two_iff : RepeatedAt 2 xs ys ↔ ys = repetitions xs :=
  ⟨fun h => h.unique repeatedAt_two, fun h => h ▸ repeatedAt_two⟩

end Runbook

import Runbook.Proofs.Pattern.Line

/-!
# Stretches between their surroundings

`Stretch p a w b` says that a pattern describes the characters `w` where they stand between `a` and
`b`. It is said without counting places: a sequence splits the stretch (`stretch_seq`), a run of
characters of one set is all of it (`stretch_run`), and a place is an empty stretch with a property
of the characters around it (`stretch_place`). A text holds what a pattern describes when it is such
a stretch between two surroundings (`occursIn_iff_stretch`).
-/

namespace Runbook.Pattern

/-- The pattern describes `w` where it stands behind `a` and in front of `b`. -/
def Stretch (p : Pattern) (a w b : List Char) : Prop :=
  Matches (a ++ w ++ b) p a.length (a ++ w).length

variable {cs a b u v w : List Char} {i j k n : Nat} {p q : Pattern} {s : CharSet} {x : Anchor}
  {extra : Option Nat} {text : String}

/-- A stretch does not end before it begins. -/
theorem Matches.le (h : Matches cs p i j) : i ≤ j := by
  induction h with
  | empty | place | done => exact Nat.le_refl _
  | one => exact Nat.le_succ _
  | seq _ _ ih ih' | needed _ _ ih ih' | more _ _ ih ih' | upTo _ _ ih ih' =>
    exact Nat.le_trans ih ih'
  | left _ ih | right _ ih => exact ih

theorem exists_split (hi : a.length ≤ j) (hj : j ≤ (a ++ w).length) :
    ∃ u v, w = u ++ v ∧ j = (a ++ u).length := by
  refine ⟨w.take (j - a.length), w.drop (j - a.length), (List.take_append_drop _ w).symm, ?_⟩
  rw [List.length_append] at hj ⊢
  rw [List.length_take]
  omega

/-- **A text holds** what a pattern describes when a stretch of it is described. -/
theorem occursIn_iff_stretch :
    p.occursIn text = true ↔ ∃ a w b, text.toList = a ++ w ++ b ∧ Stretch p a w b := by
  rw [occursIn_iff]
  generalize text.toList = cs
  constructor
  · rintro ⟨i, j, h⟩
    obtain ⟨a, rest, rfl, rfl⟩ : ∃ a rest, cs = a ++ rest ∧ i = a.length :=
      exists_split (a := []) (Nat.zero_le i) h.le_length.1
    obtain ⟨w, b, rfl, rfl⟩ := exists_split h.le h.le_length.2
    rw [← List.append_assoc] at h
    exact ⟨a, w, b, (List.append_assoc a w b).symm, h⟩
  · rintro ⟨a, w, b, rfl, h⟩
    exact ⟨_, _, h⟩

theorem stretch_one : Stretch (.one s) a w b ↔ ∃ c, w = [c] ∧ s.mem c = true := by
  rw [Stretch, matches_one]
  constructor
  · rintro ⟨hlength, c, hc, hs⟩
    rw [List.length_append] at hlength
    obtain ⟨d, rfl⟩ := List.length_eq_one_iff.1 (Nat.add_left_cancel hlength)
    refine ⟨d, rfl, ?_⟩
    have hd : c = d := by simpa using hc.symm
    exact hd ▸ hs
  · rintro ⟨c, rfl, hs⟩
    exact ⟨List.length_append, c, by simp, hs⟩

/-- A place is told by the characters next to it. -/
theorem stretch_place :
    Stretch (.place x) a w b ↔ w = [] ∧ x.holds a.getLast? b.head? = true := by
  have hbefore : (if a.length = 0 then none else (a ++ b)[a.length - 1]?) = a.getLast? := by
    rcases List.eq_nil_or_concat a with rfl | ⟨l, c, rfl⟩ <;> simp
  have hafter : (a ++ b)[a.length]? = b.head? := by
    cases b <;> simp
  rw [Stretch, matches_place]
  constructor
  · rintro ⟨hlength, -, hholds⟩
    obtain rfl : w = [] := by simpa using hlength
    rw [List.append_nil, hbefore, hafter] at hholds
    exact ⟨rfl, hholds⟩
  · rintro ⟨rfl, hholds⟩
    rw [List.append_nil, hbefore, hafter]
    exact ⟨rfl, by simp, hholds⟩

theorem stretch_seq : Stretch (.seq p q) a w b ↔
    ∃ u v, w = u ++ v ∧ Stretch p a u (v ++ b) ∧ Stretch q (a ++ u) v b := by
  rw [Stretch, matches_seq]
  constructor
  · rintro ⟨j, hp, hq⟩
    obtain ⟨u, v, rfl, rfl⟩ := exists_split hp.le hq.le
    refine ⟨u, v, rfl, ?_, ?_⟩
    · simpa only [Stretch, List.append_assoc] using hp
    · simpa only [Stretch, List.append_assoc] using hq
  · rintro ⟨u, v, rfl, hp, hq⟩
    refine ⟨(a ++ u).length, ?_, ?_⟩
    · simpa only [Stretch, List.append_assoc] using hp
    · simpa only [Stretch, List.append_assoc] using hq

/-- What is repeated stands there once more, or no more where that is allowed. -/
theorem matches_rep_zero : Matches cs (.rep p 0 none) i k ↔
    i = k ∧ k ≤ cs.length ∨ Matches cs (.seq p (.rep p 0 none)) i k := by
  constructor
  · intro h
    cases h with
    | done h => exact .inl ⟨rfl, h⟩
    | more hp hr => exact .inr (.seq hp hr)
  · rintro (⟨rfl, h⟩ | h)
    · exact .done h
    · obtain ⟨j, hp, hr⟩ := matches_seq.1 h
      exact .more hp hr

theorem stretch_rep_zero :
    Stretch (.rep p 0 none) a w b ↔ w = [] ∨ Stretch (.seq p (.rep p 0 none)) a w b := by
  rw [Stretch, matches_rep_zero]
  refine or_congr ?_ Iff.rfl
  simp

/-- Any number of characters of a set are all of the stretch. -/
theorem stretch_run :
    Stretch (.rep (.one s) 0 none) a w b ↔ ∀ c ∈ w, s.mem c = true := by
  induction w generalizing a with
  | nil => simp [stretch_rep_zero]
  | cons c w ih =>
    rw [stretch_rep_zero, stretch_seq]
    constructor
    · rintro (h | ⟨u, v, hw, hu, hv⟩)
      · cases h
      · obtain ⟨d, rfl, hd⟩ := stretch_one.1 hu
        cases hw
        exact List.forall_mem_cons.2 ⟨hd, ih.1 hv⟩
    · intro h
      obtain ⟨hc, hw⟩ := List.forall_mem_cons.1 h
      exact .inr ⟨[c], w, rfl, stretch_one.2 ⟨c, rfl, hc⟩, ih.2 hw⟩

end Runbook.Pattern

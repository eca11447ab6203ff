import Mathlib.Logic.Relation
import Runbook.Pattern.Basic

/-!
# Patterns decide what they describe

`Pattern.ends` works on sets of places. A function between them is described by a relation of places
(`Image`): it takes a set to the places that are related to one of it. Sequence, choice and
repetition are compositions, unions and iterations of such relations (`Image.comp`, `Image.union`,
`Image.iterate`), and a closure ends before its steps do, since every step but the last finds
another place (`closed_of_count`). So the ends of a pattern are where the stretches end that it
describes (`ends_image`), and a text is found to hold one exactly when it holds one
(`occursIn_iff`).
-/

namespace Runbook.Pattern

open Relation (ReflTransGen)

/-- The place belongs to the set. -/
def Has (ps : List Bool) (i : Nat) : Prop := ps[i]? = some true

/-- The function takes a set of places of a text of `n` characters to the places that are related to
one of its places. -/
structure Image (n : Nat) (f : List Bool → List Bool) (R : Nat → Nat → Prop) : Prop where
  length : ∀ {ps}, ps.length = n + 1 → (f ps).length = n + 1
  has_iff : ∀ {ps j}, ps.length = n + 1 → (Has (f ps) j ↔ ∃ i, Has ps i ∧ R i j)

/-- The relation from one place to another by so many steps. -/
def Steps (R : Nat → Nat → Prop) : Nat → Nat → Nat → Prop
  | 0, i, j => i = j
  | k + 1, i, j => ∃ m, R i m ∧ Steps R k m j

variable {n i j k : Nat} {f g : List Bool → List Bool} {R S : Nat → Nat → Prop}
  {ps qs : List Bool} {cs : List Char} {c : Char} {s : CharSet} {a : Anchor} {p q : Pattern}
  {extra : Option Nat}

theorem Has.lt_length (h : Has ps i) : i < ps.length := (List.getElem?_eq_some_iff.1 h).1

/-! ## Unions and intersections -/

theorem join_eq_zipWith : ∀ ps qs, join ps qs = List.zipWith or ps qs
  | [], _ => rfl
  | _ :: _, [] => rfl
  | a :: as, b :: bs => congrArg ((a || b) :: ·) (join_eq_zipWith as bs)

theorem meet_eq_zipWith : ∀ ps qs, meet ps qs = List.zipWith and ps qs
  | [], _ => rfl
  | _ :: _, [] => rfl
  | a :: as, b :: bs => congrArg ((a && b) :: ·) (meet_eq_zipWith as bs)

theorem length_join (h : ps.length = qs.length) : (join ps qs).length = ps.length := by
  simp [join_eq_zipWith, h]

theorem length_meet (h : ps.length = qs.length) : (meet ps qs).length = ps.length := by
  simp [meet_eq_zipWith, h]

theorem has_join (h : ps.length = qs.length) : Has (join ps qs) i ↔ Has ps i ∨ Has qs i := by
  rw [join_eq_zipWith, Has, List.getElem?_zipWith]
  by_cases hi : i < ps.length
  · simp [Has, hi, h ▸ hi]
  · have hi' : ¬i < qs.length := h ▸ hi
    simp [Has, hi, hi']

theorem has_meet (h : ps.length = qs.length) : Has (meet ps qs) i ↔ Has ps i ∧ Has qs i := by
  rw [meet_eq_zipWith, Has, List.getElem?_zipWith]
  by_cases hi : i < ps.length
  · simp [Has, hi, h ▸ hi]
  · have hi' : ¬i < qs.length := h ▸ hi
    simp [Has, hi, hi']

/-- A union that is not the set itself has more places. -/
theorem count_join (h : ps.length = qs.length) (hne : join ps qs ≠ ps) :
    ps.count true < (join ps qs).count true := by
  induction ps generalizing qs with
  | nil => cases qs <;> exact absurd rfl hne
  | cons b ps ih =>
    cases qs with
    | nil => cases h
    | cons c qs =>
      have hlen := Nat.succ.inj h
      by_cases hrest : join ps qs = ps
      · -- Then the first place is new.
        cases b <;> cases c <;> simp [join, hrest] at hne ⊢
      · have := ih hlen hrest
        cases b <;> cases c <;> simp [join] <;> omega

/-! ## Images -/

namespace Image

theorem congr (h : Image n f R) (hR : ∀ {i j}, i ≤ n → (R i j ↔ S i j)) : Image n f S := by
  refine ⟨h.length, fun {ps j} hl => ?_⟩
  rw [h.has_iff hl]
  refine exists_congr fun i => and_congr_right fun hi => hR ?_
  have := hi.lt_length
  omega

theorem comp (hf : Image n f R) (hg : Image n g S) :
    Image n (fun ps => g (f ps)) fun i j => ∃ m, R i m ∧ S m j := by
  refine ⟨fun hl => hg.length (hf.length hl), fun {ps j} hl => ?_⟩
  rw [hg.has_iff (hf.length hl)]
  simp only [hf.has_iff hl]
  constructor
  · rintro ⟨m, ⟨i, hi, hR⟩, hS⟩
    exact ⟨i, hi, m, hR, hS⟩
  · rintro ⟨i, hi, m, hR, hS⟩
    exact ⟨m, ⟨i, hi, hR⟩, hS⟩

theorem union (hf : Image n f R) (hg : Image n g S) :
    Image n (fun ps => join (f ps) (g ps)) fun i j => R i j ∨ S i j := by
  have hlen {ps : List Bool} (hl : ps.length = n + 1) : (f ps).length = (g ps).length := by
    rw [hf.length hl, hg.length hl]
  refine ⟨fun hl => by rw [length_join (hlen hl), hf.length hl], fun {ps j} hl => ?_⟩
  rw [has_join (hlen hl), hf.has_iff hl, hg.has_iff hl, ← exists_or]
  exact exists_congr fun i => and_or_left.symm

theorem iterate (hf : Image n f R) (k : Nat) : Image n (Pattern.iterate f k) (Steps R k) := by
  induction k with
  | zero => exact ⟨fun hl => hl, fun _ => ⟨fun h => ⟨_, h, rfl⟩, fun ⟨_, h, he⟩ => he ▸ h⟩⟩
  | succ k ih => exact hf.comp ih

end Image

/-! ## Closures -/

theorem length_closure (hf : Image n f R) (hl : ps.length = n + 1) :
    (closure f k ps).length = n + 1 := by
  induction k generalizing ps with
  | zero => exact hl
  | succ k ih =>
    unfold closure
    dsimp only
    split
    · exact hl
    · exact ih (by rw [length_join (by rw [hl, hf.length hl]), hl])

/-- A place that a step leads to belongs to the set already. -/
def Closed (R : Nat → Nat → Prop) (ps : List Bool) : Prop := ∀ i j, Has ps i → R i j → Has ps j

theorem Closed.steps (h : Closed R ps) (hi : Has ps i) (hs : Steps R k i j) : Has ps j := by
  induction k generalizing i with
  | zero => exact hs ▸ hi
  | succ k ih =>
    obtain ⟨m, hR, hs⟩ := hs
    exact ih (h i m hi hR) hs

theorem closed_of_join_eq (hf : Image n f R) (hl : ps.length = n + 1)
    (h : join ps (f ps) = ps) : Closed R ps := by
  intro i j hi hR
  rw [← h, has_join (by rw [hl, hf.length hl])]
  exact .inr ((hf.has_iff hl).2 ⟨i, hi, hR⟩)

/-- A closure has the places that at most so many steps lead to. -/
theorem has_closure (hf : Image n f R) (hl : ps.length = n + 1) :
    Has (closure f k ps) j ↔ ∃ i, Has ps i ∧ ∃ m ≤ k, Steps R m i j := by
  induction k generalizing ps with
  | zero =>
    constructor
    · exact fun h => ⟨j, h, 0, Nat.le_refl _, rfl⟩
    · rintro ⟨i, hi, m, hm, hs⟩
      obtain rfl : m = 0 := by omega
      exact hs ▸ hi
  | succ k ih =>
    have hlen : ps.length = (f ps).length := by rw [hl, hf.length hl]
    unfold closure
    dsimp only
    split
    · rename_i hstop
      have hclosed : Closed R ps := closed_of_join_eq hf hl (by simpa using hstop)
      exact ⟨fun h => ⟨j, h, 0, Nat.zero_le _, rfl⟩,
        fun ⟨i, hi, m, _, hs⟩ => hclosed.steps hi hs⟩
    · rw [ih (by rw [length_join hlen, hl])]
      simp only [has_join hlen, hf.has_iff hl]
      constructor
      · rintro ⟨m, hm | ⟨i, hi, hR⟩, l, hle, hs⟩
        · exact ⟨m, hm, l, by omega, hs⟩
        · exact ⟨i, hi, l + 1, by omega, m, hR, hs⟩
      · rintro ⟨i, hi, l, hle, hs⟩
        cases l with
        | zero => exact ⟨i, .inl hi, 0, Nat.zero_le _, hs⟩
        | succ l =>
          obtain ⟨m, hR, hs⟩ := hs
          exact ⟨m, .inr ⟨i, hi, hR⟩, l, by omega, hs⟩

/-- A closure whose steps outnumber the places that are left is closed. -/
theorem closed_of_count (hf : Image n f R) (hl : ps.length = n + 1)
    (h : n + 1 < ps.count true + k) : Closed R (closure f k ps) := by
  induction k generalizing ps with
  | zero =>
    have := List.count_le_length (a := true) (l := ps)
    omega
  | succ k ih =>
    have hlen : ps.length = (f ps).length := by rw [hl, hf.length hl]
    unfold closure
    dsimp only
    split
    · rename_i hstop
      exact closed_of_join_eq hf hl (by simpa using hstop)
    · rename_i hgoes
      have hmore := count_join hlen (by simpa using hgoes)
      exact ih (by rw [length_join hlen, hl]) (by omega)

theorem steps_of_reflTransGen (h : ReflTransGen R i j) : ∃ k, Steps R k i j := by
  induction h using ReflTransGen.head_induction_on with
  | refl => exact ⟨0, rfl⟩
  | head hR _ ih =>
    obtain ⟨k, hs⟩ := ih
    exact ⟨k + 1, _, hR, hs⟩

theorem reflTransGen_of_steps (h : Steps R k i j) : ReflTransGen R i j := by
  induction k generalizing i with
  | zero => exact h ▸ .refl
  | succ k ih =>
    obtain ⟨m, hR, hs⟩ := h
    exact .head hR (ih hs)

/-- A closure with a step for each place has all places that any number of steps leads to. -/
theorem Image.closure (hf : Image n f R) :
    Image n (Pattern.closure f (n + 1)) (ReflTransGen R) := by
  refine ⟨fun hl => length_closure hf hl, fun {ps j} hl => ?_⟩
  constructor
  · intro h
    obtain ⟨i, hi, m, -, hs⟩ := (has_closure hf hl).1 h
    exact ⟨i, hi, reflTransGen_of_steps hs⟩
  · rintro ⟨i, hi, hr⟩
    have hcount : 0 < ps.count true := List.count_pos_iff.2 (List.mem_of_getElem? hi)
    have hclosed := closed_of_count hf hl (k := n + 1) (by omega)
    obtain ⟨k, hs⟩ := steps_of_reflTransGen hr
    exact hclosed.steps ((has_closure hf hl).2 ⟨i, hi, 0, Nat.zero_le _, rfl⟩) hs

/-! ## Single characters and places -/

theorem length_advance {carry : Bool} (hl : ps.length = cs.length + 1) :
    (advance s carry cs ps).length = cs.length + 1 := by
  induction cs generalizing ps carry with
  | nil => cases ps <;> rfl
  | cons c cs ih =>
    cases ps with
    | nil => cases hl
    | cons b ps => simp [advance, ih (Nat.succ.inj hl)]

theorem getElem?_advance_zero {carry : Bool} : (advance s carry cs ps)[0]? = some carry := by
  cases cs <;> cases ps <;> rfl

theorem has_advance_succ {carry : Bool} (hl : ps.length = cs.length + 1) :
    Has (advance s carry cs ps) (j + 1) ↔ Has ps j ∧ ∃ c, cs[j]? = some c ∧ s.mem c = true := by
  induction cs generalizing ps carry j with
  | nil =>
    cases ps with
    | nil => cases hl
    | cons => simp [advance, Has]
  | cons c cs ih =>
    cases ps with
    | nil => cases hl
    | cons b ps =>
      change Has (advance s (b && s.mem c) cs ps) j ↔ _
      cases j with
      | zero => simp [Has, getElem?_advance_zero]
      | succ j => exact ih (Nat.succ.inj hl)

theorem matches_one :
    Matches cs (.one s) i j ↔ j = i + 1 ∧ ∃ c, cs[i]? = some c ∧ s.mem c = true := by
  constructor
  · rintro (_ | ⟨h, hc⟩)
    exact ⟨rfl, _, h, hc⟩
  · rintro ⟨rfl, c, h, hc⟩
    exact .one h hc

theorem image_one : Image cs.length (advance s false cs) (Matches cs (.one s)) := by
  refine ⟨length_advance, fun {ps j} hl => ?_⟩
  simp only [matches_one]
  cases j with
  | zero => simp [Has, getElem?_advance_zero]
  | succ j =>
    rw [has_advance_succ hl]
    constructor
    · exact fun ⟨hj, hc⟩ => ⟨j, hj, rfl, hc⟩
    · rintro ⟨i, hi, he, hc⟩
      obtain rfl : j = i := by omega
      exact ⟨hi, hc⟩

theorem length_along {before : Option Char} : (a.along before cs).length = cs.length + 1 := by
  induction cs generalizing before with
  | nil => rfl
  | cons c cs ih => simp [Anchor.along, ih]

theorem has_along (before : Option Char) : Has (a.along before cs) j ↔
    j ≤ cs.length ∧ a.holds (if j = 0 then before else cs[j - 1]?) cs[j]? = true := by
  induction cs generalizing before j with
  | nil => cases j <;> simp [Anchor.along, Has]
  | cons c cs ih =>
    cases j with
    | zero => simp [Anchor.along, Has]
    | succ j =>
      refine (ih (some c)).trans ?_
      cases j <;> simp

theorem matches_place : Matches cs (.place a) i j ↔ i = j ∧ j ≤ cs.length ∧
    a.holds (if j = 0 then none else cs[j - 1]?) cs[j]? = true := by
  constructor
  · rintro (_ | _ | ⟨h, ha⟩)
    exact ⟨rfl, h, ha⟩
  · rintro ⟨rfl, h, ha⟩
    exact .place h ha

theorem image_place : Image cs.length (meet (a.along none cs)) (Matches cs (.place a)) := by
  have hlen {ps : List Bool} (hl : ps.length = cs.length + 1) :
      (a.along none cs).length = ps.length := by rw [length_along, hl]
  refine ⟨fun hl => by rw [length_meet (hlen hl), length_along], fun {ps j} hl => ?_⟩
  simp only [has_meet (hlen hl), has_along, matches_place]
  constructor
  · exact fun ⟨h, hj⟩ => ⟨j, hj, rfl, h⟩
  · rintro ⟨i, hi, rfl, h⟩
    exact ⟨h, hi⟩

/-! ## Runs of one set of characters -/

theorem length_sweep {carry : Bool} (hl : ps.length = cs.length + 1) :
    (sweep s carry cs ps).length = cs.length + 1 := by
  induction cs generalizing ps carry with
  | nil =>
    cases ps with
    | nil => cases hl
    | cons => rfl
  | cons c cs ih =>
    cases ps with
    | nil => cases hl
    | cons b ps => simp [sweep, ih (Nat.succ.inj hl)]

theorem has_sweep_zero {carry : Bool} (hl : ps.length = cs.length + 1) :
    Has (sweep s carry cs ps) 0 ↔ Has ps 0 ∨ carry = true := by
  cases ps with
  | nil => cases hl
  | cons b ps => cases cs <;> simp [sweep, Has]

theorem has_sweep_succ {carry : Bool} (hl : ps.length = cs.length + 1) :
    Has (sweep s carry cs ps) (j + 1) ↔
      Has ps (j + 1) ∨ Has (sweep s carry cs ps) j ∧ ∃ c, cs[j]? = some c ∧ s.mem c = true := by
  induction cs generalizing ps carry j with
  | nil =>
    cases ps with
    | nil => cases hl
    | cons b ps =>
      obtain rfl : ps = [] := by simpa using hl
      simp [sweep, Has]
  | cons c cs ih =>
    cases ps with
    | nil => cases hl
    | cons b ps =>
      have hl := Nat.succ.inj hl
      change Has (sweep s ((b || carry) && s.mem c) cs ps) j ↔ _
      cases j with
      | zero =>
        rw [has_sweep_zero hl]
        simp [sweep, Has]
      | succ j => exact ih hl

/-- One sweep has all places that any number of characters of the set leads to. -/
theorem image_sweep :
    Image cs.length (sweep s false cs) (ReflTransGen (Matches cs (.one s))) := by
  refine ⟨length_sweep, fun {ps j} hl => ?_⟩
  constructor
  · intro h
    induction j with
    | zero => exact ⟨0, by simpa [has_sweep_zero hl] using h, .refl⟩
    | succ j ih =>
      rcases (has_sweep_succ hl).1 h with h | ⟨h, hc⟩
      · exact ⟨j + 1, h, .refl⟩
      · obtain ⟨i, hi, hr⟩ := ih h
        exact ⟨i, hi, hr.tail (matches_one.2 ⟨rfl, hc⟩)⟩
  · rintro ⟨i, hi, hr⟩
    induction hr with
    | refl =>
      cases i with
      | zero => exact (has_sweep_zero hl).2 (.inl hi)
      | succ i => exact (has_sweep_succ hl).2 (.inl hi)
    | tail _ hm ih =>
      obtain ⟨rfl, hc⟩ := matches_one.1 hm
      exact (has_sweep_succ hl).2 (.inr ⟨ih, hc⟩)

/-! ## Repetition -/

/-- A stretch lies within its text. -/
theorem Matches.le_length (h : Matches cs p i j) : i ≤ cs.length ∧ j ≤ cs.length := by
  induction h with
  | empty h | place h _ | done h => exact ⟨h, h⟩
  | one h _ =>
    have := (List.getElem?_eq_some_iff.1 h).1
    omega
  | seq _ _ ih ih' | needed _ _ ih ih' | more _ _ ih ih' | upTo _ _ ih ih' => exact ⟨ih.1, ih'.2⟩
  | left _ ih | right _ ih => exact ih

theorem matches_rep_none (hi : i ≤ cs.length) :
    Matches cs (.rep p 0 none) i j ↔ ReflTransGen (Matches cs p) i j := by
  constructor
  · intro h
    generalize hr : Pattern.rep p 0 none = r at h
    induction h with
    | done => exact .refl
    | more hp hrest _ ih =>
      cases hr
      exact .head hp (ih hrest.le_length.1 rfl)
    | _ => cases hr
  · intro h
    induction h using ReflTransGen.head_induction_on with
    | refl => exact .done hi
    | head hp _ ih => exact .more hp (ih hp.le_length.2)

theorem matches_rep_some (hi : i ≤ cs.length) :
    Matches cs (.rep p 0 (some k)) i j ↔ ∃ m ≤ k, Steps (Matches cs p) m i j := by
  induction k generalizing i with
  | zero =>
    constructor
    · rintro (_ | _)
      exact ⟨0, Nat.le_refl _, rfl⟩
    · rintro ⟨m, hm, hs⟩
      obtain rfl : m = 0 := by omega
      exact hs ▸ .done hi
  | succ k ih =>
    constructor
    · intro h
      cases h with
      | done => exact ⟨0, Nat.zero_le _, rfl⟩
      | upTo hp hr =>
        obtain ⟨m, hm, hs⟩ := (ih hp.le_length.2).1 hr
        exact ⟨m + 1, by omega, _, hp, hs⟩
    · rintro ⟨m, hm, hs⟩
      cases m with
      | zero => exact hs ▸ .done hi
      | succ m =>
        obtain ⟨l, hp, hs⟩ := hs
        exact .upTo hp ((ih hp.le_length.2).2 ⟨m, by omega, hs⟩)

theorem matches_rep (hi : i ≤ cs.length) : Matches cs (.rep p n extra) i j ↔
    ∃ m, Steps (Matches cs p) n i m ∧ Matches cs (.rep p 0 extra) m j := by
  induction n generalizing i with
  | zero => simp [Steps]
  | succ n ih =>
    constructor
    · rintro (_ | _)
      rename_i l hp hr
      obtain ⟨m, hs, hr⟩ := (ih hp.le_length.2).1 hr
      exact ⟨m, ⟨l, hp, hs⟩, hr⟩
    · rintro ⟨m, ⟨l, hp, hs⟩, hr⟩
      exact .needed hp ((ih hp.le_length.2).2 ⟨m, hs, hr⟩)

theorem Steps.le_length (hi : i ≤ cs.length) (h : Steps (Matches cs p) k i j) : j ≤ cs.length := by
  induction k generalizing i with
  | zero => exact h ▸ hi
  | succ k ih =>
    obtain ⟨m, hp, hs⟩ := h
    exact ih hp.le_length.2 hs

/-- A repetition is its needed part and then as much more as is allowed. -/
theorem Image.rep (hf : Image cs.length f (Matches cs p)) (hg : Image cs.length g R)
    (hR : ∀ {m j}, m ≤ cs.length → (Matches cs (.rep p 0 extra) m j ↔ R m j)) :
    Image cs.length (fun ps => g (Pattern.iterate f n ps)) (Matches cs (.rep p n extra)) := by
  refine ((hf.iterate n).comp hg).congr fun hi => ?_
  rw [matches_rep hi]
  exact exists_congr fun m => and_congr_right fun hs => (hR (hs.le_length hi)).symm

/-! ## The ends of patterns -/

/-- **The ends of a pattern** are where the stretches end that it describes. -/
theorem ends_image (cs : List Char) (p : Pattern) :
    Image cs.length (ends cs p) (Matches cs p) := by
  induction p with
  | empty =>
    refine ⟨fun hl => hl, fun {ps j} hl => ⟨fun h => ⟨j, h, .empty ?_⟩, ?_⟩⟩
    · have : j < ps.length := h.lt_length
      omega
    · rintro ⟨i, hi, h⟩
      cases h
      exact hi
  | one s => exact image_one
  | place a => exact image_place
  | seq p q hp hq =>
    refine (hp.comp hq).congr fun _ => ⟨fun ⟨m, hp, hq⟩ => .seq hp hq, ?_⟩
    rintro (_ | _)
    exact ⟨_, ‹_›, ‹_›⟩
  | alt p q hp hq =>
    refine (hp.union hq).congr fun _ => ⟨fun h => h.elim .left .right, ?_⟩
    rintro (_ | _)
    · exact .inl ‹_›
    · exact .inr ‹_›
  | rep p n extra hp =>
    cases extra with
    | some k =>
      have hmore : Image cs.length (closure (ends cs p) k) fun i j =>
          ∃ m ≤ k, Steps (Matches cs p) m i j := ⟨length_closure hp, has_closure hp⟩
      cases p <;> exact hp.rep hmore matches_rep_some
    | none =>
      cases p with
      | one s => exact image_one.rep image_sweep matches_rep_none
      | _ => exact hp.rep hp.closure matches_rep_none

/-- **A text holds** a stretch that a pattern describes when one is found. -/
theorem occursIn_iff {p : Pattern} {s : String} :
    p.occursIn s = true ↔ ∃ i j, Matches s.toList p i j := by
  have hl : (true :: s.toList.map fun _ => true).length = s.toList.length + 1 := by simp
  have hall {i : Nat} (hi : i ≤ s.toList.length) : Has (true :: s.toList.map fun _ => true) i := by
    cases i with
    | zero => rfl
    | succ i =>
      have hi : i < s.toList.length := hi
      rw [Has, List.getElem?_cons_succ, List.getElem?_map, List.getElem?_eq_getElem hi]
      rfl
  rw [occursIn, occursInChars, List.contains_iff_mem, List.mem_iff_getElem?]
  constructor
  · rintro ⟨j, hj⟩
    obtain ⟨i, -, h⟩ := ((ends_image _ _).has_iff hl).1 hj
    exact ⟨i, j, h⟩
  · rintro ⟨i, j, h⟩
    exact ⟨j, ((ends_image _ _).has_iff hl).2 ⟨i, hall h.le_length.1, h⟩⟩

end Runbook.Pattern

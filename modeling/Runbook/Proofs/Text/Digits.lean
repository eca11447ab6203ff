import Mathlib
import Runbook.Identifier
import Runbook.Time.Instant

/-!
# Digits with zeros in front

A reader of digits goes from the number that it has read to the next by one digit. Over the digits
of a number, whatever their base and however many zeros stand in front of them, it comes to that
number (`foldl_padded`); this is how identifiers read hexadecimal digits (`natOfHex?_hexPadded`) and
how decimal digits are read (`natOfDigits?_padded`). Without padding, they begin with a zero only
for zero itself (`toDigits_eq_cons`). The text of an integer is its digits, with a
sign in front of a negative one (`toList_toString`).
-/

namespace Runbook

variable {b n w : Nat} {f : Nat → Char → Option Nat}

/-- Reading a digit of the base appends it to the number read so far. -/
def ReadsDigits (b : Nat) (f : Nat → Char → Option Nat) : Prop :=
  ∀ m, ∀ d < b, f m d.digitChar = some (m * b + d)

/-- The digits of a number with zeros in front, up to some width. -/
def digitsPadded (b w n : Nat) : List Char :=
  List.replicate (w - (Nat.toDigits b n).length) '0' ++ Nat.toDigits b n

theorem ReadsDigits.foldl_toDigits (hf : ReadsDigits b f) (hb : 1 < b) (n m : Nat) :
    (Nat.toDigits b n).foldl (fun acc c => acc.bind (f · c)) (some m) =
      some (m * b ^ (Nat.toDigits b n).length + n) := by
  induction n using Nat.strongRecOn with
  | ind n ih =>
    by_cases hn : n < b
    · rw [Nat.toDigits_of_lt_base hn]
      simpa using hf m n hn
    · have hle : b ≤ n := Nat.le_of_not_lt hn
      rw [Nat.toDigits_of_base_le hb hle, List.foldl_append,
        ih (n / b) (Nat.div_lt_self (by omega) hb)]
      have hdigit := hf (m * b ^ (Nat.toDigits b (n / b)).length + n / b) (n % b)
        (Nat.mod_lt n (by omega))
      simp only [List.foldl_cons, List.foldl_nil, Option.bind_some, hdigit, List.length_append,
        List.length_singleton, Nat.pow_succ, Nat.add_mul, Nat.mul_assoc, Nat.add_assoc,
        Nat.div_add_mod']

theorem ReadsDigits.foldl_zeros (hf : ReadsDigits b f) (hb : 1 < b) (k : Nat) :
    (List.replicate k '0').foldl (fun acc c => acc.bind (f · c)) (some 0) = some 0 := by
  induction k with
  | zero => rfl
  | succ k ih =>
    have hzero : f 0 '0' = some 0 := (hf 0 0 (by omega)).trans (by rw [Nat.zero_mul])
    rw [List.replicate_succ, List.foldl_cons, Option.bind_some, hzero, ih]

/-- **A padded number** is read back. -/
theorem ReadsDigits.foldl_padded (hf : ReadsDigits b f) (hb : 1 < b) (w n : Nat) :
    (digitsPadded b w n).foldl (fun acc c => acc.bind (f · c)) (some 0) = some n := by
  rw [digitsPadded, List.foldl_append, hf.foldl_zeros hb, hf.foldl_toDigits hb, Nat.zero_mul,
    Nat.zero_add]

theorem length_digitsPadded (hb : 1 < b) (hw : 0 < w) (hn : n < b ^ w) :
    (digitsPadded b w n).length = w := by
  have hlen : (Nat.toDigits b n).length ≤ w := (Nat.length_toDigits_le_iff hb hw).2 hn
  rw [digitsPadded, List.length_append, List.length_replicate]
  omega

theorem foldl_none (cs : List Char) : cs.foldl (fun acc c => acc.bind (f · c)) none = none := by
  induction cs with
  | nil => rfl
  | cons c cs ih => exact ih

/-- What is read of some digits is below the power that has as many zeros. -/
theorem lt_of_foldl_eq_some {cs : List Char} {m : Nat}
    (hf : ∀ m c k, f m c = some k → k < (m + 1) * b)
    (h : cs.foldl (fun acc c => acc.bind (f · c)) (some m) = some n) :
    n < (m + 1) * b ^ cs.length := by
  induction cs generalizing m with
  | nil =>
    obtain rfl : m = n := by simpa using h
    simp
  | cons c cs ih =>
    rw [List.foldl_cons, Option.bind_some] at h
    cases hc : f m c with
    | none =>
      rw [hc, foldl_none] at h
      cases h
    | some k =>
      rw [hc] at h
      have hk : k + 1 ≤ (m + 1) * b := hf m c k hc
      calc n < (k + 1) * b ^ cs.length := ih h
        _ ≤ (m + 1) * b * b ^ cs.length := Nat.mul_le_mul_right _ hk
        _ = (m + 1) * b ^ (c :: cs).length := by
          rw [List.length_cons, Nat.pow_succ, Nat.mul_assoc, Nat.mul_comm b]

/-- A number that is read digit by digit has the digits that are read. -/
theorem exists_mapM_of_foldl {g : Char → Option Nat} {cs : List Char} {m : Nat}
    (h : cs.foldl (fun acc c => acc.bind fun m => (g c).map (m * b + ·)) (some m) = some n) :
    ∃ ds, cs.mapM g = some ds ∧ ds.length = cs.length ∧
      ds.foldl (fun m d => m * b + d) m = n := by
  induction cs generalizing m with
  | nil => exact ⟨[], rfl, rfl, Option.some.inj h⟩
  | cons c cs ih =>
    rw [List.foldl_cons, Option.bind_some] at h
    cases hc : g c with
    | none =>
      rw [hc, Option.map_none, foldl_none (f := fun m c => (g c).map (m * b + ·))] at h
      cases h
    | some d =>
      rw [hc] at h
      obtain ⟨ds, hds, hlen, hfold⟩ := ih h
      refine ⟨d :: ds, ?_, by rw [List.length_cons, List.length_cons, hlen], hfold⟩
      rw [List.mapM_cons, hc, hds]
      rfl

/-- A padded number has as many digits as it is wide, each of which is read back. -/
theorem exists_mapM_digitsPadded {g : Char → Option Nat} (hg : ∀ d < b, g d.digitChar = some d)
    (hb : 1 < b) (hw : 0 < w) (hn : n < b ^ w) :
    ∃ ds, (digitsPadded b w n).mapM g = some ds ∧ ds.length = w ∧
      ds.foldl (fun m d => m * b + d) 0 = n := by
  have hdigits : ReadsDigits b fun m c => (g c).map (m * b + ·) := by
    intro m d hd
    simp only [hg d hd, Option.map_some]
  obtain ⟨ds, hds, hcount, hvalue⟩ := exists_mapM_of_foldl (hdigits.foldl_padded hb w n)
  exact ⟨ds, hds, hcount.trans (length_digitsPadded hb hw hn), hvalue⟩

theorem mem_digitsPadded {c : Char} (hc : c ∈ digitsPadded b w n) :
    c ∈ Nat.toDigits b n ∨ c ∈ Nat.toDigits b 0 := by
  rcases List.mem_append.1 hc with hc | hc
  · obtain rfl := List.eq_of_mem_replicate hc
    exact .inr (by simp)
  · exact .inl hc

theorem exists_of_mem_toDigits {c : Char} (hb : 1 < b) (hc : c ∈ Nat.toDigits b n) :
    ∃ d < b, c = d.digitChar := by
  induction n using Nat.strongRecOn with
  | ind n ih =>
    by_cases hn : n < b
    · rw [Nat.toDigits_of_lt_base hn, List.mem_singleton] at hc
      exact ⟨n, hn, hc⟩
    · rw [Nat.toDigits_of_base_le hb (by omega), List.mem_append, List.mem_singleton] at hc
      rcases hc with hc | hc
      · exact ih (n / b) (Nat.div_lt_self (by omega) hb) hc
      · exact ⟨n % b, Nat.mod_lt n (by omega), hc⟩

theorem exists_of_mem_digitsPadded {c : Char} (hb : 1 < b) (hc : c ∈ digitsPadded b w n) :
    ∃ d < b, c = d.digitChar := by
  rcases mem_digitsPadded hc with hc | hc
  · exact exists_of_mem_toDigits hb hc
  · exact exists_of_mem_toDigits hb hc

theorem digitsPadded_ne_nil : digitsPadded b w n ≠ [] := by
  intro h
  have hnil : Nat.toDigits b n = [] := (List.append_eq_nil_iff.1 h).2
  exact Nat.toDigits_ne_nil hnil

/-- Hexadecimal digits are padded to their width. -/
theorem Text.length_hexPadded (hw : 0 < w) (hn : n < 16 ^ w) : (Text.hexPadded w n).length = w :=
  length_digitsPadded (by decide) hw hn

/-! ## Decimal digits -/

theorem readsDigits_decimal :
    ReadsDigits 10 fun m c => if c.isDigit then some (m * 10 + (c.toNat - 48)) else none := by
  intro m d hd
  have hdigit : d.digitChar.isDigit = true ∧ d.digitChar.toNat - 48 = d := by
    revert d
    decide
  simp only [hdigit.1, if_true, hdigit.2]

theorem isDigit_of_mem_digits {c : Char} (h : c ∈ Nat.toDigits 10 n) : c.isDigit = true :=
  Nat.isDigit_of_mem_toDigits (by decide) (by decide) h

theorem isDigit_of_mem_digitsPadded {c : Char} (hc : c ∈ digitsPadded 10 w n) :
    c.isDigit = true := by
  rcases mem_digitsPadded hc with hc | hc <;> exact isDigit_of_mem_digits hc

theorem ne_of_isDigit {c d : Char} (h : c.isDigit = true) (hd : d.isDigit = false) : c ≠ d := by
  rintro rfl
  rw [h] at hd
  cases hd

/-- Digits begin with a zero only for zero itself. -/
theorem toDigits_eq_cons (n : Nat) : ∃ c cs, Nat.toDigits 10 n = c :: cs ∧ (c = '0' → n = 0) := by
  have hfirst : ∀ d < 10, d.digitChar = '0' → d = 0 := by decide
  induction n using Nat.strongRecOn with
  | ind n ih =>
    by_cases hn : n < 10
    · exact ⟨n.digitChar, [], Nat.toDigits_of_lt_base hn, hfirst n hn⟩
    · obtain ⟨c, cs, hcs, hc⟩ := ih (n / 10) (by omega)
      refine ⟨c, cs ++ [(n % 10).digitChar], ?_, fun h => ?_⟩
      · rw [Nat.toDigits_of_base_le (by omega) (by omega), hcs, List.cons_append]
      · have := hc h
        omega

theorem natOfDigits?_padded (w n : Nat) : Decimal.natOfDigits? (digitsPadded 10 w n) = some n := by
  rw [← readsDigits_decimal.foldl_padded (by decide) w n]
  unfold Decimal.natOfDigits?
  split
  · rename_i h
    exact absurd h digitsPadded_ne_nil
  · rfl

theorem lt_of_natOfDigits? {cs : List Char} (h : Decimal.natOfDigits? cs = some n) :
    n < 10 ^ cs.length := by
  unfold Decimal.natOfDigits? at h
  split at h
  · cases h
  · rw [← Nat.one_mul (10 ^ _), ← Nat.zero_add 1]
    refine lt_of_foldl_eq_some (fun m c k hk => ?_) h
    split at hk
    · rename_i hc
      have hle : c.toNat ≤ 57 := (Char.isDigit_iff_toNat.1 hc).2
      cases hk
      omega
    · cases hk

/-! ## Integers as texts -/

theorem toList_natCast (n : Nat) : (toString (n : Int)).toList = Nat.toDigits 10 n := by
  rw [Int.toString_eq_repr, Int.repr_eq_if, if_pos (Int.natCast_nonneg n), Int.toNat_natCast,
    Nat.repr_eq_ofList_toDigits, String.toList_ofList]

theorem toList_negCast (h : 0 < n) : (toString (-(n : Int))).toList = '-' :: Nat.toDigits 10 n := by
  rw [Int.toString_eq_repr, Int.repr_eq_if, if_neg (by omega), Int.neg_neg, Int.toNat_natCast,
    Nat.repr_eq_ofList_toDigits, String.toList_append, String.toList_ofList]
  simp

theorem toList_toString (i : Int) : (∃ n : Nat, i = n ∧ (toString i).toList = Nat.toDigits 10 n) ∨
    ∃ n : Nat, 0 < n ∧ i = -(n : Int) ∧ (toString i).toList = '-' :: Nat.toDigits 10 n := by
  obtain ⟨n, rfl | rfl⟩ := i.eq_nat_or_neg
  · exact .inl ⟨n, rfl, toList_natCast n⟩
  · by_cases h : 0 < n
    · exact .inr ⟨n, h, rfl, toList_negCast h⟩
    · obtain rfl : n = 0 := by omega
      exact .inl ⟨0, rfl, toList_natCast 0⟩

end Runbook

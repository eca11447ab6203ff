import Mathlib
import Runbook.Decimal.Parse
import Runbook.Proofs.Decimal.Integer
import Runbook.Proofs.Text.Digits

/-!
# Texts of integers read as doubles

A text that stands for an integer stands for a double as well, and for the one made from that
integer: `double?` finds no point, mark or word in it (`unsigned?_digits`), whatever zeros stand in
front. So a text and a number of the same value become doubles that stand for the same rounded
integer (`exists_double?`). The text that an integer is written as stands for it (`int?_toString`).
-/

namespace Runbook.Decimal

variable {cs : List Char} {m n : Nat} {x : Int}

/-- What the value of the digits read so far becomes with one more. -/
def nextDigit (acc : Option Nat) (c : Char) : Option Nat :=
  acc.bind fun n => if c.isDigit then some (n * 10 + (c.toNat - 48)) else none

theorem natOfDigits?_eq_foldl (hcs : cs ≠ []) : natOfDigits? cs = cs.foldl nextDigit (some 0) := by
  cases cs with
  | nil => exact absurd rfl hcs
  | cons c cs => rfl

theorem nextDigit_some {c : Char} (hc : c.isDigit = true) :
    nextDigit (some m) c = some (m * 10 + (c.toNat - 48)) := if_pos hc

theorem foldl_nextDigit_cons {c : Char} (h : (c :: cs).foldl nextDigit (some m) = some n) :
    c.isDigit = true ∧ cs.foldl nextDigit (some (m * 10 + (c.toNat - 48))) = some n := by
  by_cases hc : c.isDigit = true
  · rw [List.foldl_cons, nextDigit_some hc] at h
    exact ⟨hc, h⟩
  · have hnone : nextDigit (some m) c = none := if_neg hc
    rw [List.foldl_cons, hnone, show cs.foldl nextDigit none = none from foldl_none cs] at h
    cases h

theorem isDigit_of_foldl (h : cs.foldl nextDigit (some m) = some n) :
    ∀ c ∈ cs, c.isDigit = true := by
  induction cs generalizing m with
  | nil => simp
  | cons c cs ih =>
    obtain ⟨hc, hrest⟩ := foldl_nextDigit_cons h
    exact List.forall_mem_cons.2 ⟨hc, ih hrest⟩

theorem ne_nil_of_natOfDigits? (h : natOfDigits? cs = some n) : cs ≠ [] := by
  rintro rfl
  cases h

theorem isDigit_of_natOfDigits? (h : natOfDigits? cs = some n) : ∀ c ∈ cs, c.isDigit = true := by
  rw [natOfDigits?_eq_foldl (ne_nil_of_natOfDigits? h)] at h
  exact isDigit_of_foldl h

theorem le_of_foldl (h : cs.foldl nextDigit (some m) = some n) : m * 10 ^ cs.length ≤ n := by
  induction cs generalizing m with
  | nil =>
    obtain rfl : m = n := by simpa using h
    simp
  | cons c cs ih =>
    obtain ⟨-, hrest⟩ := foldl_nextDigit_cons h
    calc m * 10 ^ (c :: cs).length = m * 10 * 10 ^ cs.length := by
          rw [List.length_cons, Nat.pow_succ, Nat.mul_assoc, Nat.mul_comm 10]
      _ ≤ (m * 10 + (c.toNat - 48)) * 10 ^ cs.length :=
          Nat.mul_le_mul_right _ (Nat.le_add_right _ _)
      _ ≤ n := ih hrest

/-! ## Zeros in front -/

theorem foldl_dropZeros (h : cs.foldl nextDigit (some 0) = some n) :
    (cs.dropWhile (· == '0')).foldl nextDigit (some 0) = some n := by
  induction cs with
  | nil => exact h
  | cons c cs ih =>
    by_cases hc : c = '0'
    · subst hc
      exact ih h
    · rwa [List.dropWhile_cons_of_neg (by simpa using hc)]

theorem value_dropZeros (h : cs.foldl nextDigit (some 0) = some n) :
    (natOfDigits? (cs.dropWhile (· == '0'))).getD 0 = n := by
  have hdrop := foldl_dropZeros h
  by_cases hnil : cs.dropWhile (· == '0') = []
  · rw [hnil] at hdrop ⊢
    obtain rfl : 0 = n := by simpa using hdrop
    rfl
  · rw [natOfDigits?_eq_foldl hnil, hdrop, Option.getD_some]

/-- Without the zeros in front there are no more digits than the value needs. -/
theorem length_dropZeros_le {k : Nat} (h : cs.foldl nextDigit (some 0) = some n)
    (hn : n < 10 ^ k) : (cs.dropWhile (· == '0')).length ≤ k := by
  have hdrop := foldl_dropZeros h
  cases hds : cs.dropWhile (· == '0') with
  | nil => exact Nat.zero_le k
  | cons c ds =>
    have hhead : c ≠ '0' := by
      have := List.head?_dropWhile_not (· == '0') cs
      rw [hds] at this
      simpa using this
    rw [hds] at hdrop
    obtain ⟨hc, hrest⟩ := foldl_nextDigit_cons hdrop
    have hpos : 1 ≤ c.toNat - 48 := by
      have hge : 48 ≤ c.toNat := (Char.isDigit_iff_toNat.1 hc).1
      have hne : c.toNat ≠ 48 := fun h => hhead (Char.toNat_inj.1 h)
      omega
    have hle : 10 ^ ds.length ≤ n :=
      calc 10 ^ ds.length = 1 * 10 ^ ds.length := (Nat.one_mul _).symm
        _ ≤ (0 * 10 + (c.toNat - 48)) * 10 ^ ds.length := Nat.mul_le_mul_right _ (by omega)
        _ ≤ n := le_of_foldl hrest
    have hlt : ds.length < k := (Nat.pow_lt_pow_iff_right (by decide)).1 (hle.trans_lt hn)
    exact hlt

/-! ## Digits as a double -/

theorem nearest_of_lt {digits : Nat} (hdigits : digits ≤ 400) :
    nearest n digits 0 = Float.ofNat n := by
  unfold nearest
  by_cases hn : n = 0
  · subst hn
    rw [show ((0 : Nat) == 0) = true from rfl, if_pos rfl]
    decide
  · rw [if_neg (by simpa using hn), if_neg (by omega), if_neg (by omega), if_pos (le_refl _)]
    change Float.ofScientific (n * 10 ^ 0) false 0 = Float.ofNat n
    rw [pow_zero, Nat.mul_one]
    rfl

theorem toLower_of_isDigit {c : Char} (hc : c.isDigit = true) : c.toLower = c := by
  have hle : c.toNat ≤ 57 := (Char.isDigit_iff_toNat.1 hc).2
  have hupper : ¬(c.val ≥ 'A'.val ∧ c.val ≤ 'Z'.val) := by
    rintro ⟨hge, -⟩
    have : 65 ≤ c.toNat := hge
    omega
  exact dif_neg hupper

theorem unsigned?_digits (h : natOfDigits? cs = some n) (hn : n ≤ 2 ^ 64) :
    unsigned? cs = some (Float.ofNat n) := by
  have hdigits := isDigit_of_natOfDigits? h
  have hnil := ne_nil_of_natOfDigits? h
  rw [natOfDigits?_eq_foldl hnil] at h
  -- A word has a letter, and so has an exponent's mark.
  have hword (w : String) (hw : ¬w.toList.all Char.isDigit) :
      (String.ofList (cs.map Char.toLower) == w) = false := by
    have hlower : cs.map Char.toLower = cs :=
      (List.map_congr_left fun c hc => toLower_of_isDigit (hdigits c hc)).trans (List.map_id' cs)
    rw [hlower, beq_eq_false_iff_ne]
    rintro rfl
    exact hw (by simpa using hdigits)
  have hmark : ∀ c ∈ cs, (!(c == 'e' || c == 'E')) = true := by
    intro c hc
    have hdigit := hdigits c hc
    rw [Bool.not_eq_true', Bool.or_eq_false_iff, beq_eq_false_iff_ne, beq_eq_false_iff_ne]
    constructor <;> rintro rfl <;> revert hdigit <;> decide
  have hfront : cs.takeWhile (fun c => !(c == 'e' || c == 'E')) = cs :=
    List.takeWhile_eq_self_iff.2 hmark
  have hback : cs.dropWhile (fun c => !(c == 'e' || c == 'E')) = [] :=
    List.dropWhile_eq_nil_iff.2 hmark
  have hmantissa : mantissa? cs = some (cs, 0) := by
    rw [mantissa?, List.takeWhile_eq_self_iff.2 hdigits, List.dropWhile_eq_nil_iff.2 hdigits]
    simp [hnil]
  have hlength : (cs.dropWhile (· == '0')).length ≤ 400 := by
    refine (length_dropZeros_le (k := 20) h ?_).trans (by decide)
    omega
  unfold unsigned?
  simp only [hword "inf" (by decide), hword "infinity" (by decide), hword "nan" (by decide),
    hfront, hback, hmantissa, Bool.false_eq_true, if_false]
  rw [value_dropZeros h]
  exact congrArg some (nearest_of_lt hlength)

/-! ## Signs -/

/-- A text that stands for an integer is digits, after a sign or without one. -/
theorem exists_of_int? (h : int? cs = some x) :
    ∃ n, (∃ r, cs = '-' :: r ∧ natOfDigits? r = some n ∧ x = -(n : Int)) ∨
      (∃ r, cs = '+' :: r ∧ natOfDigits? r = some n ∧ x = n) ∨
      natOfDigits? cs = some n ∧ x = n := by
  unfold int? at h
  split at h <;> simp [Option.bind_eq_some_iff] at h <;> obtain ⟨n, hn, rfl⟩ := h
  · exact ⟨n, .inl ⟨_, rfl, hn, rfl⟩⟩
  · exact ⟨n, .inr (.inl ⟨_, rfl, hn, rfl⟩)⟩
  · exact ⟨n, .inr (.inr ⟨hn, rfl⟩)⟩

/-- **A text of an integer** reads as a double that stands for the rounded integer. -/
theorem exists_double? {s : String} (h : int? s.toList = some x) (hx : x.natAbs ≤ 2 ^ 64) :
    ∃ f, double? s = some f ∧ StandsFor f (rounded x) := by
  unfold double?
  obtain ⟨n, ⟨r, hs, hn, rfl⟩ | ⟨r, hs, hn, rfl⟩ | ⟨hn, rfl⟩⟩ := exists_of_int? h
  · have hbound : n ≤ 2 ^ 64 := by simpa using hx
    refine ⟨-Float.ofNat n, ?_, ?_⟩
    · simp only [hs, unsigned?_digits hn hbound, Option.map_some]
    · rw [rounded_neg_natCast]
      exact (ofNat_standsFor hbound).neg
  · have hbound : n ≤ 2 ^ 64 := by simpa using hx
    refine ⟨Float.ofNat n, ?_, ofNat_standsFor hbound⟩
    simp only [hs, unsigned?_digits hn hbound]
  · have hbound : n ≤ 2 ^ 64 := by simpa using hx
    refine ⟨Float.ofNat n, ?_, ofNat_standsFor hbound⟩
    rw [← unsigned?_digits hn hbound]
    have hsign : ∀ c ∈ s.toList, c.isDigit = true := isDigit_of_natOfDigits? hn
    split
    · rename_i r hr
      exact absurd (hsign '-' (by simp [hr])) (by decide)
    · rename_i r hr
      exact absurd (hsign '+' (by simp [hr])) (by decide)
    · rfl

/-! ## Written integers -/

theorem natOfDigits?_toDigits (n : Nat) : natOfDigits? (Nat.toDigits 10 n) = some n := by
  have hpadded := natOfDigits?_padded 0 n
  rwa [digitsPadded, Nat.zero_sub, List.replicate_zero, List.nil_append] at hpadded

/-- The text of an integer is read back. -/
theorem int?_toString (x : Int) : int? (toString x).toList = some x := by
  rcases toList_toString x with ⟨k, rfl, hs⟩ | ⟨k, -, rfl, hs⟩
  · have hdigit : ∀ c ∈ Nat.toDigits 10 k, c.isDigit = true :=
      isDigit_of_natOfDigits? (natOfDigits?_toDigits k)
    rw [hs]
    unfold int?
    split
    · rename_i r hr
      exact absurd (hdigit '-' (by simp [hr])) (by decide)
    · rename_i r hr
      exact absurd (hdigit '+' (by simp [hr])) (by decide)
    · rw [natOfDigits?_toDigits]
      rfl
  · rw [hs, int?, natOfDigits?_toDigits]
    rfl

theorem int64?_toString (h : minInt64 ≤ x ∧ x ≤ maxInt64) :
    int64? (toString x).toList = some x := by
  rw [int64?, int?_toString, Option.bind_some, if_pos (by simpa using h)]

end Runbook.Decimal

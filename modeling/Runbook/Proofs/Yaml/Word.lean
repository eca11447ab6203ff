import Runbook.Proofs.Text.Digits
import Runbook.Proofs.Yaml.Form

/-!
# Values written as one word

Null, the truth values and the integers are written as one word of letters, digits and a sign, in
documents as in the form of JSON. Read as a plain scalar, the word stands for the value again
(`ofPlain_word`): the decimal digits of a number begin with a zero only for zero itself, so they
are neither a text nor a number in another base.
-/

namespace Runbook.Yaml

open Scanner Scalar

variable {n bound : Nat} {i : Int} {c : Char} {cs : List Char} {w : String} {v : Json}

/-! ## Digits -/

theorem digit?_digitChar : ∀ d < 10, digit? 10 d.digitChar = some d := by decide

theorem natOf?_digits (n : Nat) : natOf? 10 (Nat.toDigits 10 n) = some n := by
  have hdigits : ReadsDigits 10 fun m c => (digit? 10 c).map (m * 10 + ·) := by
    intro m d hd
    simp only [digit?_digitChar d hd, Option.map_some]
  have hfold := hdigits.foldl_toDigits (by decide) n 0
  rw [Nat.zero_mul, Nat.zero_add] at hfold
  obtain ⟨c, cs, hcs, -⟩ := toDigits_eq_cons n
  rw [natOf?, if_neg (by simp [hcs]), hfold]

/-- Digits have no sign, no mark of a base and no zero in front. -/
theorem digits_plain (n : Nat) : startsSigned (Nat.toDigits 10 n) = false ∧
    marked? (Nat.toDigits 10 n) = none ∧ hasLeadingZero (Nat.toDigits 10 n) = false ∧
      hasLeadingZero ('-' :: Nat.toDigits 10 n) = false := by
  obtain ⟨c, cs, hcs, hc⟩ := toDigits_eq_cons n
  by_cases hzero : n = 0
  · subst hzero
    decide
  · have hdigit : c.isDigit = true := isDigit_of_mem_digits (n := n) (by simp [hcs])
    have h0 : c ≠ '0' := fun h => hzero (hc h)
    have hplus : c ≠ '+' := ne_of_isDigit hdigit (by decide)
    have hminus : c ≠ '-' := ne_of_isDigit hdigit (by decide)
    rw [hcs]
    simp [startsSigned, marked?, hasLeadingZero, h0, hplus, hminus]

theorem unsigned?_digits (h : n < bound) :
    unsigned? bound (Nat.toDigits 10 n) = some (n : Int) := by
  obtain ⟨hsign, hmark, hzero, -⟩ := digits_plain n
  have hplus : ∀ r, Nat.toDigits 10 n ≠ '+' :: r := by
    intro r hr
    rw [hr] at hsign
    cases hsign
  simp [unsigned?, hsign, hmark, hzero, natOf?_digits, h]

theorem negative?_digits (h : n ≤ bound) (hpos : 0 < bound) :
    negative? bound ('-' :: Nat.toDigits 10 n) = some (-(n : Int)) := by
  obtain ⟨-, hmark, -, hzero⟩ := digits_plain n
  have hlt : -(n : Int) < bound := by omega
  simp [negative?, hmark, hzero, signed?, natOf?_digits, h, hlt]

/-! ## Words -/

/-- A text that begins with a digit or a sign is none of the other words. -/
theorem ofPlain_number {x : Scalar} (hs : w.toList = c :: cs)
    (hc : c.isDigit = true ∨ c = '-') (hx : integer? w.toList = some x) : ofPlain w = x := by
  have hne (t : String) (d : Char) (ds : List Char) (ht : t.toList = d :: ds)
      (hd : d.isDigit = false) (hm : d ≠ '-') : w ≠ t := by
    rintro rfl
    rw [hs] at ht
    obtain ⟨rfl, -⟩ := List.cons.inj ht
    rcases hc with hc | hc
    · rw [hd] at hc
      cases hc
    · exact hm hc
  have hempty : w.isEmpty = false := by
    rw [← Bool.not_eq_true, String.isEmpty_iff]
    rintro rfl
    cases hs
  have hnull : isNull w = false := by
    simp [isNull, hne "null" _ _ rfl (by decide) (by decide),
      hne "Null" _ _ rfl (by decide) (by decide), hne "NULL" _ _ rfl (by decide) (by decide),
      hne "~" _ _ rfl (by decide) (by decide)]
  have hbool : bool? w = none := by
    simp [bool?, hne "true" _ _ rfl (by decide) (by decide),
      hne "True" _ _ rfl (by decide) (by decide), hne "TRUE" _ _ rfl (by decide) (by decide),
      hne "false" _ _ rfl (by decide) (by decide), hne "False" _ _ rfl (by decide) (by decide),
      hne "FALSE" _ _ rfl (by decide) (by decide)]
  rw [ofPlain, hempty, hnull, hbool, hx]
  rfl

theorem ofPlain_int (h : -(2 ^ 63) ≤ i ∧ i < 2 ^ 64) : ofPlain (toString i) = .int i := by
  rcases toList_toString i with ⟨n, rfl, hs⟩ | ⟨n, hn, rfl, hs⟩
  · obtain ⟨c, cs, hcs, -⟩ := toDigits_eq_cons n
    refine ofPlain_number (hs.trans hcs) (.inl (isDigit_of_mem_digits (n := n) (by simp [hcs]))) ?_
    rw [hs, integer?, unsigned?_digits (by simp; omega)]
    rfl
  · refine ofPlain_number hs (.inr rfl) ?_
    have hunsigned : unsigned? (Nat.pow 2 64) ('-' :: Nat.toDigits 10 n) = none := by
      simp [unsigned?, startsSigned, marked?]
    rw [hs, integer?, hunsigned, negative?_digits (by simp; omega) (by decide)]
    rfl

/-- The word that a value is written as. -/
def word? : Json → Option String
  | .null => some "null"
  | .bool b => some (if b then "true" else "false")
  | .int i => some (toString i)
  | _ => none

theorem writeScalar_word (h : word? v = some w) : writeScalar n v = w.toList := by
  cases v with
  | null => cases h; rfl
  | bool b => cases h; cases b <;> rfl
  | int i => cases h; rfl
  | _ => cases h

theorem prettyAt_word (h : word? v = some w) : Json.prettyAt n v = w := by
  cases v with
  | null => cases h; rfl
  | bool b => cases h; cases b <;> rfl
  | int i => cases h; rfl
  | _ => cases h

/-- What makes a word readable: its characters, and what follows a sign. -/
structure IsWord (cs : List Char) : Prop where
  chars : ∀ c ∈ cs, isWordChar c = true
  first : ∃ c ds, cs = c :: ds ∧ (c = '-' → ds ≠ [])

theorem isWord_of_word? (h : word? v = some w) : IsWord w.toList := by
  have hdigits (n : Nat) : ∀ c ∈ Nat.toDigits 10 n, isWordChar c = true := by
    intro c hc
    simp [isWordChar, Char.isAlphanum, isDigit_of_mem_digits hc]
  cases v with
  | null =>
    cases h
    exact ⟨by decide, _, _, rfl, by decide⟩
  | bool b =>
    cases h
    cases b
    · exact ⟨by decide, _, _, rfl, by decide⟩
    · exact ⟨by decide, _, _, rfl, by decide⟩
  | int i =>
    cases h
    rcases toList_toString i with ⟨n, -, hs⟩ | ⟨n, -, -, hs⟩ <;> rw [hs]
    · obtain ⟨c, cs, hcs, -⟩ := toDigits_eq_cons n
      have hc : c.isDigit = true := isDigit_of_mem_digits (n := n) (by simp [hcs])
      exact ⟨hdigits n, c, cs, hcs, fun hm => absurd hm (ne_of_isDigit hc (by decide))⟩
    · refine ⟨List.forall_mem_cons.2 ⟨rfl, hdigits n⟩, _, _, rfl, fun _ => Nat.toDigits_ne_nil⟩
  | _ => cases h

end Runbook.Yaml

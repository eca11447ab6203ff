import Mathlib
import Runbook.Handler.Check
import Runbook.Proofs.Decimal.Integer
import Runbook.Proofs.Json.Proper

/-!
# How the numeric comparisons agree

Ordering two values compares the doubles that they denote (`holds_gt` and its like), whatever the
values are. Equality compares the doubles as well where one of the values is a number
(`looselyEqual_eq`), but two texts only as texts (`looselyEqual_texts`): so `"5"` and `"5.0"` are at
least and at most each other and not equal. Among numbers, and between a number and a text, at least
is greater or equal and at most is less or equal; of less, greater and equal no two hold at once of
any two values (`comparisons_agree`).
-/

namespace Runbook.Condition

open Decimal

variable {a b : Json} {f g : Float} {s t : String}

/-- The condition holds of the two values. -/
def Says (a : Json) (op : Comparison) (b : Json) : Prop := holds ⟨a, op, b⟩ = .ok true

/-! ## Ordering -/

theorem compareNumbers_eq (hf : number? a = some f) (hg : number? b = some g)
    (p : Float → Float → Bool) : compareNumbers a b p = .ok (p f g) := by
  rw [compareNumbers, number, number, hf, hg]
  rfl

theorem says_gt (hf : number? a = some f) (hg : number? b = some g) : Says a .gt b ↔ f > g := by
  simp [Says, holds, compareNumbers_eq hf hg]

theorem says_lt (hf : number? a = some f) (hg : number? b = some g) : Says a .lt b ↔ f < g := by
  simp [Says, holds, compareNumbers_eq hf hg]

theorem says_gte (hf : number? a = some f) (hg : number? b = some g) : Says a .gte b ↔ f ≥ g := by
  simp [Says, holds, compareNumbers_eq hf hg]

theorem says_lte (hf : number? a = some f) (hg : number? b = some g) : Says a .lte b ↔ f ≤ g := by
  simp [Says, holds, compareNumbers_eq hf hg]

/-- Values that can be ordered denote numbers. -/
theorem exists_number? (h : ∃ v, holds ⟨a, .gt, b⟩ = .ok v) :
    ∃ f g, number? a = some f ∧ number? b = some g := by
  obtain ⟨v, hv⟩ := h
  change compareNumbers a b _ = .ok v at hv
  rw [compareNumbers, number, number] at hv
  cases hf : number? a with
  | none =>
    rw [hf] at hv
    cases hv
  | some f =>
    cases hg : number? b with
    | none =>
      rw [hf, hg] at hv
      cases hv
    | some g => exact ⟨f, g, rfl, rfl⟩

/-! ## Equality -/

theorem says_eq : Says a .eq b ↔ looselyEqual a b = true := by
  simp [Says, holds]

/-- Numbers of the same notation are equal as numbers. -/
theorem beq_of_same (ha : a.Proper) (hnum : isNumber a = true ∨ isNumber b = true)
    (hf : number? a = some f) (hg : number? b = some g) (h : (a == b) = true) :
    (f == g) = true := by
  cases a with
  | int x => cases b with
    | int y =>
      obtain rfl : x = y := by simpa using (show (x == y) = true from h)
      obtain rfl : f = g := Option.some_inj.1 (hf.symm.trans hg)
      have hstands : StandsFor f (rounded x) := by
        rw [← Option.some_inj.1 hf]
        rw [Json.Proper] at ha
        exact ofInt_standsFor (by omega)
      exact (hstands.beq_iff hstands).2 rfl
    | _ => cases h
  | double x => cases b with
    | double y =>
      obtain rfl := Option.some_inj.1 hf
      obtain rfl := Option.some_inj.1 hg
      exact h
    | _ => cases h
  | str s => cases b with
    | str t => simp [isNumber] at hnum
    | _ => cases h
  | _ => cases hf

/-- Where one of the values is a number, they are equal when the doubles are. -/
theorem looselyEqual_eq (ha : a.Proper) (hnum : isNumber a = true ∨ isNumber b = true)
    (hf : number? a = some f) (hg : number? b = some g) : looselyEqual a b = (f == g) := by
  have hguard : (isNumber a || isNumber b) = true := by simpa using hnum
  simp only [looselyEqual, hf, hg, hguard, Bool.true_and]
  cases hsame : a == b with
  | false => rfl
  | true => rw [beq_of_same ha hnum hf hg hsame, Bool.or_self]

/-- Two texts are equal as texts only, whatever numbers they denote. -/
theorem looselyEqual_texts (s t : String) : looselyEqual (.str s) (.str t) = (s == t) := by
  have hsame : (Json.str s == Json.str t) = (s == t) := rfl
  rw [looselyEqual, hsame]
  cases number? (.str s) <;> cases number? (.str t) <;> simp [isNumber]

theorem isText_of_not_number (hf : number? a = some f) (hnum : ¬isNumber a = true) :
    ∃ s, a = .str s := by
  cases a with
  | str s => exact ⟨s, rfl⟩
  | int | double => exact absurd rfl hnum
  | _ => cases hf

/-- Equal values are neither less nor greater. -/
theorem not_ordered_of_equal (ha : a.Proper) (hf : number? a = some f) (hg : number? b = some g)
    (h : looselyEqual a b = true) : ¬f < g ∧ ¬f > g := by
  by_cases hnum : isNumber a = true ∨ isNumber b = true
  · rw [looselyEqual_eq ha hnum hf hg] at h
    exact ⟨not_lt_of_beq h, not_gt_of_beq h⟩
  · obtain ⟨hna, hnb⟩ := not_or.1 hnum
    obtain ⟨s, rfl⟩ := isText_of_not_number hf hna
    obtain ⟨t, rfl⟩ := isText_of_not_number hg hnb
    rw [looselyEqual_texts, beq_iff_eq] at h
    subst h
    obtain rfl : f = g := Option.some_inj.1 (hf.symm.trans hg)
    exact ⟨not_lt_self f, not_lt_self f⟩

theorem looselyEqual_comm (ha : a.Proper) (hb : b.Proper) (hf : number? a = some f)
    (hg : number? b = some g) : looselyEqual a b = looselyEqual b a := by
  by_cases hnum : isNumber a = true ∨ isNumber b = true
  · rw [looselyEqual_eq ha hnum hf hg, looselyEqual_eq hb hnum.symm hg hf, beq_comm]
  · obtain ⟨hna, hnb⟩ := not_or.1 hnum
    obtain ⟨s, rfl⟩ := isText_of_not_number hf hna
    obtain ⟨t, rfl⟩ := isText_of_not_number hg hnb
    rw [looselyEqual_texts, looselyEqual_texts, BEq.comm]

/-! ## Agreement -/

/-- **The numeric comparisons agree** on all values that can be ordered. Where one of them is a
number, at least is greater or equal and at most is less or equal. Two texts are equal when they are
the same; at least and at most still compare the numbers that they denote. Of less, greater and
equal no two hold at once, and equality is symmetric. -/
theorem comparisons_agree (ha : a.Proper) (hb : b.Proper)
    (hordered : ∀ op ∈ [Comparison.gt, .lt, .gte, .lte], ∃ v, holds ⟨a, op, b⟩ = .ok v) :
    (isNumber a = true ∨ isNumber b = true →
      (Says a .gte b ↔ Says a .gt b ∨ Says a .eq b) ∧
      (Says a .lte b ↔ Says a .lt b ∨ Says a .eq b)) ∧
    (∀ s t, a = .str s → b = .str t →
      (Says a .eq b ↔ s = t) ∧
      ∃ x y, double? (Text.trim s) = some x ∧ double? (Text.trim t) = some y ∧
        (Says a .gte b ↔ Says a .gt b ∨ (x == y) = true) ∧
        (Says a .lte b ↔ Says a .lt b ∨ (x == y) = true)) ∧
    ¬(Says a .lt b ∧ Says a .gt b) ∧ ¬(Says a .lt b ∧ Says a .eq b) ∧
    ¬(Says a .gt b ∧ Says a .eq b) ∧
    (Says a .eq b ↔ Says b .eq a) := by
  obtain ⟨f, g, hf, hg⟩ := exists_number? (hordered .gt (by simp))
  rw [says_gt hf hg, says_lt hf hg, says_gte hf hg, says_lte hf hg, says_eq, says_eq]
  refine ⟨fun hnum => ?_, fun s t hs ht => ?_, fun h => not_lt_of_gt h.2 h.1,
    fun h => (not_ordered_of_equal ha hf hg h.2).1 h.1,
    fun h => (not_ordered_of_equal ha hf hg h.2).2 h.1, ?_⟩
  · rw [looselyEqual_eq ha hnum hf hg]
    exact ⟨ge_iff, le_iff_lt_or_beq⟩
  · subst hs ht
    rw [looselyEqual_texts, beq_iff_eq]
    exact ⟨Iff.rfl, f, g, hf, hg, ge_iff, le_iff_lt_or_beq⟩
  · rw [looselyEqual_comm ha hb hf hg]

/-- The number `5` and the text `" 5.0 "`. -/
theorem comparisons_agree_five :
    (Json.int 5).Proper ∧ (Json.str " 5.0 ").Proper ∧
    (∀ op ∈ [Comparison.gt, .lt, .gte, .lte], ∃ v, holds ⟨.int 5, op, .str " 5.0 "⟩ = .ok v) ∧
    Says (.int 5) .eq (.str " 5.0 ") ∧ Says (.int 5) .gte (.str " 5.0 ") ∧
    Says (.str " 5.0 ") .eq (.int 5) := by
  have hfive : (Json.int 5).Proper := by
    rw [Json.Proper]
    decide
  have hordered : ∀ op ∈ [Comparison.gt, .lt, .gte, .lte],
      ∃ v, holds ⟨.int 5, op, .str " 5.0 "⟩ = .ok v := by
    simp only [List.forall_mem_cons]
    exact ⟨⟨false, rfl⟩, ⟨false, rfl⟩, ⟨true, rfl⟩, ⟨true, rfl⟩, by simp⟩
  have hequal : Says (.int 5) .eq (.str " 5.0 ") := rfl
  obtain ⟨hnumber, -, -, -, -, hsymm⟩ := comparisons_agree hfive (.str _) hordered
  exact ⟨hfive, .str _, hordered, hequal, (hnumber (.inl rfl)).1.2 (.inr hequal), hsymm.1 hequal⟩

/-- The texts `"5"` and `"5.0"` are at least each other, neither greater nor equal. -/
theorem texts_compared_apart :
    Says (.str "5") .gte (.str "5.0") ∧ ¬Says (.str "5") .gt (.str "5.0") ∧
    ¬Says (.str "5") .eq (.str "5.0") := by
  have hgte : holds ⟨.str "5", .gte, .str "5.0"⟩ = .ok true := rfl
  have hgt : holds ⟨.str "5", .gt, .str "5.0"⟩ = .ok false := rfl
  have heq : holds ⟨.str "5", .eq, .str "5.0"⟩ = .ok false := rfl
  refine ⟨hgte, ?_, ?_⟩
  · rw [Says, hgt]
    simp
  · rw [Says, heq]
    simp

end Runbook.Condition

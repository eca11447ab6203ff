import Mathlib
import Runbook.Proofs.Condition.Coherent
import Runbook.Proofs.Decimal.Reading

/-!
# Numeric conditions on integers

An integer of 64 bits is compared as the double nearest to it, whether it is given as a number or as
a text (`Denotes.exists_number?`). So a condition says of two integers what is true of the rounded
ones (`holds_integers`), and a list is searched for a rounded one (`any_looselyEqual`). That is the
truth about the integers themselves when they are equal or have different doubles (`Apart`), as they
have when one of them is below `2 ^ 53` (`apart_of_lt`); two others with the same double are taken
for equal.
-/

namespace Runbook

/-- The relation of integers that a numeric comparison stands for. -/
def Comparison.relation : Comparison → Option (Int → Int → Bool)
  | .eq => some fun x y => x == y
  | .ne => some fun x y => x != y
  | .gt => some fun x y => x > y
  | .lt => some fun x y => x < y
  | .gte => some fun x y => x ≥ y
  | .lte => some fun x y => x ≤ y
  | _ => none

namespace Condition

open Decimal

/-- The integers of 64 bits with or without a sign. -/
def IsInt64 (x : Int) : Prop := -9223372036854775808 ≤ x ∧ x ≤ 18446744073709551615

/-- A value denotes an integer: as a number, or as a text with an optional sign and digits between
blanks. -/
inductive Denotes : Json → Int → Prop
  | number {x : Int} (h : IsInt64 x) : Denotes (.int x) x
  | text {s : String} {x : Int} (hs : int? (Text.trim s).toList = some x) (h : IsInt64 x) :
      Denotes (.str s) x

/-- Two integers are equal or have different doubles. -/
def Apart (x y : Int) : Prop := x = y ∨ rounded x ≠ rounded y

variable {a b v : Json} {vs : List Json} {x y z : Int} {ns : List Int} {op : Comparison}
  {r : Int → Int → Bool}

theorem Denotes.proper (h : Denotes v x) : v.Proper := by
  cases h with
  | number h => rwa [Json.Proper]
  | text => exact .str _

theorem Denotes.exists_number? (h : Denotes v x) :
    ∃ f, number? v = some f ∧ StandsFor f (rounded x) := by
  cases h with
  | number h =>
    unfold IsInt64 at h
    exact ⟨Float.ofInt x, rfl, ofInt_standsFor (by omega)⟩
  | text hs h =>
    unfold IsInt64 at h
    exact exists_double? hs (by omega)

/-! ## Told apart -/

theorem Apart.symm (h : Apart x y) : Apart y x := h.imp Eq.symm Ne.symm

theorem Apart.rounded_eq_iff (h : Apart x y) : rounded x = rounded y ↔ x = y :=
  ⟨fun heq => h.resolve_right fun hne => hne heq, fun heq => by rw [heq]⟩

theorem Apart.rounded_le_iff (h : Apart x y) : rounded x ≤ rounded y ↔ x ≤ y := by
  refine ⟨fun hle => ?_, rounded_mono⟩
  by_contra hlt
  have hge : rounded y ≤ rounded x := rounded_mono (by omega)
  have heq : x = y := h.rounded_eq_iff.1 (by omega)
  omega

/-- An integer of up to 53 digits is told apart from every other. -/
theorem apart_of_lt (hx : x.natAbs < 2 ^ 53) (y : Int) : Apart x y := by
  have hself : rounded x = x := rounded_eq_self hx.le
  by_cases hy : y.natAbs ≤ 2 ^ 53
  · unfold Apart
    rw [hself, rounded_eq_self hy]
    exact eq_or_ne x y
  · -- The other one lies beyond `2 ^ 53` on one side, and so does its double.
    refine .inr fun heq => ?_
    rw [hself] at heq
    rcases Int.lt_or_gt_of_ne (show y ≠ 0 by omega) with hneg | hpos
    · have hle : rounded y ≤ rounded (-2 ^ 53) := rounded_mono (by omega)
      rw [rounded_eq_self (x := -2 ^ 53) (by decide)] at hle
      omega
    · have hle : rounded (2 ^ 53) ≤ rounded y := rounded_mono (by omega)
      rw [rounded_eq_self (x := 2 ^ 53) (by decide)] at hle
      omega

theorem relation_rounded (hop : op.relation = some r) (h : Apart x y) :
    r (rounded x) (rounded y) = r x y := by
  have heq := h.rounded_eq_iff
  have hle := h.rounded_le_iff
  have hge := h.symm.rounded_le_iff
  cases op <;> cases hop <;> rw [Bool.eq_iff_iff] <;> simp <;> omega

/-! ## Verdicts -/

theorem looselyEqual_integers (ha : Denotes a x) (hb : Denotes b y)
    (hnum : isNumber a = true ∨ isNumber b = true) :
    looselyEqual a b = (rounded x == rounded y) := by
  obtain ⟨f, hf, hfx⟩ := ha.exists_number?
  obtain ⟨g, hg, hgy⟩ := hb.exists_number?
  rw [looselyEqual_eq ha.proper hnum hf hg, Bool.eq_iff_iff, hfx.beq_iff hgy, beq_iff_eq]

/-- A condition says what is true of the rounded integers. -/
theorem holds_integers (hop : op.relation = some r) (ha : Denotes a x) (hb : Denotes b y)
    (hnum : op = .eq ∨ op = .ne → isNumber a = true ∨ isNumber b = true) :
    holds ⟨a, op, b⟩ = .ok (r (rounded x) (rounded y)) := by
  obtain ⟨f, hf, hfx⟩ := ha.exists_number?
  obtain ⟨g, hg, hgy⟩ := hb.exists_number?
  cases op <;> cases hop
  case eq => exact congrArg Except.ok (looselyEqual_integers ha hb (hnum (.inl rfl)))
  case ne =>
    exact congrArg (fun e => Except.ok !e) (looselyEqual_integers ha hb (hnum (.inr rfl)))
  case gt =>
    refine (compareNumbers_eq hf hg _).trans (congrArg Except.ok (decide_eq_decide.2 ?_))
    exact hgy.lt_iff hfx
  case lt =>
    refine (compareNumbers_eq hf hg _).trans (congrArg Except.ok (decide_eq_decide.2 ?_))
    exact hfx.lt_iff hgy
  case gte =>
    refine (compareNumbers_eq hf hg _).trans (congrArg Except.ok (decide_eq_decide.2 ?_))
    exact hgy.le_iff hfx
  case lte =>
    refine (compareNumbers_eq hf hg _).trans (congrArg Except.ok (decide_eq_decide.2 ?_))
    exact hfx.le_iff hgy

/-- A list is searched for an integer with the same double. -/
theorem any_looselyEqual (hvs : List.Forall₂ Denotes vs ns) (hv : Denotes v z)
    (hnum : ∀ w ∈ vs, isNumber w = true ∨ isNumber v = true) :
    (vs.any fun w => looselyEqual w v) = ns.any fun n => rounded n == rounded z := by
  induction hvs with
  | nil => rfl
  | cons hw hvs ih =>
    obtain ⟨hfirst, hrest⟩ := List.forall_mem_cons.1 hnum
    rw [List.any_cons, List.any_cons, looselyEqual_integers hw hv hfirst, ih hrest]

theorem any_rounded (h : ∀ n ∈ ns, Apart n z) :
    (ns.any fun n => rounded n == rounded z) = decide (z ∈ ns) := by
  rw [Bool.eq_iff_iff, List.any_eq_true, decide_eq_true_iff]
  constructor
  · rintro ⟨n, hn, heq⟩
    rwa [← (h n hn).rounded_eq_iff.1 (by simpa using heq)]
  · exact fun hz => ⟨z, hz, by simp⟩

/-- Where all six comparisons are exact, the integers are told apart. -/
theorem apart_of_exact (ha : Denotes a x) (hb : Denotes b y)
    (hnum : isNumber a = true ∨ isNumber b = true)
    (hexact : holds ⟨a, .eq, b⟩ = .ok (x == y)) : Apart x y := by
  rw [holds_integers rfl ha hb fun _ => hnum] at hexact
  by_cases heq : x = y
  · exact .inl heq
  · refine .inr fun hrounded => ?_
    simp [hrounded, heq] at hexact

/-- **Numeric conditions on integers** are exact on integers that are told apart, as an integer
below `2 ^ 53` is from every other: the comparisons of two of them, of which one is a number where
they are compared for equality, and the search for one in a list. Of two that are not told apart
some comparison is wrong. -/
theorem integer_conditions_exact (ha : Denotes a x) (hb : Denotes b y) :
    (∀ op r, Comparison.relation op = some r →
      (op = .eq ∨ op = .ne → isNumber a = true ∨ isNumber b = true) → Apart x y →
      holds ⟨a, op, b⟩ = .ok (r x y)) ∧
    (∀ vs ns, List.Forall₂ Denotes vs ns → (∀ w ∈ vs, isNumber w = true ∨ isNumber a = true) →
      (∀ n ∈ ns, Apart n x) →
      holds ⟨a, .isIn, .arr vs⟩ = .ok (decide (x ∈ ns)) ∧
      holds ⟨a, .notIn, .arr vs⟩ = .ok (decide (x ∉ ns)) ∧
      holds ⟨.arr vs, .contains, a⟩ = .ok (decide (x ∈ ns))) ∧
    (x.natAbs < 2 ^ 53 ∨ y.natAbs < 2 ^ 53 → Apart x y) ∧
    (isNumber a = true ∨ isNumber b = true →
      (∀ op r, Comparison.relation op = some r → holds ⟨a, op, b⟩ = .ok (r x y)) → Apart x y) := by
  refine ⟨fun op r hop hnum hapart => ?_, fun vs ns hvs hnum hapart => ?_, fun hsmall => ?_,
    fun hnum hexact => apart_of_exact ha hb hnum (hexact .eq _ rfl)⟩
  · rw [holds_integers hop ha hb hnum, relation_rounded hop hapart]
  · have hany := (any_looselyEqual hvs ha hnum).trans (any_rounded hapart)
    refine ⟨congrArg Except.ok hany, ?_, congrArg Except.ok hany⟩
    rw [decide_not]
    exact congrArg (fun e => Except.ok !e) hany
  · rcases hsmall with hx | hy
    · exact apart_of_lt hx y
    · exact (apart_of_lt hy x).symm

/-- The greatest unsigned integer against the text of the greatest signed one, and a list. -/
theorem integer_conditions_exact_octets :
    holds ⟨.int 18446744073709551615, .gt, .str "9223372036854775807"⟩ = .ok true ∧
    holds ⟨.int 2, .isIn, .arr [.int 1, .str " 02"]⟩ = .ok true ∧
    Apart 2 9223372036854775807 ∧ Apart 18446744073709551615 9223372036854775807 := by
  have hunsigned : Denotes (.int 18446744073709551615) 18446744073709551615 :=
    .number (by unfold IsInt64; decide)
  have hsigned : Denotes (.str "9223372036854775807") 9223372036854775807 :=
    .text rfl (by unfold IsInt64; decide)
  have hapart : Apart 18446744073709551615 9223372036854775807 := .inr (by decide)
  have hone : Denotes (.int 1) 1 := .number (by unfold IsInt64; decide)
  have htwo : Denotes (.int 2) 2 := .number (by unfold IsInt64; decide)
  have htext : Denotes (.str " 02") 2 := .text rfl (by unfold IsInt64; decide)
  obtain ⟨hexact, -, -, hconverse⟩ := integer_conditions_exact hunsigned hsigned
  obtain ⟨-, hlist, hsmall, -⟩ := integer_conditions_exact htwo hsigned
  have hmember := hlist [.int 1, .str " 02"] [1, 2] (.cons hone (.cons htext .nil))
    (fun _ _ => .inr rfl) fun n hn => (apart_of_lt (by decide) n).symm
  refine ⟨hexact .gt _ rfl (by simp) hapart, hmember.1, hsmall (.inl (by decide)),
    hconverse (.inl rfl) fun op r hop => ?_⟩
  exact hexact op r hop (fun _ => .inl rfl) hapart

/-- `2 ^ 53 + 1` passes for `2 ^ 53`: it is taken for equal, not for greater, and found in a
list. -/
theorem integers_confused :
    holds ⟨.int 9007199254740993, .eq, .int 9007199254740992⟩ = .ok true ∧
    holds ⟨.int 9007199254740993, .gt, .int 9007199254740992⟩ = .ok false ∧
    holds ⟨.int 9007199254740993, .isIn, .arr [.int 9007199254740992]⟩ = .ok true ∧
    (9007199254740993 : Int) > 9007199254740992 :=
  ⟨rfl, rfl, rfl, by decide⟩

end Condition
end Runbook

import Mathlib

/-!
# The order of doubles

Two doubles are compared once (`comparison`), and less, equal and at most are what that comparison
says. Turned round it says the opposite (`comparison_swap`), and where one of the two is "not a
number" it says nothing; so at least is greater or equal (`ge_iff`), and no two of less, greater and
equal hold at once (`not_lt_of_gt`, `not_lt_of_beq`).
-/

namespace Runbook.Decimal

open Float.Model

/-- How two doubles compare; not at all when one of them is "not a number". -/
def comparison (x y : Float) : Option Ordering := x.toModel.unpack.compare y.toModel.unpack

theorem unpacked_compare_swap (u v : UnpackedFloat) :
    u.compare v = (v.compare u).map Ordering.swap := by
  cases u with
  | notANumber => cases v <;> rfl
  | infinity s => cases s <;> cases v with
    | infinity t => cases t <;> rfl
    | _ => rfl
  | zero s => cases v with
    | infinity t | finite t => cases t <;> rfl
    | _ => rfl
  | finite s m e hm => cases s <;> cases v with
    | infinity t => cases t <;> rfl
    | finite t n f hn =>
      cases t <;> simp [UnpackedFloat.compare, Ordering.swap_then, Int.compare_swap,
        Nat.compare_swap]
    | _ => rfl

variable {x y : Float}

theorem comparison_swap (x y : Float) : comparison x y = (comparison y x).map Ordering.swap :=
  unpacked_compare_swap _ _

theorem lt_iff : x < y ↔ comparison x y = some .lt := by
  change decide ((comparison x y == some .lt) = true) = true ↔ _
  rw [decide_eq_true_iff, beq_iff_eq]

theorem le_iff : x ≤ y ↔ comparison x y = some .lt ∨ comparison x y = some .eq := by
  change decide ((comparison x y).any (·.isLE) = true) = true ↔ _
  rw [decide_eq_true_iff]
  cases comparison x y with
  | none => simp
  | some o => cases o <;> simp

theorem beq_iff : (x == y) = true ↔ comparison x y = some .eq := by
  change (comparison x y == some .eq) = true ↔ _
  exact beq_iff_eq

theorem gt_iff : x > y ↔ comparison x y = some .gt := by
  change y < x ↔ _
  rw [lt_iff, comparison_swap y x]
  cases comparison x y with
  | none => simp
  | some o => cases o <;> simp

/-- At least is greater or equal. -/
theorem ge_iff : x ≥ y ↔ x > y ∨ (x == y) = true := by
  change y ≤ x ↔ _
  rw [le_iff, gt_iff, beq_iff, comparison_swap y x]
  cases comparison x y with
  | none => simp
  | some o => cases o <;> simp

theorem le_iff_lt_or_beq : x ≤ y ↔ x < y ∨ (x == y) = true := by
  rw [le_iff, lt_iff, beq_iff]

theorem beq_comm (x y : Float) : (x == y) = (y == x) := by
  rw [Bool.eq_iff_iff, beq_iff, beq_iff, comparison_swap y x]
  cases comparison x y with
  | none => simp
  | some o => cases o <;> simp

theorem not_lt_of_gt (h : x > y) : ¬x < y := by
  rw [lt_iff, gt_iff.1 h]
  simp

theorem not_lt_self (x : Float) : ¬x < x := by
  intro h
  have hswap := comparison_swap x x
  rw [lt_iff.1 h] at hswap
  cases hswap

theorem not_lt_of_beq (h : (x == y) = true) : ¬x < y := by
  rw [lt_iff, beq_iff.1 h]
  simp

theorem not_gt_of_beq (h : (x == y) = true) : ¬x > y := by
  rw [gt_iff, beq_iff.1 h]
  simp

end Runbook.Decimal

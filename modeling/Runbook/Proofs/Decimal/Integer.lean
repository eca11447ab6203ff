import Mathlib
import Runbook.Proofs.Decimal.Nearest
import Runbook.Proofs.Decimal.Order

/-!
# Integers as doubles

`UnpackedStandsFor` says which integer an unpacked double stands for: its 53 digits times its power
of two. The conversion of an integer shifts its digits to the right and keeps of those that fall out
what rounding needs (`kept`), which is a division rounded to the nearest (`kept_roundedMantissa`);
so what comes out stands for the rounded integer (`roundWithAccuracy_standsFor`), packing keeps it
(`UnpackedStandsFor.pack`), and so does each way in which a number becomes a double
(`ofInt_standsFor`). Doubles compare as the integers that they stand for
(`StandsFor.comparison_eq`).
-/

namespace Runbook.Decimal

open Float.Model UnpackedFloat

/-- The integer that an unpacked double stands for. -/
inductive UnpackedStandsFor : UnpackedFloat → Int → Prop
  | zero (s : Sign) : UnpackedStandsFor (.zero s) 0
  | finite {m k n : Nat} (s : Sign) (hlow : 2 ^ 52 ≤ m) (hhigh : m < 2 ^ 53)
      (hvalue : m * 2 ^ k = n * 2 ^ 52) (hbound : n ≤ 2 ^ 64) (hm : 0 < m) :
      UnpackedStandsFor (.finite s m ((k : Int) - 52) hm) (s.apply n)

/-- The integer that a double stands for. -/
def StandsFor (f : Float) (x : Int) : Prop := UnpackedStandsFor f.toModel.unpack x

/-! ## Shifting -/

section
variable {M j : Nat}

/-- What is left of a number that is shifted to the right: of the digits that fall out the first,
and whether any other is set. -/
def kept (M j : Nat) : ExtendedMantissa where
  mantissa := M / 2 ^ j
  roundBit := decide (2 ^ j ≤ 2 * (M % 2 ^ j))
  stickyBit := decide (2 * (M % 2 ^ j) ≠ 0 ∧ 2 * (M % 2 ^ j) ≠ 2 ^ j)

theorem kept_zero (M : Nat) : kept M 0 = ⟨M, false, false⟩ := by
  simp [kept, Nat.mod_one]

theorem kept_shiftRightOne (M j : Nat) : (kept M j).shiftRightOne = kept M (j + 1) := by
  have hpos : 0 < 2 ^ j := Nat.two_pow_pos j
  have hlt : M % 2 ^ j < 2 ^ j := Nat.mod_lt _ hpos
  have hmod : M % 2 ^ (j + 1) = M % 2 ^ j + 2 ^ j * (M / 2 ^ j % 2) := Nat.mod_pow_succ
  have hdiv : M / 2 ^ (j + 1) = M / 2 ^ j / 2 := by rw [Nat.pow_succ, Nat.div_div_eq_div_mul]
  have hpow : 2 ^ (j + 1) = 2 * 2 ^ j := Nat.pow_succ'
  simp only [kept, ExtendedMantissa.shiftRightOne, hdiv, hmod, ExtendedMantissa.mk.injEq, true_and]
  rw [hpow]
  -- The digit that falls out decides both flags.
  rcases Nat.mod_two_eq_zero_or_one (M / 2 ^ j) with hbit | hbit <;> rw [hbit] <;>
    constructor <;> rw [Bool.eq_iff_iff] <;> simp <;> omega

theorem shiftRight_eq_kept (M j : Nat) :
    (⟨M, false, false⟩ : ExtendedMantissa) >>> j = kept M j := by
  change j.repeat ExtendedMantissa.shiftRightOne ⟨M, false, false⟩ = kept M j
  induction j with
  | zero => exact (kept_zero M).symm
  | succ j ih => rw [Nat.repeat, ih, kept_shiftRightOne]

theorem kept_roundedMantissa (M j : Nat) : (kept M j).roundedMantissa = roundDiv M (2 ^ j) := by
  have hpos : 0 < 2 ^ j := Nat.two_pow_pos j
  unfold roundDiv ExtendedMantissa.roundedMantissa kept
  rcases lt_trichotomy (2 * (M % 2 ^ j)) (2 ^ j) with hlt | heq | hgt
  · rw [if_pos hlt, decide_eq_false (by omega)]
    by_cases hzero : 2 * (M % 2 ^ j) = 0
    · rw [decide_eq_false (by omega)]
      rfl
    · rw [decide_eq_true (by omega)]
      rfl
  · rw [if_neg (by omega), if_pos heq, decide_eq_true (by omega), decide_eq_false (by omega)]
    rfl
  · rw [if_neg (by omega), if_neg (by omega), decide_eq_true (by omega), decide_eq_true (by omega)]
    rfl

/-! ## Rounding -/

theorem log2_eq_of_bounds {n k : Nat} (hlow : 2 ^ k ≤ n) (hhigh : n < 2 ^ (k + 1)) :
    n.log2 = k := by
  have hn : n ≠ 0 := (lt_of_lt_of_le (Nat.two_pow_pos k) hlow).ne'
  have hle := (Nat.le_log2 hn).2 hlow
  have hlt := (Nat.log2_lt hn).2 hhigh
  omega

theorem log2_mul_two_pow {n : Nat} (hn : n ≠ 0) (i : Nat) : (n * 2 ^ i).log2 = n.log2 + i := by
  refine log2_eq_of_bounds ?_ ?_
  · rw [Nat.pow_add]
    exact Nat.mul_le_mul_right _ (Nat.log2_self_le hn)
  · rw [show n.log2 + i + 1 = n.log2 + 1 + i by omega, Nat.pow_add]
    exact Nat.mul_lt_mul_of_pos_right Nat.lt_log2_self (Nat.two_pow_pos i)

theorem shiftToTargetExponent_eq {E : Int} (hlog : M.log2 = 52 + j) (hE : -1074 ≤ E + j) :
    shiftToTargetExponent .binary64 M E .exact = (kept M j, E + j) := by
  have htarget : Format.binary64.targetExponent (totalExponent M E) = E + j := by
    change max ((M.log2 : Int) + 1 + E - 53) (-1074) = E + j
    omega
  have hshift : (E + j - E).toNat = j := by omega
  simp only [shiftToTargetExponent, shiftToExponent, htarget, hshift]
  exact congrArg (·, E + (j : Int)) (shiftRight_eq_kept M j)

/-- Rounding up may give one digit too many, which the second shift takes away. -/
theorem exists_carried {R k n : Nat} (hlow : 2 ^ 52 ≤ R) (hhigh : R ≤ 2 ^ 53)
    (hvalue : R * 2 ^ k = n * 2 ^ 52) :
    ∃ em : ExtendedMantissa, ∃ k' : Nat,
      shiftToTargetExponent .binary64 R ((k : Int) - 52) .exact = (em, (k' : Int) - 52) ∧
      2 ^ 52 ≤ em.mantissa ∧ em.mantissa < 2 ^ 53 ∧ em.mantissa * 2 ^ k' = n * 2 ^ 52 := by
  rcases hhigh.lt_or_eq with hlt | rfl
  · refine ⟨kept R 0, k, ?_, ?_, ?_, ?_⟩
    · have hlog : R.log2 = 52 + 0 := log2_eq_of_bounds hlow hlt
      rw [shiftToTargetExponent_eq hlog (by omega)]
      simp
    all_goals simpa only [kept_zero]
  · have hmantissa : (kept (2 ^ 53) 1).mantissa = 2 ^ 52 := by decide
    refine ⟨kept (2 ^ 53) 1, k + 1, ?_, hmantissa.ge, by rw [hmantissa]; decide, ?_⟩
    · rw [shiftToTargetExponent_eq (j := 1) (by decide) (by omega)]
      congr 1
      omega
    · rw [hmantissa, ← hvalue]
      ring

/-- A number is rounded to what a division by a power of two, rounded to the nearest, gives. -/
theorem roundWithAccuracy_standsFor {E : Int} {k n : Nat} (s : Sign) (hlog : M.log2 = 52 + j)
    (hE : E + j = k - 52) (hvalue : roundDiv M (2 ^ j) * 2 ^ k = n * 2 ^ 52)
    (hbound : n ≤ 2 ^ 64) :
    UnpackedStandsFor (roundWithAccuracy .binary64 s M E .exact) (s.apply n) := by
  have hM : M ≠ 0 := by
    rintro rfl
    simp at hlog
    omega
  have hpos : 0 < 2 ^ j := Nat.two_pow_pos j
  have hlow : 2 ^ 52 ≤ roundDiv M (2 ^ j) := by
    refine le_trans ?_ (le_roundDiv _ _)
    rw [Nat.le_div_iff_mul_le hpos, ← Nat.pow_add, ← hlog]
    exact Nat.log2_self_le hM
  have hhigh : roundDiv M (2 ^ j) ≤ 2 ^ 53 := by
    refine (roundDiv_le _ _).trans (Nat.succ_le_of_lt ?_)
    rw [Nat.div_lt_iff_lt_mul hpos, ← Nat.pow_add, show 53 + j = M.log2 + 1 by omega]
    exact Nat.lt_log2_self
  obtain ⟨em, k', hcarry, hlow', hhigh', hvalue'⟩ := exists_carried hlow hhigh hvalue
  have hfinal : em.mantissa ≠ 0 := by omega
  have hresult : roundWithAccuracy .binary64 s M E .exact =
      .finite s em.mantissa ((k' : Int) - 52) (Nat.pos_of_ne_zero hfinal) := by
    simp only [roundWithAccuracy, shiftToTargetExponent_eq hlog (by omega : -1074 ≤ E + j),
      kept_roundedMantissa, hE, hcarry, dif_neg hfinal]
  rw [hresult]
  exact .finite s hlow' hhigh' hvalue' hbound _

end

/-! ## Packing -/

section
variable {u v : UnpackedFloat} {x y : Int} {n : Nat}

theorem unpack_packComponents {spec : Format} (s : Sign) {e : BitVec spec.exponentBits}
    (m : BitVec spec.mantissaBitsWithoutImplicit) (hones : e ≠ -1#_) (hzeros : e ≠ 0#_) :
    UnpackedFloat.unpack spec (packComponents spec s e m) =
      .finite s (1#1 ++ m).toNat
        ((e.toNat : Int) - (spec.exponentBias + spec.mantissaBitsWithoutImplicit)) (by simp) := by
  simp [UnpackedFloat.unpack, hones, hzeros]

theorem unpack_pack_finite {m k : Nat} (s : Sign) (hlow : 2 ^ 52 ≤ m) (hhigh : m < 2 ^ 53)
    (hk : k < 1024) (hm : 0 < m) :
    (Float.Model.pack (.finite s m ((k : Int) - 52) hm)).unpack =
      .finite s m ((k : Int) - 52) hm := by
  have hlog : m.log2 = 52 := log2_eq_of_bounds hlow hhigh
  have hbiased : ((k : Int) - 52 + 1023 + 52).toNat = k + 1023 := by omega
  have hpack : UnpackedFloat.pack .binary64 (.finite s m ((k : Int) - 52) hm) =
      packComponents .binary64 s (BitVec.ofNat 11 (k + 1023)) (BitVec.ofNat 52 m) := by
    change (if 2 ^ 11 ≤ ((k : Int) - 52 + 1023 + 52).toNat + 1 then _
      else if m.log2 + 1 = 53 then
        packComponents .binary64 s (BitVec.ofNat 11 ((k : Int) - 52 + 1023 + 52).toNat)
          (BitVec.ofNat 52 m)
      else _) = _
    rw [hbiased, if_neg (by omega), if_pos (by omega)]
  have hexponent : (BitVec.ofNat 11 (k + 1023)).toNat = k + 1023 :=
    Nat.mod_eq_of_lt (by omega)
  have hmantissa : (1#1 ++ BitVec.ofNat 52 m).toNat = m := by
    rw [BitVec.toNat_append, ← Nat.shiftLeft_add_eq_or_of_lt (BitVec.isLt _)]
    simp only [BitVec.toNat_ofNat, Nat.shiftLeft_eq]
    omega
  have hones : BitVec.ofNat 11 (k + 1023) ≠ -1#11 := by
    intro h
    have := congrArg BitVec.toNat h
    rw [hexponent] at this
    simp at this
    omega
  have hzeros : BitVec.ofNat 11 (k + 1023) ≠ 0#11 := by
    intro h
    have := congrArg BitVec.toNat h
    rw [hexponent] at this
    simp at this
  have hunbiased : ((k + 1023 : Nat) : Int) - (1023 + 52) = (k : Int) - 52 := by omega
  change UnpackedFloat.unpack .binary64 (UnpackedFloat.pack .binary64 _) = _
  rw [hpack, unpack_packComponents s _ hones hzeros, finite.injEq, hexponent]
  exact ⟨rfl, hmantissa, hunbiased⟩

theorem UnpackedStandsFor.pack (h : UnpackedStandsFor u x) :
    UnpackedStandsFor (Float.Model.pack u).unpack x := by
  cases h with
  | zero s =>
    rw [show (Float.Model.pack (.zero s)).unpack = .zero s from unpack_packedZero]
    exact .zero s
  | @finite m k n s hlow hhigh hvalue hbound hm =>
    have hk : k < 1024 := by
      by_contra hk
      have hpow : 2 ^ 65 ≤ 2 ^ k := Nat.pow_le_pow_right two_pos (by omega)
      have hmul : 2 ^ 52 * 2 ^ 65 ≤ m * 2 ^ k := Nat.mul_le_mul hlow hpow
      rw [hvalue] at hmul
      omega
    rw [unpack_pack_finite s hlow hhigh hk]
    exact .finite s hlow hhigh hvalue hbound hm

theorem UnpackedStandsFor.neg (h : UnpackedStandsFor u x) : UnpackedStandsFor u.neg (-x) := by
  cases h with
  | zero s => exact .zero (-s)
  | @finite m k n s hlow hhigh hvalue hbound hm =>
    have hneg : -s.apply n = (-s).apply n := by
      cases s with
      | negative => exact neg_neg _
      | positive => rfl
    rw [hneg]
    exact .finite (-s) hlow hhigh hvalue hbound hm

/-! ## From integers -/

theorem roundedNat_le (h : n ≤ 2 ^ 64) : roundedNat n ≤ 2 ^ 64 :=
  (roundedNat_mono h).trans (by decide)

theorem roundDiv_shifted (n i : Nat) :
    roundDiv (n * 2 ^ (52 + i)) (2 ^ (n.log2 + i)) * 2 ^ n.log2 = roundedNat n * 2 ^ 52 := by
  rcases Nat.le_total n.log2 52 with hlog | hlog
  · have hsplit : n * 2 ^ (52 + i) = n * 2 ^ (52 - n.log2) * 2 ^ (n.log2 + i) := by
      rw [Nat.mul_assoc, ← Nat.pow_add]
      congr 2
      omega
    rw [hsplit, roundDiv_mul_self (Nat.two_pow_pos _), roundedNat_of_log2_le hlog, Nat.mul_assoc,
      ← Nat.pow_add]
    congr 2
    omega
  · have hsplit : 2 ^ (n.log2 + i) = 2 ^ (n.log2 - 52) * 2 ^ (52 + i) := by
      rw [← Nat.pow_add]
      congr 1
      omega
    rw [hsplit, roundDiv_mul_mul (Nat.two_pow_pos _), roundedNat, Nat.mul_assoc, ← Nat.pow_add]
    congr 2
    omega

/-! A number that is not small goes through the exact product with a power of ten. -/

theorem ofScientific_zero (hn : n ≠ 0) :
    UnpackedFloat.ofScientific .binary64 n 0 =
      roundWithAccuracy .binary64 .positive (n * 2 ^ (52 + 1)) (-(52 + 1 : Nat)) .exact := by
  have hshift : n <<< 53 * 10 ^ 0 = n * 2 ^ (52 + 1) := by
    rw [pow_zero, Nat.mul_one, Nat.shiftLeft_eq]
  have hlarge : ¬(0 : Int) < -(2 ^ 11 + (n.log2 : Int)) := by omega
  rw [← hshift]
  unfold UnpackedFloat.ofScientific
  rw [dif_neg hn, if_neg (by decide), if_neg hlarge, if_pos le_rfl]
  rfl

theorem ofScientific_standsFor (hn : n ≠ 0) (hbound : n ≤ 2 ^ 64) :
    UnpackedStandsFor (UnpackedFloat.ofScientific .binary64 n 0) (roundedNat n) := by
  rw [ofScientific_zero hn]
  refine roundWithAccuracy_standsFor (j := n.log2 + 1) (k := n.log2) .positive ?_ ?_
    (roundDiv_shifted n 1) (roundedNat_le hbound)
  · rw [log2_mul_two_pow hn]
    omega
  · push_cast
    omega

/-! A small number is moved up to its 53 digits and multiplied with `1`. -/

theorem ofNat_small (hn : n < 2 ^ 53) :
    UnpackedStandsFor (UnpackedFloat.ofNat .binary64 n) n := by
  rcases Nat.eq_zero_or_pos n with rfl | hpos
  · exact .zero _
  · have hlog : n.log2 ≤ 52 := Nat.le_of_lt_succ ((Nat.log2_lt hpos.ne').2 hn)
    have hcompare : compare (n : Int) 0 = .gt := Int.compare_eq_gt.2 (by omega)
    have htarget : Format.binary64.targetExponent (totalExponent n 0) = (n.log2 : Int) - 52 := by
      change max ((n.log2 : Int) + 1 + 0 - 53) (-1074) = _
      omega
    have hshift : (0 - ((n.log2 : Int) - 52)).toNat = 52 - n.log2 := by omega
    have hround : UnpackedFloat.ofNat .binary64 n =
        roundWithAccuracy .binary64 .positive (n * 2 ^ (52 - n.log2)) (0 - (52 - n.log2 : Nat))
          .exact := by
      simp only [UnpackedFloat.ofNat, UnpackedFloat.ofInt, UnpackedFloat.normalize, hcompare,
        Int.toNat_natCast, UnpackedFloat.round, htarget, decreaseExponent, hshift,
        Nat.shiftLeft_eq]
    rw [hround]
    refine roundWithAccuracy_standsFor (j := 0) (k := n.log2) .positive ?_ ?_ ?_ (by omega)
    · rw [log2_mul_two_pow hpos.ne']
      omega
    · omega
    · have hself := roundDiv_mul_self one_pos (n * 2 ^ (52 - n.log2))
      rw [Nat.mul_one] at hself
      rw [pow_zero, hself, Nat.mul_assoc, ← Nat.pow_add]
      congr 2
      omega

/-- The double `1`, unpacked. -/
def unpackedOne : UnpackedFloat := .finite .positive (2 ^ 52) (-52) (by decide)

theorem unpack_pack_one : (Float.Model.pack unpackedOne).unpack = unpackedOne := rfl

theorem UnpackedStandsFor.mul_one (h : UnpackedStandsFor u x) :
    UnpackedStandsFor (UnpackedFloat.mul .binary64 u unpackedOne) x := by
  cases h with
  | zero s => exact .zero _
  | @finite m k n s hlow hhigh hvalue hbound hm =>
    have hsign : s * .positive = s := by cases s <;> rfl
    change UnpackedStandsFor (roundWithAccuracy .binary64 (s * .positive) (m * 2 ^ 52)
      ((k : Int) - 52 + -52) .exact) _
    rw [hsign]
    refine roundWithAccuracy_standsFor (j := 52) (k := k) s ?_ ?_ ?_ hbound
    · rw [log2_mul_two_pow hm.ne', log2_eq_of_bounds hlow hhigh]
    · omega
    · rw [roundDiv_mul_self (Nat.two_pow_pos _), hvalue]

theorem toModel_ofNat_small (hn : n < 2 ^ 53) :
    (Float.ofNat n).toModel = (Float.Model.ofNat n).mul (Float.Model.pack unpackedOne) := by
  have hcond : n < 2 ^ 53 ∧ 0 ≤ 22 := ⟨hn, by omega⟩
  have hone : (Float.ofBits 0x3FF0000000000000).toModel = Float.Model.pack unpackedOne := by
    decide
  have hnat : n.toUInt64.toNat = n := UInt64.toNat_ofNat_of_lt' (by change n < 2 ^ 64; omega)
  change (Float.ofScientific n false 0).toModel = _
  rw [Float.ofScientific, dif_pos hcond]
  change (Float.Model.ofNat n.toUInt64.toNat).mul (Float.ofBits 0x3FF0000000000000).toModel = _
  rw [hnat, hone]

theorem toModel_ofNat_large (hn : 2 ^ 53 ≤ n) :
    (Float.ofNat n).toModel = Float.Model.ofScientific n 0 := by
  have hcond : ¬(n < 2 ^ 53 ∧ 0 ≤ 22) := by omega
  change (Float.ofScientific n false 0).toModel = _
  rw [Float.ofScientific, dif_neg hcond]
  rfl

theorem ofNat_standsFor (hn : n ≤ 2 ^ 64) : StandsFor (Float.ofNat n) (roundedNat n) := by
  unfold StandsFor
  by_cases hsmall : n < 2 ^ 53
  · have hone := (ofNat_small hsmall).pack.mul_one
    rw [toModel_ofNat_small hsmall, roundedNat_eq_self hsmall.le, Float.Model.mul, unpack_pack_one]
    exact hone.pack
  · rw [toModel_ofNat_large (by omega)]
    exact (ofScientific_standsFor (by omega) hn).pack

theorem StandsFor.neg {f : Float} (h : StandsFor f x) : StandsFor (-f) (-x) :=
  (UnpackedStandsFor.neg h).pack

/-- **The double made from an integer** stands for the rounded integer. -/
theorem ofInt_standsFor (hx : x.natAbs ≤ 2 ^ 64) : StandsFor (Float.ofInt x) (rounded x) := by
  cases x with
  | ofNat n => exact ofNat_standsFor hx
  | negSucc n => exact (ofNat_standsFor (n := n + 1) hx).neg

end

/-! ## Comparing -/

section
variable {m m' k k' n n' : Nat}

theorem lt_of_exponent_lt (hhigh : m < 2 ^ 53) (hvalue : m * 2 ^ k = n * 2 ^ 52)
    (hlow' : 2 ^ 52 ≤ m') (hvalue' : m' * 2 ^ k' = n' * 2 ^ 52) (hk : k < k') : n < n' := by
  refine Nat.lt_of_mul_lt_mul_right (a := 2 ^ 52) ?_
  calc n * 2 ^ 52 = m * 2 ^ k := hvalue.symm
    _ < 2 ^ 53 * 2 ^ k := Nat.mul_lt_mul_of_pos_right hhigh (Nat.two_pow_pos k)
    _ = 2 ^ 52 * 2 ^ (k + 1) := by ring
    _ ≤ m' * 2 ^ k' := Nat.mul_le_mul hlow' (Nat.pow_le_pow_right two_pos hk)
    _ = n' * 2 ^ 52 := hvalue'

theorem lt_of_mantissa_lt (hvalue : m * 2 ^ k = n * 2 ^ 52) (hvalue' : m' * 2 ^ k = n' * 2 ^ 52)
    (hm : m < m') : n < n' := by
  refine Nat.lt_of_mul_lt_mul_right (a := 2 ^ 52) ?_
  rw [← hvalue, ← hvalue']
  exact Nat.mul_lt_mul_of_pos_right hm (Nat.two_pow_pos k)

/-- Of two numbers of 53 digits times a power of two, the powers decide first. -/
theorem compares_scaled (hlow : 2 ^ 52 ≤ m) (hhigh : m < 2 ^ 53) (hvalue : m * 2 ^ k = n * 2 ^ 52)
    (hlow' : 2 ^ 52 ≤ m') (hhigh' : m' < 2 ^ 53) (hvalue' : m' * 2 ^ k' = n' * 2 ^ 52) :
    ((compare ((k : Int) - 52) ((k' : Int) - 52)).then (compare m m')).Compares n n' := by
  rcases lt_trichotomy k k' with hk | rfl | hk
  · rw [Int.compare_eq_lt.2 (by omega)]
    exact lt_of_exponent_lt hhigh hvalue hlow' hvalue' hk
  · rw [Int.compare_eq_eq.2 rfl, Ordering.eq_then]
    rcases lt_trichotomy m m' with hm | rfl | hm
    · rw [Nat.compare_eq_lt.2 hm]
      exact lt_of_mantissa_lt hvalue hvalue' hm
    · rw [Nat.compare_eq_eq.2 rfl]
      exact Nat.eq_of_mul_eq_mul_right (Nat.two_pow_pos 52) (hvalue.symm.trans hvalue')
    · rw [Nat.compare_eq_gt.2 hm]
      exact lt_of_mantissa_lt hvalue' hvalue hm
  · rw [Int.compare_eq_gt.2 (by omega)]
    exact lt_of_exponent_lt hhigh' hvalue' hlow hvalue hk

theorem pos_of_scaled (hm : 0 < m) (hvalue : m * 2 ^ k = n * 2 ^ 52) : 0 < n := by
  have hpos : 0 < n * 2 ^ 52 := hvalue ▸ Nat.mul_pos hm (Nat.two_pow_pos k)
  exact Nat.pos_of_mul_pos_right hpos

theorem compare_natCast {o : Ordering} (h : o.Compares n n') : compare (n : Int) n' = o := by
  rw [compare_iff]
  cases o <;> simpa using h

theorem compare_neg_natCast {o : Ordering} (h : o.Compares n n') :
    compare (-n : Int) (-n') = o.swap := by
  rw [compare_iff]
  cases o <;> simpa using h

end

section
variable {u v : UnpackedFloat} {f g : Float} {x y : Int}

theorem UnpackedStandsFor.compare_eq (hu : UnpackedStandsFor u x) (hv : UnpackedStandsFor v y) :
    u.compare v = some (compare x y) := by
  cases hu with
  | zero s => cases hv with
    | zero t => rfl
    | @finite m k n t hlow hhigh hvalue hbound hm =>
      have hn := pos_of_scaled hm hvalue
      cases t with
      | negative => exact congrArg some (Int.compare_eq_gt.2 (by simpa [Sign.apply])).symm
      | positive => exact congrArg some (Int.compare_eq_lt.2 (by simpa [Sign.apply])).symm
  | @finite m k n s hlow hhigh hvalue hbound hm =>
    have hn := pos_of_scaled hm hvalue
    cases hv with
    | zero t => cases s with
      | negative => exact congrArg some (Int.compare_eq_lt.2 (by simpa [Sign.apply])).symm
      | positive => exact congrArg some (Int.compare_eq_gt.2 (by simpa [Sign.apply])).symm
    | @finite m' k' n' t hlow' hhigh' hvalue' hbound' hm' =>
      have hn' := pos_of_scaled hm' hvalue'
      have hcompares := compares_scaled hlow hhigh hvalue hlow' hhigh' hvalue'
      cases s <;> cases t <;> refine congrArg some ?_
      case positive.positive => exact (compare_natCast hcompares).symm
      case negative.negative => exact (compare_neg_natCast hcompares).symm
      case negative.positive => exact (Int.compare_eq_lt.2 (by simp [Sign.apply]; omega)).symm
      case positive.negative => exact (Int.compare_eq_gt.2 (by simp [Sign.apply]; omega)).symm

/-- **Doubles compare** as the integers that they stand for. -/
theorem StandsFor.comparison_eq (hf : StandsFor f x) (hg : StandsFor g y) :
    comparison f g = some (compare x y) :=
  UnpackedStandsFor.compare_eq hf hg

theorem StandsFor.lt_iff (hf : StandsFor f x) (hg : StandsFor g y) : f < g ↔ x < y := by
  rw [Decimal.lt_iff, hf.comparison_eq hg, Option.some_inj, Int.compare_eq_lt]

theorem StandsFor.beq_iff (hf : StandsFor f x) (hg : StandsFor g y) : (f == g) = true ↔ x = y := by
  rw [Decimal.beq_iff, hf.comparison_eq hg, Option.some_inj, Int.compare_eq_eq]

theorem StandsFor.le_iff (hf : StandsFor f x) (hg : StandsFor g y) : f ≤ g ↔ x ≤ y := by
  rw [le_iff_lt_or_beq, hf.lt_iff hg, hf.beq_iff hg, Int.le_iff_lt_or_eq]

end
end Runbook.Decimal

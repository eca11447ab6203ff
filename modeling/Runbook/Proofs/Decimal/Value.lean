import Mathlib
import Runbook.Decimal.Exact
import Runbook.Decimal.Parse
import Runbook.Proofs.Decimal.Integer

/-!
# The number that a double is

A finite double is a rational number (`value?`), and its bits say which: `exactOfBits` reads the
same number off them as the arithmetic of doubles does (`exactOfBits_ratio`). So the integer part
that is computed from the bits is this number without its fraction (`truncate_eq`), and bringing it
into the 64-bit range changes only what does not fit (`toInt64_of_value`). The bits leave out the
sign, so of a double that is not below zero they tell the number itself (`exactOfBits_eq`).
-/

namespace Runbook.Decimal

open Float.Model UnpackedFloat

/-- The rational number that an unpacked double is, when it is finite. -/
def unpackedValue? : UnpackedFloat → Option ℚ
  | .zero _ => some 0
  | .finite s m e _ => some ((s.apply m : ℤ) * (2 : ℚ) ^ e)
  | _ => none

/-- The rational number that a double is, when it is finite. -/
def value? (x : Float) : Option ℚ := unpackedValue? x.toModel.unpack

/-- A number without its fraction. -/
def wholePart (q : ℚ) : ℤ := if q < 0 then ⌈q⌉ else ⌊q⌋

section
variable {x : Float} {q : ℚ} {n : ℤ} {s : Sign} {m : Nat} {e : ℤ} {hm : 0 < m} {u : UnpackedFloat}

theorem wholePart_intCast (n : ℤ) : wholePart n = n := by
  unfold wholePart
  split <;> simp

theorem wholePart_natCast_div (a b : ℕ) : wholePart ((a : ℚ) / b) = (a / b : ℕ) := by
  rw [wholePart, if_neg (not_lt.2 (by positivity)), Rat.floor_natCast_div_natCast]
  rfl

theorem wholePart_neg (q : ℚ) : wholePart (-q) = -wholePart q := by
  unfold wholePart
  rcases lt_trichotomy q 0 with hq | rfl | hq
  · rw [if_pos hq, if_neg (by simpa using hq.le), Int.floor_neg]
  · simp
  · rw [if_neg (not_lt.2 hq.le), if_pos (by simpa using hq), Int.ceil_neg]

/-! ## The fields of the bits -/

theorem exponent_field (w : UInt64) : ((w >>> 52) &&& 0x7ff).toNat =
    (@unpackExponent .binary64 w.toBitVec).toNat := by
  change w.toNat >>> 52 &&& (2 ^ 11 - 1) = (w.toNat >>> 52) % 2 ^ 11
  rw [Nat.and_two_pow_sub_one_eq_mod]

theorem fraction_field (w : UInt64) : (w &&& 0xfffffffffffff).toNat =
    (@unpackMantissa .binary64 w.toBitVec).toNat := by
  change w.toNat &&& (2 ^ 52 - 1) = (w.toNat >>> 0) % 2 ^ 52
  rw [Nat.and_two_pow_sub_one_eq_mod, Nat.shiftRight_zero]

theorem sign_field (w : UInt64) : (w >>> 63 == 1) = true ↔
    Sign.ofBitVec (@unpackSign .binary64 w.toBitVec) = .negative := by
  have hlt := w.toNat_lt
  have hshift : (w >>> 63).toNat = w.toNat / 2 ^ 63 := Nat.shiftRight_eq_div_pow _ _
  have hsign : (@unpackSign .binary64 w.toBitVec).toNat = w.toNat / 2 ^ 63 := by
    change (w.toNat >>> 63) % 2 ^ 1 = _
    rw [Nat.shiftRight_eq_div_pow]
    omega
  rw [beq_iff_eq, ← UInt64.toNat_inj, hshift, Sign.ofBitVec]
  by_cases hzero : @unpackSign .binary64 w.toBitVec = 0#1
  · rw [if_pos hzero]
    rw [hzero] at hsign
    exact iff_of_false (hsign ▸ by decide) nofun
  · rw [if_neg hzero]
    have hne : w.toNat / 2 ^ 63 ≠ 0 := fun h => hzero (BitVec.eq_of_toNat_eq (hsign.trans h))
    exact iff_of_true (show w.toNat / 2 ^ 63 = 1 by omega) rfl

/-- The exponent of a double, as its bits hold it. -/
def exponentField (x : Float) : Nat := ((x.toBits >>> 52) &&& 0x7ff).toNat

/-- The fraction of a double, as its bits hold it. -/
def fractionField (x : Float) : Nat := (x.toBits &&& 0xfffffffffffff).toNat

/-- The digits of a finite double, with the first one that normal doubles do not write. -/
def mantissaOf (x : Float) : Nat :=
  if exponentField x = 0 then fractionField x else fractionField x + 2 ^ 52

/-- The power of two of a finite double. -/
def exponentOf (x : Float) : ℤ := (if exponentField x = 0 then 1 else (exponentField x : ℤ)) - 1075

theorem isNegative_iff : isNegative x = true ↔
    Sign.ofBitVec (@unpackSign .binary64 x.toBits.toBitVec) = .negative :=
  sign_field x.toBits

/-- The parts of an unpacked double that is finite are made of the fields of its bits. -/
theorem fields_of_finite (h : x.toModel.unpack = .finite s m e hm) :
    (isNegative x = true ↔ s = .negative) ∧ m = mantissaOf x ∧ e = exponentOf x := by
  have hexponent : (@unpackExponent .binary64 x.toBits.toBitVec).toNat =
      exponentField x := (exponent_field x.toBits).symm
  have hfraction : (@unpackMantissa .binary64 x.toBits.toBitVec).toNat =
      fractionField x := (fraction_field x.toBits).symm
  rw [isNegative_iff, mantissaOf, exponentOf]
  change UnpackedFloat.unpack .binary64 x.toBits.toBitVec = _ at h
  unfold UnpackedFloat.unpack at h
  dsimp only at h
  split at h
  · split at h <;> cases h
  · split at h
    · rename_i hzero
      have hfield : exponentField x = 0 := by
        rw [← hexponent, hzero]
        rfl
      split at h
      · cases h
      · cases h
        refine ⟨Iff.rfl, ?_, ?_⟩
        · rw [if_pos hfield, hfraction]
        · rw [if_pos hfield, hexponent, hfield]
          rfl
    · rename_i hzero
      have hfield : exponentField x ≠ 0 := fun h =>
        hzero (BitVec.eq_of_toNat_eq (hexponent.trans h))
      cases h
      refine ⟨Iff.rfl, ?_, ?_⟩
      · rw [if_neg hfield, BitVec.toNat_append, ← Nat.shiftLeft_add_eq_or_of_lt (BitVec.isLt _),
          hfraction, Nat.add_comm]
        rfl
      · rw [if_neg hfield, hexponent]
        rfl

theorem mantissaOf_zero (h : x.toModel.unpack = .zero s) : mantissaOf x = 0 := by
  rw [mantissaOf, exponentField, fractionField, exponent_field, fraction_field]
  change UnpackedFloat.unpack .binary64 x.toBits.toBitVec = _ at h
  unfold UnpackedFloat.unpack at h
  dsimp only at h
  split at h
  · split at h <;> cases h
  · split at h
    · rename_i hexponent
      split at h
      · rename_i hfraction
        rw [hexponent, hfraction]
        rfl
      · cases h
    · cases h

/-! ## The exact value -/

theorem exactOfBits_den (x : Float) : (exactOfBits x.toBits).den =
    if exponentOf x ≥ 0 then 4 else 4 * 2 ^ (-exponentOf x).toNat := by
  simp [exactOfBits, exponentOf, exponentField]

/-- The exact value that is read off the bits is the digits times the power of two. -/
theorem exactOfBits_ratio (x : Float) :
    ((exactOfBits x.toBits).num : ℚ) / (exactOfBits x.toBits).den =
      mantissaOf x * (2 : ℚ) ^ exponentOf x := by
  have hnum : (exactOfBits x.toBits).num =
      4 * mantissaOf x * (if exponentOf x ≥ 0 then 2 ^ (exponentOf x).toNat else 1) := by
    simp [exactOfBits, mantissaOf, exponentOf, exponentField, fractionField]
  rw [hnum, exactOfBits_den]
  by_cases he : exponentOf x ≥ 0
  · obtain ⟨k, hk⟩ := Int.eq_ofNat_of_zero_le he
    rw [if_pos he, if_pos he, hk]
    push_cast
    rw [Int.toNat_natCast, zpow_natCast]
    field_simp
  · obtain ⟨k, hk⟩ := Int.eq_ofNat_of_zero_le (show 0 ≤ -exponentOf x by omega)
    rw [if_neg he, if_neg he, hk, show exponentOf x = -(k : ℤ) by omega, zpow_neg, zpow_natCast,
      Int.toNat_natCast]
    push_cast
    field_simp

theorem natCast_truncated (x : Float) :
    (((exactOfBits x.toBits).num / (exactOfBits x.toBits).den : Nat) : ℤ) =
      wholePart (mantissaOf x * (2 : ℚ) ^ exponentOf x) := by
  rw [← exactOfBits_ratio, wholePart_natCast_div]

/-- **The integer part** of a finite double is its number without the fraction. -/
theorem truncate_eq (h : value? x = some q) : truncate x = wholePart q := by
  unfold value? at h
  rw [truncate, natCast_truncated]
  cases hu : x.toModel.unpack with
  | zero s =>
    rw [hu] at h
    obtain rfl : 0 = q := Option.some.inj h
    rw [mantissaOf_zero hu]
    simp [wholePart]
  | finite s m e hm =>
    obtain ⟨hnegative, rfl, rfl⟩ := fields_of_finite hu
    rw [hu] at h
    obtain rfl := Option.some.inj h
    cases s with
    | negative =>
      rw [if_pos (hnegative.2 rfl), ← wholePart_neg]
      congr 1
      simp [Sign.apply]
    | positive =>
      have hpositive : ¬isNegative x = true := by simp [hnegative]
      rw [if_neg hpositive]
      simp [Sign.apply]
  | infinity s =>
    rw [hu] at h
    cases h
  | notANumber =>
    rw [hu] at h
    cases h

/-! ## Below zero and not -/

/-- A finite double is zero, or has a sign, digits and a power of two. -/
theorem unpack_of_value (h : value? x = some q) : (∃ s, x.toModel.unpack = .zero s ∧ q = 0) ∨
    ∃ s m e, ∃ hm : 0 < m, x.toModel.unpack = .finite s m e hm ∧
      q = (s.apply m : ℤ) * (2 : ℚ) ^ e := by
  unfold value? at h
  cases hu : x.toModel.unpack with
  | zero s =>
    rw [hu] at h
    exact .inl ⟨s, rfl, (Option.some.inj h).symm⟩
  | finite s m e hm =>
    rw [hu] at h
    exact .inr ⟨s, m, e, hm, rfl, (Option.some.inj h).symm⟩
  | infinity s | notANumber =>
    rw [hu] at h
    cases h

theorem unpack_zero : ∃ s, (0.0 : Float).toModel.unpack = .zero s := by
  have h : value? 0.0 = some 0 := by decide +kernel
  rcases unpack_of_value h with ⟨s, hs, -⟩ | ⟨s, m, e, hm, -, hq⟩
  · exact ⟨s, hs⟩
  · have hdigits : ((s.apply m : ℤ) : ℚ) ≠ 0 := by cases s <;> simp [Sign.apply, hm.ne']
    exact absurd hq.symm (mul_ne_zero hdigits (by positivity))

/-- A finite double is below zero when its number is. -/
theorem lt_zero_iff (h : value? x = some q) : x < 0.0 ↔ q < 0 := by
  obtain ⟨z, hz⟩ := unpack_zero
  rw [lt_iff, comparison, hz]
  rcases unpack_of_value h with ⟨s, hs, rfl⟩ | ⟨s, m, e, hm, hs, rfl⟩
  · rw [hs]
    simp [UnpackedFloat.compare]
  · have hpos : (0 : ℚ) < (m : ℚ) * 2 ^ e := by positivity
    rw [hs]
    cases s with
    | negative => exact iff_of_true rfl (by simpa [Sign.apply] using hpos)
    | positive => exact iff_of_false (fun hlt => by cases hlt) (by simpa [Sign.apply] using hpos.le)

/-- Of a double that is not below zero the bits tell the number itself. -/
theorem exactOfBits_eq (h : value? x = some q) (hq : 0 ≤ q) :
    ((exactOfBits x.toBits).num : ℚ) / (exactOfBits x.toBits).den = q := by
  rw [exactOfBits_ratio]
  rcases unpack_of_value h with ⟨s, hs, rfl⟩ | ⟨s, m, e, hm, hs, rfl⟩
  · simp [mantissaOf_zero hs]
  · obtain ⟨-, rfl, rfl⟩ := fields_of_finite hs
    cases s with
    | positive => simp [Sign.apply]
    | negative =>
      have hpos : (0 : ℚ) < (mantissaOf x : ℚ) * 2 ^ exponentOf x := by positivity
      rw [Sign.apply] at hq
      push_cast at hq
      linarith

theorem exactOfBits_den_pos (x : Float) : 0 < (exactOfBits x.toBits).den := by
  rw [exactOfBits_den]
  split <;> positivity

/-! ## In the 64-bit range -/

/-- The integer of the signed 64-bit range that is nearest to an integer. -/
def toRange (n : ℤ) : ℤ := clamp minInt64 maxInt64 n

theorem toRange_eq_self (h : minInt64 ≤ n ∧ n ≤ maxInt64) : toRange n = n := by
  rw [toRange, clamp, if_neg (Int.not_lt.2 h.1), if_neg (Int.not_lt.2 h.2)]

theorem toRange_mem (n : ℤ) : minInt64 ≤ toRange n ∧ toRange n ≤ maxInt64 := by
  have hle : minInt64 ≤ maxInt64 := by decide
  unfold toRange clamp
  split_ifs <;> omega

/-- A double is a number unless it is infinite or "not a number". -/
theorem value?_isSome : (value? x).isSome = true ↔ x.isNaN = false ∧ x.isInf = false := by
  change _ ↔ x.toModel.unpack.isNaN = false ∧ x.toModel.unpack.isInf = false
  unfold value?
  cases x.toModel.unpack <;>
    simp [unpackedValue?, UnpackedFloat.isNaN, UnpackedFloat.isInf]

theorem exponent_eq_iff (w : UInt64) : ((w >>> 52) &&& 0x7ff) = 2047 ↔
    @unpackExponent .binary64 w.toBitVec = -1#11 := by
  rw [← UInt64.toNat_inj, exponent_field, ← BitVec.toNat_inj]
  rfl

/-- The exponent of a double is all ones when it is infinite or "not a number". -/
theorem isFinite_eq (x : Float) : isFinite x = !(x.isNaN || x.isInf) := by
  have hf : x.isNaN = (UnpackedFloat.unpack Format.binary64 x.toBits.toBitVec).isNaN := rfl
  have hi : x.isInf = (UnpackedFloat.unpack Format.binary64 x.toBits.toBitVec).isInf := rfl
  have hexp := exponent_eq_iff x.toBits
  rw [hf, hi, UnpackedFloat.unpack, isFinite]
  dsimp only
  by_cases h : @unpackExponent Format.binary64 x.toBits.toBitVec = -1#11
  · rw [if_pos h, hexp.2 h]
    split <;> rfl
  · have hb : ((x.toBits >>> 52 &&& 2047) != 2047) = true := by simpa using mt hexp.1 h
    rw [if_neg h, hb]
    split
    · split <;> rfl
    · rfl

theorem isFinite_iff : isFinite x = true ↔ (value? x).isSome = true := by
  rw [value?_isSome, isFinite_eq, Bool.not_eq_true', Bool.or_eq_false_iff]

theorem toInt64_of_value (h : value? x = some q) : toInt64 x = toRange (wholePart q) := by
  obtain ⟨hnan, hinf⟩ := value?_isSome.1 (Option.isSome_of_mem h)
  rw [toInt64, toIntClamped, hnan, hinf, ← truncate_eq h]
  rfl

/-- What is no number becomes zero or an end of the range. -/
theorem toInt64_of_no_value (h : value? x = none) : toInt64 x =
    if x.isNaN then 0 else if isNegative x then minInt64 else maxInt64 := by
  have hinf : ¬(x.isNaN = false ∧ x.isInf = false) := by
    rw [← value?_isSome, h]
    simp
  rw [toInt64, toIntClamped]
  by_cases hnan : x.isNaN = true
  · rw [if_pos hnan, if_pos hnan]
  · have hinfinite : x.isInf = true := by
      by_contra hfinite
      exact hinf ⟨Bool.eq_false_iff.2 hnan, Bool.eq_false_iff.2 hfinite⟩
    rw [if_neg hnan, if_neg hnan, if_pos hinfinite]
    rfl

theorem toInt64_mem (x : Float) : minInt64 ≤ toInt64 x ∧ toInt64 x ≤ maxInt64 := by
  cases h : value? x with
  | some q =>
    rw [toInt64_of_value h]
    exact toRange_mem _
  | none =>
    rw [toInt64_of_no_value h]
    split_ifs <;> decide

/-- A double that stands for an integer is this number. -/
theorem StandsFor.value (h : StandsFor x n) : value? x = some (n : ℚ) := by
  unfold value?
  unfold StandsFor at h
  generalize x.toModel.unpack = u at h
  cases h with
  | zero s => simp [unpackedValue?]
  | @finite m k n s hlow hhigh hvalue hbound hm =>
    have hscaled : (m : ℚ) * 2 ^ ((k : ℤ) - 52) = n := by
      have hcast : (m : ℚ) * 2 ^ k = n * 2 ^ 52 := by exact_mod_cast hvalue
      rw [zpow_sub₀ two_ne_zero, zpow_natCast, ← mul_div_assoc, hcast]
      norm_num
    rw [unpackedValue?, Option.some_inj]
    cases s with
    | negative => simp [Sign.apply, ← hscaled]
    | positive => simp [Sign.apply, ← hscaled]

end
end Runbook.Decimal

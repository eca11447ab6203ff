import Runbook.Decimal.Shortest

/-!
# Exact arithmetic on doubles

The integer part of a double, the remainder of a division and the conversion to 64-bit integers,
computed on the exact value of the double.
-/

namespace Runbook.Decimal

/-- Whether the sign bit is set. -/
def isNegative (x : Float) : Bool := x.toBits >>> 63 == 1

/-- Whether the double is neither infinite nor "not a number". -/
def isFinite (x : Float) : Bool := ((x.toBits >>> 52) &&& 0x7ff) != 2047

/-- The integer part of a finite double, toward zero. -/
def truncate (x : Float) : Int :=
  let e := exactOfBits x.toBits
  let n : Int := (e.num / e.den : Nat)
  if isNegative x then -n else n

/-- An integer brought into a range. -/
def clamp (lo hi i : Int) : Int := if i < lo then lo else if hi < i then hi else i

/-- The double as an integer of a range, toward zero: the nearest end for values outside it, and
zero for "not a number". -/
def toIntClamped (lo hi : Int) (x : Float) : Int :=
  if x.isNaN then 0
  else if x.isInf then (if isNegative x then lo else hi)
  else clamp lo hi (truncate x)

/-- The double as a signed 64-bit integer, toward zero and clamped. -/
def toInt64 (x : Float) : Int :=
  toIntClamped (-9223372036854775808) 9223372036854775807 x

/-- The factors of two of a positive number, at most `fuel` of them, and what is left. -/
def splitTwos : Nat → Nat → Nat × Nat
  | 0, n => (0, n)
  | fuel + 1, n =>
    if n % 2 == 0 && n != 0 then
      let (k, m) := splitTwos fuel (n / 2)
      (k + 1, m)
    else (0, n)

/-- The double `num / 2^k`, exact when it is representable. -/
def ofDyadic (num k : Nat) : Float :=
  let (t, m) := splitTwos (num.log2 + 1) num
  (Float.ofNat m).scaleB ((t : Int) - (k : Int))

/-- The remainder of a division of doubles, with the sign of the dividend. -/
def remainder (a b : Float) : Float :=
  if a.isNaN || b.isNaN || a.isInf || b == 0.0 then 0.0 / 0.0
  else if b.isInf then a
  else
    let x := exactOfBits a.toBits
    let y := exactOfBits b.toBits
    let r := (x.num * y.den) % (y.num * x.den)
    let f := ofDyadic r (x.den * y.den).log2
    if isNegative a then -f else f

/-- The quotient of doubles rounded so that the remainder is not negative. -/
def floorQuotient (a b : Float) : Float :=
  let q := a / b
  let q := if q.isNaN || q.isInf then q
    else if q < 0.0 then q.ceil else q.floor
  if remainder a b < 0.0 then (if b > 0.0 then q - 1.0 else q + 1.0) else q

end Runbook.Decimal

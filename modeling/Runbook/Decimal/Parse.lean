/-!
# Reading decimal numbers

The texts that stand for an integer of a given range and for a double. A double may have a sign, a
point with digits on at least one side and an exponent, or be one of the words for infinity and
for "not a number" in any case; it is rounded to the nearest double, and to infinity when it is too
large.
-/

namespace Runbook.Decimal

/-- The value of a list of decimal digits, none when it is empty or holds anything else. -/
def natOfDigits? (cs : List Char) : Option Nat :=
  match cs with
  | [] => none
  | _ => cs.foldl (fun acc c => acc.bind fun n =>
      if c.isDigit then some (n * 10 + (c.toNat - 48)) else none) (some 0)

/-- An integer with an optional sign. -/
def int? (cs : List Char) : Option Int :=
  match cs with
  | '-' :: r => (natOfDigits? r).map fun n => -(n : Int)
  | '+' :: r => (natOfDigits? r).map fun n => (n : Int)
  | r => (natOfDigits? r).map fun n => (n : Int)

/-- The least and the greatest integer of the signed 64-bit range. -/
def minInt64 : Int := -9223372036854775808

/-- The greatest integer of the signed 64-bit range. -/
def maxInt64 : Int := 9223372036854775807

/-- An integer of the signed 64-bit range with an optional sign. -/
def int64? (cs : List Char) : Option Int :=
  (int? cs).bind fun i => if minInt64 ≤ i && i ≤ maxInt64 then some i else none

/-- The double nearest to `significand · 10^exponent`; `digits` is the number of digits of the
significand and keeps the powers of ten that are computed small. -/
def nearest (significand : Nat) (digits : Nat) (exponent : Int) : Float :=
  if significand == 0 then 0.0
  else if (digits : Int) + exponent > 400 then 1.0 / 0.0
  else if (digits : Int) + exponent < -400 then 0.0
  else if exponent ≥ 0 then Float.ofScientific (significand * Nat.pow 10 exponent.toNat) false 0
  else Float.ofScientific significand true exponent.natAbs

/-- The exponent after `e`. -/
def exponent? (cs : List Char) : Option Int := int? cs

/-- Digits with an optional point among them: the digits, and how many stand after the point. -/
def mantissa? (cs : List Char) : Option (List Char × Nat) :=
  let whole := cs.takeWhile Char.isDigit
  match cs.dropWhile Char.isDigit with
  | [] => if whole.isEmpty then none else some (whole, 0)
  | '.' :: r =>
    if r.all Char.isDigit && !(whole.isEmpty && r.isEmpty) then some (whole ++ r, r.length)
    else none
  | _ => none

/-- A double without its sign. -/
def unsigned? (cs : List Char) : Option Float :=
  let word := String.ofList (cs.map Char.toLower)
  if word == "inf" || word == "infinity" then some (1.0 / 0.0)
  else if word == "nan" then some (0.0 / 0.0)
  else
    let isMark (c : Char) : Bool := c == 'e' || c == 'E'
    let front := cs.takeWhile (fun c => !isMark c)
    let exponent : Option Int := match cs.dropWhile (fun c => !isMark c) with
      | [] => some 0
      | _ :: r => exponent? r
    match mantissa? front, exponent with
    | some (ds, after), some e =>
      let ds := ds.dropWhile (· == '0')
      some (nearest ((natOfDigits? ds).getD 0) ds.length (e - after))
    | _, _ => none

/-- The double that a text stands for. -/
def double? (s : String) : Option Float :=
  match s.toList with
  | '-' :: r => (unsigned? r).map fun x => -x
  | '+' :: r => unsigned? r
  | r => unsigned? r

end Runbook.Decimal

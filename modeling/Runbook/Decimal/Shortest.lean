/-!
# The shortest decimal text of a double

`shortest` finds the fewest decimal digits that read back as a given double, and of those the
nearest to it. It works on exact natural numbers: the double is `num / den`, the reals that round
to it reach `below / den` under it and `above / den` over it, and for 1, 2, … 17 digits the two
neighbours of the double on that decimal grid are tried. A `Style` says how the digits are written.
-/

namespace Runbook.Decimal

/-- A positive number `0.d₁d₂… · 10^point`, the digits written without trailing zeros. -/
structure Digits where
  digits : List Char
  point : Int
  deriving Repr, BEq

/-- A positive double as an exact fraction together with the reach of the reals that round to it,
both in units of `1 / den`. The ends belong to the reach when `ends` holds. -/
structure Exact where
  num : Nat
  den : Nat
  below : Nat
  above : Nat
  ends : Bool
  deriving Repr

/-- The exact value of the double with the given bits, the sign left out. -/
def exactOfBits (bits : UInt64) : Exact :=
  let field := ((bits >>> 52) &&& 0x7ff).toNat
  let frac := (bits &&& 0xfffffffffffff).toNat
  let m := if field == 0 then frac else frac + Nat.pow 2 52
  let e : Int := (if field == 0 then 1 else (field : Int)) - 1075
  let narrow := frac == 0 && field > 1
  let up : Nat := if e ≥ 0 then Nat.pow 2 e.toNat else 1
  let den : Nat := if e ≥ 0 then 4 else 4 * Nat.pow 2 (-e).toNat
  { num := 4 * m * up
    den := den
    below := if narrow then up else 2 * up
    above := 2 * up
    ends := m % 2 == 0 }

/-- The exponent `k` with `10^(k-1) ≤ num/den < 10^k`, searched upwards from a lower bound. -/
def pointFrom (num den : Nat) (k : Int) : Nat → Int
  | 0 => k
  | fuel + 1 =>
    let small := if k ≥ 0 then num < den * Nat.pow 10 k.toNat else num * Nat.pow 10 (-k).toNat < den
    if small then k else pointFrom num den (k + 1) fuel

/-- The number of digits before the decimal point, negative for leading zeros after it. -/
def pointOf (num den : Nat) : Int :=
  let low : Int := ((num.log2 : Int) - (den.log2 : Int) - 1) * 30103 / 100000 - 1
  pointFrom num den low 8

/-- The best number with `n` digits that rounds to the double, in units of `10^(point-n)`. -/
def candidate (x : Exact) (point : Int) (n : Nat) : Option Nat :=
  let shift : Int := n - point
  let (num, den) :=
    if shift ≥ 0 then (x.num * Nat.pow 10 shift.toNat, x.den) else (x.num, x.den * Nat.pow 10 (-shift).toNat)
  let scale := if shift ≥ 0 then Nat.pow 10 shift.toNat else 1
  let lo := num / den
  let offLo := num - lo * den
  let offHi := (lo + 1) * den - num
  let hits (off reach : Nat) : Bool := off < reach * scale || (x.ends && off == reach * scale)
  let loHit := lo > 0 && hits offLo x.below
  let hiHit := hits offHi x.above
  if loHit && hiHit then
    some (if offLo < offHi || (offLo == offHi && lo % 2 == 0) then lo else lo + 1)
  else if loHit then some lo
  else if hiHit then some (lo + 1)
  else none

/-- The first digit count from `n` on that has a hit. -/
def searchDigits (x : Exact) (point : Int) (n : Nat) : Nat → Nat × Nat
  | 0 => ((candidate x point n).getD 0, n)
  | fuel + 1 =>
    match candidate x point n with
    | some d => (d, n)
    | none => searchDigits x point (n + 1) fuel

/-- The digits without the zeros at the end. -/
def dropZeros (ds : List Char) : List Char := (ds.reverse.dropWhile (· == '0')).reverse

/-- The fewest digits that read back as the double with the given bits, the sign left out. -/
def shortest (bits : UInt64) : Digits :=
  let x := exactOfBits bits
  let point := pointOf x.num x.den
  let (d, n) := searchDigits x point 1 17
  let ds := Nat.toDigits 10 d
  { digits := dropZeros ds, point := point + ((ds.length : Int) - (n : Int)) }

/-- How a double is written: between which positions of the point positionally, with `.0` after a
whole number, with a plus sign in the exponent, and the texts of the special values. -/
structure Style where
  lowest : Option Int
  highest : Option Int
  wholeMark : Bool
  exponentPlus : Bool
  nan : String
  infinity : String

/-- The digits with the point among or beside them. -/
def positional (wholeMark : Bool) (d : Digits) : List Char :=
  let len : Int := d.digits.length
  if d.point ≤ 0 then ['0', '.'] ++ List.replicate (-d.point).toNat '0' ++ d.digits
  else if d.point ≥ len then
    d.digits ++ List.replicate (d.point - len).toNat '0' ++ (if wholeMark then ['.', '0'] else [])
  else d.digits.take d.point.toNat ++ '.' :: d.digits.drop d.point.toNat

/-- The digits with the point after the first, and an exponent. -/
def scientific (exponentPlus : Bool) (d : Digits) : List Char :=
  let mantissa := match d.digits with
    | [] => ['0']
    | [c] => [c]
    | c :: cs => c :: '.' :: cs
  let e := d.point - 1
  let sign := if e < 0 then ['-'] else if exponentPlus then ['+'] else []
  mantissa ++ 'e' :: sign ++ Nat.toDigits 10 e.natAbs

/-- The text of a double in a style. -/
def write (style : Style) (x : Float) : String :=
  let bits := x.toBits
  let sign := if bits >>> 63 == 1 then ['-'] else []
  let field := ((bits >>> 52) &&& 0x7ff).toNat
  let frac := (bits &&& 0xfffffffffffff).toNat
  if field == 2047 then
    if frac == 0 then String.ofList (sign ++ style.infinity.toList) else style.nan
  else if field == 0 && frac == 0 then
    String.ofList (sign ++ '0' :: (if style.wholeMark then ['.', '0'] else []))
  else
    let d := shortest bits
    let low := match style.lowest with
      | some l => l ≤ d.point
      | none => true
    let high := match style.highest with
      | some h => d.point ≤ h
      | none => true
    String.ofList (sign ++
      (if low && high then positional style.wholeMark d else scientific style.exponentPlus d))

/-- Doubles in JSON text: positional from `1e-5` below `1e16`, always with a mark of their kind. -/
def jsonStyle : Style := ⟨some (-4), some 16, true, true, "null", "null"⟩

/-- Doubles in documents: as in JSON text, with the exponent's plus sign left out. -/
def documentStyle : Style := ⟨some (-4), some 16, true, false, ".nan", ".inf"⟩

/-- Doubles in messages: never an exponent, and whole numbers look like integers. -/
def messageStyle : Style := ⟨none, none, false, false, "NaN", "inf"⟩

/-- Doubles that are told apart from integers but have no exponent. -/
def plainStyle : Style := { messageStyle with wholeMark := true }

/-- Doubles inside lists and maps that are shown as text: positional from `1e-4` below `1e16`. -/
def shownStyle : Style := ⟨some (-3), some 16, true, false, "NaN", "inf"⟩

end Runbook.Decimal

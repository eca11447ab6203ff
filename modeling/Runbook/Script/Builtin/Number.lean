import Runbook.Decimal.Parse
import Runbook.Script.Builtin.Basic

/-!
# Functions on numbers

Signs, parities, rounding, roots and angles, conversions and the reading of numbers from texts.
-/

namespace Runbook.Script.Builtin

/-- The value of a digit in bases up to 36. -/
def digit? (c : Char) : Option Nat :=
  if c.isDigit then some (c.toNat - 48)
  else if 'a' ≤ c && c ≤ 'z' then some (c.toNat - 87)
  else if 'A' ≤ c && c ≤ 'Z' then some (c.toNat - 55)
  else none

/-- Digits of a base as a number. -/
def digits? (base : Nat) (cs : List Char) : Option Nat :=
  match cs with
  | [] => none
  | _ => cs.foldl (fun acc c => do
      let n ← acc
      let d ← digit? c
      if d < base then some (n * base + d) else none) (some 0)

/-- A text that stands for no number. -/
def unreadable (kind text detail : String) : Answer :=
  .fault (.arithmetic ("Error parsing " ++ kind ++ " number '" ++ text ++ "': " ++ detail))

/-- The integer that a text stands for. -/
def parseInt (base : Nat) (s : String) : Answer :=
  let cs := Text.trimChars s.toList
  let read : Option Int := match cs with
    | '-' :: r => (digits? base r).map fun n => -(n : Int)
    | '+' :: r => (digits? base r).map fun n => (n : Int)
    | r => (digits? base r).map fun n => (n : Int)
  match read with
  | some i =>
    if Value.fits i then .value (.int i)
    else unreadable "integer" s
      ("number too " ++ (if i < 0 then "small" else "large") ++ " to fit in target type")
  | none =>
    unreadable "integer" s
      (if cs.isEmpty then "cannot parse integer from empty string"
      else "invalid digit found in string")

/-- The double that a text stands for. -/
def parseFloat (s : String) : Answer :=
  let cs := Text.trimChars s.toList
  match Decimal.double? (String.ofList cs) with
  | some x => .value (.float x)
  | none =>
    unreadable "floating-point" s
      (if cs.isEmpty then "cannot parse float from empty string" else "invalid float literal")

/-- The digits of an integer in a base; a negative one is shown as 64 bits. -/
def inBase (base : Nat) (i : Int) : Answer :=
  .value (.str (String.ofList (Nat.toDigits base (i % Int.pow 2 64).toNat)))

/-- Functions on one integer. -/
def ofInteger (name : String) (i : Int) : Answer :=
  match name with
  | "abs" =>
    if Value.fits i.natAbs then .value (.int i.natAbs)
    else .fault (.arithmetic ("Arithmetic overflow: abs(" ++ toString i ++ ")"))
  | "sign" => .value (.int i.sign)
  | "is_zero" => .value (.bool (i == 0))
  | "is_odd" => .value (.bool (i % 2 != 0))
  | "is_even" => .value (.bool (i % 2 == 0))
  | "to_int" => .value (.int i)
  | "to_float" => .value (.float (Float.ofInt i))
  | "to_hex" => inBase 16 i
  | "to_octal" => inBase 8 i
  | "to_binary" => inBase 2 i
  | _ => none

/-- The part of a double after the point. -/
def fraction (x : Float) : Float := x - (if x < 0.0 then x.ceil else x.floor)

/-- The integer part of a double as an integer. -/
def truncated (x : Float) : Answer :=
  if Decimal.isFinite x && Value.fits (Decimal.truncate x) then .value (.int (Decimal.truncate x))
  else .fault (.arithmetic ("Integer overflow: to_int(" ++ Value.floatText x ++ ")"))

/-- The ratio of a circle's circumference to its diameter. -/
def circleRatio : Float := 3.14159265358979323846

/-- Functions on one double. -/
def ofDouble (name : String) (x : Float) : Answer :=
  let float (y : Float) : Answer := .value (.float y)
  match name with
  | "abs" => float x.abs
  | "sign" =>
    if x.isNaN then .fault (.arithmetic "Sign of NaN is undefined")
    else .value (.int (if x == 0.0 then 0 else if x < 0.0 then -1 else 1))
  | "is_zero" => .value (.bool (x == 0.0))
  | "to_int" => truncated x
  | "floor" => float x.floor
  | "ceiling" => float x.ceil
  | "round" => float x.round
  | "int" => float (if x < 0.0 then x.ceil else x.floor)
  | "fraction" => float (fraction x)
  | "sqrt" => float x.sqrt
  | "exp" => float x.exp
  | "ln" => float x.log
  | "log" => float x.log10
  | "sin" => float x.sin
  | "cos" => float x.cos
  | "tan" => float x.tan
  | "asin" => float x.asin
  | "acos" => float x.acos
  | "atan" => float x.atan
  | "sinh" => float x.sinh
  | "cosh" => float x.cosh
  | "tanh" => float x.tanh
  | "to_degrees" => float (x * (180.0 / circleRatio))
  | "to_radians" => float (x * (circleRatio / 180.0))
  | "is_nan" => .value (.bool x.isNaN)
  | "is_finite" => .value (.bool (Decimal.isFinite x))
  | "is_infinite" => .value (.bool x.isInf)
  | _ => none

/-- The greater or the lesser of two numbers: a double when one of them is. -/
def extreme (greatest : Bool) (a b : Value) : Answer :=
  match a, b with
  | .int i, .int j => .value (.int (if greatest then max i j else min i j))
  | a, b =>
    match Value.number? a, Value.number? b with
    | some x, some y =>
      .value (.float (if greatest then (if x > y || y.isNaN then x else y)
        else (if x < y || y.isNaN then x else y)))
    | _, _ => none

/-- Functions on numbers. -/
def number (name : String) (args : List Value) : Answer :=
  match args with
  | [] =>
    match name with
    | "PI" => .value (.float circleRatio)
    | "E" => .value (.float 2.71828182845904523536)
    | _ => none
  | [.int i] => ofInteger name i
  | [.float x] => ofDouble name x
  | [.str s] =>
    match name with
    | "parse_int" => parseInt 10 s
    | "parse_float" => parseFloat s
    | _ => none
  | [.str s, .int base] =>
    if name == "parse_int" then
      if 2 ≤ base && base ≤ 36 then parseInt base.toNat s
      else .fault (.arithmetic ("Invalid radix: '" ++ toString base ++ "'"))
    else none
  | [a, b] =>
    match name with
    | "max" => extreme true a b
    | "min" => extreme false a b
    | "log" =>
      match a, b with
      | .float x, .float base => .value (.float (x.log / base.log))
      | _, _ => none
    | _ => none
  | _ => none

end Runbook.Script.Builtin

import Runbook.Decimal.Exact
import Runbook.Json.Basic
import Runbook.Text.Quoted

/-!
# Values of scripts

What a script computes with. A value has two texts: `Value.display`, the one it has when it is
appended to a text, and `Value.shown`, the one it has inside a list or a map. `Value.ofJson` and
`Value.toJson` lead from and to the values of parameters and variables: an integer beyond the
signed 64-bit range becomes a double on the way in.
-/

namespace Runbook.Script

/-- A value of a script. The fields of a map are in increasing order of their keys. -/
inductive Value where
  | unit
  | bool (b : Bool)
  | int (i : Int)
  | float (x : Float)
  | char (c : Char)
  | str (s : String)
  | list (items : List Value)
  | map (fields : List (String × Value))
  | range (first last : Int) (closed : Bool)
  deriving Inhabited

namespace Value

/-- The name of a value's type. -/
def kind : Value → String
  | .unit => "()"
  | .bool _ => "bool"
  | .int _ => "i64"
  | .float _ => "f64"
  | .char _ => "char"
  | .str _ => "string"
  | .list _ => "array"
  | .map _ => "map"
  | .range _ _ closed => if closed then "range=" else "range"

/-- The name of a value's type in the description of a call. -/
def argumentKind : Value → String
  | .str _ => "&str | ImmutableString | String"
  | v => v.kind

/-- How doubles are written outside the range of positional writing. -/
def exponentStyle : Decimal.Style := ⟨some 1000, none, false, false, "NaN", "inf"⟩

/-- The text of a double: positional from `1e-13` to `1e13`, with `.0` after a whole number. -/
def floatText (x : Float) : String :=
  if x == 0.0 then "0.0"
  else if x.isNaN then "NaN"
  else if x.abs > 1.0e13 || x.abs < 1.0e-13 then Decimal.write exponentStyle x
  else Decimal.write Decimal.plainStyle x

/-- A character between single quotes, with escapes. -/
def quotedCharacter (c : Char) : String :=
  String.ofList ('\'' ::
    (match c with
      | '\'' => ['\\', '\'']
      | '"' => ['"']
      | c => Text.quotedChar c) ++ ['\''])

/-- The text of a range. -/
def rangeText (first last : Int) (closed : Bool) : String :=
  toString first ++ (if closed then "..=" else "..") ++ toString last

mutual
/-- The text of a value inside a list or a map. -/
def shown : Value → String
  | .unit => "()"
  | .bool b => if b then "true" else "false"
  | .int i => toString i
  | .float x => Decimal.write Decimal.shownStyle x
  | .char c => quotedCharacter c
  | .str s => Text.quoted s
  | .list xs => "[" ++ shownItems xs ++ "]"
  | .map fs => "#\x7b" ++ shownFields fs ++ "\x7d"
  | .range a b closed => rangeText a b closed

/-- The texts of the items of a list. -/
def shownItems : List Value → String
  | [] => ""
  | [x] => shown x
  | x :: xs => shown x ++ ", " ++ shownItems xs

/-- The texts of the fields of a map. -/
def shownFields : List (String × Value) → String
  | [] => ""
  | [(k, v)] => Text.quoted k ++ ": " ++ shown v
  | (k, v) :: fs => Text.quoted k ++ ": " ++ shown v ++ ", " ++ shownFields fs
end

/-- The text of a value of its own. -/
def display : Value → String
  | .float x => floatText x
  | .char c => String.singleton c
  | .str s => s
  | v => shown v

/-- The text that a value adds to another: nothing for the unit. -/
def appended : Value → String
  | .unit => ""
  | v => v.display

mutual
/-- The text of a value as the script language writes JSON: characters keep their single quotes. -/
def written : Value → String
  | .unit => "null"
  | .list xs => "[" ++ writtenItems xs ++ "]"
  | .map fs => "\x7b" ++ writtenFields fs ++ "\x7d"
  | .bool b => shown (.bool b)
  | .int i => shown (.int i)
  | .float x => shown (.float x)
  | .char c => shown (.char c)
  | .str s => shown (.str s)
  | .range a b closed => shown (.range a b closed)

/-- The texts of the items of a list. -/
def writtenItems : List Value → String
  | [] => ""
  | [x] => written x
  | x :: xs => written x ++ "," ++ writtenItems xs

/-- The texts of the fields of a map. -/
def writtenFields : List (String × Value) → String
  | [] => ""
  | [(k, v)] => Text.quoted k ++ ":" ++ written v
  | (k, v) :: fs => Text.quoted k ++ ":" ++ written v ++ "," ++ writtenFields fs
end

/-! ## From and to JSON -/

/-- Whether an integer fits 64 bits with a sign. -/
def fits (i : Int) : Bool := -Int.pow 2 63 ≤ i && i < Int.pow 2 63

mutual
/-- The value of a script for a JSON value. -/
def ofJson : Json → Value
  | .null => .unit
  | .bool b => .bool b
  | .int i => if fits i then .int i else .float (Float.ofInt i)
  | .double x => .float x
  | .str s => .str s
  | .arr xs => .list (ofJsonItems xs)
  | .obj fs => .map (ofJsonFields fs)

/-- The values for the items of a list. -/
def ofJsonItems : List Json → List Value
  | [] => []
  | x :: xs => ofJson x :: ofJsonItems xs

/-- The values for the fields of an object. -/
def ofJsonFields : List (String × Json) → List (String × Value)
  | [] => []
  | (k, v) :: fs => (k, ofJson v) :: ofJsonFields fs
end

mutual
/-- The JSON value for a value of a script. Doubles that are not finite have none and become
null; characters and ranges become their texts. -/
def toJson : Value → Json
  | .unit => .null
  | .bool b => .bool b
  | .int i => .int i
  | .float x => if Decimal.isFinite x then .double x else .null
  | .char c => .str (String.singleton c)
  | .str s => .str s
  | .list xs => .arr (toJsonItems xs)
  | .map fs => .obj (toJsonFields fs)
  | .range a b closed => .str (rangeText a b closed)

/-- The JSON values for the items of a list. -/
def toJsonItems : List Value → List Json
  | [] => []
  | x :: xs => toJson x :: toJsonItems xs

/-- The JSON values for the fields of a map. -/
def toJsonFields : List (String × Value) → List (String × Json)
  | [] => []
  | (k, v) :: fs => (k, toJson v) :: toJsonFields fs
end

/-! ## Sizes -/

/-- How much a value holds: items of lists, fields of maps and bytes of texts, each counted
through all levels. -/
structure Size where
  items : Nat
  fields : Nat
  bytes : Nat

/-- The sum of two sizes. -/
def Size.add (a b : Size) : Size := ⟨a.items + b.items, a.fields + b.fields, a.bytes + b.bytes⟩

mutual
/-- The size of a value. -/
def size : Value → Size
  | .str s => ⟨0, 0, s.utf8ByteSize⟩
  | .list xs => sizeOfItems xs
  | .map fs => sizeOfFields fs
  | _ => ⟨0, 0, 0⟩

/-- The size of the items of a list. -/
def sizeOfItems : List Value → Size
  | [] => ⟨0, 0, 0⟩
  | x :: xs => (Size.add ⟨1, 0, 0⟩ (size x)).add (sizeOfItems xs)

/-- The size of the fields of a map. -/
def sizeOfFields : List (String × Value) → Size
  | [] => ⟨0, 0, 0⟩
  | (_, x) :: fs => (Size.add ⟨0, 1, 0⟩ (size x)).add (sizeOfFields fs)
end

end Value
end Runbook.Script

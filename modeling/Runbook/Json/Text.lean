import Runbook.Decimal.Shortest
import Runbook.Json.Basic
import Runbook.Text.Quoted

/-!
# The text of a JSON value

`Json.compact` writes a value without white space, `Json.pretty` with one item a line and an
indentation of two spaces. In a text between quotes the quote, the backslash and the characters
below the space are escaped.
-/

namespace Runbook.Json

/-- One character between the quotes of a JSON text. -/
def escapeChar (c : Char) : List Char :=
  match c with
  | '"' => ['\\', '"']
  | '\\' => ['\\', '\\']
  | '\n' => ['\\', 'n']
  | '\r' => ['\\', 'r']
  | '\t' => ['\\', 't']
  | c =>
    if c.toNat == 8 then ['\\', 'b']
    else if c.toNat == 12 then ['\\', 'f']
    else if c.toNat < 32 then ['\\', 'u'] ++ Text.hexPadded 4 c.toNat
    else [c]

/-- A text between quotes. -/
def escaped (s : String) : String :=
  String.ofList ('"' :: s.toList.flatMap escapeChar ++ ['"'])

/-- The text of a double; one that is not finite has no JSON form and becomes `null`. -/
def doubleText (x : Float) : String := Decimal.write Decimal.jsonStyle x

/-- The text of a double that is finite, and `null` for the others. -/
def doubleTextOrNull (x : Float) : String :=
  if x.isNaN || x.isInf then "null" else doubleText x

mutual
/-- The text of a value without white space. -/
def compact : Json → String
  | .null => "null"
  | .bool true => "true"
  | .bool false => "false"
  | .int i => toString i
  | .double x => doubleTextOrNull x
  | .str s => escaped s
  | .arr xs => "[" ++ compactItems xs ++ "]"
  | .obj fs => "\x7b" ++ compactFields fs ++ "\x7d"

/-- The items of an array, separated by commas. -/
def compactItems : List Json → String
  | [] => ""
  | [x] => compact x
  | x :: xs => compact x ++ "," ++ compactItems xs

/-- The fields of an object, separated by commas. -/
def compactFields : List (String × Json) → String
  | [] => ""
  | [(k, v)] => escaped k ++ ":" ++ compact v
  | (k, v) :: fs => escaped k ++ ":" ++ compact v ++ "," ++ compactFields fs
end

/-- A line end followed by the indentation of a nesting depth. -/
def newline (depth : Nat) : String := "\n" ++ String.ofList (List.replicate (2 * depth) ' ')

mutual
/-- The text of a value with one item a line, inside `depth` brackets. -/
def prettyAt (depth : Nat) : Json → String
  | .arr [] => "[]"
  | .obj [] => "\x7b\x7d"
  | .arr xs => "[" ++ prettyItems (depth + 1) xs ++ newline depth ++ "]"
  | .obj fs => "\x7b" ++ prettyFields (depth + 1) fs ++ newline depth ++ "\x7d"
  | .null => "null"
  | .bool true => "true"
  | .bool false => "false"
  | .int i => toString i
  | .double x => doubleTextOrNull x
  | .str s => escaped s

/-- The items of an array, each on its own line. -/
def prettyItems (depth : Nat) : List Json → String
  | [] => ""
  | [x] => newline depth ++ prettyAt depth x
  | x :: xs => newline depth ++ prettyAt depth x ++ "," ++ prettyItems depth xs

/-- The fields of an object, each on its own line. -/
def prettyFields (depth : Nat) : List (String × Json) → String
  | [] => ""
  | [(k, v)] => newline depth ++ escaped k ++ ": " ++ prettyAt depth v
  | (k, v) :: fs =>
    newline depth ++ escaped k ++ ": " ++ prettyAt depth v ++ "," ++ prettyFields depth fs
end

/-- The text of a value with one item a line. -/
def pretty (v : Json) : String := prettyAt 0 v

instance : ToString Json := ⟨compact⟩

end Runbook.Json

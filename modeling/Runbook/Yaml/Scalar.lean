import Runbook.Decimal.Parse
import Runbook.Json.Decode
import Runbook.Yaml.Node

/-!
# Scalars of documents

A plain scalar may stand for null, a truth value, an integer or a double; any other scalar is text.
Leading zeros make digits a text, and a double has to be finite unless it is written as `.inf` or
`.nan`.
-/

namespace Runbook.Yaml

/-- What a scalar stands for. An integer beyond 64 bits is told apart. -/
inductive Scalar where
  | null
  | bool (b : Bool)
  | int (i : Int)
  | wide (i : Int)
  | double (x : Float)
  | text (s : String)

namespace Scalar

/-- The spellings of null. -/
def isNull (s : String) : Bool := ["null", "Null", "NULL", "~"].contains s

/-- The truth value of a text. -/
def bool? (s : String) : Option Bool :=
  if ["true", "True", "TRUE"].contains s then some true
  else if ["false", "False", "FALSE"].contains s then some false
  else none

/-- The value of a digit of a base up to sixteen. -/
def digit? (base : Nat) (c : Char) : Option Nat :=
  match Scanner.hex? c with
  | some d => if d < base then some d else none
  | none => none

/-- The number that digits of a base denote. -/
def natOf? (base : Nat) (cs : List Char) : Option Nat :=
  if cs.isEmpty then none
  else cs.foldl (fun acc c => acc.bind fun n => (digit? base c).map (n * base + ·)) (some 0)

/-- The number that digits of a base denote after an optional sign. -/
def signed? (base : Nat) : List Char → Option Int
  | '-' :: cs => (natOf? base cs).map fun n => -(n : Int)
  | '+' :: cs => (natOf? base cs).map fun n => (n : Int)
  | cs => (natOf? base cs).map fun n => (n : Int)

/-- Digits that are a text because of a leading zero. -/
def hasLeadingZero (cs : List Char) : Bool :=
  let cs := match cs with
    | '-' :: r => r
    | '+' :: r => r
    | r => r
  match cs with
  | '0' :: c :: r => (c :: r).all Char.isDigit
  | _ => false

/-- Whether the text begins with a sign. -/
def startsSigned : List Char → Bool
  | '+' :: _ => true
  | '-' :: _ => true
  | _ => false

/-- The bases with a mark. -/
def bases : List (Char × Nat) := [('x', 16), ('o', 8), ('b', 2)]

/-- The base and the digits of a number with a mark of its base. -/
def marked? : List Char → Option (Nat × List Char)
  | '0' :: c :: rest => (bases.find? (·.1 == c)).map fun (_, b) => (b, rest)
  | _ => none

/-- The unsigned integer that a text denotes. -/
def unsigned? (bound : Nat) (cs : List Char) : Option Int :=
  let bounded (n : Option Nat) : Option Int :=
    n.bind fun n => if n < bound then some (n : Int) else none
  let body := match cs with
    | '+' :: r => r
    | r => r
  let plain : Option Int :=
    if startsSigned body || hasLeadingZero cs then none else bounded (natOf? 10 body)
  match marked? body with
  | some (base, ds) =>
    if startsSigned ds then none
    else (bounded (natOf? base ds)).or plain
  | none => plain

/-- The negative integer that a text denotes; its sign may stand before the mark of a base. -/
def negative? (bound : Nat) (cs : List Char) : Option Int :=
  let bounded (i : Option Int) : Option Int :=
    i.bind fun i => if -(bound : Int) ≤ i && i < bound then some i else none
  let plain : Option Int := if hasLeadingZero cs then none else bounded (signed? 10 cs)
  match cs with
  | '-' :: rest =>
    match marked? rest with
    | some (base, ds) => (bounded ((natOf? base ds).map fun n => -(n : Int))).or plain
    | none => plain
  | _ => plain

/-- The integer that a text denotes. -/
def integer? (cs : List Char) : Option Scalar :=
  ((unsigned? (Nat.pow 2 64) cs).map .int).or <|
    ((negative? (Nat.pow 2 63) cs).map .int).or <|
      ((unsigned? (Nat.pow 2 128) cs).map .wide).or ((negative? (Nat.pow 2 127) cs).map .wide)

/-- The double that a text denotes. -/
def double? (s : String) : Option Float :=
  let cs := s.toList
  let body := match cs with
    | '+' :: r => r
    | r => r
  if cs != body && startsSigned body then none
  else
    let bodyText := String.ofList body
    if [".inf", ".Inf", ".INF"].contains bodyText then some (1.0 / 0.0)
    else if ["-.inf", "-.Inf", "-.INF"].contains s then some (-1.0 / 0.0)
    else if [".nan", ".NaN", ".NAN"].contains s then some (0.0 / 0.0)
    else match Decimal.double? bodyText with
      | some x => if x.isNaN || x.isInf then none else some x
      | none => none

/-- What a plain scalar without a tag stands for. -/
def ofPlain (s : String) : Scalar :=
  if s.isEmpty || isNull s then .null
  else match bool? s with
    | some b => .bool b
    | none =>
      match integer? s.toList with
      | some i => i
      | none =>
        if hasLeadingZero s.toList then .text s
        else match double? s with
          | some x => .double x
          | none => .text s

/-- The full name of a standard tag. -/
def standard (name : String) : String := "tag:yaml.org,2002:" ++ name

/-- Whether a tag is one of a document's own. -/
def isLocal (tag : String) : Bool := tag.startsWith "!"

/-- What a scalar stands for; a standard tag may ask for what its text is not. -/
def resolve (text : String) (style : Style) (tag : Option String) : Except DecodeFault Scalar :=
  let plain : Scalar := if style == .plain then ofPlain text else .text text
  let expected {α : Type} (what : String) : Except DecodeFault α :=
    .error (.wrongValue ("string " ++ Text.quoted text) what)
  match tag with
  | none => .ok plain
  | some t =>
    if t == standard "bool" then
      match bool? text with
      | some b => .ok (.bool b)
      | none => expected "a boolean"
    else if t == standard "int" then
      match integer? text.toList with
      | some i => .ok i
      | none => expected "an integer"
    else if t == standard "float" then
      match double? text with
      | some x => .ok (.double x)
      | none => expected "a float"
    else if t == standard "null" then
      if isNull text then .ok .null else expected "null"
    else if isLocal t then .ok plain
    else .ok (.text text)

/-- How messages call what a scalar stands for. -/
def described : Scalar → String
  | .null => "unit value"
  | .bool b => "boolean `" ++ (if b then "true" else "false") ++ "`"
  | .int i => "integer `" ++ toString i ++ "`"
  | .wide i => "integer `" ++ toString i ++ "` as " ++ (if i < 0 then "i128" else "u128")
  | .double x => "floating point `" ++ Decimal.write Decimal.plainStyle x ++ "`"
  | .text s => "string " ++ Text.quoted s

/-- Equality, as keys of one mapping may not be equal. -/
def same : Scalar → Scalar → Bool
  | .null, .null => true
  | .bool a, .bool b => a == b
  | .int a, .int b => a == b
  | .wide a, .wide b => a == b
  | .double a, .double b => a == b
  | .text a, .text b => a == b
  | _, _ => false

end Scalar

namespace Node

mutual
/-- Equality of nodes by what they stand for. -/
def same : Node → Node → Bool
  | .alias a, b => same a b
  | .scalar s u t, b => sameScalar s u t b
  | .sequence xs t, b => sameSequence xs t b
  | .mapping es t, b => sameMapping es t b
  | .cycle, _ => false

/-- Whether a scalar and a node stand for the same. -/
def sameScalar (s : String) (u : Style) (t : Option String) : Node → Bool
  | .alias b => sameScalar s u t b
  | .scalar s2 u2 t2 =>
    match Scalar.resolve s u t, Scalar.resolve s2 u2 t2 with
    | .ok x, .ok y => x.same y && t.map Scalar.isLocal == t2.map Scalar.isLocal
    | _, _ => false
  | _ => false

/-- Whether a sequence and a node stand for the same. -/
def sameSequence (xs : List Node) (t : Option String) : Node → Bool
  | .alias b => sameSequence xs t b
  | .sequence ys u => t == u && sameItems xs ys
  | _ => false

/-- Whether a mapping and a node stand for the same. -/
def sameMapping (es : List (Node × Node)) (t : Option String) : Node → Bool
  | .alias b => sameMapping es t b
  | .mapping fs u => t == u && sameEntries es fs
  | _ => false

/-- Equality of lists of nodes. -/
def sameItems : List Node → List Node → Bool
  | [], [] => true
  | x :: xs, y :: ys => same x y && sameItems xs ys
  | _, _ => false

/-- Equality of lists of entries. -/
def sameEntries : List (Node × Node) → List (Node × Node) → Bool
  | [], [] => true
  | (k, v) :: xs, (l, w) :: ys => same k l && same v w && sameEntries xs ys
  | _, _ => false
end

/-- Whether no two keys are equal. -/
def distinctKeys : List (Node × Node) → Bool
  | [] => true
  | (k, _) :: rest => !(rest.any fun e => same k e.1) && distinctKeys rest

/-- How deep collections may be nested. -/
def maxDepth : Nat := 128

mutual
/-- Whether a node stands for a value at all: its keys are distinct, its integers fit 64 bits, its
standard tags fit their scalars, and it is not too deep. -/
def isValue : Nat → Node → Bool
  | _, .scalar s u t =>
    match Scalar.resolve s u t with
    | .ok (.wide _) => false
    | .ok _ => true
    | .error _ => false
  | depth, .alias n => isValue depth n
  | _, .cycle => false
  | 0, .sequence _ _ => false
  | 0, .mapping _ _ => false
  | depth + 1, .sequence xs _ => areValues depth xs
  | depth + 1, .mapping es _ => distinctKeys es && areEntries depth es

/-- Whether all nodes of a list stand for values. -/
def areValues (depth : Nat) : List Node → Bool
  | [] => true
  | x :: xs => isValue depth x && areValues depth xs

/-- Whether all keys and values of a mapping stand for values. -/
def areEntries (depth : Nat) : List (Node × Node) → Bool
  | [] => true
  | (k, v) :: es => isValue depth k && isValue depth v && areEntries depth es
end

end Node
end Runbook.Yaml

import Runbook.Decimal.Parse
import Runbook.Handler.Basic
import Runbook.Pattern.Parser
import Runbook.Text.Blank
import Runbook.Text.Case

/-!
# Checking values

A `check` step tests conditions on values; it holds when all of them do. Numbers and texts that
denote numbers compare as doubles.
-/

namespace Runbook

/-- How a condition compares its value. -/
inductive Comparison where
  | eq | ne | gt | lt | gte | lte | contains | matches | truthy | falsy | isIn | notIn
  deriving Repr, BEq, DecidableEq, Inhabited

namespace Comparison

/-- The comparisons by name. -/
def named : List (String × Comparison) :=
  [("eq", .eq), ("ne", .ne), ("gt", .gt), ("lt", .lt), ("gte", .gte), ("lte", .lte),
   ("contains", .contains), ("matches", .matches), ("truthy", .truthy), ("falsy", .falsy),
   ("in", .isIn), ("not_in", .notIn)]

/-- How messages call a comparison. -/
def title : Comparison → String
  | .eq => "Eq" | .ne => "Ne" | .gt => "Gt" | .lt => "Lt" | .gte => "Gte" | .lte => "Lte"
  | .contains => "Contains" | .matches => "Matches" | .truthy => "Truthy" | .falsy => "Falsy"
  | .isIn => "In" | .notIn => "NotIn"

/-- Reads a comparison. -/
def decode : Decoder Comparison := Decode.variant named

end Comparison

/-- A condition on a value. -/
structure Condition where
  value : Json := .null
  op : Comparison := .eq
  expected : Json := .null
  deriving Inhabited

namespace Condition

/-- Reads a condition; every part may be left out. -/
def decode : Decoder Condition := fun v => do
  let fs ← Decode.record "Condition"
    [Decode.field "value" .defaulted Decode.any,
     Decode.field "op" .defaulted Comparison.decode,
     Decode.field "expected" .defaulted Decode.any] v
  let value ← Decode.getD fs "value" Decode.any .null
  let op ← Decode.getD fs "op" Comparison.decode .eq
  let expected ← Decode.getD fs "expected" Decode.any .null
  return { value, op, expected }

/-- The number that a value denotes: a number, or a text that reads as one between blanks. -/
def number? : Json → Option Float
  | .int i => some (Float.ofInt i)
  | .double x => some x
  | .str s => Decimal.double? (Text.trim s)
  | _ => none

/-- Whether a value is a number. -/
def isNumber : Json → Bool
  | .int _ => true
  | .double _ => true
  | _ => false

/-- The text of a value: itself or its compact notation. -/
def text : Json → String
  | .str s => s
  | v => v.compact

/-- Equality, which takes a number and a text that denotes a number alike. -/
def looselyEqual (a b : Json) : Bool :=
  a == b ||
    match number? a, number? b with
    | some x, some y => (isNumber a || isNumber b) && x == y
    | _, _ => false

/-- Whether a value counts as true. -/
def isTruthy : Json → Bool
  | .null => false
  | .bool b => b
  | .int i => i != 0
  | .double x => x != 0.0
  | .str s => !(s.isEmpty || ["false", "0", "no", "off"].contains (Text.lower s))
  | .arr xs => !xs.isEmpty
  | .obj fs => !fs.isEmpty

/-- The number that a value denotes, or a fault. -/
def number (v : Json) : Except StepFault Float :=
  match number? v with
  | some x => .ok x
  | none => .error (.check (v.compact ++ " is not numeric"))

/-- Compares two values as numbers. -/
def compareNumbers (a b : Json) (holds : Float → Float → Bool) : Except StepFault Bool := do
  let x ← number a
  let y ← number b
  return holds x y

/-- Whether a container holds a part: a text a stretch, a sequence an item, an object a key. -/
def isContained (container part : Json) : Bool :=
  match container with
  | .str s => Text.contains s (text part)
  | .arr xs => xs.any fun x => looselyEqual x part
  | .obj fs => Table.has (text part) fs
  | _ => false

/-- Whether the text of a value holds a stretch that a pattern describes. -/
def matchesPattern (value pattern : Json) : Except StepFault Bool :=
  match pattern with
  | .str p =>
    match Pattern.parse p with
    | .ok p => .ok (p.occursIn (text value))
    | .error f => .error (.check ("Invalid regex: " ++ f.message))
  | _ => .error (.check "'matches' expects a string pattern")

/-- Whether a condition holds. -/
def holds (c : Condition) : Except StepFault Bool :=
  match c.op with
  | .eq => .ok (looselyEqual c.value c.expected)
  | .ne => .ok (!looselyEqual c.value c.expected)
  | .gt => compareNumbers c.value c.expected fun a b => a > b
  | .lt => compareNumbers c.value c.expected fun a b => a < b
  | .gte => compareNumbers c.value c.expected fun a b => a >= b
  | .lte => compareNumbers c.value c.expected fun a b => a <= b
  | .contains => .ok (isContained c.value c.expected)
  | .matches => matchesPattern c.value c.expected
  | .truthy => .ok (isTruthy c.value)
  | .falsy => .ok (!isTruthy c.value)
  | .isIn =>
    match c.expected with
    | .arr xs => .ok (xs.any fun x => looselyEqual x c.value)
    | _ => .error (.check "'in' expects a list")
  | .notIn =>
    match c.expected with
    | .arr xs => .ok (!xs.any fun x => looselyEqual x c.value)
    | _ => .error (.check "'not_in' expects a list")

/-- The message about a condition that does not hold. -/
def failureText (index : Nat) (c : Condition) : String :=
  "Condition " ++ toString index ++ " failed: " ++ c.value.compact ++ " " ++ c.op.title ++ " " ++
    c.expected.compact

end Condition

namespace Handler.Check

/-- The parameters of a `check` step. -/
structure Params where
  conditions : List Condition
  message : Option String

/-- Reads the parameters. -/
def decode : Decoder Params := fun v => do
  let message := Decode.optional Decode.text
  let fs ← Decode.record "CheckConfig"
    [Decode.field "conditions" .defaulted (Decode.list Condition.decode),
     Decode.field "message" .defaulted message] v
  let conditions ← Decode.getD fs "conditions" (Decode.list Condition.decode) []
  let message ← Decode.getD fs "message" message none
  return { conditions, message }

/-- The result of testing all conditions; the first that is no condition on its value ends the
test. -/
def run (params : Json) : Except StepFault StepResult := do
  let p ← decodeParams "check" decode params
  if p.conditions.isEmpty then
    throw (.invalidParams "check step needs at least one condition")
  let outcomes ← p.conditions.mapM Condition.holds
  let data := Json.ofFields [("results", .arr (outcomes.map Json.bool))]
  match (p.conditions.zip outcomes).zipIdx.find? fun x => !x.1.2 with
  | none => return .success (toString outcomes.length ++ " condition(s) held") data
  | some ((c, _), index) => return .failed (p.message.getD (Condition.failureText index c)) data

/-- The handler of `check` steps. -/
def handler : Handler where
  name := "check"
  description := "Validate values from the execution context"
  params :=
    [⟨"conditions", .array, true, "List of \x7bvalue, op, expected\x7d"⟩,
     ⟨"message", .string, false, "Message reported on failure"⟩]
  run params scope := do
    let r ← Timeline.ofExcept (run params)
    return (r, scope.vars)

end Handler.Check
end Runbook

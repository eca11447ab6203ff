import Runbook.Decimal.Parse
import Runbook.Json.Reader
import Runbook.Template.Operator
import Runbook.Text.Base64
import Runbook.Text.Case
import Runbook.Text.Search
import Runbook.Text.Utf8

/-!
# Filters and tests

`Value.filter` applies a named filter, `Value.test` a named test. Device output is text, so the
conversions to numbers and JSON read texts; what they cannot read is a fault and never a default.
-/

namespace Runbook.Template.Value

/-- A text argument: any defined value as text. -/
def textArgument : Value → Except Fault String
  | .undefined _ => .error .undefinedValue
  | v => .ok (text v)

/-- Fails when there are more than `n` arguments. -/
def atMost (n : Nat) (args : List Value) : Except Fault Unit :=
  if args.length ≤ n then .ok () else .error .tooManyArguments

/-- The double that a number or a numeric text stands for. -/
def asNumber (v : Value) : Except Fault Float :=
  match toJson v with
  | .error e => .error (.invalid e.message)
  | .ok (.int i) => .ok (intToFloat i)
  | .ok (.double x) => .ok x
  | .ok (.str s) =>
    match Decimal.double? (Text.trim s) with
    | some x => .ok x
    | Option.none => .error (.invalid ("cannot convert " ++ Text.quoted s ++ " to a number"))
  | .ok other => .error (.invalid ("cannot convert " ++ other.compact ++ " to a number"))

/-- The integer of a number or numeric text, toward zero and clamped to the signed 64-bit range. -/
def toInteger (v : Value) : Except Fault Value :=
  let exact : Option Int := match v with
    | .str s => Decimal.int64? (Text.trim s).toList
    | _ => Option.none
  match exact with
  | some i => .ok (.int i)
  | Option.none => (asNumber v).map fun x => .int (Decimal.toInt64 x)

/-- The value of a JSON text. -/
def fromJsonText (v : Value) : Except Fault Value :=
  match v with
  | .str s =>
    match Json.read s with
    | .ok j => .ok (ofJson j)
    | .error e => .error (.invalid ("fromjson: " ++ e.message))
  | v => .error (.invalid ("fromjson expects a string, got " ++ kindName v))

/-- The text of base64 text. -/
def fromBase64 (v : Value) : Except Fault Value :=
  match Text.Base64.decode (text v) with
  | .error e => .error (.invalid ("b64decode: " ++ e.message))
  | .ok bytes =>
    match Text.Utf8.decode bytes with
    | .ok s => .ok (.str s)
    | .error e => .error (.invalid ("b64decode: " ++ e.message))

/-- The characters that JSON text inside a page may not hold as they are. -/
def escapeForPage (c : Char) : List Char :=
  if c == '<' then "\\u003c".toList
  else if c == '>' then "\\u003e".toList
  else if c == '&' then "\\u0026".toList
  else if c == '\'' then "\\u0027".toList
  else [c]

/-- The JSON text of a value, safe inside a page. -/
def toJsonText (v : Value) (lines : Bool) : Except Fault Value :=
  match toJson v with
  | .error e => .error (.invalid e.message)
  | .ok j =>
    let s := if lines then j.pretty else j.compact
    .ok (.str (String.ofList (s.toList.flatMap escapeForPage)))

/-- The texts of the items, one after the other, with a separator before every item that follows
some text. -/
def joined (separator : String) (acc : String) : List Value → String
  | [] => acc
  | v :: vs => joined separator ((if acc == "" then "" else acc ++ separator) ++ text v) vs

/-- The items of a value written one after the other. -/
def join (v : Value) (separator : String) : Except Fault Value :=
  match v with
  | .undefined _ => .ok (.str "")
  | .none => .ok (.str "")
  | v =>
    match items v with
    | .ok xs => .ok (.str (joined separator "" xs))
    | .error _ => .error (.invalid ("cannot join value of type " ++ kind v))

/-- The number of characters, items or entries. -/
def length? : Value → Option Nat
  | .str s => some s.length
  | .list xs => some xs.length
  | .map es => some es.length
  | _ => Option.none

/-- A text without the given characters at its ends. -/
def trimOf (chars : List Char) (cs : List Char) : List Char :=
  (((cs.dropWhile chars.contains).reverse).dropWhile chars.contains).reverse

/-- The result of a filter. -/
def filter (name : String) (v : Value) (args : List Value) : Except Fault Value :=
  match name with
  | "int" => do
    atMost 0 args
    toInteger v
  | "float" => do
    atMost 0 args
    (asNumber v).map .float
  | "fromjson" => do
    atMost 0 args
    fromJsonText v
  | "lines" => do
    atMost 0 args
    .ok (.list ((Text.nonBlankLines (text v)).map .str))
  | "b64encode" => do
    atMost 0 args
    .ok (.str (Text.Base64.encode (text v)))
  | "b64decode" => do
    atMost 0 args
    fromBase64 v
  | "upper" => do
    let s ← textArgument v
    atMost 0 args
    .ok (.str (Text.upper s))
  | "lower" => do
    let s ← textArgument v
    atMost 0 args
    .ok (.str (Text.lower s))
  | "trim" => do
    let s ← textArgument v
    atMost 1 args
    match args with
    | [] => .ok (.str (Text.trim s))
    | .none :: _ => .ok (.str (Text.trim s))
    | cs :: _ => do
      let cs ← textArgument cs
      .ok (.str (String.ofList (trimOf cs.toList s.toList)))
  | "replace" => do
    let s ← textArgument v
    match args with
    | old :: new :: rest => do
      let old ← textArgument old
      let new ← textArgument new
      atMost 0 rest
      .ok (.str (Text.replaceAll s old new))
    | _ => .error .missingArgument
  | "join" => do
    atMost 1 args
    match args with
    | [] => join v ""
    | .none :: _ => join v ""
    | sep :: _ => do
      let sep ← textArgument sep
      join v sep
  | "length" => do
    atMost 0 args
    match length? v with
    | some n => .ok (.int n)
    | Option.none => .error (.invalid ("cannot calculate length of value of type " ++ kind v))
  | "default" => do
    atMost 2 args
    let other := args.head?.getD (.str "")
    let lax := match args with
      | _ :: b :: _ => truthy b
      | _ => false
    .ok (if isUndefined v || (lax && !truthy v) then other else v)
  | "tojson" => do
    atMost 1 args
    toJsonText v (match args with
      | [] => false
      | a :: _ => truthy a)
  | name => .error (.unknownFilter name)

/-- The result of a test. -/
def test (name : String) (v : Value) (args : List Value) : Except Fault Value :=
  match name with
  | "defined" => do
    atMost 0 args
    .ok (.bool (!isUndefined v))
  | "undefined" => do
    atMost 0 args
    .ok (.bool (isUndefined v))
  | "none" => do
    atMost 0 args
    .ok (.bool (match v with
      | .none => true
      | _ => false))
  | "string" => do
    atMost 0 args
    .ok (.bool (match v with
      | .str _ => true
      | _ => false))
  | "number" => do
    atMost 0 args
    .ok (.bool (match v with
      | .int _ => true
      | .float _ => true
      | _ => false))
  | name => .error (.unknownTest name)

end Runbook.Template.Value

import Runbook.Json.Reader
import Runbook.Json.Text
import Runbook.Script.Builtin.Collection
import Runbook.Script.Builtin.Number
import Runbook.Script.Builtin.Text
import Runbook.Time.Instant

/-!
# Built-in functions

`Builtin.answer` is what a call of a built-in function comes to. `Builtin.property` is the value of
a property that a value has by its type; the fields of maps are not among them.
-/

namespace Runbook.Script.Builtin

/-- The text of a moment with its offset from universal time. -/
def momentText (now : Instant) : String :=
  String.ofList ((now.text.toList.dropLast) ++ "+00:00".toList)

/-- Functions that apply to values of all types, and those that report to the log or tell the
time. -/
def general (now : Instant) (name : String) (args : List Value) : Answer :=
  match args with
  | [] =>
    match name with
    | "timestamp" => .value (.int now.seconds)
    | "timestamp_ms" => .value (.int (now.seconds * 1000 + (now.nanos / 1000000 : Nat)))
    | "now_iso" => .value (.str (momentText now))
    | "print" | "debug" => .value .unit
    | _ => none
  | [v] =>
    match name with
    | "type_of" => .value (.str v.kind)
    | "to_string" => .value (.str v.appended)
    | "to_debug" => .value (.str v.shown)
    | "print" | "debug" => .value .unit
    | "is_shared" => .value (.bool false)
    | "to_json" => .value (.str v.toJson.compact)
    | "parse_json" =>
      match v with
      | .str s =>
        match Json.read s with
        | .ok j => .value (Value.ofJson j)
        | .error _ => .value .unit
      | _ => none
    | "log" | "info" | "warn" | "error" =>
      match v with
      | .str _ => .value .unit
      | _ => none
    | _ => none
  | [container, item] =>
    if name == "contains" then
      match Value.holds container item with
      | .ok b => .value (.bool b)
      | .error f => .fault f
    else none
  | _ => none

/-- What a call of a built-in function comes to; none when no function fits. -/
def answer (now : Instant) (name : String) (args : List Value) : Answer :=
  (onMap name args) <|> (onList name args) <|> (onText name args) <|> (onRange name args) <|>
    (number name args) <|> (general now name args)

/-- What a call of a built-in function comes to. -/
def invoke (now : Instant) (name : String) (args : List Value) : Except Fault Reply :=
  match answer now name args with
  | some r => r
  | none => .error (.unknownFunction name (args.map Value.argumentKind))

/-- The functions without arguments that can be read as properties, for each type. -/
def propertyNames : Value → List String
  | .list _ => ["len", "is_empty"]
  | .str _ => ["len", "is_empty", "bytes", "chars"]
  | .int _ => ["is_zero", "is_odd", "is_even"]
  | .float _ =>
    ["is_zero", "floor", "ceiling", "round", "int", "fraction", "is_nan", "is_finite", "is_infinite"]
  | .range _ _ _ => ["start", "end", "is_inclusive", "is_exclusive", "is_empty"]
  | _ => []

/-- The value of a property that a value has by its type. -/
def property (v : Value) (name : String) : Except Fault Value :=
  let unknown : Fault := .unknownProperty name v.kind
  if (propertyNames v).contains name then
    match answer default name [v] with
    | some (.ok r) => .ok r.value
    | some (.error f) => .error f
    | none => .error unknown
  else .error unknown

/-- The item of a list, text, map or bit field. -/
def item (v index : Value) : Except Fault Value :=
  match v, index with
  | .list xs, .int i =>
    match (placeOf? xs.length i).bind (xs[·]?) with
    | some x => .ok x
    | none => .error (.itemOutOfBounds xs.length i)
  | .str s, .int i =>
    match (placeOf? s.length i).bind (s.toList[·]?) with
    | some c => .ok (.char c)
    | none => .error (.characterOutOfBounds s.length i)
  | .map fs, .str k => .ok ((Table.get? k fs).getD .unit)
  | .int n, .int i =>
    match placeOf? 64 i with
    | some b => .ok (.bool (((n % Int.pow 2 64).toNat >>> b) % 2 == 1))
    | none => .error (.bitOutOfBounds i)
  | .list _, i => .error (.wrongKind "i64" i.kind)
  | .str _, i => .error (.wrongKind "i64" i.kind)
  | .map _, i => .error (.wrongKind "string" i.kind)
  | v, i => .error (.unknownIndexer v.kind i.kind)

/-- A list, text, map or bit field with an item replaced. -/
def withItem (v index new : Value) : Except Fault Value :=
  match v, index with
  | .list xs, .int i =>
    match placeOf? xs.length i with
    | some n => .ok (.list (xs.set n new))
    | none => .error (.itemOutOfBounds xs.length i)
  | .str s, .int i =>
    match placeOf? s.length i, new with
    | some n, .char c => .ok (.str (String.ofList (s.toList.set n c)))
    | some _, w => .error (.wrongKind "char" w.kind)
    | none, _ => .error (.characterOutOfBounds s.length i)
  | .map fs, .str k => .ok (.map (Table.insert k new fs))
  | .int n, .int i =>
    match placeOf? 64 i, new with
    | some b, .bool on =>
      let bits := (n % Int.pow 2 64).toNat
      let cleared := bits - (if (bits >>> b) % 2 == 1 then Nat.pow 2 b else 0)
      .ok (.int (Int.bmod (cleared + (if on then Nat.pow 2 b else 0) : Nat) (Nat.pow 2 64)))
    | some _, w => .error (.wrongKind "bool" w.kind)
    | none, _ => .error (.bitOutOfBounds i)
  | v, i => .error (.unknownIndexer v.kind i.kind)

end Runbook.Script.Builtin

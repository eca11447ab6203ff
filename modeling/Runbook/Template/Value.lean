import Runbook.Decimal.Shortest
import Runbook.Json.Text
import Runbook.Text.Quoted

/-!
# Values of template expressions

A JSON value, one of the functions that every template knows, or *undefined*: what a name or key
stands for that does not exist. `Value.ofJson` brings the context in and `Value.toJson` brings a
result back; a function is written as its path. Numbers of either kind compare by their value;
truth values count as the numbers 0 and 1.
-/

namespace Runbook.Template

/-- A value of a template expression. `undefined true` is the value of a conditional without an
`else`: it is written as nothing where another undefined value is a fault. -/
inductive Value where
  | undefined (silent : Bool)
  | none
  | bool (b : Bool)
  | int (i : Int)
  | float (x : Float)
  | str (s : String)
  | list (items : List Value)
  | map (entries : List (Value × Value))
  | function (name : String)
  deriving Inhabited

namespace Value

/-- The word for a kind of value in messages. -/
def kind : Value → String
  | .undefined _ => "undefined"
  | .none => "none"
  | .bool _ => "bool"
  | .int _ => "number"
  | .float _ => "number"
  | .str _ => "string"
  | .list _ => "sequence"
  | .map _ => "map"
  | .function _ => "plain object"

/-- The position of a kind in the order of values of different kinds. -/
def kindRank : Value → Nat
  | .undefined _ => 0
  | .none => 1
  | .bool _ => 2
  | .int _ => 3
  | .float _ => 3
  | .str _ => 4
  | .list _ => 6
  | .map _ => 7
  | .function _ => 9

/-- The name of a kind of value, as it is spelled where a text was expected. -/
def kindName : Value → String
  | .undefined _ => "Undefined"
  | .none => "None"
  | .bool _ => "Bool"
  | .int _ => "Number"
  | .float _ => "Number"
  | .str _ => "String"
  | .list _ => "Seq"
  | .map _ => "Map"
  | .function _ => "Plain"

/-- Whether the value is undefined. -/
def isUndefined : Value → Bool
  | .undefined _ => true
  | _ => false

/-- The path that a function is written as. -/
def functionPath (name : String) : String := "minijinja::functions::builtins::" ++ name

/-! ## From and to JSON -/

mutual
/-- The value of a JSON value. -/
def ofJson : Json → Value
  | .null => .none
  | .bool b => .bool b
  | .int i => .int i
  | .double x => .float x
  | .str s => .str s
  | .arr xs => .list (ofJsonItems xs)
  | .obj fs => .map (ofJsonFields fs)

/-- The values of a list. -/
def ofJsonItems : List Json → List Value
  | [] => []
  | x :: xs => ofJson x :: ofJsonItems xs

/-- The entries of an object. -/
def ofJsonFields : List (String × Json) → List (Value × Value)
  | [] => []
  | (k, v) :: fs => (.str k, ofJson v) :: ofJsonFields fs
end

/-- Why a value has no JSON form. -/
inductive JsonFault where
  | outOfRange
  | keyNotText

/-- The wording of such a fault. -/
def JsonFault.message : JsonFault → String
  | .outOfRange => "number out of range"
  | .keyNotText => "key must be a string"

/-- The range of integers with a JSON form: signed and unsigned 64-bit integers. -/
def fitsJson (i : Int) : Bool := -9223372036854775808 ≤ i && i ≤ 18446744073709551615

/-- The key of an object that a value stands for. -/
def keyText : Value → Except JsonFault String
  | .str s => .ok s
  | .bool true => .ok "true"
  | .bool false => .ok "false"
  | .int i => if fitsJson i then .ok (toString i) else .error .keyNotText
  | .float x => if x.isNaN || x.isInf then .error .keyNotText else .ok (Json.doubleText x)
  | .function f => .ok (functionPath f)
  | _ => .error .keyNotText

mutual
/-- The JSON value of a value; doubles that are not finite and undefined values become null. -/
def toJson : Value → Except JsonFault Json
  | .undefined _ => .ok .null
  | .none => .ok .null
  | .bool b => .ok (.bool b)
  | .int i => if fitsJson i then .ok (.int i) else .error .outOfRange
  | .float x => .ok (if x.isNaN || x.isInf then .null else .double x)
  | .str s => .ok (.str s)
  | .list xs =>
    match toJsonItems xs with
    | .ok ys => .ok (.arr ys)
    | .error e => .error e
  | .map es =>
    match toJsonEntries [] es with
    | .ok fs => .ok (.obj fs)
    | .error e => .error e
  | .function f => .ok (.str (functionPath f))

/-- The JSON values of a list. -/
def toJsonItems : List Value → Except JsonFault (List Json)
  | [] => .ok []
  | x :: xs =>
    match toJson x with
    | .error e => .error e
    | .ok y =>
      match toJsonItems xs with
      | .error e => .error e
      | .ok ys => .ok (y :: ys)

/-- The fields of a map's entries, added to those before them. -/
def toJsonEntries (before : Fields) : List (Value × Value) → Except JsonFault Fields
  | [] => .ok before
  | (k, v) :: es =>
    match keyText k with
    | .error e => .error e
    | .ok key =>
      match toJson v with
      | .error e => .error e
      | .ok y => toJsonEntries (Table.insert key y before) es
end

/-! ## Text -/

/-- The text of a double: never an exponent, and always a mark of its kind. -/
def floatText (x : Float) : String :=
  Decimal.write Decimal.plainStyle x

mutual
/-- A value as it is shown inside a list or map. -/
def shown : Value → String
  | .undefined _ => "undefined"
  | .none => "None"
  | .bool true => "True"
  | .bool false => "False"
  | .int i => toString i
  | .float x => Decimal.write Decimal.shownStyle x
  | .str s => Text.quoted s
  | .list xs => "[" ++ shownItems xs ++ "]"
  | .map es => "\x7b" ++ shownEntries es ++ "\x7d"
  | .function f => functionPath f

/-- The items of a list, separated by commas. -/
def shownItems : List Value → String
  | [] => ""
  | [x] => shown x
  | x :: xs => shown x ++ ", " ++ shownItems xs

/-- The entries of a map, separated by commas. -/
def shownEntries : List (Value × Value) → String
  | [] => ""
  | [(k, v)] => shown k ++ ": " ++ shown v
  | (k, v) :: es => shown k ++ ": " ++ shown v ++ ", " ++ shownEntries es
end

/-- The text of a value. -/
def text : Value → String
  | .undefined _ => ""
  | .float x => floatText x
  | .str s => s
  | v => shown v

/-! ## Truth, equality and order -/

/-- Whether a defined value counts as true. -/
def truthy : Value → Bool
  | .undefined _ => false
  | .none => false
  | .bool b => b
  | .int i => i != 0
  | .float x => x != 0.0
  | .str s => s != ""
  | .list xs => !xs.isEmpty
  | .map es => !es.isEmpty
  | .function _ => true

/-- The double of an integer, rounded to the nearest. -/
def intToFloat (i : Int) : Float := Float.ofInt i

/-- The double of a number or truth value; without `lossy` only when it denotes the same number. -/
def asFloat? (lossy : Bool) : Value → Option Float
  | .bool b => some (if b then 1.0 else 0.0)
  | .int i =>
    let x := intToFloat i
    let e := Decimal.exactOfBits x.toBits
    if lossy || e.num == i.natAbs * e.den then some x else Option.none
  | .float x => some x
  | _ => Option.none

/-- The integer of an integer or truth value. -/
def asInt? : Value → Option Int
  | .bool b => some (if b then 1 else 0)
  | .int i => some i
  | _ => Option.none

/-- Two values brought to a common kind. -/
inductive Pair where
  | ints (a b : Int)
  | floats (a b : Float)
  | strs (a b : String)

/-- Two values of a common kind, when they have one. -/
def pair? (lossy : Bool) (a b : Value) : Option Pair :=
  match a, b with
  | .str s, .str t => some (.strs s t)
  | .float x, .float y => some (.floats x y)
  | .float x, b => (asFloat? lossy b).map (.floats x)
  | a, .float y => (asFloat? lossy a).map (.floats · y)
  | a, b =>
    match asInt? a, asInt? b with
    | some i, some j => some (.ints i j)
    | _, _ => Option.none

mutual
/-- Equality of values. -/
def eqv : Value → Value → Bool
  | .none, .none => true
  | .undefined _, .undefined _ => true
  | .list xs, .list ys => eqvItems xs ys
  | .map xs, .map ys => eqvEntries xs ys
  | .function f, .function g => f == g
  | a, b =>
    match pair? false a b with
    | some (.ints i j) => i == j
    | some (.floats x y) => x == y
    | some (.strs s t) => s == t
    | Option.none => false

/-- Equality of lists. -/
def eqvItems : List Value → List Value → Bool
  | [], [] => true
  | x :: xs, y :: ys => eqv x y && eqvItems xs ys
  | _, _ => false

/-- Equality of maps whose entries are in one order. -/
def eqvEntries : List (Value × Value) → List (Value × Value) → Bool
  | [], [] => true
  | (k, v) :: xs, (l, w) :: ys => eqv k l && eqv v w && eqvEntries xs ys
  | _, _ => false
end

/-- The order of doubles by their bits: negative values first, positive zero after negative. -/
def floatOrder (a b : Float) : Ordering :=
  let key (x : Float) : Int :=
    let n : Int := x.toBits.toNat
    if n ≥ Int.pow 2 63 then Int.pow 2 63 - 1 - n else n
  compare (key a) (key b)

mutual
/-- The order of values: by value within a common kind, else by kind. -/
def order : Value → Value → Ordering
  | .none, .none => .eq
  | .undefined _, .undefined _ => .eq
  | .list xs, .list ys => orderItems xs ys
  | .map xs, .map ys => orderEntries xs ys
  | .function f, .function g => compare f g
  | a, b =>
    match pair? false a b with
    | some (.ints i j) => (compare i j).then (compare (kindRank a) (kindRank b))
    | some (.floats x y) => (floatOrder x y).then (compare (kindRank a) (kindRank b))
    | some (.strs s t) => compare s t
    | Option.none => compare (kindRank a) (kindRank b)

/-- The order of lists, item by item. -/
def orderItems : List Value → List Value → Ordering
  | [], [] => .eq
  | [], _ => .lt
  | _, [] => .gt
  | x :: xs, y :: ys => (order x y).then (orderItems xs ys)

/-- The order of maps, entry by entry. -/
def orderEntries : List (Value × Value) → List (Value × Value) → Ordering
  | [], [] => .eq
  | [], _ => .lt
  | _, [] => .gt
  | (k, v) :: xs, (l, w) :: ys => ((order k l).then (order v w)).then (orderEntries xs ys)
end

/-- The entries with `key` set to `value`, in increasing order of keys. -/
def insertEntry (key value : Value) : List (Value × Value) → List (Value × Value)
  | [] => [(key, value)]
  | (k, v) :: es =>
    match order key k with
    | .eq => (k, value) :: es
    | .lt => (key, value) :: (k, v) :: es
    | .gt => (k, v) :: insertEntry key value es

/-- The value under a key. -/
def lookupEntry (key : Value) : List (Value × Value) → Option Value
  | [] => Option.none
  | (k, v) :: es => if order key k == .eq then some v else lookupEntry key es

end Value
end Runbook.Template

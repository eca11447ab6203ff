import Runbook.Decimal.Exact
import Runbook.Template.Syntax
import Runbook.Template.Value
import Runbook.Text.Blank

/-!
# Operators of templates

Arithmetic is on integers of 128 bits and on doubles; an integer result that does not fit is a
fault. `Fault.message` is the wording of everything that can go wrong while a template is
evaluated.
-/

namespace Runbook.Template

/-- What goes wrong while an expression or template is evaluated. -/
inductive Fault where
  | undefinedValue
  | unsupported (op left right : String)
  | incomputable (op left right : String)
  | invalid (detail : String)
  | notNegatable
  | unknownFilter (name : String)
  | unknownTest (name : String)
  | unknownFunction (name : String)
  | unknownMethod (kind name : String)
  | missingArgument
  | tooManyArguments
  | cannotUnpack (detail : String)
  deriving Repr, BEq

/-- The wording of a fault. -/
def Fault.message : Fault → String
  | .undefinedValue => "undefined value"
  | .unsupported op l r =>
    "invalid operation: tried to use " ++ op ++ " operator on unsupported types " ++ l ++
      " and " ++ r
  | .incomputable op l r =>
    "invalid operation: unable to calculate " ++ l ++ " " ++ op ++ " " ++ r
  | .invalid d => "invalid operation: " ++ d
  | .notNegatable => "invalid operation"
  | .unknownFilter n => "unknown filter: filter " ++ n ++ " is unknown"
  | .unknownTest n => "unknown test: test " ++ n ++ " is unknown"
  | .unknownFunction n => "unknown function: " ++ n ++ " is unknown"
  | .unknownMethod k n => "unknown method: " ++ k ++ " has no method named " ++ n
  | .missingArgument => "missing argument"
  | .tooManyArguments => "too many arguments"
  | .cannotUnpack d => "cannot unpack: " ++ d

namespace Value

/-- The sign of an operator in messages. -/
def opSign : BinOp → String
  | .add => "+" | .sub => "-" | .mul => "*" | .div => "/" | .floorDiv => "//" | .rem => "%"
  | .pow => "**" | .concat => "~" | .eq => "==" | .ne => "!=" | .lt => "<" | .le => "<="
  | .gt => ">" | .ge => ">=" | .isIn => "in"

/-- The fault of an operator that does not apply to two values. -/
def unsupported {α : Type} (op : BinOp) (a b : Value) : Except Fault α :=
  .error (.unsupported (opSign op) (kind a) (kind b))

/-- The fault of an operator whose result does not exist or does not fit. -/
def incomputable {α : Type} (op : BinOp) (a b : Value) : Except Fault α :=
  .error (.incomputable (opSign op) (text a) (text b))

/-- Whether an integer fits 128 bits. -/
def fitsWide (i : Int) : Bool := -Int.pow 2 127 ≤ i && i < Int.pow 2 127

/-- An integer result. -/
def wide (op : BinOp) (a b : Value) (r : Int) : Except Fault Value :=
  if fitsWide r then .ok (.int r) else incomputable op a b

/-- A non-negative integer, also when it is written as a double. -/
def asCount? : Value → Option Nat
  | .bool b => some (if b then 1 else 0)
  | .int i => if i ≥ 0 then some i.toNat else Option.none
  | .float x =>
    if Decimal.isFinite x && x == x.floor && x ≥ 0.0 then some (Decimal.truncate x).toNat
    else Option.none
  | _ => Option.none

/-- An integer, also when it is written as a double. -/
def asIndex? : Value → Option Int
  | .bool b => some (if b then 1 else 0)
  | .int i => some i
  | .float x =>
    if Decimal.isFinite x && x == x.floor then some (Decimal.truncate x) else Option.none
  | _ => Option.none

/-- A list written `n` times. -/
def repeated {α : Type} (xs : List α) (n : Nat) : List α := (List.replicate n xs).flatten

/-- The power of integers; only exponents of 32 bits with a result of 128 bits have one. -/
def power (a b : Int) : Option Int :=
  if b < 0 || b ≥ Int.pow 2 32 then Option.none
  else if a == 0 || a == 1 then some (if b == 0 then 1 else a)
  else if a == -1 then some (if b % 2 == 0 then 1 else -1)
  else if b > 127 then Option.none
  else
    let r := Int.pow a b.toNat
    if fitsWide r then some r else Option.none

/-- The sum of numbers, or two texts or lists one after the other. -/
def add (a b : Value) : Except Fault Value :=
  match a, b with
  | .list xs, .list ys => .ok (.list (xs ++ ys))
  | a, b =>
    match pair? true a b with
    | some (.ints i j) => wide .add a b (i + j)
    | some (.floats x y) => .ok (.float (x + y))
    | some (.strs s t) => .ok (.str (s ++ t))
    | Option.none => unsupported .add a b

/-- The product of numbers, or a text or list repeated. -/
def mul (a b : Value) : Except Fault Value :=
  let times (s : String) (n : Value) : Except Fault Value :=
    match asCount? n with
    | some n => .ok (.str (String.ofList (repeated s.toList n)))
    | Option.none => .error (.invalid "strings can only be multiplied with integers")
  let copies (xs : List Value) (n : Value) : Except Fault Value :=
    match asCount? n with
    | some n => .ok (.list (repeated xs n))
    | Option.none => .error (.invalid "sequences and iterables can only be multiplied with integers")
  match a, b with
  | .str s, n => times s n
  | n, .str s => times s n
  | .list xs, n => copies xs n
  | n, .list xs => copies xs n
  | a, b =>
    match pair? true a b with
    | some (.ints i j) => wide .mul a b (i * j)
    | some (.floats x y) => .ok (.float (x * y))
    | _ => unsupported .mul a b

/-- Whether a value occurs in a container. -/
def isIn (value container : Value) : Except Fault Value :=
  match container with
  | .undefined _ => .error .undefinedValue
  | .str s => .ok (.bool (Text.contains s (text value)))
  | .list xs => .ok (.bool (xs.any (eqv · value)))
  | .map es => .ok (.bool (lookupEntry value es).isSome)
  | _ => .error (.invalid "cannot perform a containment check on this value")

/-- The result of an operator between two values. -/
def binary (op : BinOp) (a b : Value) : Except Fault Value :=
  match op with
  | .add => add a b
  | .sub =>
    match pair? true a b with
    | some (.ints i j) => wide .sub a b (i - j)
    | some (.floats x y) => .ok (.float (x - y))
    | _ => unsupported .sub a b
  | .mul => mul a b
  | .div =>
    match asFloat? true a, asFloat? true b with
    | some x, some y => .ok (.float (x / y))
    | _, _ => unsupported .div a b
  | .floorDiv =>
    match pair? true a b with
    | some (.ints i j) => if j == 0 then incomputable .floorDiv a b else wide .floorDiv a b (i / j)
    | some (.floats x y) => .ok (.float (Decimal.floorQuotient x y))
    | _ => unsupported .floorDiv a b
  | .rem =>
    match pair? true a b with
    | some (.ints i j) => if j == 0 then incomputable .rem a b else .ok (.int (i % j))
    | some (.floats x y) => .ok (.float (Decimal.remainder x y))
    | _ => unsupported .rem a b
  | .pow =>
    match pair? true a b with
    | some (.ints i j) =>
      match power i j with
      | some r => .ok (.int r)
      | Option.none => incomputable .pow a b
    | some (.floats x y) => .ok (.float (x.pow y))
    | _ => unsupported .pow a b
  | .concat => .ok (.str (text a ++ text b))
  | .eq => .ok (.bool (eqv a b))
  | .ne => .ok (.bool (!eqv a b))
  | .lt => .ok (.bool (order a b == .lt))
  | .le => .ok (.bool (order a b != .gt))
  | .gt => .ok (.bool (order a b == .gt))
  | .ge => .ok (.bool (order a b != .lt))
  | .isIn => isIn a b

/-- A number with its sign changed. -/
def negate : Value → Except Fault Value
  | .int i => if fitsWide (-i) then .ok (.int (-i)) else .error (.invalid "overflow")
  | .float x => .ok (.float (-x))
  | _ => .error .notNegatable

/-- Whether a value counts as true; an undefined value is a fault. -/
def condition : Value → Except Fault Bool
  | .undefined false => .error .undefinedValue
  | v => .ok (truthy v)

/-- The item of a list or the character of a text at an index, from the end when it is negative. -/
def nth? {α : Type} (xs : List α) (i : Int) : Option α :=
  if i ≥ 0 then xs[i.toNat]?
  else if i.natAbs ≤ xs.length then xs[xs.length - i.natAbs]?
  else Option.none

/-- What a subscript stands for. -/
def subscript? (v key : Value) : Option Value :=
  match v with
  | .map es => lookupEntry key es
  | .list xs => (asIndex? key).bind (nth? xs)
  | .str s => ((asIndex? key).bind (nth? s.toList)).map fun c => .str (String.ofList [c])
  | _ => Option.none

/-- What an attribute stands for. -/
def attribute? (v : Value) (key : String) : Option Value :=
  match v with
  | .map es => lookupEntry (.str key) es
  | _ => Option.none

/-- A part that was looked up in `v`: undefined when `v` lacks it, a fault when `v` itself is
undefined. -/
def orUndefined (v : Value) (part : Option Value) : Except Fault Value :=
  match part with
  | some w => .ok w
  | Option.none => if isUndefined v then .error .undefinedValue else .ok (.undefined false)

/-- The items that a loop goes through. -/
def items : Value → Except Fault (List Value)
  | .undefined false => .error .undefinedValue
  | .undefined true => .ok []
  | .none => .ok []
  | .list xs => .ok xs
  | .map es => .ok (es.map Prod.fst)
  | .str s => .ok (s.toList.map fun c => .str (String.ofList [c]))
  | v => .error (.invalid (kind v ++ " is not iterable"))

/-- Every `step`-th item. -/
def everyNth {α : Type} (step : Nat) : Nat → List α → List α
  | _, [] => []
  | 0, x :: xs => x :: everyNth step (step - 1) xs
  | skip + 1, _ :: xs => everyNth step skip xs

/-- The part of a list between two bounds, every `step`-th item of it. -/
def part {α : Type} (xs : List α) (start : Int) (stop : Option Int) (step : Nat) : List α :=
  let len : Int := xs.length
  let first := if start < 0 then (len + start).toNat else start.toNat
  let last := match stop with
    | Option.none => xs.length
    | some x => if x < 0 then (len + x).toNat else x.toNat
  everyNth step 0 ((xs.drop first).take (last - first))

/-- The part of a text or list between two bounds. -/
def slice (v start stop step : Value) : Except Fault Value :=
  let number (x : Value) : Except Fault (Option Int) :=
    match x with
    | .none => .ok Option.none
    | x =>
      match asIndex? x with
      | some i => .ok (some i)
      | Option.none => .error (.invalid ("cannot convert " ++ kind x ++ " to i64"))
  match number start, number stop, number step with
  | .error e, _, _ => .error e
  | _, .error e, _ => .error e
  | _, _, .error e => .error e
  | .ok a, .ok b, .ok c =>
    let step := c.getD 1
    if step == 0 then .error (.invalid "cannot slice by step size of 0")
    else if step < 0 then .error (.invalid "cannot slice by negative step size")
    else match v with
      | .undefined _ => .ok (.list [])
      | .none => .ok (.list [])
      | .list xs => .ok (.list (part xs (a.getD 0) b step.toNat))
      | .str s => .ok (.str (String.ofList (part s.toList (a.getD 0) b step.toNat)))
      | v => .error (.invalid ("value of type " ++ kind v ++ " cannot be sliced"))

end Value
end Runbook.Template

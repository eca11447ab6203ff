import Runbook.Script.Fault
import Runbook.Script.Syntax
import Runbook.Table
import Runbook.Text.Search

/-!
# Operators of scripts

Arithmetic is on integers of 64 bits, where a result that does not fit is a fault, and on doubles;
an integer beside a double becomes a double. Values of different types are never equal and never in
order, except for numbers and for characters beside texts. A text beside anything else takes up its
text.
-/

namespace Runbook.Script

namespace Value

/-! ## Equality and order -/

/-- The characters of a character or a text. -/
def letters? : Value → Option (List Char)
  | .char c => some [c]
  | .str s => some s.toList
  | _ => none

/-- A number as a double. -/
def number? : Value → Option Float
  | .int i => some (Float.ofInt i)
  | .float x => some x
  | _ => none

mutual
/-- Whether two values are equal. -/
def equal : Value → Value → Bool
  | .unit, .unit => true
  | .bool a, .bool b => a == b
  | .int a, .int b => a == b
  | .float x, .float y => x == y
  | .int a, .float y => Float.ofInt a == y
  | .float x, .int b => x == Float.ofInt b
  | .char c, .char d => c == d
  | .str s, .str t => s == t
  | .char c, .str t => String.singleton c == t
  | .str s, .char d => s == String.singleton d
  | .list xs, .list ys => equalItems xs ys
  | .map fs, .map gs => equalFields fs gs
  | .range a b p, .range c d q => a == c && b == d && p == q
  | _, _ => false

/-- Whether two lists of items are equal. -/
def equalItems : List Value → List Value → Bool
  | [], [] => true
  | x :: xs, y :: ys => equal x y && equalItems xs ys
  | _, _ => false

/-- Whether two lists of fields are equal. -/
def equalFields : List (String × Value) → List (String × Value) → Bool
  | [], [] => true
  | (k, v) :: fs, (l, w) :: gs => k == l && equal v w && equalFields fs gs
  | _, _ => false
end

mutual
/-- Whether two values are equal and of one type in all their parts. -/
def same : Value → Value → Bool
  | .unit, .unit => true
  | .bool a, .bool b => a == b
  | .int a, .int b => a == b
  | .float x, .float y => x == y
  | .char c, .char d => c == d
  | .str s, .str t => s == t
  | .list xs, .list ys => sameItems xs ys
  | .map fs, .map gs => sameFields fs gs
  | _, _ => false

/-- Whether two lists of items are the same. -/
def sameItems : List Value → List Value → Bool
  | [], [] => true
  | x :: xs, y :: ys => same x y && sameItems xs ys
  | _, _ => false

/-- Whether two lists of fields are the same. -/
def sameFields : List (String × Value) → List (String × Value) → Bool
  | [], [] => true
  | (k, v) :: fs, (l, w) :: gs => k == l && same v w && sameFields fs gs
  | _, _ => false
end

/-- A comparison of two values: whether the left one is less, and whether it is greater. Doubles
that are not numbers are neither. None when the values have no order. -/
def order? (a b : Value) : Option (Bool × Bool) :=
  match a, b with
  | .int i, .int j => some (decide (i < j), decide (j < i))
  | .bool p, .bool q => some (!p && q, p && !q)
  | a, b =>
    match number? a, number? b with
    | some x, some y => some (decide (x < y), decide (y < x))
    | _, _ =>
      match letters? a, letters? b with
      | some s, some t =>
        let s := String.ofList s
        let t := String.ofList t
        some (decide (s < t), decide (t < s))
      | _, _ => none

/-- The fault of an operator that does not apply to two values. -/
def inapplicable {α : Type} (sign : String) (a b : Value) : Except Fault α :=
  .error (.unknownFunction sign [a.argumentKind, b.argumentKind])

/-- A comparison by order; values of different types without a common order are never in it. -/
def compare (op : BinOp) (a b : Value) : Except Fault Value :=
  let orEqual := op == .le || op == .ge
  match order? a b with
  | some (less, greater) =>
    let strict := if op == .lt || op == .le then less else greater
    .ok (.bool (strict || (orEqual && equal a b)))
  | none =>
    match a, b with
    | .unit, .unit => .ok (.bool orEqual)
    | a, b => if a.kind == b.kind then inapplicable op.sign a b else .ok (.bool false)

/-! ## Arithmetic -/

/-- An integer result, or the fault when it does not fit. -/
def checked (what : String) (op : BinOp) (i j r : Int) : Except Fault Value :=
  if fits r then .ok (.int r)
  else .error (.arithmetic
    (what ++ " overflow: " ++ toString i ++ " " ++ op.sign ++ " " ++ toString j))

/-- A fault of arithmetic that names the operation. -/
def arithmeticFault {α : Type} (what : String) (op : BinOp) (i j : Int) : Except Fault α :=
  .error (.arithmetic (what ++ ": " ++ toString i ++ " " ++ op.sign ++ " " ++ toString j))

/-- The power of an integer; none when it cannot fit. -/
def power? (i : Int) (n : Nat) : Option Int :=
  if n == 0 then some 1
  else if i == 0 || i == 1 then some i
  else if i == -1 then some (if n % 2 == 0 then 1 else -1)
  else if n > 63 then none
  else some (Int.pow i n)

/-- An integer shifted; bits that leave the 64 are lost, and the sign stays when shifting right. -/
def shift (left : Bool) (i : Int) (n : Nat) : Int :=
  if left then Int.bmod (i * Int.pow 2 n) (Nat.pow 2 64) else i >>> n

/-- Two integers combined bit by bit as numbers of 64 bits. -/
def bitwise (f : Nat → Nat → Nat) (i j : Int) : Int :=
  Int.bmod (f (i % Int.pow 2 64).toNat (j % Int.pow 2 64).toNat : Nat) (Nat.pow 2 64)

/-- Arithmetic on integers. -/
def integers (op : BinOp) (i j : Int) : Except Fault Value :=
  match op with
  | .add => checked "Addition" op i j (i + j)
  | .sub => checked "Subtraction" op i j (i - j)
  | .mul => checked "Multiplication" op i j (i * j)
  | .div =>
    if j == 0 then arithmeticFault "Division by zero" op i j
    else checked "Division" op i j (Int.tdiv i j)
  | .rem =>
    if j == 0 then arithmeticFault "Modulo division by zero" op i j
    else if j == -1 && i == -Int.pow 2 63 then arithmeticFault "Modulo overflow" op i j
    else .ok (.int (Int.tmod i j))
  | .pow =>
    if j < 0 then arithmeticFault "Integer raised to a negative power" op i j
    else
      match power? i j.toNat with
      | some r => checked "Exponential" op i j r
      | none => arithmeticFault "Exponential overflow" op i j
  | .shiftLeft | .shiftRight =>
    let left := (op == .shiftLeft) != decide (j < 0)
    if j.natAbs ≥ 64 then
      arithmeticFault ((if left then "Left" else "Right") ++ "-shift by too many bits")
        op i j
    else .ok (.int (shift left i j.natAbs))
  | .bitAnd => .ok (.int (bitwise (· &&& ·) i j))
  | .bitOr => .ok (.int (bitwise (· ||| ·) i j))
  | .bitXor => .ok (.int (bitwise (· ^^^ ·) i j))
  | _ => inapplicable op.sign (.int i) (.int j)

/-- Arithmetic on doubles. -/
def doubles? (op : BinOp) (x y : Float) : Option Float :=
  match op with
  | .add => some (x + y)
  | .sub => some (x - y)
  | .mul => some (x * y)
  | .div => some (x / y)
  | .rem => some (Decimal.remainder x y)
  | .pow => some (Float.pow x y)
  | _ => none

/-- The fields of a map with those of another over them. -/
def merged (fs gs : List (String × Value)) : List (String × Value) :=
  gs.foldl (fun acc (k, v) => Table.insert k v acc) fs

/-- A sum: of numbers, of texts, of lists or of maps. -/
def sum (a b : Value) : Except Fault Value :=
  match a, b with
  | .str s, b => .ok (.str (s ++ b.appended))
  | a, .str t => .ok (.str (a.appended ++ t))
  | .char c, .char d => .ok (.str (String.ofList [c, d]))
  | .list xs, .list ys => .ok (.list (xs ++ ys))
  | .map fs, .map gs => .ok (.map (merged fs gs))
  | a, b => inapplicable "+" a b

/-- A text without the occurrences of another. -/
def without (s t : String) : String := if t.isEmpty then s else Text.replaceAll s t ""

/-- The value of an operator between two values. -/
def apply (op : BinOp) (a b : Value) : Except Fault Value :=
  match op with
  | .eq => .ok (.bool (equal a b))
  | .ne => .ok (.bool (!equal a b))
  | .lt | .le | .gt | .ge => compare op a b
  | op =>
    match a, b with
    | .int i, .int j => integers op i j
    | .bool p, .bool q =>
      match op with
      | .bitAnd => .ok (.bool (p && q))
      | .bitOr => .ok (.bool (p || q))
      | .bitXor => .ok (.bool (p != q))
      | op => inapplicable op.sign a b
    | a, b =>
      match number? a, number? b with
      | some x, some y =>
        match doubles? op x y with
        | some z => .ok (.float z)
        | none => inapplicable op.sign a b
      | _, _ =>
        match op, a, b with
        | .add, a, b => sum a b
        | .sub, .str s, .str t => .ok (.str (without s t))
        | .sub, .str s, .char c => .ok (.str (without s (String.singleton c)))
        | op, a, b => inapplicable op.sign a b

/-- The value of an assignment with an operator. A list takes up the items of a list, or one
further item. -/
def update (op : BinOp) (a b : Value) : Except Fault Value :=
  match op, a, b with
  | .add, .list xs, .list ys => .ok (.list (xs ++ ys))
  | .add, .list xs, b => .ok (.list (xs ++ [b]))
  | op, a, b =>
    match apply op a b with
    | .error (.unknownFunction _ kinds) => .error (.unknownFunction (op.sign ++ "=") kinds)
    | r => r

/-- The value of an operator on one value. -/
def applyUnary (op : UnOp) (a : Value) : Except Fault Value :=
  match op, a with
  | .negate, .int i =>
    if fits (-i) then .ok (.int (-i))
    else .error (.arithmetic ("Negation overflow: -" ++ toString i))
  | .negate, .float x => .ok (.float (-x))
  | .plus, .int i => .ok (.int i)
  | .plus, .float x => .ok (.float x)
  | .not, .bool b => .ok (.bool (!b))
  | op, a => .error (.unknownFunction op.sign [a.argumentKind])

/-- Whether a list, a text, a map or a range holds a value. -/
def holds (container item : Value) : Except Fault Bool :=
  match container, item with
  | .list xs, v => .ok (xs.any fun x => equal x v)
  | .str s, .str t => .ok (Text.contains s t)
  | .str s, .char c => .ok (s.toList.contains c)
  | .map fs, .str k => .ok (Table.get? k fs).isSome
  | .range a b closed, .int i => .ok (a ≤ i && (i < b || (closed && i == b)))
  | c, v => inapplicable "contains" c v

end Value
end Runbook.Script

import Runbook.Script.Builtin.Basic

/-!
# Functions on lists, maps and ranges

The functions that add, remove or order items change the list or map that they are called on; those
that take a part of it give new values.
-/

namespace Runbook.Script.Builtin

/-- The place of the first item from a place on that equals a value, and -1 when there is none. -/
def placeOfItem (xs : List Value) (v : Value) (start : Int) : Value :=
  let first := (partOf xs.length start 0).1
  match (xs.drop first).findIdx? fun x => Value.equal x v with
  | some n => .int (first + n : Nat)
  | none => .int (-1)

/-- Whether items can be ordered: they are all numbers of one kind, texts, characters or truth
values. -/
def sortable (xs : List Value) : Bool :=
  match xs with
  | [] => true
  | x :: rest =>
    (match x with
      | .int _ | .float _ | .str _ | .char _ | .bool _ => true
      | _ => false) && rest.all fun y => y.kind == x.kind

/-- Whether a value does not come after another. -/
def notAfter (a b : Value) : Bool :=
  match Value.order? a b with
  | some (_, greater) => !greater
  | none => true

/-- The items in order. -/
def sorted (xs : List Value) : Answer :=
  if xs.length ≤ 1 then .change (.list xs)
  else if sortable xs then .change (.list (xs.mergeSort notAfter))
  else .fault (.unknownFunction "sort" ["array"])

/-- The items without those that equal the one before. -/
def deduplicated : List Value → List Value
  | x :: y :: rest =>
    if Value.equal x y then deduplicated (x :: rest) else x :: deduplicated (y :: rest)
  | xs => xs
termination_by xs => xs.length

/-- A part of a list, and the list with other items in its place. -/
def spliced (xs : List Value) (start count : Int) (items : List Value) : List Value × List Value :=
  let (first, n) := partOf xs.length start count
  ((xs.drop first).take n, xs.take first ++ items ++ xs.drop (first + n))

/-- Functions on one list. -/
def ofList (name : String) (xs : List Value) : Answer :=
  match name with
  | "len" => .value (.int xs.length)
  | "is_empty" => .value (.bool xs.isEmpty)
  | "clear" => .change (.list [])
  | "reverse" => .change (.list xs.reverse)
  | "sort" => sorted xs
  | "dedup" => .change (.list (deduplicated xs))
  | "pop" =>
    match xs.getLast? with
    | some x => .both x (.list xs.dropLast)
    | none => .value .unit
  | "shift" =>
    match xs with
    | x :: rest => .both x (.list rest)
    | [] => .value .unit
  | _ => none

/-- Functions on a list and an integer. -/
def ofListAndInteger (name : String) (xs : List Value) (i : Int) : Answer :=
  match name with
  | "get" => .value (((placeOf? xs.length i).bind (xs[·]?)).getD .unit)
  | "remove" =>
    match placeOf? xs.length i with
    | some n => .both ((xs[n]?).getD .unit) (.list (xs.eraseIdx n))
    | none => .value .unit
  | "truncate" => .change (.list (xs.take i.toNat))
  | "chop" => .change (.list (xs.drop (xs.length - i.toNat)))
  | "extract" => .value (.list (spliced xs i xs.length []).1)
  | "split" =>
    let n := (partOf xs.length i 0).1
    .both (.list (xs.drop n)) (.list (xs.take n))
  | _ => none

/-- Functions on a list and a part of it. -/
def ofListPart (name : String) (xs : List Value) (start count : Int) : Answer :=
  let (taken, rest) := spliced xs start count []
  match name with
  | "extract" => .value (.list taken)
  | "drain" => .both (.list taken) (.list rest)
  | "retain" => .both (.list rest) (.list taken)
  | _ => none

/-- Functions on a list and any value. -/
def ofListAndItem (name : String) (xs : List Value) (v : Value) : Answer :=
  match name with
  | "push" => .change (.list (xs ++ [v]))
  | "index_of" => .value (placeOfItem xs v 0)
  | _ => none

/-- A list with a value put at a place; past the end it is added there. -/
def inserted (xs : List Value) (i : Int) (v : Value) : List Value :=
  let n := (partOf xs.length i 0).1
  xs.take n ++ v :: xs.drop n

/-- Functions on lists. -/
def onList (name : String) (args : List Value) : Answer :=
  match args with
  | [.list xs] => ofList name xs
  | [.list xs, .list ys] =>
    if name == "append" then .change (.list (xs ++ ys)) else ofListAndItem name xs (.list ys)
  | [.list xs, .int i] =>
    match ofListAndInteger name xs i with
    | some r => some r
    | none => ofListAndItem name xs (.int i)
  | [.list xs, .range a b closed] =>
    let (start, count) := partOfRange a b closed
    match ofListPart name xs start count with
    | some r => some r
    | none => ofListAndItem name xs (.range a b closed)
  | [.list xs, v] => ofListAndItem name xs v
  | [.list xs, .range a b closed, .list ys] =>
    let (start, count) := partOfRange a b closed
    if name == "splice" then .change (.list (spliced xs start count ys).2) else none
  | [.list xs, .int i, v] =>
    match name with
    | "insert" => .change (.list (inserted xs i v))
    | "pad" => .change (.list (xs ++ List.replicate (i.toNat - xs.length) v))
    | "set" =>
      match placeOf? xs.length i with
      | some n => .change (.list (xs.set n v))
      | none => .value .unit
    | name =>
      match v with
      | .int n =>
        if name == "index_of" then .value (placeOfItem xs (.int i) n) else ofListPart name xs i n
      | _ => none
  | [.list xs, v, .int i] => if name == "index_of" then .value (placeOfItem xs v i) else none
  | [.list xs, .int i, .int n, .list ys] =>
    if name == "splice" then .change (.list (spliced xs i n ys).2) else none
  | _ => none

/-- The fields of a map with those of another that it does not have. -/
def filled (fs gs : List (String × Value)) : List (String × Value) :=
  gs.foldl (fun acc (k, v) => if (Table.get? k acc).isSome then acc else Table.insert k v acc) fs

/-- Functions on maps. -/
def onMap (name : String) (args : List Value) : Answer :=
  match args with
  | [.map fs] =>
    match name with
    | "len" => .value (.int fs.length)
    | "is_empty" => .value (.bool fs.isEmpty)
    | "clear" => .change (.map [])
    | "keys" => .value (.list (fs.map fun f => .str f.1))
    | "values" => .value (.list (fs.map (·.2)))
    | "to_json" => .value (.str (Value.map fs).written)
    | _ => none
  | [.map fs, .str k] =>
    match name with
    | "remove" =>
      match Table.get? k fs with
      | some v => .both v (.map (Table.erase k fs))
      | none => .value .unit
    | "get" => .value ((Table.get? k fs).getD .unit)
    | _ => none
  | [.map fs, .map gs] =>
    match name with
    | "mixin" => .change (.map (Value.merged fs gs))
    | "fill_with" => .change (.map (filled fs gs))
    | _ => none
  | [.map fs, .str k, v] => if name == "set" then .change (.map (Table.insert k v fs)) else none
  | _ => none

/-- Functions on ranges. -/
def onRange (name : String) (args : List Value) : Answer :=
  match args with
  | [.range a b closed] =>
    match name with
    | "start" => .value (.int a)
    | "end" => .value (.int b)
    | "is_inclusive" => .value (.bool closed)
    | "is_exclusive" => .value (.bool !closed)
    | "is_empty" => .value (.bool (if closed then b < a else b ≤ a))
    | _ => none
  | [.int a, .int b] => if name == "range" then .value (.range a b false) else none
  | [.int a, .int b, .int step] =>
    if name == "range" then
      if step == 0 then .fault (.arithmetic "step value cannot be zero")
      else
        let span := if step > 0 then b - a else a - b
        let count := (span + step.natAbs - 1) / step.natAbs
        .value (.list ((List.range count.toNat).map fun (n : Nat) => .int (a + n * step)))
    else none
  | _ => none

end Runbook.Script.Builtin

import Runbook.Script.Fault
import Runbook.Script.Limits
import Runbook.Script.Syntax
import Runbook.Time.Instant

/-!
# The state of a running script

`Machine` holds the variables in reach, innermost first, and what has been used up. A computation
(`Eval`) ends with a value or with a `Signal`, and keeps the state in both cases, so that what a
block has changed before a fault stays changed. Loops are combinators over the computation of their
body (`Eval.repeated`, `Eval.overItems`, `Eval.overCount`).
-/

namespace Runbook.Script

/-- A variable. -/
structure Slot where
  name : String
  constant : Bool
  value : Value
  deriving Inhabited

/-- The state of a running script. -/
structure Machine where
  /-- The variables in reach, innermost first. -/
  slots : List Slot
  /-- What `this` stands for in a function that is called as a method. -/
  receiver : Option Value
  /-- How many operations have been performed. -/
  operations : Nat
  /-- How many calls are under way. -/
  depth : Nat
  deriving Inhabited

/-- Why a computation ends without a value of its own. -/
inductive Signal where
  | fault (f : Fault)
  | leave (value : Value)
  | next
  | give (value : Value)
  | exit (value : Value)
  deriving Inhabited

/-- A computation on the state of a script. -/
abbrev Eval (α : Type) := EStateM Signal Machine α

/-- What a script runs with. -/
structure Host where
  functions : List Function
  limits : Limits
  now : Instant

namespace Eval

variable {α : Type}

/-- Ends with a fault. -/
def fail (f : Fault) : Eval α := throw (.fault f)

/-- The value, or the fault in its place. -/
def ofExcept : Except Fault α → Eval α
  | .ok a => pure a
  | .error f => fail f

/-- Counts an operation; none may follow once a limit is reached. -/
def tick (h : Host) : Eval Unit := fun s =>
  let s := { s with operations := s.operations + 1 }
  if h.limits.operations != 0 && s.operations > h.limits.operations then
    .error (.fault .tooManyOperations) s
  else if h.limits.seconds == 0 then .error (.fault .terminated) s
  else .ok () s

/-- The value itself, when its size is within the limits. -/
def sized (h : Host) (v : Value) : Eval Value :=
  let size := v.size
  if h.limits.textSize != 0 && size.bytes > h.limits.textSize then
    fail (.tooLarge "Length of string")
  else if h.limits.listSize != 0 && size.items > h.limits.listSize then
    fail (.tooLarge "Size of array/BLOB")
  else if h.limits.mapSize != 0 && size.fields > h.limits.mapSize then
    fail (.tooLarge "Size of object map")
  else pure v

/-! ## Variables -/

/-- The innermost variable of a name. -/
def slot (name : String) : Eval Slot := do
  match (← get).slots.find? fun s => s.name == name with
  | some s => return s
  | none => fail (.unknownVariable name)

/-- The variables with the innermost one of a name set. -/
def replaced (name : String) (v : Value) : List Slot → List Slot
  | [] => []
  | s :: rest => if s.name == name then { s with value := v } :: rest else s :: replaced name v rest

/-- Sets the innermost variable of a name. -/
def store (name : String) (v : Value) : Eval Unit :=
  modify fun s => { s with slots := replaced name v s.slots }

/-- Adds a variable. -/
def declare (name : String) (constant : Bool) (v : Value) : Eval Unit :=
  modify fun s => { s with slots := ⟨name, constant, v⟩ :: s.slots }

/-- A computation whose variables are gone when it ends. -/
def inScope (act : Eval α) : Eval α := fun s =>
  let n := s.slots.length
  let back (t : Machine) : Machine := { t with slots := t.slots.drop (t.slots.length - n) }
  match act s with
  | .ok a t => .ok a (back t)
  | .error e t => .error e (back t)

/-- A computation that has variables of its own; what becomes of its receiver is part of its
value. -/
def framed (slots : List Slot) (receiver : Option Value) (act : Eval α) :
    Eval (α × Option Value) := fun s =>
  let back (t : Machine) : Machine :=
    { t with slots := s.slots, receiver := s.receiver, depth := s.depth }
  match act { s with slots, receiver, depth := s.depth + 1 } with
  | .ok a t => .ok (a, t.receiver) (back t)
  | .error e t => .error e (back t)

/-! ## Loops -/

/-- One round of a loop: a value when the loop ends with it. -/
def round (body : Eval Value) : Eval (Option Value) := fun s =>
  match body s with
  | .ok _ t => .ok none t
  | .error (.leave v) t => .ok (some v) t
  | .error .next t => .ok none t
  | .error e t => .error e t

/-- Rounds until one ends the loop, at most so many. -/
def repeated : Nat → Eval (Option Value) → Eval Value
  | 0, _ => fail .tooManyOperations
  | n + 1, body => fun s =>
    match body s with
    | .ok none t => repeated n body t
    | .ok (some v) t => .ok v t
    | .error e t => .error e t

/-- A round for each of some items and its place. -/
def overItems (body : Value → Nat → Eval (Option Value)) : List Value → Nat → Eval Value
  | [], _ => pure .unit
  | x :: xs, i => fun s =>
    match body x i s with
    | .ok none t => overItems body xs (i + 1) t
    | .ok (some v) t => .ok v t
    | .error e t => .error e t

/-- A round for each of the places `i`, `i + 1`, … of some number. -/
def overCount (body : Nat → Eval (Option Value)) : Nat → Nat → Eval Value
  | 0, _ => pure .unit
  | n + 1, i => fun s =>
    match body i s with
    | .ok none t => overCount body n (i + 1) t
    | .ok (some v) t => .ok v t
    | .error e t => .error e t

/-- A computation whose catchable faults are handled. A handler that throws the unit raises the
fault again. -/
def handled (body : Eval Value) (handler : Fault → Eval Value) : Eval Value := fun s =>
  match body s with
  | .error (.fault f) t =>
    if f.isLimit then .error (.fault f) t
    else
      match handler f t with
      | .ok _ u => .ok .unit u
      | .error (.fault (.thrown .unit)) u => .error (.fault f) u
      | .error e u => .error e u
  | r => r

/-- The body of a function: `return` ends it, and faults tell which function they come from. -/
def bounded (name : String) (body : Eval Value) : Eval Value := fun s =>
  match body s with
  | .error (.give v) t => .ok v t
  | .error (.fault f) t => .error (.fault (if f.isLimit then f else .inFunction name f)) t
  | r => r

end Eval
end Runbook.Script

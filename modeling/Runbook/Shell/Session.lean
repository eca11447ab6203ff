import Runbook.Shell.Program
import Runbook.Shell.Syntax

/-!
# The state of a shell

A session holds the variables of a shell, its directory, where its commands read from and write to,
and what has been written so far. What is written goes to channels: the first two are the output
and the error output of the shell, later ones are pipes. A computation (`Run`) keeps the session
also when it stops early.
-/

namespace Runbook.Shell

/-- A variable; the exported ones are part of the environment of programs. -/
structure Variable where
  value : String
  exported : Bool
  deriving Repr, BEq, DecidableEq, Inhabited

/-- Where bytes are written to. -/
inductive Sink where
  | channel (n : Nat)
  | file (path : String)
  | discard
  deriving Repr, BEq, DecidableEq, Inhabited

/-- The state of a shell. -/
structure Session where
  dialect : Dialect
  /-- The name by which the shell was called. -/
  name : String
  arguments : List String := []
  vars : Table Variable
  functions : Table Command := []
  directory : String
  host : Host
  status : Nat := 0
  line : Nat := 1
  /-- The options that are set. -/
  options : List String := []
  /-- Whether a failure is looked at by the command around. -/
  guarded : Bool := false
  /-- The commands that are run when the shell ends. -/
  farewell : Option String := none
  /-- How many loops are under way. -/
  loops : Nat := 0
  /-- Whether a function is under way. -/
  inFunction : Bool := false
  input : Stream := {}
  output : Sink := .channel 0
  errors : Sink := .channel 1
  channels : List Stream := [{}, {}]
  /-- The milliseconds since the start. -/
  elapsed : Nat := 0
  deriving Inhabited

/-- Why a shell stops before the end of its commands. -/
inductive Stop where
  | exit
  | killed
  /-- Leaves loops. -/
  | leave (loops : Nat)
  /-- Goes on with the next pass of a loop. -/
  | again (loops : Nat)
  /-- Leaves a function. -/
  | back
  deriving Repr, BEq, DecidableEq, Inhabited

/-- A computation on a session. -/
abbrev Run (α : Type) := EStateM Stop Session α

/-- The number that a shell takes for that of its process. -/
def processNumber : Nat := 4096

namespace Session

/-- The session with bytes written. -/
def write (s : Session) (sink : Sink) (bytes : Stream) : Session :=
  let late := if bytes.isEndless then { s with elapsed := s.elapsed + forever } else s
  match sink with
  | .channel n => { s with channels := s.channels.modify n (· ++ bytes) }
  | .discard => late
  | .file p =>
    let files := s.host.files
    let files := Table.insert p (((Table.get? p files).getD {}) ++ { bytes with cycle := [] }) files
    { late with host := { s.host with files } }

/-- What complaints of the shell start with. -/
def place (s : Session) : String := s.dialect.place s.name s.line

/-- The session with a complaint written. -/
def complain (s : Session) (m : String) : Session :=
  s.write s.errors (.ofText (s.place ++ m ++ "\n"))

/-- The value of a variable or parameter. -/
def value? (s : Session) (name : String) : Option String :=
  match name with
  | "?" => some (toString s.status)
  | "$" => some (toString processNumber)
  | "#" => some (toString s.arguments.length)
  | "0" => some s.name
  | "@" | "*" => if s.arguments.isEmpty then none else some (" ".intercalate s.arguments)
  | "LINENO" => some (toString s.line)
  | _ =>
    match Program.natural? name with
    | some n => s.arguments[n - 1]?
    | none => (Table.get? name s.vars).map Variable.value

/-- The session with a variable set. -/
def assign (s : Session) (name value : String) : Session :=
  let exported := (Table.get? name s.vars).any Variable.exported || s.options.contains "allexport"
  { s with vars := Table.insert name ⟨value, exported⟩ s.vars }

/-- The session with a variable made part of the environment. -/
def publish (s : Session) (name : String) : Session :=
  let value := ((Table.get? name s.vars).map Variable.value).getD ""
  { s with vars := Table.insert name ⟨value, true⟩ s.vars }

/-- The environment of programs. -/
def environment (s : Session) : Table String :=
  s.vars.filterMap fun (k, v) => if v.exported then some (k, v.value) else none

/-- What a command leaves behind that ran in a shell of its own. -/
def keep (s after : Session) : Session :=
  { s with
    status := after.status
    channels := after.channels
    elapsed := after.elapsed
    host := { s.host with files := after.host.files } }

end Session

namespace Run

variable {α : Type}

/-- Sets the status. -/
def status (n : Nat) : Run Unit := modify fun s => { s with status := n }

/-- Writes a complaint and sets the status. -/
def complain (n : Nat) (m : String) : Run Unit :=
  modify fun s => { s.complain m with status := n }

/-- Writes a complaint and ends the shell. -/
def abort (n : Nat) (m : String) : Run α := do
  complain n m
  throw .exit

/-- Goes on for ever. -/
def diverge : Run α := do
  modify fun s => { s with elapsed := s.elapsed + forever }
  throw .exit

/-- The computation with a failure looked at by the command around. -/
def guarded (c : Run α) : Run α := do
  let g := (← get).guarded
  modify fun s => { s with guarded := true }
  let a ← c
  modify fun s => { s with guarded := g }
  return a

/-- The computation in a shell of its own. -/
def subshell (c : Run Unit) : Run Unit := fun s =>
  match c s with
  | .ok _ t => .ok () (s.keep t)
  | .error .killed t => .error .killed (s.keep t)
  | .error _ t => .ok () (s.keep t)

/-- What a computation in a shell of its own writes, and how much of it is written by its end. -/
def captured (c : Run Unit) : Run Stream := do
  let s ← get
  let n := s.channels.length
  modify fun s => { s with channels := s.channels ++ [{}], output := .channel n }
  subshell c
  let t ← get
  set { t with channels := t.channels.take n, output := s.output }
  return t.channels.getD n {}

/-- Ends the shell after a failure when it is asked to. -/
def checked : Run Unit := do
  let s ← get
  if s.status != 0 && !s.guarded && s.options.contains "errexit" then throw .exit

/-- A pass of a loop; tells whether the loop goes on. -/
def pass (c : Run Unit) : Run Bool := fun s =>
  match c s with
  | .ok _ t => .ok true t
  | .error (.leave n) t => if n ≤ 1 then .ok false t else .error (.leave (n - 1)) t
  | .error (.again n) t => if n ≤ 1 then .ok true t else .error (.again (n - 1)) t
  | .error e t => .error e t

/-- The computation as a loop. -/
def looping (c : Run Unit) : Run Unit := do
  let n := (← get).loops
  modify fun s => { s with loops := n + 1 }
  c
  modify fun s => { s with loops := n }

/-- The computation as a function with arguments. -/
def calling (args : List String) (c : Run Unit) : Run Unit := fun s =>
  let finished (t : Session) : Session :=
    { t with arguments := s.arguments, loops := s.loops, inFunction := s.inFunction }
  match c { s with arguments := args, loops := 0, inFunction := true } with
  | .ok _ t | .error .back t => .ok () (finished t)
  | .error e t => .error e t

/-- Passes of a loop, one for each item. -/
def overItems {β : Type} (body : β → Run Unit) : List β → Run Unit
  | [] => pure ()
  | x :: xs => do if ← pass (body x) then overItems body xs

/-- Passes of a loop as long as a condition holds; the status is that of the last one. A loop that
uses up the bound never ends. -/
def repeated (condition : Run Bool) (body : Run Unit) : Nat → Run Unit
  | 0 => diverge
  | n + 1 => do
    let s ← get
    if s.elapsed ≥ forever then throw .exit
    if ← condition then
      if ← pass body then repeated condition body n
    else status s.status

end Run
end Runbook.Shell

import Runbook.Shell.Format
import Runbook.Shell.Host

/-!
# Programs

A program answers a call, which holds its arguments and its input, with a status, output, error
output and the time it takes. Here are the programs that do not filter their input.
-/

namespace Runbook.Shell

/-- How long something takes that never ends, in milliseconds. -/
def forever : Nat := Nat.pow 2 62

/-- The call of a program. -/
structure Call where
  dialect : Dialect
  /-- What complaints of the shell start with. -/
  place : String
  /-- The name by which it is called. -/
  name : String
  args : List String
  input : Stream
  host : Host
  directory : String

/-- What a program answers. -/
structure Reply where
  status : Nat := 0
  output : Stream := {}
  errors : String := ""
  elapsed : Nat := 0
  deriving Inhabited

namespace Reply

/-- Output alone. -/
def text (s : String) : Reply := { output := .ofText s }

/-- Bytes alone. -/
def bytes (bs : List Nat) : Reply := { output := ⟨bs, []⟩ }

/-- A complaint. -/
def complaint (status : Nat) (message : String) : Reply := { status, errors := message ++ "\n" }

/-- A complaint about how a program is called. -/
def misuse (name message : String) : Reply :=
  complaint 1 (name ++ ": " ++ message ++ "\nTry '" ++ name ++ " --help' for more information.")

/-- No answer, ever. -/
def never : Reply := { elapsed := forever }

end Reply

/-- A program. -/
abbrev Program := Call → Reply

namespace Program

/-- The number that a text of digits denotes. -/
def natural? (s : String) : Option Nat :=
  let cs := s.toList
  if cs.all Char.isDigit then (digitsOf 10 cs.length cs).map (·.1) else none

/-- The number that digits after an optional sign denote. -/
def integer? (s : String) : Option Int :=
  match s.toList with
  | '-' :: cs => (natural? (String.ofList cs)).map fun n => -(n : Int)
  | '+' :: cs => (natural? (String.ofList cs)).map fun n => (n : Int)
  | _ => (natural? s).map fun n => (n : Int)

/-- Writes its arguments. -/
def echo : Program := fun c => .bytes (Format.echo c.dialect c.args)

/-- Writes its arguments after a format. -/
def printf : Program := fun c =>
  let args := if c.args.head? == some "--" then c.args.drop 1 else c.args
  match args with
  | [] => .complaint 2 (match c.dialect with
      | .bash => "printf: usage: printf [-v var] format [arguments]"
      | .dash => c.place ++ "printf: usage: printf format [arg ...]")
  | format :: args =>
    let (bytes, errors) := Format.printf c.dialect format args
    { status := if errors.isEmpty then 0 else 1
      output := ⟨bytes, []⟩
      errors := String.join (errors.map fun e => c.place ++ "printf: " ++ e ++ "\n") }

/-- The milliseconds that an interval denotes: seconds, or the unit that a letter names. -/
def interval? (s : String) : Option Nat :=
  let (cs, unit) := match s.toList.reverse with
    | 's' :: cs => (cs.reverse, 1000)
    | 'm' :: cs => (cs.reverse, 60000)
    | 'h' :: cs => (cs.reverse, 3600000)
    | 'd' :: cs => (cs.reverse, 86400000)
    | _ => (s.toList, 1000)
  match Format.decimal? (String.ofList cs) with
  | some (false, n, scale) => if cs.isEmpty then none else some (n * unit / Nat.pow 10 scale)
  | _ => none

/-- Waits for the sum of its intervals. -/
def sleep : Program := fun c =>
  if c.args.isEmpty then .misuse "sleep" "missing operand"
  else if c.args == ["infinity"] || c.args == ["inf"] then .never
  else match c.args.find? fun a => a.startsWith "-" && a.length > 1 with
  | some a =>
    .misuse "sleep" ("invalid option -- '" ++ String.ofList ((a.toList.drop 1).take 1) ++ "'")
  | none =>
    match c.args.filter fun a => (interval? a).isNone with
    | [] => { elapsed := (c.args.filterMap interval?).foldl (· + ·) 0 }
    | bad =>
      .misuse "sleep"
        ("\nsleep: ".intercalate (bad.map fun a => "invalid time interval '" ++ a ++ "'"))

/-- Writes the values of variables of the environment. -/
def printenv : Program := fun c =>
  if c.args.isEmpty then
    .text (String.join (c.host.environment.map fun (k, v) => k ++ "=" ++ v ++ "\n"))
  else
    let values := c.args.map fun a => Table.get? a c.host.environment
    { status := if values.all Option.isSome then 0 else 1
      output := .ofText (String.join (values.filterMap fun v => v.map (· ++ "\n"))) }

/-- Writes the directory it is called in. -/
def pwd : Program := fun c => .text (c.directory ++ "\n")

/-- Writes the numbers of a range. -/
def seq : Program := fun c =>
  let separator := match c.args with
    | "-s" :: s :: _ => some (s, c.args.drop 2)
    | _ => none
  let (separator, args) := separator.getD ("\n", c.args)
  match args.find? fun a => (integer? a).isNone with
  | some a => .misuse "seq" ("invalid floating point argument: '" ++ a ++ "'")
  | none =>
    let range (first step last : Int) : Reply :=
      let count :=
        if 0 < step then (if last < first then 0 else ((last - first) / step).toNat + 1)
        else if last > first then 0 else ((first - last) / -step).toNat + 1
      let numbers := (List.range count).map fun (i : Nat) => toString (first + step * i)
      .text (if count == 0 then "" else separator.intercalate numbers ++ "\n")
    match args.filterMap integer? with
    | [last] => range 1 1 last
    | [first, last] => range first 1 last
    | [_, 0, _] => .misuse "seq" "invalid Zero increment value: '0'"
    | [first, step, last] => range first step last
    | [] => .misuse "seq" "missing operand"
    | _ => .misuse "seq" ("extra operand '" ++ args.getD 3 "" ++ "'")

/-- Writes a line for ever. -/
def yes : Program := fun c =>
  let line := if c.args.isEmpty then "y" else " ".intercalate c.args
  { output := ⟨[], Text.Base64.bytesOf (line ++ "\n")⟩ }

/-- Writes the names of files. -/
def ls : Program := fun c =>
  let paths := c.args.filter fun a => a.toList.head? != some '-'
  let paths := if paths.isEmpty then ["."] else paths
  let isWithin (directory path : String) : Bool :=
    match (Path.names path).reverse with
    | [] => false
    | _ :: parents => parents.reverse == Path.names directory
  let inside (directory : String) : List String :=
    ((c.host.directories ++ Table.keys c.host.files).filter (isWithin directory)).map Path.base
  let listed (path : String) : Except String String :=
    match c.host.enter c.directory path with
    | .ok d =>
      .ok (String.join (((inside d).filter fun n => n.toList.head? != some '.').map (· ++ "\n")))
    | .error .notDirectory => .ok (path ++ "\n")
    | .error f => .error ("ls: cannot access '" ++ path ++ "': " ++ f.message ++ "\n")
  let answers := paths.map listed
  { status := if answers.any fun a => a matches .error _ then 2 else 0
    output := .ofText (String.join (answers.filterMap fun a => a.toOption))
    errors := String.join (answers.filterMap fun
      | .error e => some e
      | .ok _ => none) }

/-! ## Conditions -/

/-- A comparison of two integers by its name. -/
def comparison? : String → Option (Int → Int → Bool)
  | "-eq" => some fun a b => a == b
  | "-ne" => some fun a b => a != b
  | "-lt" => some fun a b => a < b
  | "-le" => some fun a b => a ≤ b
  | "-gt" => some fun a b => a > b
  | "-ge" => some fun a b => a ≥ b
  | _ => none

/-- A condition on one argument. -/
def holdsOf? (c : Call) (op a : String) : Option Bool :=
  let isDirectory := (c.host.enter c.directory a).toOption.isSome
  let isFile := (c.host.read c.directory a).toOption.isSome
  match op with
  | "-n" => some (!a.isEmpty)
  | "-z" => some a.isEmpty
  | "-d" => some isDirectory
  | "-f" => some (isFile && !a.startsWith "/dev/")
  | "-e" | "-r" | "-w" => some (isDirectory || isFile)
  | "-x" => some isDirectory
  | "-s" =>
    some (isDirectory || (c.host.read c.directory a).toOption.any fun s => !s.bytes.isEmpty)
  | _ => none

/-- The complaint about an operand that is no integer. -/
def noInteger (d : Dialect) (s : String) : String :=
  match d with
  | .bash => s ++ ": integer expression expected"
  | .dash => "Illegal number: " ++ s

/-- Whether a condition holds; the reason if it is none. -/
def holds (c : Call) : Nat → List String → Except String Bool
  | 0, _ => .error "too many arguments"
  | _, [] => .ok false
  | fuel + 1, args =>
    match args with
    | [a] => .ok (!a.isEmpty)
    | ["!", a] => .ok a.isEmpty
    | [op, a] =>
      match holdsOf? c op a with
      | some b => .ok b
      | none => .error (match c.dialect with
          | .bash => op ++ ": unary operator expected"
          | .dash => op ++ ": unexpected operator")
    | [a, op, b] =>
      match op, comparison? op with
      | "=", _ | "==", _ => .ok (a == b)
      | "!=", _ => .ok (a != b)
      | "<", _ => .ok (a < b)
      | ">", _ => .ok (b < a)
      | "-a", _ => .ok (!a.isEmpty && !b.isEmpty)
      | "-o", _ => .ok (!a.isEmpty || !b.isEmpty)
      | _, some compare =>
        match integer? a, integer? b with
        | some x, some y => .ok (compare x y)
        | none, _ => .error (noInteger c.dialect a)
        | _, none => .error (noInteger c.dialect b)
      | _, none =>
        if a == "!" then (holds c fuel [op, b]).map (!·)
        else if a == "(" && b == ")" then holds c fuel [op]
        else .error (match c.dialect with
          | .bash => op ++ ": binary operator expected"
          | .dash => op ++ ": unexpected operator")
    | "!" :: rest => (holds c fuel rest).map (!·)
    | _ =>
      let split (op : String) : Option (List String × List String) :=
        let left := args.takeWhile (· != op)
        if left.length < args.length then some (left, args.drop (left.length + 1)) else none
      match split "-o", split "-a" with
      | some (l, r), _ => do return (← holds c fuel l) || (← holds c fuel r)
      | none, some (l, r) => do return (← holds c fuel l) && (← holds c fuel r)
      | none, none => .error "too many arguments"

/-- Tells whether a condition holds. -/
def test : Program := fun c =>
  let complaint (m : String) : Reply := .complaint 2 (c.place ++ c.name ++ ": " ++ m)
  let judge (args : List String) : Reply :=
    match holds c (args.length + 1) args with
    | .ok b => { status := if b then 0 else 1 }
    | .error m => complaint m
  if c.name == "[" then
    if c.args.getLast? == some "]" then judge c.args.dropLast
    else complaint (match c.dialect with
      | .bash => "missing \x60]'"
      | .dash => "missing ]")
  else judge c.args

end Program
end Runbook.Shell

import Runbook.Shell.Parser
import Runbook.Shell.Session

/-!
# Commands of the shell itself

The commands that change the session (`special?`), programs (`plain`) and redirections, all with
their arguments expanded.
-/

namespace Runbook.Shell

namespace Run

/-- The value of a parameter; one that is not set counts as empty unless the shell refuses it. -/
def parameter (name : String) : Run String := do
  let s ← get
  match s.value? name with
  | some v => return v
  | none =>
    if s.options.contains "nounset" && name != "@" && name != "*" then
      match s.dialect with
      | .bash => abort 127 (name ++ ": unbound variable")
      | .dash => abort 2 (name ++ ": parameter not set")
    else return ""

/-- The value of an arithmetic expression as text. -/
def arithmetic (expression : String) : Run String := do
  let s ← get
  match Arithmetic.eval (fun n => (s.value? n).getD "") expression with
  | .ok v => return toString v
  | .error f =>
    match s.dialect with
    | .bash => abort 1 (f.message expression)
    | .dash => abort 2 ("arithmetic expression: " ++ (match f with
        | .divisionByZero _ => "division by zero"
        | _ => "expecting primary") ++ ": \"" ++ expression ++ "\"")

/-- Fails because a parameter has no value. -/
def refuse {α : Type} (name : String) (emptyToo : Bool) (reason : String) : Run α := do
  let s ← get
  let reason :=
    if !reason.isEmpty then reason
    else if emptyToo then "parameter null or not set"
    else "parameter not set"
  abort (match s.dialect with
    | .bash => 127
    | .dash => 2) (name ++ ": " ++ reason)

/-- The session of a program that is called. -/
def call (name : String) (args : List String) : Run Call := do
  let s ← get
  return {
    dialect := s.dialect
    place := s.place
    name
    args
    input := s.input
    host := { s.host with environment := s.environment }
    directory := s.directory }

/-- Runs a program. -/
def program (p : Program) (name : String) (args : List String) : Run Unit := do
  let r := p (← call name args)
  modify fun s =>
    let s := { s with status := r.status, elapsed := s.elapsed + r.elapsed }
    let s := s.write s.output r.output
    if r.errors.isEmpty then s else s.write s.errors (.ofText r.errors)

/-- Reads a line of the input into variables; the last one takes the rest of the line. -/
def readLine (names : List String) : Run Unit := do
  let s ← get
  let bytes := s.input.take (s.input.bytes.length + s.input.cycle.length)
  match linesOf bytes with
  | [] => do
    modify fun s => names.foldl (fun s n => s.assign n "") s
    status 1
  | l :: _ => do
    let complete := l.getLast? == some lineFeed
    let text := Text.Utf8.decodeLossy (if complete then l.dropLast else l)
    let rec split : List String → List Char → List (String × String)
      | [], _ => []
      | [n], cs => [(n, Text.trim (String.ofList cs))]
      | n :: ns, cs =>
        let cs := cs.dropWhile fun c => c == ' ' || c == '\t'
        let word := cs.takeWhile fun c => c != ' ' && c != '\t'
        (n, String.ofList word) :: split ns (cs.drop word.length)
    let values := split (if names.isEmpty then ["REPLY"] else names) text.toList
    modify fun s => values.foldl (fun s (n, v) => s.assign n v)
      { s with input := ⟨s.input.bytes.drop l.length, s.input.cycle⟩ }
    status (if complete then 0 else 1)

/-- Ends the shell with a status given as text. -/
def leaveShell (args : List String) : Run Unit := do
  let s ← get
  let bad (a : String) : Run Unit :=
    match s.dialect with
    | .bash => abort 2 ("exit: " ++ a ++ ": numeric argument required")
    | .dash => abort 2 ("exit: Illegal number: " ++ a)
  match args with
  | [] => throw .exit
  | a :: rest =>
    match Program.integer? (Text.trim a) with
    | none => bad a
    | some n =>
      if n ≥ Int.pow 2 63 || n < -Int.pow 2 63 then bad a
      else if s.dialect == .dash && n < 0 then bad a
      else if !rest.isEmpty && s.dialect == .bash then complain 1 "exit: too many arguments"
      else do
        status (n.emod 256).toNat
        throw .exit

/-- The signals that end a shell. -/
def deadly : List String :=
  ["1", "2", "3", "6", "9", "13", "14", "15", "HUP", "INT", "QUIT", "ABRT", "KILL", "PIPE", "ALRM",
   "TERM"]

/-- Sends a signal. -/
def kill (args : List String) : Run Unit := do
  let plain (s : String) : String :=
    String.ofList ((Text.dropStart? "SIG".toList s.toList).getD s.toList)
  let (signal, targets) := match args with
    | "-s" :: s :: rest => (plain s, rest)
    | a :: rest =>
      if a.startsWith "-" then (plain (String.ofList (a.toList.drop 1)), rest) else ("TERM", args)
    | [] => ("TERM", [])
  match targets with
  | [] => do
    modify fun s =>
      s.write s.errors (.ofText ("kill: usage: kill [-s sigspec | -n signum | -sigspec] pid | " ++
        "jobspec ... or kill -l [sigspec]\n"))
    status 2
  | t :: _ =>
    if (Program.integer? t).isNone then
      complain 1 ("kill: " ++ t ++ ": arguments must be process or job IDs")
    else if t == toString processNumber then
      if deadly.contains signal then throw .killed else status 0
    else complain 1 ("kill: (" ++ t ++ ") - No such process")

/-- Changes the directory. -/
def changeDirectory (args : List String) : Run Unit := do
  let s ← get
  let home := (s.value? "HOME").getD "/"
  let path := match args with
    | [] => home
    | "-" :: _ => (s.value? "OLDPWD").getD ""
    | p :: _ => p
  if args.length > 1 && s.dialect == .bash then complain 1 "cd: too many arguments"
  else if args.head? == some "-" && (s.value? "OLDPWD").isNone then complain 1 "cd: OLDPWD not set"
  else match s.host.enter s.directory path with
  | .ok d => do
    set ((({ s with directory := d }.assign "OLDPWD" s.directory).assign "PWD" d))
    if args.head? == some "-" then modify fun s => s.write s.output (.ofText (d ++ "\n"))
    status 0
  | .error f =>
    match s.dialect with
    | .bash => complain 1 ("cd: " ++ path ++ ": " ++ f.message)
    | .dash => complain 2 ("cd: can't cd to " ++ path)

/-- The options of a shell by their letters. -/
def optionNames : List (Char × String) :=
  [('a', "allexport"), ('e', "errexit"), ('u', "nounset"), ('x', "xtrace"), ('f', "noglob")]

/-- Sets an option by its name. -/
def setOption (name : String) : Run Unit := do
  let s ← get
  if s.dialect == .dash && name == "pipefail" then abort 2 ("set: Illegal option -o " ++ name)
  set { s with options := name :: s.options }

/-- Sets options, or the arguments of the shell. -/
def setOptions : List String → Run Unit
  | [] => status 0
  | "--" :: rest => do
    modify fun s => { s with arguments := rest }
    status 0
  | "-o" :: n :: rest => do
    setOption n
    setOptions rest
  | "+o" :: n :: rest => do
    modify fun s => { s with options := s.options.filter (· != n) }
    setOptions rest
  | a :: rest =>
    match a.toList with
    | '-' :: cs => do
      let names := cs.filterMap fun c => optionNames.lookup c
      modify fun s => { s with options := names ++ s.options }
      if cs.contains 'o' then
        match rest with
        | n :: rest => do
          setOption n
          setOptions rest
        | [] => status 0
      else setOptions rest
    | '+' :: cs => do
      let names := cs.filterMap fun c => optionNames.lookup c
      modify fun s => { s with options := s.options.filter fun o => !names.contains o }
      setOptions rest
    | _ => do
      modify fun s => { s with arguments := a :: rest }
      status 0

/-- Sets the variables that are given values, and may make all part of the environment. -/
def declareAll (exported : Bool) (args : List String) : Run Unit := do
  for a in args do
    let name := String.ofList (a.toList.takeWhile (· != '='))
    modify fun s =>
      let s := if name.length < a.length then
        s.assign name (String.ofList (a.toList.drop (name.length + 1))) else s
      if exported then s.publish name else s
  status 0

/-- Leaves a loop or its pass; outside of loops there is nothing to leave. -/
def leaveLoops (name : String) (stop : Stop) : Run Unit := do
  let s ← get
  status 0
  if s.loops == 0 then
    if s.dialect == .bash then
      complain 0 (name ++ ": only meaningful in a \x60for', \x60while', or \x60until' loop")
  else throw stop

/-- The commands that change the session itself. -/
def special? (name : String) (args : List String) : Option (Run Unit) :=
  let loops := ((args.head?.bind Program.natural?).getD 1)
  match name with
  | "exit" => some (leaveShell args)
  | "cd" => some (changeDirectory args)
  | "export" => some (declareAll true args)
  | "readonly" | "declare" | "local" => some (declareAll false args)
  | "unset" =>
    some (modify fun s =>
      { s with
        vars := args.foldl (fun vs n => Table.erase n vs) s.vars
        status := 0 })
  | "set" => some (setOptions args)
  | "shift" => some (modify fun s => { s with arguments := s.arguments.drop loops, status := 0 })
  | "kill" => some (kill args)
  | "read" => some (readLine (args.filter (· != "-r")))
  | "break" => some (leaveLoops name (.leave loops))
  | "continue" => some (leaveLoops name (.again loops))
  | "return" => some (do
      let s ← get
      if !s.inFunction && s.dialect == .bash then
        complain 2 "return: can only \x60return' from a function or sourced script"
      else
        match args.head?.bind Program.integer? with
        | some n => status (n.emod 256).toNat
        | none => pure ()
        throw .back)
  | "trap" =>
    some (modify fun s =>
      { s with
        status := 0
        farewell := match args with
          | [c, "EXIT"] | [c, "0"] => if c == "-" then none else some c
          | _ => s.farewell })
  | "wait" => some (status 0)
  | _ => none

/-- The session of a shell that is called as a program with these arguments after its command. -/
def child (d : Dialect) (name : String) (arguments : List String) (s : Session) : Session :=
  { s with
    dialect := d
    name := arguments.headD name
    arguments := arguments.drop 1
    vars := s.vars.filter fun v => v.2.exported
    line := 1
    functions := []
    options := []
    guarded := false
    farewell := none
    loops := 0
    inFunction := false }

/-- Runs a command that no special rule exists for. -/
def plain (name : String) (args : List String) : Run Unit := do
  match Program.find? name with
  | some p => program p name args
  | none =>
    let s ← get
    match s.host.enter s.directory name, s.host.read s.directory name with
    | .ok _, _ =>
      if name.toList.contains '/' then
        complain 126 (name ++ (match s.dialect with
          | .bash => ": Is a directory"
          | .dash => ": Permission denied"))
      else complain 127 (s.dialect.notFound name)
    | _, .ok _ =>
      if name.toList.contains '/' then complain 126 (name ++ ": Permission denied")
      else complain 127 (s.dialect.notFound name)
    | _, _ => complain 127 (s.dialect.notFound name)

/-- The sink of a path. -/
def sinkOf (append : Bool) (path : String) : Run (Option Sink) := do
  let s ← get
  let full := Path.resolve s.directory path
  let failed (f : SystemFault) : Run (Option Sink) := do
    complain (match s.dialect with
      | .bash => 1
      | .dash => 2) (s.dialect.cannotWrite path f.message)
    return none
  if full == "/dev/null" then return some .discard
  else if full == "/dev/stdout" then return some s.output
  else if full == "/dev/stderr" then return some s.errors
  else if path.isEmpty then failed .missing
  else if s.host.directories.contains full then failed .isDirectory
  else
    let parent := "/" ++ "/".intercalate (Path.names full).dropLast
    if !s.host.directories.contains parent then failed .missing
    else do
      let files := s.host.files
      let files := if append && Table.has full files then files else Table.insert full {} files
      set { s with host := { s.host with files } }
      return some (.file full)

/-- Applies a redirection whose target is known; tells whether that worked. -/
def redirect (r : Redirection) (target : String) : Run Bool := do
  match r with
  | .read _ => do
    let s ← get
    match s.host.read s.directory target with
    | .ok b => do set { s with input := b }; return true
    | .error .isDirectory => do set { s with input := {} }; return true
    | .error f => do
      complain (match s.dialect with
        | .bash => 1
        | .dash => 2) (s.dialect.cannotOpen target f.message)
      return false
  | .readText _ => do
    modify fun s => { s with input := .ofText target }
    return true
  | .write d append _ => do
    match ← sinkOf append target with
    | none => return false
    | some sink => do
      modify fun s => if d == 1 then { s with output := sink } else
        if d == 2 then { s with errors := sink } else s
      return true
  | .duplicate d _ => do
    let s ← get
    let source : Option Sink := match target with
      | "1" => some s.output
      | "2" => some s.errors
      | "-" => some .discard
      | _ => none
    match source with
    | none => do complain 1 (target ++ ": Bad file descriptor"); return false
    | some sink => do
      set (if d == 1 then { s with output := sink } else
        if d == 2 then { s with errors := sink } else s)
      return true

end Run
end Runbook.Shell

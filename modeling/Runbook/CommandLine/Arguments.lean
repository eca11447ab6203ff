import Runbook.Text.Blank

/-!
# Arguments of the command line

What is asked for by the arguments (`Request.ofArguments`), or why they ask for nothing
(`Misuse`). Options may stand before or after the command they belong to; `--` ends them. The value
of an option is joined to it by `=` or is the next argument, which then may not look like an option.
-/

namespace Runbook.CommandLine

/-- How an execution is reported. -/
inductive ReportFormat where
  | json
  | summary
  deriving Repr, BEq, DecidableEq, Inhabited

/-- The format of a name. -/
def ReportFormat.ofName? : String → Option ReportFormat
  | "json" => some .json
  | "summary" => some .summary
  | _ => none

/-- The commands. -/
inductive Verb where
  | run
  | validate
  | handlers
  deriving Repr, BEq, DecidableEq, Inhabited

/-- The command of a name. -/
def Verb.ofName? : String → Option Verb
  | "run" => some .run
  | "validate" => some .validate
  | "handlers" => some .handlers
  | _ => none

/-- The name of a command. -/
def Verb.name : Verb → String
  | .run => "run"
  | .validate => "validate"
  | .handlers => "handlers"

/-- What help is asked about. -/
inductive Topic where
  | program
  | verb (v : Verb)
  | help
  deriving Repr, BEq, DecidableEq, Inhabited

/-- What the arguments ask for. -/
inductive Request where
  | run (file : String) (overrides : List String) (format : ReportFormat)
  | validate (file : String)
  | handlers
  | help (about : Topic)
  | version
  deriving Repr, BEq, DecidableEq, Inhabited

/-- Why arguments ask for nothing. -/
inductive Misuse where
  | nothing
  | noCommand
  | unknownCommand (name : String)
  | unexpected (argument : String)
  | missingFile
  | missingValue (option : String)
  | surplusValue (option : String)
  | invalidValue (option value : String)
  | repeated (option : String)
  deriving Repr, BEq, DecidableEq, Inhabited

/-- The wording of a misuse. -/
def Misuse.message : Misuse → String
  | .nothing | .noCommand => "'mop' requires a subcommand but one was not provided"
  | .unknownCommand n => "unrecognized subcommand '" ++ n ++ "'"
  | .unexpected a => "unexpected argument '" ++ a ++ "' found"
  | .missingFile => "the following required arguments were not provided:\n  <FILE>"
  | .missingValue o => "a value is required for '" ++ o ++ "' but none was supplied"
  | .surplusValue o => "unexpected value for '" ++ o ++ "' found; no more were expected"
  | .invalidValue o v => "invalid value '" ++ v ++ "' for '" ++ o ++ "'"
  | .repeated o => "the argument '" ++ o ++ "' cannot be used multiple times"

/-- What has been read of the arguments. -/
structure Given where
  verb : Option Verb := none
  /-- Whether `--` has ended the options. -/
  ended : Bool := false
  /-- Whether logs as JSON are asked for, counted anew after the command. -/
  jsonLogs : Bool := false
  file : Option String := none
  overrides : List String := []
  format : Option ReportFormat := none
  deriving Repr, Inhabited

/-- Whether an argument looks like an option. -/
def looksLikeOption (a : String) : Bool := a.length > 1 && a.toList.head? == some '-'

/-- The name of a long option and the value joined to it. -/
def splitOption (a : String) : String × Option String :=
  let cs := a.toList
  let name := cs.takeWhile (· != '=')
  (String.ofList name,
    if name.length < cs.length then some (String.ofList (cs.drop (name.length + 1))) else none)

namespace Given

/-- Takes an argument that is no option. -/
def positional (g : Given) (a : String) : Except Misuse Given :=
  match g.verb with
  | none => if g.ended then .error (.unexpected a) else .error (.unknownCommand a)
  | some .handlers => .error (.unexpected a)
  | some _ =>
    if g.file.isSome then .error (.unexpected a)
    else if a.isEmpty then .error (.missingValue "<FILE>")
    else .ok { g with file := some a }

/-- Takes an override. -/
def override (g : Given) (value : String) : Given :=
  { g with overrides := g.overrides ++ [value] }

/-- Takes a format of the report. -/
def report (g : Given) (value : String) : Except Misuse Given :=
  match g.format, ReportFormat.ofName? value with
  | some _, _ => .error (.repeated "--output <OUTPUT>")
  | none, some f => .ok { g with format := some f }
  | none, none => .error (.invalidValue "--output <OUTPUT>" value)

/-- Takes the wish for logs as JSON. -/
def logs (g : Given) : Except Misuse Given :=
  if g.jsonLogs then .error (.repeated "--json") else .ok { g with jsonLogs := true }

/-- The topic of help on what has been read. -/
def topic (g : Given) : Topic :=
  match g.verb with
  | some v => .verb v
  | none => .program

/-- The request once all arguments have been read. -/
def request (g : Given) : Except Misuse Request :=
  match g.verb, g.file with
  | none, _ => .error .noCommand
  | some .handlers, _ => .ok .handlers
  | some _, none => .error .missingFile
  | some .run, some f => .ok (.run f g.overrides (g.format.getD .summary))
  | some .validate, some f => .ok (.validate f)

end Given

/-- Help on what names ask about. -/
def helpOn : List String → Except Misuse Request
  | [] => .ok (.help .program)
  | ["help"] => .ok (.help .help)
  | [n] =>
    match Verb.ofName? n with
    | some v => .ok (.help (.verb v))
    | none => .error (.unknownCommand n)
  | n :: m :: _ =>
    match Verb.ofName? n with
    | some _ => .error (.unknownCommand m)
    | none => .error (.unknownCommand (if n == "help" then m else n))

/-- The value of an option: the one joined to it, or the next argument. -/
def valueOf (option : String) (joined next : Option String) : Except Misuse String :=
  match joined, next with
  | some v, _ => .ok v
  | none, some v => if looksLikeOption v then .error (.missingValue option) else .ok v
  | none, none => .error (.missingValue option)

/-- Reads arguments; `skipped` tells that the first is the value of the option before it. -/
def read (g : Given) (skipped : Bool) : List String → Except Misuse Request
  | [] => g.request
  | a :: rest =>
    if skipped then read g false rest
    else if g.ended then do read (← g.positional a) false rest
    else if a == "--" then read { g with ended := true } false rest
    else if a.startsWith "--" then
      let (name, joined) := splitOption a
      match name, g.verb with
      | "--json", _ =>
        if joined.isSome then .error (.surplusValue name) else do read (← g.logs) false rest
      | "--help", _ => if joined.isSome then .error (.surplusValue name) else .ok (.help g.topic)
      | "--version", none => if joined.isSome then .error (.surplusValue name) else .ok .version
      | "--var", some .run => do
        let v ← valueOf "--var <KEY=VALUE>" joined rest.head?
        read (g.override v) joined.isNone rest
      | "--output", some .run => do
        let v ← valueOf "--output <OUTPUT>" joined rest.head?
        read (← g.report v) joined.isNone rest
      | _, _ => .error (.unexpected name)
    else if looksLikeOption a then
      match (a.toList.drop 1).head?, g.verb with
      | some 'h', _ => .ok (.help g.topic)
      | some 'V', none => .ok .version
      | _, _ => .error (.unexpected a)
    else if g.verb.isNone && a == "help" then helpOn rest
    else
      match g.verb, Verb.ofName? a with
      | none, some v => read { g with verb := some v, jsonLogs := false } false rest
      | _, _ => do read (← g.positional a) false rest

/-- What arguments ask for. -/
def Request.ofArguments (args : List String) : Except Misuse Request :=
  if args.isEmpty then .error .nothing else read {} false args

end Runbook.CommandLine

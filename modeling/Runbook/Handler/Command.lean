import Runbook.Handler.Basic
import Runbook.Json.Reader
import Runbook.Pattern.Parser
import Runbook.Text.Blank

/-!
# Running commands

A `command` step runs commands on its device, one after another, until one exits with an error.
The output of all may be parsed, has to match one pattern and must not match another.
-/

namespace Runbook.Handler.Command

/-- How the output is turned into data. -/
inductive ParseMode where
  | text
  | json
  | lines
  deriving Repr, BEq, DecidableEq, Inhabited

/-- Reads a mode. -/
def ParseMode.decode : Decoder ParseMode :=
  Decode.variant [("text", .text), ("json", .json), ("lines", .lines)]

/-- The parameters of a `command` step. -/
structure Params where
  command : Option String
  commands : List String
  expect : Option String
  reject : Option String
  parse : ParseMode
  timeout : Option Nat

/-- Reads the parameters. -/
def decode : Decoder Params := fun v => do
  let text := Decode.optional Decode.text
  let number := Decode.optional Decode.unsigned
  let fs ← Decode.record "CommandConfig"
    [Decode.field "command" .optional text,
     Decode.field "commands" .defaulted (Decode.list Decode.text),
     Decode.field "expect" .optional text,
     Decode.field "reject" .optional text,
     Decode.field "parse" .defaulted ParseMode.decode,
     Decode.field "timeout_seconds" .optional number] v
  let command ← Decode.getD fs "command" text none
  let commands ← Decode.getD fs "commands" (Decode.list Decode.text) []
  let expect ← Decode.getD fs "expect" text none
  let reject ← Decode.getD fs "reject" text none
  let parse ← Decode.getD fs "parse" ParseMode.decode .text
  let timeout ← Decode.getD fs "timeout_seconds" number none
  return { command, commands, expect, reject, parse, timeout }

/-- All commands in the order they are run. -/
def Params.all (p : Params) : List String := p.command.toList ++ p.commands

/-- The parameters, with one command at least. -/
def readParams (params : Json) : Except StepFault Params := do
  let p ← decodeParams "command" decode params
  if p.all.isEmpty then throw (.invalidParams "command step needs 'command' or 'commands'")
  return p

/-- The pattern of a parameter; its line anchors hold at every line. -/
def patternOf (name : String) : Option String → Except StepFault (Option (String × Pattern))
  | none => .ok none
  | some s =>
    match Pattern.parseWith { multiLine := true } s with
    | .ok p => .ok (some (s, p))
    | .error f =>
      .error (.invalidParams ("Invalid '" ++ name ++ "' pattern: " ++ f.message))

/-- The data that the output stands for. -/
def parseOutput (mode : ParseMode) (output : String) : Except StepFault Json :=
  match mode with
  | .text => .ok .null
  | .json =>
    match Json.read output with
    | .ok v => .ok v
    | .error e => .error (.invalidParams ("Output is not valid JSON: " ++ e.message))
  | .lines => .ok (.ofStrings (Text.nonBlankLines output))

/-- What commands have answered so far. -/
structure Answers where
  stdout : String := ""
  outputs : List CommandOutput := []

namespace Answers

/-- The answers with one more. -/
def push (a : Answers) (o : CommandOutput) : Answers :=
  ⟨a.stdout ++ o.output, a.outputs ++ [o]⟩

/-- The answers as fields. -/
def fields (a : Answers) : List (String × Json) :=
  [("stdout", .str a.stdout), ("outputs", .arr (a.outputs.map CommandOutput.toJson))]

end Answers

/-- Runs commands in order; the first that does not exit cleanly ends the step. `send` is told how
many commands were run before. -/
def runAll (send : Nat → CommandCall → Response CommandOutput) (device : String) (timeout : Option Nat)
    (a : Answers) : List String → Timeline (Except StepResult Answers)
  | [] => pure (.ok a)
  | c :: cs => do
    let call : CommandCall := ⟨device, c, timeout⟩
    Timeline.emit (.command call)
    let o ← Timeline.await (send a.outputs.length call)
    let a := a.push o
    if o.exitedCleanly then runAll send device timeout a cs
    else
      return .error (.failed ("'" ++ c ++ "' exited with code " ++ toString (o.exitCode.getD (-1)))
        (.ofFields a.fields))

/-- The verdict on the output of all commands. -/
def verdict (device : String) (parse : ParseMode) (expect reject : Option (String × Pattern))
    (a : Answers) : Except StepFault StepResult := do
  let parsed ← parseOutput parse a.stdout
  let data := Json.ofFields (("parsed", parsed) :: a.fields)
  match expect with
  | some (text, p) =>
    if !p.occursIn a.stdout then
      return .failed ("Output did not match expected pattern '" ++ text ++ "'") data
  | none => pure ()
  match reject with
  | some (text, p) =>
    if p.occursIn a.stdout then
      return .failed ("Output matched rejected pattern '" ++ text ++ "'") data
  | none => pure ()
  return .success (toString a.outputs.length ++ " command(s) completed on " ++ device) data

/-- The handler of `command` steps over a transport. -/
def handler (send : Occasion → CommandCall → Response CommandOutput) : Handler where
  name := "command"
  description := "Run one or more commands on the target device"
  params :=
    [⟨"command", .string, false, "Command to run"⟩,
     ⟨"commands", .array, false, "Commands to run in order"⟩,
     ⟨"expect", .string, false,
       "Regex that must match the output; ^ and $ match at line boundaries"⟩,
     ⟨"reject", .string, false,
       "Regex that must not match the output; ^ and $ match at line boundaries"⟩,
     ⟨"parse", .string, false, "text, json or lines"⟩,
     ⟨"timeout_seconds", .integer, false, "Transport timeout"⟩]
  run params scope := do
    match scope.device with
    | none => Timeline.fail (.missingDevice "command")
    | some device => do
      let p ← Timeline.ofExcept (readParams params)
      let expect ← Timeline.ofExcept (patternOf "expect" p.expect)
      let reject ← Timeline.ofExcept (patternOf "reject" p.reject)
      let send (n : Nat) := send (scope.occasion n)
      match ← runAll send device p.timeout {} p.all with
      | .error r => return (r, scope.vars)
      | .ok a => do
        let r ← Timeline.ofExcept (verdict device p.parse expect reject a)
        return (r, scope.vars)

end Runbook.Handler.Command

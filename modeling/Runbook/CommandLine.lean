import Runbook.CommandLine.EnvironmentFile
import Runbook.CommandLine.Help
import Runbook.CommandLine.Overrides
import Runbook.CommandLine.Report
import Runbook.Handler.Builtin
import Runbook.Json.Text
import Runbook.Procedure.Document
import Runbook.Procedure.Graph
import Runbook.Run.Walk
import Runbook.Shell

/-!
# The command line

`CommandLine.perform` does what the arguments ask for: it runs a procedure on the devices that the
local shell reaches, checks one without running it, or lists the types of steps. Of several things
that are wrong the first in this order is reported: the file, the overrides, the configuration, the
handlers.
-/

namespace Runbook.CommandLine

/-- What the command line works on. -/
structure Surroundings where
  /-- The files and the environment. -/
  host : Shell.Host
  now : Instant
  /-- The identifier of the run that may be started. -/
  run : Identifier

/-- What the command line writes, and the code with which it ends. -/
structure Output where
  code : Nat := 0
  text : String := ""
  errors : String := ""
  deriving Repr, BEq, DecidableEq, Inhabited

/-- Why a procedure cannot be loaded. -/
inductive LoadFault where
  | unreadable (file reason : String)
  | document (f : DocumentFault)
  | invalid (violations : List Violation)

/-- The wording of a fault. -/
def LoadFault.message : LoadFault → String
  | .unreadable f r => "Parse error: " ++ f ++ ": " ++ r
  | .document f => "Parse error: " ++ f.message
  | .invalid vs => Violation.joined vs

namespace Surroundings

/-- The file of variables that is looked for. -/
def variableFile : String := ".env"

/-- The text of a file; the reason when it has none. -/
def readText (s : Surroundings) (file : String) : Except String String :=
  match s.host.read s.host.directory file with
  | .error f => .error (f.message ++ " (os error " ++ toString f.number ++ ")")
  | .ok b =>
    match Text.Utf8.decode b.bytes with
    | .ok t => .ok t
    | .error _ => .error "stream did not contain valid UTF-8"

/-- The surroundings with the variables of the file for them in the environment. -/
def withVariableFile (s : Surroundings) : Surroundings :=
  match s.readText variableFile with
  | .error _ => s
  | .ok t =>
    { s with host := { s.host with environment := EnvironmentFile.add s.host.environment t } }

/-- The graph of the procedure in a file. -/
def load (s : Surroundings) (file : String) : Except LoadFault ProcedureGraph := do
  let text ← (s.readText file).mapError (.unreadable file)
  let p ← (ProcedureDefinition.ofText text).mapError .document
  (ProcedureGraph.ofDefinition p).mapError .invalid

/-- What handlers reach: the local shell, a relay that takes every message, and no peers. -/
def outside (s : Surroundings) : Outside where
  transport := Shell.transport s.host
  relay _ := return ()
  exchange _ _ := return .unreachable
  limits := {}
  now := s.now

/-- The registry of the handlers. -/
def registry (s : Surroundings) : Registry := Registry.builtin s.outside

end Surroundings

/-- A failure with its cause. -/
def Output.failed (message : String) (cause : Option String) : Output :=
  { code := 1, errors := failure message cause }

/-- The report that a file cannot be loaded. -/
def Output.notLoaded (file : String) (f : LoadFault) : Output :=
  .failed ("Failed to load procedure " ++ file) (some f.message)

/-- The run that is asked for, or the report of what keeps it from starting. -/
def prepared (s : Surroundings) (file : String) (overrides : List String) :
    Except Output (Engine × ProcedureGraph × Fields) := do
  let g ← (s.load file).mapError (.notLoaded file)
  let vars ← (readOverrides overrides).mapError fun f => .failed f.message none
  let config ← (Config.ofEnvironment s.host.environment).mapError fun f =>
    .failed "Failed to load engine configuration" (some ("Configuration error: " ++ f.message))
  match g.handlerViolations s.registry with
  | [] => pure ()
  | vs => throw (.failed ("Procedure " ++ file ++ " cannot run") (some (Violation.joined vs)))
  return ({ registry := s.registry, config, execution := s.run, startedAt := s.now }, g, vars)

/-- Runs the procedure in a file. -/
def run (s : Surroundings) (file : String) (overrides : List String) (format : ReportFormat) :
    Output :=
  match prepared s file overrides with
  | .error o => o
  | .ok (engine, g, vars) =>
    let e := (engine.run g vars none).execution
    { code := if e.status == .success then 0 else 1
      text := match format with
        | .json => e.toJson.pretty ++ "\n"
        | .summary => summary e }

/-- Checks the procedure in a file. -/
def validate (s : Surroundings) (file : String) : Output :=
  match s.load file with
  | .error (.invalid vs) => { code := 1, errors := problems file vs }
  | .error f => .notLoaded file f
  | .ok g =>
    match g.handlerViolations s.registry with
    | [] =>
      { text := file ++ ": procedure '" ++ g.name ++ "' is valid (" ++
          toString g.definition.steps.length ++ " steps)\n" }
    | vs => { code := 1, errors := problems file vs }

/-- Does what arguments ask for. -/
def perform (s : Surroundings) (arguments : List String) : Output :=
  let s := s.withVariableFile
  match Request.ofArguments arguments with
  | .error m => { code := 2, errors := m.report }
  | .ok (.help t) => { text := t.text }
  | .ok .version => { text := versionText }
  | .ok .handlers => { text := s.registry.describe.pretty ++ "\n" }
  | .ok (.validate file) => validate s file
  | .ok (.run file overrides format) => run s file overrides format

end Runbook.CommandLine

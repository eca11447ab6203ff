import Runbook.Execution
import Runbook.Procedure.Violation

/-!
# Reports

What is told about an execution, about the violations of a procedure and about a failure.
-/

namespace Runbook.CommandLine

/-- A text with spaces after it up to a width. -/
def padRight (width : Nat) (s : String) : String :=
  s ++ String.ofList (List.replicate (width - s.length) ' ')

/-- The line of an invocation. -/
def recordLine (r : StepRecord) : String :=
  "  " ++ padRight 24 r.step ++ " " ++ padRight 16 (r.device.getD "-") ++ " " ++
    r.result.status.text ++ " " ++ r.result.message ++ "\n"

/-- The summary of an execution: its procedure, the invocations, why it was given up, and how it
ended after which time. -/
def summary (e : Execution) : String :=
  "Procedure: " ++ e.procedure ++ "\nExecution: " ++ e.id.text ++ "\n" ++
    String.join (e.log.map recordLine) ++
    (e.error.elim "" fun m => "Error: " ++ m ++ "\n") ++
    "Status: " ++ e.status.text ++
    (e.durationMs?.elim "" fun ms => " (" ++ toString ms ++ " ms)") ++ "\n"

/-- The violations found in a file, one a line. -/
def problems (file : String) (vs : List Violation) : String :=
  file ++ ": " ++ toString vs.length ++ " problem(s) found\n" ++
    String.join (vs.map fun v => "  - " ++ v.message ++ "\n")

/-- A failure, and below it the cause with all its lines indented. -/
def failure (message : String) (cause : Option String) : String :=
  let indented (s : String) : String :=
    String.ofList (s.toList.flatMap fun c => if c == '\n' then "\n    ".toList else [c])
  "Error: " ++ message ++ "\n" ++
    (cause.elim "" fun c => "\nCaused by:\n    " ++ indented c ++ "\n")

end Runbook.CommandLine

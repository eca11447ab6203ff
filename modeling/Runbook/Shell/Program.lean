import Runbook.Shell.Program.Basic
import Runbook.Shell.Program.Filter

/-!
# The programs of a host

The programs that can be called by name. Those that a shell keeps within itself are called without
a file; the others are files in the directories of programs.
-/

namespace Runbook.Shell.Program

/-- The programs that are part of a shell. -/
def internal : List (String × Program) :=
  [(":", fun _ => {}), ("[", test), ("echo", echo), ("false", fun _ => { status := 1 }),
   ("printf", printf), ("pwd", pwd), ("test", test), ("true", fun _ => {})]

/-- The programs that are files. -/
def external : List (String × Program) :=
  [("cat", cat), ("env", printenv), ("grep", grep), ("head", head), ("ls", ls),
   ("printenv", printenv), ("seq", seq), ("sleep", sleep), ("sort", sort), ("tail", tail),
   ("tr", tr), ("wc", wc), ("yes", yes)]

/-- The directories that hold the files of programs. -/
def directories : List String := ["/bin", "/usr/bin"]

/-- The name of the program that a file holds. -/
def ofFile? (path : String) : Option String :=
  directories.findSome? fun d => (Text.dropStart? (d ++ "/").toList path.toList).map String.ofList

/-- The program of a name or of a file. -/
def find? (name : String) : Option Program :=
  match (internal ++ external).lookup name with
  | some p => some p
  | none => (ofFile? name).bind fun n => (internal ++ external).lookup n

end Runbook.Shell.Program

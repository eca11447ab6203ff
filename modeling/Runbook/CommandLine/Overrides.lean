import Runbook.Json.Reader
import Runbook.Table
import Runbook.Text.Blank

/-!
# Overrides of variables

An argument `KEY=VALUE` overrides a variable of a procedure. The key ends at the first equals sign
and loses the blanks around it; the value is read as JSON, and kept as a text if it is none. The
last argument for a key wins.
-/

namespace Runbook.CommandLine

/-- Why an argument is no override. -/
inductive OverrideFault where
  | noEquals (argument : String)
  | emptyKey (argument : String)
  deriving Repr, BEq, DecidableEq, Inhabited

/-- The wording of a fault. -/
def OverrideFault.message : OverrideFault → String
  | .noEquals a => "Invalid variable '" ++ a ++ "', expected KEY=VALUE"
  | .emptyKey a => "Invalid variable '" ++ a ++ "', key is empty"

/-- The value that a text stands for: the JSON value in it, or the text itself. -/
def overrideValue (s : String) : Json :=
  match Json.read s with
  | .ok v => v
  | .error _ => .str s

/-- The key and the value of an argument. -/
def readOverride (argument : String) : Except OverrideFault (String × Json) :=
  let cs := argument.toList
  let key := cs.takeWhile (· != '=')
  match cs.drop key.length with
  | [] => .error (.noEquals argument)
  | _ :: value =>
    let key := Text.trimChars key
    if key.isEmpty then .error (.emptyKey argument)
    else .ok (String.ofList key, overrideValue (String.ofList value))

/-- The values of all overrides; the first argument that is none is reported. -/
def readOverrides (arguments : List String) : Except OverrideFault (Table Json) :=
  (arguments.mapM readOverride).map Table.ofList

end Runbook.CommandLine

import Runbook.Json.Basic

/-!
# Commands to devices

A command call names a device, a command and how long the transport may take; it answers with the
output, the error output and, where the transport reports one, the exit code.
-/

namespace Runbook

/-- A command for a device, with a limit in seconds. -/
structure CommandCall where
  device : String
  command : String
  timeout : Option Nat
  deriving Repr, BEq, DecidableEq, Inhabited

/-- What a command answers. -/
structure CommandOutput where
  output : String
  stderr : String := ""
  exitCode : Option Int := none
  deriving Repr, BEq, DecidableEq, Inhabited

namespace CommandCall

/-- The call as a value. -/
def toJson (c : CommandCall) : Json :=
  .ofFields [("device", .str c.device), ("command", .str c.command),
    ("timeout", c.timeout.elim .null Json.ofNat)]

end CommandCall

namespace CommandOutput

/-- Whether no exit code other than zero was reported. -/
def exitedCleanly (o : CommandOutput) : Bool :=
  match o.exitCode with
  | none => true
  | some code => code == 0

/-- The output as a value; an empty error output and a missing exit code are left out. -/
def toJson (o : CommandOutput) : Json :=
  .ofFields <|
    ("output", .str o.output) ::
      ((if o.stderr.isEmpty then [] else [("stderr", .str o.stderr)]) ++
        (o.exitCode.map fun c => ("exit_code", Json.int c)).toList)

end CommandOutput
end Runbook

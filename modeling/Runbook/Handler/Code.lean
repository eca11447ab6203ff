import Runbook.Handler.Basic
import Runbook.Script.DenyList
import Runbook.Script.Eval

/-!
# Running code

A `code` step runs a script over the context of its invocation. The script sees the context as
constants and the writable namespace as the variable `vars`; what it leaves there becomes the
namespace. A script that gives `false` reports a failure, and one that ends with a fault changes
nothing.
-/

namespace Runbook.Handler.Code

/-- The parameters of a `code` step. -/
structure Params where
  code : String
  args : Json

/-- Reads the parameters. -/
def decode : Decoder Params := fun v => do
  let fs ← Decode.record "CodeConfig"
    [Decode.field "code" .required Decode.text, Decode.field "args" .defaulted Decode.any] v
  return { code := ← Decode.get fs "code" Decode.text
           args := ← Decode.getD fs "args" Decode.any .null }

/-- What a script sees: constants that tell of its invocation, and the variable `vars`. -/
def slots (scope : Scope) (args : Json) : List Script.Slot :=
  let constant (name : String) (v : Json) : Script.Slot := ⟨name, true, Script.Value.ofJson v⟩
  [⟨"vars", false, Script.Value.ofJson (.obj scope.vars)⟩,
   constant "device" (match scope.device with
     | some d => .str d
     | none => .null),
   constant "step" (.str scope.step),
   constant "execution_id" (.str scope.execution.text),
   constant "args" args,
   constant "steps" (scope.context.stepsTree scope.device),
   constant "devices" scope.context.devicesJson,
   constant "globals" (.obj scope.context.globals)]

/-- The namespace that a script leaves: its innermost variable `vars`, which has to be a map. -/
def varsOf (slots : List Script.Slot) : Except StepFault Fields :=
  match slots.find? fun s => s.name == "vars" with
  | some ⟨_, _, .map fs⟩ => .ok (Script.Value.toJsonFields fs)
  | _ => .error (.script "'vars' must remain a map")

/-- Runs a script over a scope: the value it gives and the namespace it leaves. -/
def run (limits : Script.Limits) (now : Instant) (scope : Scope) (p : Params) :
    Except StepFault (Json × Fields) := do
  Script.scan p.code
  match Script.run limits now (slots scope p.args) p.code with
  | .error f => throw (.script f.message)
  | .ok (v, after) => return (v.toJson, ← varsOf after)

/-- The result of a script that gives a value. -/
def resultOf (v : Json) : StepResult :=
  match v with
  | .bool false => .failed "Code returned false" v
  | v => .success "Code completed" v

/-- The handler of `code` steps, with limits for its scripts and the moments that they see. -/
def handler (limits : Script.Limits) (now : Occasion → Instant) : Handler where
  name := "code"
  description := "Run sandboxed Rhai code against the execution context"
  params :=
    [⟨"code", .string, true, "Rhai source"⟩,
     ⟨"args", .object, false, "Values exposed to the script as `args`"⟩]
  raw := ["code"]
  run params scope := do
    let p ← Timeline.ofExcept (decodeParams "code" decode params)
    let (v, vars) ← Timeline.ofExcept (run limits (now (scope.occasion 0)) scope p)
    return (resultOf v, vars)

end Runbook.Handler.Code

import Runbook.Context
import Runbook.Identifier

/-!
# Scopes

A scope is what one invocation works with: a snapshot of the context that it cannot change and one
namespace that it can, that of its device or, without a device, the globals.
`Scope.templateContext` is the tree that the references of its parameters are looked up in.
-/

namespace Runbook

/-- What one invocation works with. -/
structure Scope where
  execution : Identifier
  step : String
  device : Option String
  context : Context
  vars : Fields
  deriving Inhabited

/-- Which call to the outside is made: the calls of an invocation are counted from zero, and the
invocation is told by the visits before it and by its device. -/
structure Occasion where
  visit : Nat
  device : Option String
  call : Nat
  deriving Repr, BEq, DecidableEq, Inhabited

namespace Scope

/-- The namespace that an invocation starts with. -/
def initialVars (device : Option String) (context : Context) : Fields :=
  match device with
  | some d => (context.device? d).getD []
  | none => context.globals

/-- The scope of an invocation over a snapshot. -/
def new (execution : Identifier) (step : String) (device : Option String) (context : Context) :
    Scope :=
  ⟨execution, step, device, context, initialVars device context⟩

/-- The scope with a variable set. -/
def set (s : Scope) (key : String) (value : Json) : Scope :=
  { s with vars := Table.insert key value s.vars }

/-- The occasion of the call that an invocation makes after some others. -/
def occasion (s : Scope) (call : Nat) : Occasion := ⟨s.context.history.length, s.device, call⟩

/-- The tree that references are looked up in: the globals, and over them the reserved names. -/
def templateContext (s : Scope) : Json :=
  let root := s.context.globals
  let root := Table.insert "globals" (.obj s.context.globals) root
  let root := Table.insert "devices" s.context.devicesJson root
  let root := Table.insert "vars" (.obj s.vars) root
  let root := Table.insert "steps" (s.context.stepsTree s.device) root
  let root := Table.insert "step" (.str s.step) root
  let root := Table.insert "execution_id" (.str s.execution.text) root
  match s.device with
  | some d => .obj (Table.insert "device" (.str d) root)
  | none => .obj (Table.erase "device" root)

end Scope
end Runbook

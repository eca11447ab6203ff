import Runbook.Handler.Basic

/-!
# Registries

A registry holds handlers by the type of step that they are for. A name is given once: the second
handler of a name is refused and the first one stays.
-/

namespace Runbook

/-- Handlers by name. -/
structure Registry where
  handlers : Table Handler := []
  deriving Inhabited

namespace Registry

/-- The registry with one more handler. -/
def register (r : Registry) (h : Handler) : Except StepFault Registry :=
  if Table.has h.name r.handlers then .error (.duplicateHandler h.name)
  else .ok ⟨Table.insert h.name h r.handlers⟩

/-- The registry with several handlers, or the refusal of one of them. -/
def registerAll (r : Registry) (hs : List Handler) : Except StepFault Registry :=
  hs.foldlM register r

/-- The handler of a type of step. -/
def resolve (r : Registry) (name : String) : Except StepFault Handler :=
  match Table.get? name r.handlers with
  | some h => .ok h
  | none => .error (.unknownStepType name)

/-- Whether there is a handler of a name. -/
def has (r : Registry) (name : String) : Bool := Table.has name r.handlers

/-- The names of all handlers in order. -/
def names (r : Registry) : List String := Table.keys r.handlers

/-- The descriptions of all handlers in the order of their names. -/
def describe (r : Registry) : Json := .arr (r.handlers.map fun (_, h) => h.toJson)

/-- The names as one text. -/
def text (r : Registry) : String :=
  "HandlerRegistry \x7b handlers: [" ++ ", ".intercalate (r.names.map Text.quoted) ++ "] \x7d"

end Registry
end Runbook

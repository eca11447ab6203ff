import Runbook.Json.Decode

/-!
# Definitions of procedures

A procedure is a list of steps over default devices and variables. Each step names its type, its
parameters, the steps that follow its success and its failure, and may override the devices.
`ProcedureDefinition.document` is the definition as it is written out, with its fields in the order
of their declaration; `ProcedureDefinition.toJson` is its value, with them in the order of their keys.
-/

namespace Runbook

/-- One step of a procedure. Devices override those of the procedure; an empty list makes the step
run once without a device. -/
structure StepDefinition where
  name : String
  id : Option String := none
  stepType : String
  params : Fields := []
  onSuccess : Option String := none
  onFailure : Option String := none
  devices : Option (List String) := none
  timeoutSeconds : Option Nat := none
  deriving Inhabited

/-- A procedure as authored. -/
structure ProcedureDefinition where
  name : String
  description : Option String := none
  devices : List String := []
  vars : Option Fields := none
  steps : List StepDefinition := []
  deriving Inhabited

/-- A field that is left out when it has no value. -/
def optionalField {α : Type} (name : String) (write : α → Json) (v : Option α) :
    List (String × Json) :=
  (v.map fun a => (name, write a)).toList

namespace StepDefinition

/-- A step with a name and a type and nothing else. -/
def new (name stepType : String) : StepDefinition := { name, stepType }

/-- The step with the parameters of an object; any other value leaves it as it is. -/
def withParams (s : StepDefinition) : Json → StepDefinition
  | .obj fs => { s with params := fs }
  | _ => s

/-- The fields of a step in the order of their declaration. -/
def entries (s : StepDefinition) : Fields :=
  [("name", .str s.name)] ++ optionalField "id" .str s.id ++
    [("type", .str s.stepType), ("params", .obj s.params)] ++
    optionalField "on_success" .str s.onSuccess ++ optionalField "on_failure" .str s.onFailure ++
    optionalField "devices" .ofStrings s.devices ++
    optionalField "timeout_seconds" .ofNat s.timeoutSeconds

/-- The step as it is written out. -/
def document (s : StepDefinition) : Json := .obj s.entries

/-- The step as a value. -/
def toJson (s : StepDefinition) : Json := .ofFields s.entries

/-- Reads a step. -/
def decode : Decoder StepDefinition := fun v => do
  let text := Decode.optional Decode.text
  let texts := Decode.optional (Decode.list Decode.text)
  let number := Decode.optional Decode.unsigned
  let fs ← Decode.record "StepDefinition"
    [Decode.field "name" .required Decode.text,
     Decode.field "id" .defaulted text,
     Decode.field "type" .required Decode.text,
     Decode.field "params" .defaulted Decode.object,
     Decode.field "on_success" .defaulted text,
     Decode.field "on_failure" .defaulted text,
     Decode.field "devices" .defaulted texts,
     Decode.field "timeout_seconds" .defaulted number] v
  let name ← Decode.get fs "name" Decode.text
  let id ← Decode.getD fs "id" text none
  let stepType ← Decode.get fs "type" Decode.text
  let params ← Decode.getD fs "params" Decode.object []
  let onSuccess ← Decode.getD fs "on_success" text none
  let onFailure ← Decode.getD fs "on_failure" text none
  let devices ← Decode.getD fs "devices" texts none
  let timeoutSeconds ← Decode.getD fs "timeout_seconds" number none
  return { name, id, stepType, params, onSuccess, onFailure, devices, timeoutSeconds }

/-- Equality of steps, with the equality of values on the parameters. -/
def eqv (s t : StepDefinition) : Bool :=
  s.name == t.name && s.id == t.id && s.stepType == t.stepType &&
    Json.eqvFields s.params t.params && s.onSuccess == t.onSuccess &&
    s.onFailure == t.onFailure && s.devices == t.devices && s.timeoutSeconds == t.timeoutSeconds

instance : BEq StepDefinition := ⟨eqv⟩

end StepDefinition

namespace ProcedureDefinition

/-- A procedure with a name and nothing else. -/
def new (name : String) : ProcedureDefinition := { name }

/-- The procedure with one more step. -/
def withStep (p : ProcedureDefinition) (s : StepDefinition) : ProcedureDefinition :=
  { p with steps := p.steps ++ [s] }

/-- The procedure with one more variable. -/
def withVariable (p : ProcedureDefinition) (name : String) (value : Json) : ProcedureDefinition :=
  { p with vars := some (Table.insert name value (p.vars.getD [])) }

/-- The fields of a procedure in the order of their declaration, with its steps in some form. -/
def entries (p : ProcedureDefinition) (step : StepDefinition → Json) : Fields :=
  [("name", .str p.name)] ++ optionalField "description" .str p.description ++
    [("devices", .ofStrings p.devices)] ++ optionalField "variables" .obj p.vars ++
    [("steps", .arr (p.steps.map step))]

/-- The procedure as it is written out. -/
def document (p : ProcedureDefinition) : Json := .obj (p.entries StepDefinition.document)

/-- The procedure as a value. -/
def toJson (p : ProcedureDefinition) : Json := .ofFields (p.entries StepDefinition.toJson)

/-- The procedure as a JSON text. -/
def jsonText (p : ProcedureDefinition) : String := p.document.pretty

/-- Reads a procedure. -/
def decode : Decoder ProcedureDefinition := fun v => do
  let text := Decode.optional Decode.text
  let vars := Decode.optional Decode.object
  let fs ← Decode.record "ProcedureDefinition"
    [Decode.field "name" .required Decode.text,
     Decode.field "description" .defaulted text,
     Decode.field "devices" .defaulted (Decode.list Decode.text),
     Decode.field "variables" .defaulted vars,
     Decode.field "steps" .defaulted (Decode.list StepDefinition.decode)] v
  let name ← Decode.get fs "name" Decode.text
  let description ← Decode.getD fs "description" text none
  let devices ← Decode.getD fs "devices" (Decode.list Decode.text) []
  let vars ← Decode.getD fs "variables" vars none
  let steps ← Decode.getD fs "steps" (Decode.list StepDefinition.decode) []
  return { name, description, devices, vars, steps }

/-- Equality of procedures, with the equality of values on variables and parameters. -/
def eqv (p q : ProcedureDefinition) : Bool :=
  p.name == q.name && p.description == q.description && p.devices == q.devices &&
    p.vars.isSome == q.vars.isSome &&
    Json.eqvFields (p.vars.getD []) (q.vars.getD []) && p.steps == q.steps

instance : BEq ProcedureDefinition := ⟨eqv⟩

/-- The identifiers of the steps in order; a step without one is named by its index. -/
def stepIds (p : ProcedureDefinition) : List String :=
  p.steps.zipIdx.map fun (s, i) => s.id.getD (toString i)

/-- The steps with their identifiers, in order. -/
def identified (p : ProcedureDefinition) : List (String × StepDefinition) :=
  p.stepIds.zip p.steps

end ProcedureDefinition
end Runbook

import Runbook.Scope
import Runbook.Timeline

/-!
# Handlers

A handler does the work of one type of step: it takes resolved parameters and a scope and yields a
result and the namespace that it leaves. Its parameters are described by a schema, and some of them
are not resolved before they reach it.
-/

namespace Runbook

/-- The kind of a parameter. -/
inductive ParamKind where
  | string
  | integer
  | number
  | boolean
  | array
  | object
  | any
  deriving Repr, BEq, DecidableEq, Inhabited

namespace ParamKind

/-- The kinds by name. -/
def named : List (String × ParamKind) :=
  [("string", .string), ("integer", .integer), ("number", .number), ("boolean", .boolean),
   ("array", .array), ("object", .object), ("any", .any)]

/-- The name of a kind. -/
def text : ParamKind → String
  | .string => "string"
  | .integer => "integer"
  | .number => "number"
  | .boolean => "boolean"
  | .array => "array"
  | .object => "object"
  | .any => "any"

/-- Reads a kind. -/
def decode : Decoder ParamKind := Decode.variant named

end ParamKind

/-- The description of a parameter. -/
structure ParamSpec where
  name : String
  kind : ParamKind
  required : Bool := false
  description : String := ""
  deriving Repr, BEq, DecidableEq, Inhabited

namespace ParamSpec

/-- The description as a value. -/
def toJson (p : ParamSpec) : Json :=
  .ofFields [("name", .str p.name), ("kind", .str p.kind.text), ("required", .bool p.required),
    ("description", .str p.description)]

/-- Reads a truth value. -/
def truth : Decoder Bool
  | .bool b => .ok b
  | v => Decode.wrongType v "a boolean"

/-- Reads a description; name and kind have to be there. -/
def decode : Decoder ParamSpec := fun v => do
  let fs ← Decode.record "ParamSpec"
    [Decode.field "name" .required Decode.text,
     Decode.field "kind" .required ParamKind.decode,
     Decode.field "required" .defaulted truth,
     Decode.field "description" .defaulted Decode.text] v
  let name ← Decode.get fs "name" Decode.text
  let kind ← Decode.get fs "kind" ParamKind.decode
  let required ← Decode.getD fs "required" truth false
  let description ← Decode.getD fs "description" Decode.text ""
  return { name, kind, required, description }

end ParamSpec

/-- A handler of one type of step. -/
structure Handler where
  name : String
  description : String
  params : List ParamSpec
  raw : List String := []
  run : Json → Scope → Timeline (StepResult × Fields)
  deriving Inhabited

namespace Handler

/-- Whether a parameter is missing: absent or null. -/
def isMissing (params : Json) (name : String) : Bool :=
  match params.get? name with
  | none => true
  | some .null => true
  | some _ => false

/-- The required parameters that are missing, in the order of the schema. -/
def missingRequired (h : Handler) (params : Json) : List String :=
  (h.params.filter fun p => p.required && isMissing params p.name).map (·.name)

/-- The description of a handler as a value. -/
def toJson (h : Handler) : Json :=
  .ofFields [("name", .str h.name), ("description", .str h.description),
    ("params", .ofFields [("params", .arr (h.params.map ParamSpec.toJson))])]

/-- Fails on parameters that do not decode. -/
def decodeParams {α : Type} (name : String) (d : Decoder α) (params : Json) :
    Except StepFault α :=
  match d params with
  | .ok a => .ok a
  | .error f => .error (.invalidParams ("Invalid " ++ name ++ " params: " ++ f.message))

end Handler
end Runbook

import Runbook.Procedure.Definition
import Runbook.Yaml.Decode

/-!
# Procedures in documents

A procedure is read from a YAML document, of which JSON is a part. A text that is not one
well-formed value is reported as such, whatever else is wrong with it; otherwise the report names
the place and the cause.
-/

namespace Runbook

/-- Why a text is no definition. -/
inductive DocumentFault where
  | notAValue
  | at_ (place : Yaml.Located)
  deriving Repr, BEq, DecidableEq

/-- The wording of a fault. -/
def DocumentFault.message : DocumentFault → String
  | .notAValue => "not a YAML value"
  | .at_ l => l.message

open Yaml (NodeDecoder Located)
open Yaml.NodeDecoder

/-- Reads a text. -/
def documentText : NodeDecoder String := text "a string"

/-- Reads a step. -/
def StepDefinition.ofNode : NodeDecoder StepDefinition := fun path depth n => do
  let optionalText := optional documentText
  let texts := optional (list documentText)
  let number := optional unsigned
  let r ← record "StepDefinition"
    [field "name" true documentText, field "id" false optionalText,
     field "type" true documentText, field "params" false object,
     field "on_success" false optionalText, field "on_failure" false optionalText,
     field "devices" false texts, field "timeout_seconds" false number] path depth n
  let name ← r.getD "name" documentText ""
  let id ← r.getD "id" optionalText none
  let stepType ← r.getD "type" documentText ""
  let params ← r.getD "params" object []
  let onSuccess ← r.getD "on_success" optionalText none
  let onFailure ← r.getD "on_failure" optionalText none
  let devices ← r.getD "devices" texts none
  let timeoutSeconds ← r.getD "timeout_seconds" number none
  return { name, id, stepType, params, onSuccess, onFailure, devices, timeoutSeconds }

/-- Reads a procedure. -/
def ProcedureDefinition.ofNode : NodeDecoder ProcedureDefinition := fun path depth n => do
  let optionalText := optional documentText
  let texts := list documentText
  let optionalObject := optional object
  let steps := list StepDefinition.ofNode
  let r ← record "ProcedureDefinition"
    [field "name" true documentText, field "description" false optionalText,
     field "devices" false texts, field "variables" false optionalObject,
     field "steps" false steps] path depth n
  let name ← r.getD "name" documentText ""
  let description ← r.getD "description" optionalText none
  let devices ← r.getD "devices" texts []
  let vars ← r.getD "variables" optionalObject none
  let steps ← r.getD "steps" steps []
  return { name, description, devices, vars, steps }

/-- The definition that a document holds. -/
def ProcedureDefinition.ofText (s : String) : Except DocumentFault ProcedureDefinition :=
  match Yaml.Node.ofText s with
  | .error _ => .error .notAValue
  | .ok document =>
    let n := document.getD .empty
    match ProcedureDefinition.ofNode "" Yaml.Node.maxDepth n with
    | .ok p => .ok p
    | .error l => .error (if n.isValue Yaml.Node.maxDepth then .at_ l else .notAValue)

end Runbook

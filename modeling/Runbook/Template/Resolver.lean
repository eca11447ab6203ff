import Runbook.Scope
import Runbook.Step.Fault
import Runbook.Template.Eval

/-!
# Resolving parameters

A parameter that is one `{{ … }}` block stands for the value of its expression, with its type; any
other text with blocks stands for the text it renders to. `Template.resolve` goes through a value,
`Template.resolveParams` through the parameters of a step, some of which may be left as they are.
-/

namespace Runbook.Template

/-- Whether a text holds template blocks. -/
def isTemplate (s : String) : Bool := Text.contains s "\x7b\x7b" || Text.contains s "\x7b%"

/-- The wording of a text that does not parse. -/
def SyntaxFault.message : SyntaxFault → String
  | .malformed => "syntax error"
  | .escape => "bad string escape"

/-- The text that a template renders to. -/
def render (template : String) (context : Json) : Except StepFault String :=
  match Node.parse template with
  | .error e => .error (.resolution e.message)
  | .ok nodes =>
    match renderAll 0 (Env.ofContext context) "" nodes with
    | .ok (_, s) => .ok s
    | .error f => .error (.resolution (Text.trim template ++ ": " ++ f.message))

/-- The value of an expression; an undefined value is a fault. -/
def lookup (expr : String) (context : Json) : Except StepFault Json :=
  match Expr.parse expr with
  | .error e => .error (.resolution e.message)
  | .ok e =>
    match e.eval (Env.ofContext context) with
    | .error f => .error (.resolution (Text.trim expr ++ ": " ++ f.message))
    | .ok v =>
      if v.isUndefined then .error (.resolution (Text.trim expr ++ " is undefined"))
      else
        match v.toJson with
        | .ok j => .ok j
        | .error f => .error (.json f.message)

/-- The text between the braces of a text that is a single `{{ … }}` block. -/
def singleExpression? (s : String) : Option String :=
  match Text.dropStart? "\x7b\x7b".toList (Text.trimChars s.toList) with
  | none => none
  | some cs =>
    match Text.dropStart? "\x7d\x7d".toList cs.reverse with
    | none => none
    | some rev =>
      let inner := rev.reverse
      if ["\x7b\x7b", "\x7d\x7d", "\x7b%"].any fun mark => Text.occursIn mark.toList inner then none
      else
        let expr := Text.trimChars inner
        if expr.isEmpty then none else some (String.ofList expr)

/-- What a text parameter stands for. -/
def resolveText (s : String) (context : Json) : Except StepFault Json :=
  if isTemplate s then
    match singleExpression? s with
    | some expr => lookup expr context
    | none => (render s context).map .str
  else .ok (.str s)

mutual
/-- The value with every template in it resolved; keys are left as they are. -/
def resolve (context : Json) : Json → Except StepFault Json
  | .str s => resolveText s context
  | .arr xs => (resolveItems context xs).map .arr
  | .obj fs => (resolveFields context fs).map .obj
  | v => .ok v

/-- The values of a sequence, resolved. -/
def resolveItems (context : Json) : List Json → Except StepFault (List Json)
  | [] => .ok []
  | x :: xs => do
    let y ← resolve context x
    let ys ← resolveItems context xs
    return y :: ys

/-- The fields of an object, resolved. -/
def resolveFields (context : Json) : List (String × Json) → Except StepFault (List (String × Json))
  | [] => .ok []
  | (k, x) :: fs => do
    let y ← resolve context x
    let rest ← resolveFields context fs
    return (k, y) :: rest
end

/-- The parameters of an invocation: the fields named in `raw` are left as they are, all else is
resolved. -/
def resolveParams (params : Json) (scope : Scope) (raw : List String) : Except StepFault Json :=
  let context := scope.templateContext
  match params with
  | .obj fs => do
    let resolved ← fs.mapM fun (k, v) => do
      let w ← if raw.contains k then pure v else resolve context v
      return (k, w)
    return .obj resolved
  | other => resolve context other

end Runbook.Template

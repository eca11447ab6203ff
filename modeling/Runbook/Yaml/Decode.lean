import Runbook.Yaml.Scalar

/-!
# Decoding documents

A decoder turns a node into something definite or says where and why it cannot. A required text
takes any scalar as it is written; elsewhere a plain scalar stands for what it denotes. Nothing
written stands for null, an empty sequence or an empty mapping, as the place demands.
-/

namespace Runbook.Yaml

/-- Where and why a node does not decode. -/
structure Located where
  path : String
  cause : DecodeFault
  deriving Repr, BEq, DecidableEq

/-- The wording of such a fault. -/
def Located.message (l : Located) : String :=
  if l.path.isEmpty then l.cause.message else l.path ++ ": " ++ l.cause.message

/-- A function from nodes, with the path to the node and the depth that is left. -/
abbrev NodeDecoder (α : Type) := String → Nat → Node → Except Located α

namespace NodeDecoder

variable {α : Type}

/-- The path of a field. -/
def fieldPath (path key : String) : String := if path.isEmpty then key else path ++ "." ++ key

/-- The path of an item. -/
def itemPath (path : String) (i : Nat) : String := path ++ "[" ++ toString i ++ "]"

/-- The path of the value of a key: keys that are no scalars of their own are not shown. -/
def valuePath (path : String) : Node → String
  | .scalar s _ _ => fieldPath path s
  | _ => fieldPath path "?"

/-- The node that a chain of aliases leads to. -/
def target : Node → Node
  | .alias n => target n
  | n => n

/-- The refusal of a node of the wrong kind. -/
def wrongType (path : String) (expected : String) : Node → Except Located α
  | .scalar s u t =>
    match Scalar.resolve s u t with
    | .ok x => .error ⟨path, .wrongType x.described expected⟩
    | .error e => .error ⟨path, e⟩
  | .sequence _ _ => .error ⟨path, .wrongType "sequence" expected⟩
  | .mapping _ _ => .error ⟨path, .wrongType "map" expected⟩
  | .alias n => wrongType path expected n
  | .cycle => .error ⟨path, .refused "recursion limit exceeded"⟩

/-- The refusal of a node that is too deep. -/
def tooDeep (path : String) : Except Located α := .error ⟨path, .refused "recursion limit exceeded"⟩

/-- Whether a node is a place where nothing is written. -/
def isNothing : Node → Bool
  | .scalar s .plain _ => s.isEmpty
  | _ => false

/-- A text: any scalar as it is written. -/
def text (expected : String) : NodeDecoder String := fun path _ n =>
  match target n with
  | .scalar s _ _ => .ok s
  | m => wrongType path expected m

/-- An unsigned integer of 64 bits. -/
def unsigned : NodeDecoder Nat := fun path _ n =>
  match target n with
  | .scalar s u t =>
    let direct := u == .plain || (u == .literal && t == some (Scalar.standard "int"))
    match direct, Scalar.unsigned? (Nat.pow 2 64) s.toList with
    | true, some i => .ok i.toNat
    | _, _ => wrongType path "u64" (.scalar s u t)
  | m => wrongType path "u64" m

/-- Whether a scalar stands for null where a value may be missing. -/
def isMissing (path : String) : Node → Except Located Bool
  | .scalar s .plain tag =>
    if tag == some (Scalar.standard "null") then
      if Scalar.isNull s then .ok true
      else .error ⟨path, .wrongValue ("string " ++ Text.quoted s) "null"⟩
    else if tag.isSome then .ok false
    else .ok (s.isEmpty || Scalar.isNull s)
  | _ => .ok false

/-- Null or a value. -/
def optional (d : NodeDecoder α) : NodeDecoder (Option α) := fun path depth n => do
  if ← isMissing path (target n) then return none
  return some (← d path depth (target n))

/-- A list. -/
def list (d : NodeDecoder α) : NodeDecoder (List α) := fun path depth n =>
  match target n, depth with
  | .sequence _ _, 0 => tooDeep path
  | .sequence xs _, depth + 1 => xs.zipIdx.mapM fun (x, i) => d (itemPath path i) depth x
  | m, _ => if isNothing m then .ok [] else wrongType path "a sequence" m

mutual
/-- Any value. Doubles that are not finite become null, and a tag of the document's own is
refused. -/
def value (path : String) : Nat → Node → Except Located Json
  | _, .scalar s u t =>
    if (t.map Scalar.isLocal).getD false then enum_ path
    else match Scalar.resolve s u t with
      | .error e => .error ⟨path, e⟩
      | .ok .null => .ok .null
      | .ok (.bool b) => .ok (.bool b)
      | .ok (.int i) => .ok (.int i)
      | .ok (.wide i) => .error ⟨path, .wrongType (Scalar.wide i).described "any valid JSON value"⟩
      | .ok (.double x) => .ok (if x.isNaN || x.isInf then .null else .double x)
      | .ok (.text s) => .ok (.str s)
  | depth, .alias n => value path depth n
  | _, .cycle => tooDeep path
  | 0, .sequence _ _ => tooDeep path
  | 0, .mapping _ _ => tooDeep path
  | depth + 1, .sequence xs t =>
    if (t.map Scalar.isLocal).getD false then enum_ path
    else (items path 0 depth xs).map .arr
  | depth + 1, .mapping es t =>
    if (t.map Scalar.isLocal).getD false then enum_ path
    else (entries path "a string key" [] depth es).map .obj

/-- The refusal of a tag of the document's own. -/
def enum_ (path : String) : Except Located Json :=
  .error ⟨path, .wrongType "enum" "any valid JSON value"⟩

/-- The values of a sequence, counted from `i`. -/
def items (path : String) (i : Nat) (depth : Nat) : List Node → Except Located (List Json)
  | [] => .ok []
  | x :: xs => do
    let y ← value (itemPath path i) depth x
    let ys ← items path (i + 1) depth xs
    return y :: ys

/-- The fields of a mapping, the last of several with one key winning; `expected` is what the
first key is asked for. -/
def entries (path expected : String) (before : Fields) (depth : Nat) :
    List (Node × Node) → Except Located Fields
  | [] => .ok before
  | (k, v) :: es => do
    let key ← text expected path depth k
    let w ← value (valuePath path k) depth v
    entries path "a string" (Table.insert key w before) depth es
end

/-- The fields of a mapping. -/
def object : NodeDecoder Fields := fun path depth n =>
  match target n, depth with
  | .mapping _ _, 0 => tooDeep path
  | .mapping es _, depth + 1 => entries path "a string" [] depth es
  | m, _ => if isNothing m then .ok [] else wrongType path "a map" m

/-- A field of a record: its name, whether it has to be there, and the check of its value. -/
structure Field where
  name : String
  required : Bool
  check : NodeDecoder Unit

/-- A field decoded by `d`. -/
def field (name : String) (required : Bool) (d : NodeDecoder α) : Field :=
  ⟨name, required, fun path depth n => (d path depth n).map fun _ => ()⟩

/-- The known fields of a mapping, each checked where it stands. No field is given twice. -/
def known (fields : List Field) (path : String) (depth : Nat)
    (before : List (String × String × Node)) :
    List (Node × Node) → Except Located (List (String × String × Node))
  | [] => .ok before
  | (k, v) :: es => do
    let key ← text "field identifier" path depth k
    match fields.find? (·.name == key) with
    | none => known fields path depth before es
    | some f =>
      if before.any (·.1 == key) then .error ⟨path, .refused ("duplicate field `" ++ key ++ "`")⟩
      else do
        f.check (valuePath path k) depth v
        known fields path depth ((key, valuePath path k, v) :: before) es

/-- What is known of a record: the depth of its fields, and each with its path. -/
structure Record where
  depth : Nat
  fields : List (String × String × Node)

/-- The fields of a record, each of which passes its check. -/
def record (kind : String) (fields : List Field) : NodeDecoder Record := fun path depth n =>
  let complete (depth : Nat) (found : List (String × String × Node)) : Except Located Record :=
    match fields.find? fun f => f.required && !found.any (·.1 == f.name) with
    | some f => .error ⟨path, .missingField f.name⟩
    | none => .ok ⟨depth, found⟩
  match target n, depth with
  | .mapping _ _, 0 => tooDeep path
  | .mapping es _, depth + 1 => do complete depth (← known fields path depth [] es)
  | m, _ => if isNothing m then complete depth [] else wrongType path ("struct " ++ kind) m

/-- The value of a field, if it is there. -/
def Record.get? (r : Record) (name : String) (d : NodeDecoder α) : Except Located (Option α) :=
  match r.fields.find? (·.1 == name) with
  | some (_, path, n) => (d path r.depth n).map some
  | none => .ok none

/-- The value of a field, or a default where it is left out. -/
def Record.getD (r : Record) (name : String) (d : NodeDecoder α) (default : α) :
    Except Located α := do
  return (← r.get? name d).getD default

end NodeDecoder
end Runbook.Yaml

import Runbook.Json.Text
import Runbook.Text.Quoted

/-!
# Decoding JSON values

A decoder turns a value into something more definite or says why it cannot. A record is decoded
from an object, whose fields are met in the order of their keys and whose unknown fields are
skipped, or from a sequence of the fields in the order of their declaration
(`Decode.record`).
-/

namespace Runbook

/-- Why a value does not decode. -/
inductive DecodeFault where
  | wrongType (found expected : String)
  | wrongValue (found expected : String)
  | unknownVariant (name : String) (known : List String)
  | missingField (name : String)
  | wrongLength (length : Nat) (expected : String)
  | refused (reason : String)
  deriving Repr, BEq, DecidableEq

/-- A list of alternatives in a message. -/
def oneOf (known : List String) : String :=
  let quoted := known.map fun k => "`" ++ k ++ "`"
  match quoted with
  | [] => "there are no variants"
  | [a] => "expected " ++ a
  | [a, b] => "expected " ++ a ++ " or " ++ b
  | many => "expected one of " ++ String.intercalate ", " many

/-- The wording of a fault. -/
def DecodeFault.message : DecodeFault → String
  | .wrongType found expected => "invalid type: " ++ found ++ ", expected " ++ expected
  | .wrongValue found expected => "invalid value: " ++ found ++ ", expected " ++ expected
  | .unknownVariant name known => "unknown variant `" ++ name ++ "`, " ++ oneOf known
  | .missingField name => "missing field `" ++ name ++ "`"
  | .wrongLength n expected => "invalid length " ++ toString n ++ ", expected " ++ expected
  | .refused reason => reason

/-- How messages call a value. -/
def Json.described : Json → String
  | .null => "null"
  | .bool b => "boolean `" ++ (if b then "true" else "false") ++ "`"
  | .int i => "integer `" ++ toString i ++ "`"
  | .double x => "floating point `" ++ Json.doubleText x ++ "`"
  | .str s => "string " ++ Text.quoted s
  | .arr _ => "sequence"
  | .obj _ => "map"

/-- A function from values that may refuse. -/
abbrev Decoder (α : Type) := Json → Except DecodeFault α

namespace Decode

variable {α : Type}

/-- The refusal of a value of the wrong kind. -/
def wrongType (v : Json) (expected : String) : Except DecodeFault α :=
  .error (.wrongType v.described expected)

/-- Any value. -/
def any : Decoder Json := .ok

/-- A text. -/
def text : Decoder String
  | .str s => .ok s
  | v => wrongType v "a string"

/-- An unsigned integer of 64 bits. -/
def unsigned : Decoder Nat
  | .int i => if i < 0 then .error (.wrongValue (Json.int i).described "u64") else .ok i.toNat
  | v => wrongType v "u64"

/-- A double; an integer stands for the nearest one. -/
def double : Decoder Float
  | .int i => .ok (Float.ofInt i)
  | .double x => .ok x
  | v => wrongType v "f64"

/-- The fields of an object. -/
def object : Decoder Fields
  | .obj fs => .ok fs
  | v => wrongType v "a map"

/-- Null or a value. -/
def optional (d : Decoder α) : Decoder (Option α)
  | .null => .ok none
  | v => (d v).map some

/-- A list. -/
def list (d : Decoder α) : Decoder (List α)
  | .arr xs => xs.mapM d
  | v => wrongType v "a sequence"

/-- An object all of whose fields have one type. -/
def table (d : Decoder α) : Decoder (Table α)
  | .obj fs => fs.mapM fun (k, v) => (d v).map (k, ·)
  | v => wrongType v "a map"

/-- One of several named alternatives, written as its name or as an object with that one key and
null. -/
def variant (known : List (String × α)) : Decoder α
  | .str s => named s
  | .obj [(k, v)] => do
    let a ← named k
    match v with
    | .null => .ok a
    | v => wrongType v "unit"
  | .obj _ => .error (.wrongValue "map" "map with a single key")
  | v => wrongType v "string or map"
where
  named (s : String) : Except DecodeFault α :=
    match known.find? (·.1 == s) with
    | some (_, a) => .ok a
    | none => .error (.unknownVariant s (known.map (·.1)))

/-- Whether a field may be left out: never, from an object only, or also at the end of a
sequence. -/
inductive Presence where
  | required
  | optional
  | defaulted
  deriving Repr, BEq, DecidableEq

/-- A field of a record: its name, the check of its value and whether it may be left out. -/
structure Field where
  name : String
  presence : Presence
  check : Json → Except DecodeFault Unit

/-- A field decoded by `d`. -/
def field (name : String) (presence : Presence) (d : Decoder α) : Field :=
  ⟨name, presence, fun v => (d v).map fun _ => ()⟩

/-- The name of a record and the number of its fields. -/
def expectedRecord (kind : String) (n : Nat) : String :=
  "struct " ++ kind ++ " with " ++ toString n ++ (if n = 1 then " element" else " elements")

/-- The fields of a record that stand in a sequence. -/
def inOrder (kind : String) (total : Nat) : Nat → List Field → List Json →
    Except DecodeFault Fields
  | _, [], [] => .ok []
  | _, [], _ :: _ => .ok []
  | i, f :: fs, [] =>
    if f.presence = .defaulted then inOrder kind total i fs []
    else .error (.wrongLength i (expectedRecord kind total))
  | i, f :: fs, v :: vs => do
    f.check v
    let rest ← inOrder kind total (i + 1) fs vs
    .ok ((f.name, v) :: rest)

/-- The known fields of an object, checked in the order of their keys. -/
def known (fields : List Field) : Fields → Except DecodeFault Fields
  | [] => .ok []
  | (k, v) :: rest =>
    match fields.find? (·.name == k) with
    | none => known fields rest
    | some f => do
      f.check v
      let more ← known fields rest
      .ok ((k, v) :: more)

/-- The first required field that is not there. -/
def missing? (fields : List Field) (found : Fields) : Option String :=
  (fields.find? fun f => f.presence = .required && !Table.has f.name found).map (·.name)

/-- The fields of a record, each of which passes its check. -/
def record (kind : String) (fields : List Field) : Decoder Fields
  | .arr vs => do
    let found ← inOrder kind fields.length 0 fields vs
    if fields.length < vs.length then
      .error (.wrongLength vs.length "fewer elements in array")
    else .ok found
  | .obj fs => do
    let found ← known fields fs
    match missing? fields found with
    | some name => .error (.missingField name)
    | none => .ok found
  | v => wrongType v ("struct " ++ kind)

/-- The value of a field that is there. -/
def get (fs : Fields) (name : String) (d : Decoder α) : Except DecodeFault α :=
  match Table.get? name fs with
  | some v => d v
  | none => .error (.missingField name)

/-- The value of a field, or a default where it is left out. -/
def getD (fs : Fields) (name : String) (d : Decoder α) (default : α) : Except DecodeFault α :=
  match Table.get? name fs with
  | some v => d v
  | none => .ok default

end Decode
end Runbook

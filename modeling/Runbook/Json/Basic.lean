import Runbook.Table

/-!
# JSON values

`Json` is the value that parameters, variables and results are made of. A number is an integer of
the signed or unsigned 64-bit range or a double; the two are different values even when they
denote the same number. An object is a list of fields in increasing order of their keys, without
repetition: `Table.insert` keeps that order, and `Json.ofFields` builds it.
-/

namespace Runbook

/-- A JSON value. -/
inductive Json where
  | null
  | bool (b : Bool)
  | int (i : Int)
  | double (x : Float)
  | str (s : String)
  | arr (items : List Json)
  | obj (fields : List (String × Json))
  deriving Inhabited

/-- The fields of an object. -/
abbrev Fields := Table Json

namespace Json

/-- The object with these entries, the last of several with one key winning. -/
def ofFields (entries : List (String × Json)) : Json := .obj (Table.ofList entries)

/-- The field of an object; other values have none. -/
def get? (key : String) : Json → Option Json
  | .obj fs => Table.get? key fs
  | _ => none

/-- A natural number as a value. -/
def ofNat (n : Nat) : Json := .int n

/-- A list of texts as a value. -/
def ofStrings (xs : List String) : Json := .arr (xs.map .str)

mutual
/-- Equality of values: integers and doubles differ, and doubles are equal as numbers. -/
def eqv : Json → Json → Bool
  | .null, .null => true
  | .bool a, .bool b => a == b
  | .int a, .int b => a == b
  | .double a, .double b => a == b
  | .str a, .str b => a == b
  | .arr xs, .arr ys => eqvItems xs ys
  | .obj xs, .obj ys => eqvFields xs ys
  | _, _ => false

/-- Equality of lists of values. -/
def eqvItems : List Json → List Json → Bool
  | [], [] => true
  | x :: xs, y :: ys => eqv x y && eqvItems xs ys
  | _, _ => false

/-- Equality of lists of fields. -/
def eqvFields : List (String × Json) → List (String × Json) → Bool
  | [], [] => true
  | (k, v) :: xs, (l, w) :: ys => k == l && eqv v w && eqvFields xs ys
  | _, _ => false
end

instance : BEq Json := ⟨eqv⟩

end Json
end Runbook

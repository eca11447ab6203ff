/-!
# Fields

A word that has been expanded is a list of pieces. Its fields are found by splitting what came from
values at blanks; quoted pieces are never split, and an empty one still makes a field.
-/

namespace Runbook.Shell

/-- A part of a word after expansion. Text that came from a value is split at its blanks. -/
inductive Piece where
  | literal (s : String)
  | quoted (s : String)
  | value (s : String)
  deriving Repr, BEq, DecidableEq, Inhabited

namespace Piece

/-- The text of a piece. -/
def text : Piece → String
  | literal s | quoted s | value s => s

/-- The piece as part of a value: plain text in it is split. -/
def splitting : Piece → Piece
  | literal s => value s
  | p => p

/-- The fields of pieces; `field` is the current one in reverse, if one has begun. -/
def fieldsFrom (field : Option (List Char)) : List Piece → List String
  | [] => (field.map fun f => String.ofList f.reverse).toList
  | quoted s :: ps => fieldsFrom (some (s.toList.reverse ++ field.getD [])) ps
  | literal s :: ps =>
    fieldsFrom (if s.isEmpty then field else some (s.toList.reverse ++ field.getD [])) ps
  | value s :: ps =>
    let (done, field) := s.toList.foldl (fun (done, field) c =>
      if c == ' ' || c == '\t' || c == '\n' then
        (done ++ (field.map fun f => String.ofList (List.reverse f)).toList, none)
      else (done, some (c :: field.getD []))) (([] : List String), field)
    done ++ fieldsFrom field ps

/-- The fields of a word. -/
def fields (ps : List Piece) : List String := fieldsFrom none ps

/-- The text of a word that is not split. -/
def joined (ps : List Piece) : String := String.join (ps.map text)

end Piece

end Runbook.Shell

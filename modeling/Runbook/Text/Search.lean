import Runbook.Text.Blank

/-!
# Parts of texts

Finding a part of a text, replacing all its occurrences and splitting at them. The empty part
occurs at every place between two characters and at both ends.
-/

namespace Runbook.Text

/-- A text with every occurrence of a part replaced, with a bound on the number of steps. -/
def replaceFrom (old new : List Char) : Nat → List Char → List Char
  | 0, cs => cs
  | fuel + 1, cs =>
    match dropStart? old cs with
    | some r =>
      if old.isEmpty then
        match cs with
        | [] => new
        | c :: r => new ++ c :: replaceFrom old new fuel r
      else new ++ replaceFrom old new fuel r
    | none =>
      match cs with
      | [] => []
      | c :: r => c :: replaceFrom old new fuel r

/-- A text with every occurrence of a part replaced. -/
def replaceAll (s old new : String) : String :=
  String.ofList (replaceFrom old.toList new.toList (s.length + 1) s.toList)

/-- The place where a part first occurs. -/
def position? (part : List Char) : List Char → Option Nat
  | [] => if part.isEmpty then some 0 else none
  | c :: cs => if part.isPrefixOf (c :: cs) then some 0 else (position? part cs).map (· + 1)

/-- The pieces between the occurrences of a part that is not empty, at most `limit + 1` of them;
`piece` holds the characters of the current one in reverse. -/
def piecesFrom (part piece : List Char) (limit : Nat) : Nat → List Char → List (List Char)
  | 0, cs => [piece.reverse ++ cs]
  | fuel + 1, cs =>
    if limit == 0 then [piece.reverse ++ cs]
    else
      match dropStart? part cs with
      | some r => piece.reverse :: piecesFrom part [] (limit - 1) fuel r
      | none =>
        match cs with
        | [] => [piece.reverse]
        | c :: r => piecesFrom part (c :: piece) limit fuel r

/-- The pieces between the occurrences of a part, at most `limit + 1` of them. -/
def pieces (part : List Char) (limit : Nat) (cs : List Char) : List (List Char) :=
  if part.isEmpty then
    let all := [] :: cs.map ([·]) ++ [[]]
    all.take limit ++ (if limit < all.length then [(all.drop limit).flatten] else [])
  else piecesFrom part [] limit (cs.length + 1) cs

/-- The stretches of a text that hold no blank. -/
def wordsFrom (word : List Char) : List Char → List (List Char)
  | [] => if word.isEmpty then [] else [word.reverse]
  | c :: cs =>
    if isBlank c then (if word.isEmpty then wordsFrom [] cs else word.reverse :: wordsFrom [] cs)
    else wordsFrom (c :: word) cs

/-- The words of a text, split at its blanks. -/
def words (cs : List Char) : List (List Char) := wordsFrom [] cs

end Runbook.Text

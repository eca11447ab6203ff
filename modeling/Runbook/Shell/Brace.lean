import Runbook.Shell.Program.Basic

/-!
# Alternatives in words

A word such as `a{b,c}d` stands for the words `abd` and `acd`, and `{1..3}` for three numbers.
-/

namespace Runbook.Shell.Brace

/-- The pieces between the commas of the outermost braces, and what follows the closing one;
`depth` counts the braces that are open within. -/
def pieces : Nat → List Char → List (List Char) → List Char →
    Option (List (List Char) × List Char)
  | _, _, _, [] => none
  | 0, piece, done, '\x7d' :: cs => some ((piece.reverse :: done).reverse, cs)
  | 0, piece, done, ',' :: cs => pieces 0 [] (piece.reverse :: done) cs
  | depth + 1, piece, done, '\x7d' :: cs => pieces depth ('\x7d' :: piece) done cs
  | depth, piece, done, '\x7b' :: cs => pieces (depth + 1) ('\x7b' :: piece) done cs
  | depth, piece, done, c :: cs => pieces depth (c :: piece) done cs

/-- The words of a range such as `1..3` or `a..c`. -/
def range? (cs : List Char) : Option (List (List Char)) :=
  let first := cs.takeWhile (· != '.')
  match cs.drop first.length with
  | '.' :: '.' :: last =>
    let between (a b : Int) (word : Int → List Char) : List (List Char) :=
      (List.range ((b - a).natAbs + 1)).map fun (i : Nat) =>
        word (if a ≤ b then a + i else a - i)
    match Program.integer? (String.ofList first), Program.integer? (String.ofList last) with
    | some a, some b => some (between a b fun n => (toString n).toList)
    | _, _ =>
      match first, last with
      | [a], [b] =>
        if a.isAlpha && b.isAlpha then
          some (between a.toNat b.toNat fun n => [Char.ofNat n.toNat])
        else none
      | _, _ => none
  | _ => none

/-- The words that a word stands for. -/
def words : Nat → List Char → List (List Char)
  | 0, cs => [cs]
  | _, [] => [[]]
  | fuel + 1, '\x7b' :: cs =>
    let plain := (words fuel cs).map ('\x7b' :: ·)
    match pieces 0 [] [] cs with
    | some ([p], rest) =>
      match range? p with
      | some ps => ps.flatMap fun p => (words fuel rest).map (p ++ ·)
      | none => plain
    | some (ps, rest) =>
      (ps.flatMap (words fuel)).flatMap fun p => (words fuel rest).map (p ++ ·)
    | none => plain
  | fuel + 1, c :: cs => (words fuel cs).map (c :: ·)

/-- The words that a text stands for. -/
def expand (s : String) : List String := (words (s.length + 1) s.toList).map String.ofList

end Runbook.Shell.Brace

/-!
# Patterns of the command language

A star stands for any text, a question mark for one character and brackets for one of the
characters they list; a backslash takes the next character as it is.
-/

namespace Runbook.Shell.Glob

/-- Whether a character is among those that brackets list. -/
def isListed (c : Char) : List Char → Bool
  | a :: '-' :: b :: rest => (a ≤ c && c ≤ b) || isListed c rest
  | a :: rest => a == c || isListed c rest
  | [] => false

/-- Whether a text matches a pattern, with a bound on the number of steps. -/
def matchesFrom : Nat → List Char → List Char → Bool
  | 0, _, _ => false
  | _, [], cs => cs.isEmpty
  | fuel + 1, '*' :: ps, cs =>
    matchesFrom fuel ps cs || match cs with
      | [] => false
      | _ :: cs => matchesFrom fuel ('*' :: ps) cs
  | fuel + 1, '?' :: ps, _ :: cs => matchesFrom fuel ps cs
  | fuel + 1, '\\' :: p :: ps, c :: cs => p == c && matchesFrom fuel ps cs
  | fuel + 1, '[' :: ps, c :: cs =>
    let (negated, ps') := match ps with
      | '!' :: qs | '^' :: qs => (true, qs)
      | qs => (false, qs)
    let inside := ps'.take 1 ++ (ps'.drop 1).takeWhile (· != ']')
    match ps'.drop inside.length with
    | ']' :: rest => (isListed c inside != negated) && matchesFrom fuel rest cs
    | _ => c == '[' && matchesFrom fuel ps cs
  | fuel + 1, p :: ps, c :: cs => p == c && matchesFrom fuel ps cs
  | _, _ :: _, [] => false

/-- Whether a text matches a pattern. -/
def accepts (pattern text : List Char) : Bool :=
  matchesFrom (pattern.length + text.length + 1) pattern text

/-- A text without a part at its start or end that matches a pattern, the shortest or longest. -/
def trimmed (fromEnd longest : Bool) (pattern text : List Char) : List Char :=
  let sizes := List.range (text.length + 1)
  let sizes := if longest then sizes.reverse else sizes
  let cut (n : Nat) : List Char × List Char :=
    if fromEnd then (text.drop (text.length - n), text.take (text.length - n))
    else (text.take n, text.drop n)
  match sizes.find? fun n => accepts pattern (cut n).1 with
  | some n => (cut n).2
  | none => text

/-- A pattern that only the text itself matches. -/
def literal (s : String) : String := String.ofList (s.toList.flatMap fun c => ['\\', c])

end Runbook.Shell.Glob

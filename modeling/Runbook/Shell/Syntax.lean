/-!
# Syntax of the command language

A command line is made of words, and a word of parts: plain text, text in quotes, and what is
replaced by a value when the command is run. Commands are joined to pipelines, conditions, loops
and groups.
-/

namespace Runbook.Shell

/-- What stands in for a parameter without a value, or with one. -/
inductive Fallback where
  /-- The word, when there is no value. -/
  | word
  /-- The word, which also becomes the value, when there is none. -/
  | assign
  /-- The word, when there is a value. -/
  | alternative
  /-- Nothing: the command fails with the word as its reason. -/
  | refuse
  deriving Repr, BEq, DecidableEq, Inhabited

mutual
/-- A part of a word. -/
inductive Part where
  | text (s : String)
  | quoted (parts : List Part)
  | parameter (name : String)
  | length (name : String)
  /-- A parameter with a fallback; `emptyToo` treats an empty value as none. -/
  | orElse (name : String) (emptyToo : Bool) (kind : Fallback) (word : List Part)
  /-- A parameter without the part at one end that a pattern matches. -/
  | trimmed (name : String) (fromEnd longest : Bool) (pattern : List Part)
  | output (commands : List Command)
  | arithmetic (expression : List Part)

/-- Where a command reads from or writes to. -/
inductive Redirection where
  | read (source : List Part)
  | readText (text : List Part)
  | write (descriptor : Nat) (append : Bool) (target : List Part)
  | duplicate (descriptor : Nat) (source : List Part)

/-- A command. -/
inductive Command where
  /-- Assignments and words, with the line on which they stand. -/
  | simple (line : Nat) (assignments : List (String × List Part)) (words : List (List Part))
      (redirections : List Redirection)
  | pipeline (stages : List Command)
  | negated (c : Command)
  | both (l r : Command)
  | either (l r : Command)
  | sequence (cs : List Command)
  | subshell (cs : List Command)
  | conditional (condition body otherwise : List Command)
  | loop (untilTrue : Bool) (condition body : List Command)
  | forEach (name : String) (words : List (List Part)) (body : List Command)
  /-- The commands of the first case with a pattern that the word matches. -/
  | choose (word : List Part) (cases : List (List (List Part) × List Command))
  | define (name : String) (body : Command)
  | redirected (c : Command) (redirections : List Redirection)
end

/-- A word is the list of its parts. -/
abbrev Word := List Part

/-- The word that a redirection is about. -/
def Redirection.word : Redirection → Word
  | .read w | .readText w | .write _ _ w | .duplicate _ w => w

instance : Inhabited Part := ⟨.text ""⟩
instance : Inhabited Command := ⟨.sequence []⟩

end Runbook.Shell

import Runbook.Pattern.Basic
import Runbook.Step.Fault

/-!
# The deny list

A script is refused before it is read when its text matches a rule of the deny list. The rules are
tried in order, and the first that matches is reported.
-/

namespace Runbook.Script

/-- A rule: its pattern as text, the pattern and the reason. -/
structure DenyRule where
  text : String
  pattern : Pattern
  reason : String

namespace DenyRule

/-- Patterns one after another. -/
def chain : List Pattern → Pattern
  | [] => .empty
  | p :: ps => ps.foldl .seq p

/-- The characters of a text one after another. -/
def letters (s : String) : List Pattern := s.toList.map fun c => .one (.single c)

/-- One of several texts. -/
def choice : List String → Pattern
  | [] => .empty
  | w :: ws => ws.foldl (fun p v => .alt p (chain (letters v))) (chain (letters w))

/-- The edge of a word. -/
def edge : Pattern := .place (.wordEdge true)

/-- Any number of blanks. -/
def blanks : Pattern := .rep (.one (.blank true)) 0 none

/-- One of several words. -/
def wholeWord (words : List String) : Pattern := chain [edge, choice words, edge]

/-- One of several names before an opening parenthesis. -/
def called (names : List String) : Pattern :=
  chain [edge, choice names, blanks, .one (.single '(')]

end DenyRule

open DenyRule in
/-- The rules in the order they are tried. -/
def denyRules : List DenyRule :=
  [⟨"\\bimport\\b", chain ([edge] ++ letters "import" ++ [edge]), "module loading"⟩,
   ⟨"\\beval\\s*\\(", chain ([edge] ++ letters "eval" ++ [blanks, .one (.single '(')]),
     "nested dynamic evaluation"⟩,
   ⟨"\\b(Fn|call|curry)\\s*\\(", called ["Fn", "call", "curry"], "dynamic function construction"⟩,
   ⟨"__\\w+__",
     chain (letters "__" ++ [.rep (.one (.word true)) 1 none] ++ letters "__"),
     "reflective attribute traversal"⟩,
   ⟨"\\b(getattr|setattr|delattr|globals|locals|vars)\\s*\\(",
     called ["getattr", "setattr", "delattr", "globals", "locals", "vars"],
     "reflective attribute traversal"⟩,
   ⟨"\\b(system|exec|spawn|popen|subprocess|socket|open_file)\\b",
     wholeWord ["system", "exec", "spawn", "popen", "subprocess", "socket", "open_file"],
     "system access"⟩]

/-- The first rule that matches a script. -/
def deniedBy? (code : String) : Option DenyRule :=
  denyRules.find? fun r => r.pattern.occursIn code

/-- Refuses a script that a rule matches. -/
def scan (code : String) : Except StepFault Unit :=
  match deniedBy? code with
  | some r => .error (.rejected r.text r.reason)
  | none => .ok ()

end Runbook.Script

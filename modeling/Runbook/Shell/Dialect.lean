/-!
# Dialects of the command language

The same commands run in two dialects, which differ in the wording of faults, in how some of them
end a shell and in what `echo` makes of its arguments.
-/

namespace Runbook.Shell

/-- Which shell reads the commands. -/
inductive Dialect where
  | bash
  | dash
  deriving Repr, BEq, DecidableEq, Inhabited

/-- Why a text is no command. -/
inductive SyntaxFault where
  /-- A quote or bracket without its other half. -/
  | unclosed (mark : Char) (line : Nat)
  /-- A token that cannot stand where it does. -/
  | unexpected (token : String) (line : Nat)
  /-- The text ends inside a command; a word is missing to close it. -/
  | incomplete (wanted : Option String)
  deriving Repr, BEq, DecidableEq, Inhabited

namespace Dialect

/-- The dialect of a shell that is called by this name. -/
def ofName? : String → Option Dialect
  | "bash" => some .bash
  | "sh" | "dash" => some .dash
  | _ => none

/-- What a fault at a line starts with. -/
def place (d : Dialect) (shell : String) (line : Nat) : String :=
  match d with
  | .bash => shell ++ ": line " ++ toString line ++ ": "
  | .dash => shell ++ ": " ++ toString line ++ ": "

/-- The report that a command is not known; a name with a slash is taken for a file. -/
def notFound (d : Dialect) (command : String) : String :=
  match d with
  | .dash => command ++ ": not found"
  | .bash =>
    if command.toList.contains '/' then command ++ ": No such file or directory"
    else command ++ ": command not found"

/-- The report that a file cannot be opened. -/
def cannotOpen (d : Dialect) (file reason : String) : String :=
  match d with
  | .bash => file ++ ": " ++ reason
  | .dash =>
    "cannot open " ++ file ++ ": " ++
      (if reason == "No such file or directory" then "No such file" else reason)

/-- The report that a file cannot be written. -/
def cannotWrite (d : Dialect) (file reason : String) : String :=
  match d with
  | .bash => file ++ ": " ++ reason
  | .dash =>
    "cannot create " ++ file ++ ": " ++
      (if reason == "No such file or directory" then "Directory nonexistent" else reason)

/-- The report of a text that is no command, given its lines. -/
def refusal (d : Dialect) (shell : String) (lines : List String) (f : SyntaxFault) : String :=
  match d with
  | .bash =>
    let start (line : Nat) : String := shell ++ ": -c: line " ++ toString line ++ ": "
    match f with
    | .unclosed mark line =>
      start (if mark == ')' then line + 1 else line) ++
        "unexpected EOF while looking for matching \x60" ++ mark.toString ++ "'\n"
    | .unexpected token line =>
      start line ++ "syntax error near unexpected token \x60" ++ token ++ "'\n" ++
        start line ++ "\x60" ++ lines.getD (line - 1) "" ++ "'\n"
    | .incomplete _ =>
      start (lines.length + 1) ++ "syntax error: unexpected end of file\n"
  | .dash =>
    let start (line : Nat) : String := d.place shell line ++ "Syntax error: "
    match f with
    | .unclosed mark line =>
      start line ++
        (if mark == '\x7d' then "Missing '\x7d'"
        else if mark == ')' then "end of file unexpected (expecting \")\")"
        else if mark == '\x60' then "EOF in backquote substitution"
        else "Unterminated quoted string") ++ "\n"
    | .unexpected token line => start line ++ "\"" ++ token ++ "\" unexpected\n"
    | .incomplete wanted =>
      start lines.length ++ "end of file unexpected" ++
        (wanted.map fun w => " (expecting \"" ++ w ++ "\")").getD "" ++ "\n"

end Dialect
end Runbook.Shell

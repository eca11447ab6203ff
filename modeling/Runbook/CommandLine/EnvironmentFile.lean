import Runbook.Table
import Runbook.Text.Blank

/-!
# Files of variables

A file of variables holds a line `NAME=VALUE` for each. Values may stand in quotes, which may span
lines; outside of single quotes a backslash guards the next character and `$NAME` or `${NAME}`
stands for the value of a variable. What follows a `#` after a blank is a comment. Variables that the
environment already has keep their values, and a line that cannot be read ends the file.
-/

namespace Runbook.CommandLine.EnvironmentFile

/-! ## Lines -/

/-- Where a line of the file ends. -/
inductive LineState where
  | complete
  | blank
  | escape
  | single
  | singleEscape
  | double
  | doubleEscape
  | comment
  deriving Repr, BEq, DecidableEq, Inhabited

/-- The state after a character. -/
def LineState.next (s : LineState) (c : Char) : LineState :=
  let opened : LineState :=
    if c == '\\' then .escape else if c == '"' then .double else if c == '\'' then .single
    else .complete
  match s with
  | .comment => .comment
  | .blank => if c == '#' then .comment else opened
  | .complete => if Text.isBlank c && c != '\n' && c != '\r' then .blank else opened
  | .escape => .complete
  | .double => if c == '\\' then .doubleEscape else if c == '"' then .complete else .double
  | .doubleEscape => .double
  | .single => if c == '\\' then .singleEscape else if c == '\'' then .complete else .single
  | .singleEscape => .single

/-- The state after the characters of a line, and those before a comment. -/
def scanLine : LineState → List Char → LineState × List Char
  | s, [] => (s, [])
  | s, c :: cs =>
    match s.next c with
    | .comment => (.comment, [])
    | t =>
      let (last, kept) := scanLine t cs
      (last, c :: kept)

/-- The lines of a text, each with its end. -/
def rawLines (cs : List Char) : List (List Char) :=
  match Text.splitLineFeeds cs with
  | [] => []
  | ls =>
    let last := ls.getLast?.toList
    ls.dropLast.map (· ++ ['\n']) ++ (if last == [[]] then [] else last)

/-- The characters without a line end. -/
def withoutEnd (cs : List Char) : List Char :=
  match cs.reverse with
  | '\n' :: '\r' :: rest => rest.reverse
  | '\n' :: rest => rest.reverse
  | _ => cs

/-- The logical lines: quotes join lines; none stands for quotes that are not closed. -/
def logicalLines (state : LineState) (held : List Char) :
    List (List Char) → List (Option (List Char))
  | [] => if state == .complete then [] else [none]
  | l :: ls =>
    if ((held ++ l).dropWhile Text.isBlank).head? == some '#' then
      logicalLines .complete [] ls
    else
      match scanLine state l with
      | (.complete, _) => some (withoutEnd (held ++ l)) :: logicalLines .complete [] ls
      | (.comment, kept) => some (held ++ kept) :: logicalLines .complete [] ls
      | (s, _) => logicalLines s (held ++ l) ls

/-! ## Values -/

/-- What a dollar sign has begun. -/
inductive Substitution where
  | none
  | bare
  | braced
  deriving Repr, BEq, DecidableEq, Inhabited

/-- How far a value has been read. -/
structure ValueState where
  single : Bool := false
  double : Bool := false
  escaped : Bool := false
  /-- Whether only a comment may follow. -/
  finished : Bool := false
  substitution : Substitution := .none
  /-- The name after a dollar sign, in reverse. -/
  name : List Char := []
  /-- What has been read, in reverse. -/
  output : List Char := []
  deriving Inhabited

namespace ValueState

/-- The state with a character read. -/
def push (s : ValueState) (c : Char) : ValueState := { s with output := c :: s.output }

/-- The state with the value of the name put in its place. -/
def substituted (lookup : String → String) (s : ValueState) : ValueState :=
  { s with
    name := []
    output := (lookup (String.ofList s.name.reverse)).toList.reverse ++ s.output }

/-- The state after a character that no quote, backslash or dollar sign has taken; none when it
cannot stand there. -/
def plain (s : ValueState) (c : Char) : ValueState :=
  if c == '$' then { s with substitution := .bare }
  else if s.double then
    if c == '"' then { s with double := false }
    else if c == '\\' then { s with escaped := true }
    else s.push c
  else if c == '\'' then { s with single := true }
  else if c == '"' then { s with double := true }
  else if c == '\\' then { s with escaped := true }
  else if c == ' ' || c == '\t' then { s with finished := true }
  else s.push c

/-- The state after a character; none when it cannot stand there. -/
def next (lookup : String → String) (s : ValueState) (c : Char) : Option ValueState :=
  if s.escaped then
    let s := { s with escaped := false }
    if "\\'\"$ ".toList.contains c then some (s.push c)
    else if c == 'n' then some (s.push '\n')
    else none
  else if s.single then some (if c == '\'' then { s with single := false } else s.push c)
  else
    match s.substitution with
    | .none => some (s.plain c)
    | .bare =>
      if c.isAlphanum then some { s with name := c :: s.name }
      else if c == '\x7b' && s.name.isEmpty then some { s with substitution := .braced }
      else
        let s := s.substituted lookup
        some (if c == '$' then { s with substitution := .bare }
          else { s with substitution := .none }.push c)
    | .braced =>
      if c.isAlphanum then some { s with name := c :: s.name }
      else if c == '\x7d' then some ({ s with substitution := .none }.substituted lookup)
      else some { s with name := c :: s.name }

/-- The value once all characters have been read; none when a quote or a brace is open. -/
def value? (lookup : String → String) (s : ValueState) : Option String :=
  if s.single || s.double || s.substitution == .braced then none
  else some (String.ofList (s.substituted lookup).output.reverse)

end ValueState

/-- The value that characters stand for after a state. -/
def readValue (lookup : String → String) (s : ValueState) : List Char → Option String
  | [] => s.value? lookup
  | c :: cs =>
    if s.finished then
      if c == ' ' || c == '\t' then readValue lookup s cs
      else if c == '#' then s.value? lookup
      else none
    else (s.next lookup c).bind fun s => readValue lookup s cs

/-! ## Variables -/

/-- The name at the start of characters, and what follows it and its blanks. -/
def readName (cs : List Char) : Option (String × List Char) :=
  match cs with
  | c :: _ =>
    if c.isAlpha || c == '_' then
      let name := cs.takeWhile fun c => c.isAlphanum || c == '_' || c == '.'
      some (String.ofList name, (cs.drop name.length).dropWhile Text.isBlank)
    else none
  | [] => none

/-- The variable of a line; none for a line without one. -/
def readLine (lookup : String → String) (line : List Char) :
    Option (Option (String × String)) := do
  let cs := (Text.trimEndChars line).dropWhile Text.isBlank
  if cs.isEmpty || cs.head? == some '#' then return none
  let (name, rest) ← readName cs
  let (name, rest) ← match name, rest with
    | _, '=' :: rest => some (name, rest)
    | "export", rest =>
      match readName rest with
      | some (name, '=' :: rest) => some (name, rest)
      | _ => none
    | _, _ => none
  let rest := rest.dropWhile Text.isBlank
  if rest.isEmpty || rest.head? == some '#' then return some (name, "")
  let value ← readValue lookup {} rest
  return some (name, value)

/-- The variables of an environment with those of logical lines added; `seen` holds the values that
lines have given so far. -/
def addLines (seen : Table String) (environment : Table String) :
    List (Option (List Char)) → Table String
  | [] => environment
  | none :: _ => environment
  | some line :: rest =>
    let lookup (name : String) : String :=
      ((Table.get? name environment).or (Table.get? name seen)).getD ""
    match readLine lookup line with
    | none => environment
    | some none => addLines seen environment rest
    | some (some (name, value)) =>
      addLines (Table.insert name value seen)
        (if Table.has name environment then environment else Table.insert name value environment)
        rest

/-- The variables of an environment with those of a file added. -/
def add (environment : Table String) (file : String) : Table String :=
  let cs := match file.toList with
    | '\ufeff' :: cs => cs
    | cs => cs
  addLines [] environment (logicalLines .complete [] (rawLines cs))

end Runbook.CommandLine.EnvironmentFile

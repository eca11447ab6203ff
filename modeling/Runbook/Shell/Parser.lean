import Runbook.Shell.Dialect
import Runbook.Shell.Syntax
import Runbook.Text.Blank

/-!
# Reading commands

From text to commands, one complete line of them at a time (`nextLine`), as a shell reads them: a
fault in a later line is met only after the earlier ones have run. Every recursive call spends one
unit of a bound computed from the length of the text.
-/

namespace Runbook.Shell

/-- What is still to be read, and the number of its first line. -/
structure Source where
  chars : List Char
  line : Nat
  deriving Inhabited

/-- A reader of commands. -/
abbrev Parser (α : Type) := StateT Source (Except SyntaxFault) α

/-- Where the parts of a word end, and whether they stand in double quotes. -/
structure Mode where
  quoted : Bool
  stop : Char → Bool

/-- The characters that separate words. -/
def isSeparator (c : Char) : Bool := " \t\n|&;()<>".toList.contains c

/-- The characters that a name starts with. -/
def isNameStart (c : Char) : Bool := c.isAlpha || c == '_'

/-- The characters of a name. -/
def isNameChar (c : Char) : Bool := isNameStart c || c.isDigit

/-- The parameters with a name of one sign. -/
def isSign (c : Char) : Bool := c.isDigit || "?$#@*!-".toList.contains c

/-- The words that structure commands. -/
def reserved : List String :=
  ["if", "then", "elif", "else", "fi", "while", "until", "do", "done", "for", "in", "case", "esac",
   "\x7b", "\x7d", "!"]

/-- The words that end a list of commands. -/
def closers : List String := ["then", "elif", "else", "fi", "do", "done", "esac", "\x7d"]

/-- The operators, longer ones first. -/
def operators : List String :=
  ["&&", "||", ";;", "<<", ">>", "<&", ">&", "|&", ";", "&", "|", "(", ")", "<", ">"]

/-- The value of a digit in a base up to sixteen. -/
def digitIn? (base : Nat) (c : Char) : Option Nat :=
  let n :=
    if c.isDigit then c.toNat - 48
    else if 'a' ≤ c && c ≤ 'f' then c.toNat - 87
    else if 'A' ≤ c && c ≤ 'F' then c.toNat - 55
    else base
  if n < base then some n else none

/-- A number of at most `limit` digits in a base, and what follows it. -/
def digitsOf (base limit : Nat) (cs : List Char) : Option (Nat × List Char) :=
  let ds := (cs.take limit).takeWhile fun c => (digitIn? base c).isSome
  if ds.isEmpty then none
  else
    some (ds.foldl (fun n c => n * base + (digitIn? base c).getD 0) 0, cs.drop ds.length)

/-- Text between `$'` and its end with its escapes replaced, and what follows it. -/
def escapedText : Nat → List Char → List Char → Option (String × List Char)
  | 0, _, _ => none
  | _, _, [] => none
  | _, acc, '\'' :: cs => some (String.ofList acc.reverse, cs)
  | fuel + 1, acc, '\\' :: c :: cs =>
    let plain (d : Char) := escapedText fuel (d :: acc) cs
    let numbered (base limit : Nat) (digits : List Char) :=
      match digitsOf base limit digits with
      | some (n, rest) => escapedText fuel (Char.ofNat n :: acc) rest
      | none => escapedText fuel (c :: '\\' :: acc) cs
    match c with
    | 'n' => plain '\n' | 't' => plain '\t' | 'r' => plain '\r' | 'a' => plain '\x07'
    | 'b' => plain '\x08' | 'e' => plain '\x1b' | 'f' => plain '\x0c' | 'v' => plain '\x0b'
    | '\\' => plain '\\' | '\'' => plain '\'' | '"' => plain '"' | '?' => plain '?'
    | 'x' => numbered 16 2 cs | 'u' => numbered 16 4 cs | 'U' => numbered 16 8 cs
    | d => if (digitIn? 8 d).isSome then numbered 8 3 (d :: cs) else
        escapedText fuel (d :: '\\' :: acc) cs
  | fuel + 1, acc, c :: cs => escapedText fuel (c :: acc) cs

/-- The text up to the two brackets that close an arithmetic expression. -/
def arithmeticText : Nat → List Char → List Char → Option (List Char × List Char)
  | _, _, [] => none
  | depth, acc, '(' :: cs => arithmeticText (depth + 1) ('(' :: acc) cs
  | 0, acc, ')' :: ')' :: cs => some (acc.reverse, cs)
  | 0, _, ')' :: _ => none
  | depth + 1, acc, ')' :: cs => arithmeticText depth (')' :: acc) cs
  | depth, acc, c :: cs => arithmeticText depth (c :: acc) cs

/-- The text up to the closing backquote; a backslash guards a backquote, a dollar sign, a
backslash and within quotes a quote. -/
def backquotedText (quoted : Bool) : List Char → List Char → Option (List Char × List Char)
  | _, [] => none
  | acc, '\x60' :: cs => some (acc.reverse, cs)
  | acc, '\\' :: c :: cs =>
    if c == '\x60' || c == '$' || c == '\\' || (quoted && c == '"') then
      backquotedText quoted (c :: acc) cs
    else backquotedText quoted (c :: '\\' :: acc) cs
  | acc, c :: cs => backquotedText quoted (c :: acc) cs

/-- The lines of a text up to one that equals `mark`, and the lines after it. -/
def linesUntil (mark : List Char) (dropTabs : Bool) :
    List (List Char) → List (List Char) × List (List Char)
  | [] => ([], [])
  | l :: ls =>
    let l := if dropTabs then l.dropWhile (· == '\t') else l
    if l == mark then ([], ls)
    else
      let (inside, after) := linesUntil mark dropTabs ls
      (l :: inside, after)

namespace Parser

variable {α : Type}

/-- The next character, which stays in place. -/
def peek? : Parser (Option Char) := do return (← get).chars.head?

/-- Drops the next character. -/
def skip : Parser Unit := modify fun s =>
  match s.chars with
  | [] => s
  | c :: cs => ⟨cs, if c == '\n' then s.line + 1 else s.line⟩

/-- Drops characters and counts the lines among them. -/
def skipTo (rest : List Char) : Parser Unit := modify fun s =>
  let taken := s.chars.take (s.chars.length - rest.length)
  ⟨rest, s.line + taken.count '\n'⟩

/-- Whether the characters come next; they are taken. -/
def takes (s : String) : Parser Bool := do
  match Text.dropStart? s.toList (← get).chars with
  | some rest => do skipTo rest; return true
  | none => return false

/-- Takes characters as long as they satisfy a condition. -/
def takeWhile (p : Char → Bool) : Parser String := do
  let cs := (← get).chars
  skipTo (cs.dropWhile p)
  return String.ofList (cs.takeWhile p)

/-- Drops blanks, continued lines and a comment. -/
def skipBlanks : Parser Unit := do
  let rec blanks : List Char → List Char
    | '\\' :: '\n' :: cs => blanks cs
    | c :: cs => if c == ' ' || c == '\t' then blanks cs else c :: cs
    | [] => []
  skipTo (blanks (← get).chars)
  if (← peek?) == some '#' then discard (takeWhile (· != '\n'))

/-- Drops blanks, comments and line ends. -/
def skipLines : Nat → Parser Unit
  | 0 => pure ()
  | fuel + 1 => do
    skipBlanks
    if (← peek?) == some '\n' then do skip; skipLines fuel

/-- Fails at what comes next; `wanted` is the word that would close the command. -/
def unexpected (wanted : Option String) : Parser α := do
  let s ← get
  match s.chars with
  | [] => throw (.incomplete wanted)
  | '\n' :: _ => throw (.unexpected "newline" s.line)
  | cs =>
    match operators.find? fun o => o.toList.isPrefixOf cs with
    | some o => throw (.unexpected o s.line)
    | none => throw (.unexpected (String.ofList (cs.takeWhile fun c => !isSeparator c)) s.line)

/-- The reserved word that comes next; it stays in place. -/
def reserved? : Parser (Option String) := do
  let w := String.ofList ((← get).chars.takeWhile fun c => !isSeparator c)
  return if reserved.contains w then some w else none

/-- Whether the reserved word comes next; it is taken. -/
def takesWord (w : String) : Parser Bool := do
  if (← reserved?) == some w then takes w else return false

/-- Takes the reserved word that has to come next. -/
def word (w : String) : Parser Unit := do
  skipBlanks
  if ← takesWord w then pure () else unexpected (some w)

/-- Whether what comes next ends a list of commands. -/
def isClosed : Parser Bool := do
  match ← peek? with
  | none => return true
  | some ')' => return true
  | some ';' => return ";;".toList.isPrefixOf (← get).chars
  | some _ => return (← reserved?).any closers.contains

/-- The name before a `=` that comes next; both are taken. -/
def assigned? : Parser (Option String) := do
  let cs := (← get).chars
  let name := cs.takeWhile isNameChar
  match name, cs.drop name.length with
  | c :: _, '=' :: rest =>
    if isNameStart c then do skipTo rest; return some (String.ofList name) else return none
  | _, _ => return none

/-- The descriptor and sign of a redirection that comes next; both are taken. -/
def redirection? : Parser (Option (Option Nat × String)) := do
  let cs := (← get).chars
  let ds := cs.takeWhile Char.isDigit
  let rest := cs.drop ds.length
  let signs := ["&>>", "&>", "<<<", "<<-", "<<", "<&", "<", ">>", ">&", ">|", ">"]
  match signs.find? fun s => s.toList.isPrefixOf rest with
  | none => return none
  | some s =>
    if !ds.isEmpty && s.startsWith "&" then return none
    skipTo (rest.drop s.length)
    return some ((digitsOf 10 9 ds).map (·.1), s)

/-- Which end of a value is cut off and whether as much as possible; the signs are taken. -/
def trim? : Parser (Option (Bool × Bool)) := do
  if ← takes "%%" then return some (true, true)
  else if ← takes "%" then return some (true, false)
  else if ← takes "##" then return some (false, true)
  else if ← takes "#" then return some (false, false)
  else return none

/-- Takes the lines after the current one up to one that equals `mark`. -/
def hereText (mark : String) (dropTabs : Bool) : Parser String := do
  let s ← get
  let here := s.chars.takeWhile (· != '\n')
  let lines := Text.splitLineFeeds (s.chars.drop (here.length + 1))
  let (inside, after) := linesUntil mark.toList dropTabs lines
  let rest := (after.intersperse ['\n']).flatten
  set (⟨here ++ (if after.isEmpty then [] else '\n' :: rest), s.line⟩ : Source)
  return String.ofList (inside.flatMap fun l => l ++ ['\n'])

/-! ## Words -/

/-- Text in front of other parts. -/
def cons (s : String) (ps : List Part) : List Part :=
  match ps with
  | .text t :: rest => .text (s ++ t) :: rest
  | _ => .text s :: ps

/-- The plain text that a word stands for, when nothing in it is replaced. -/
def plainText : List Part → String
  | [] => ""
  | .text s :: ps => s ++ plainText ps
  | .quoted [.text s] :: ps => s ++ plainText ps
  | _ :: ps => plainText ps

mutual

/-- The parts of a word up to its end. -/
def parts : Nat → Mode → Parser (List Part)
  | 0, _ => throw (.incomplete none)
  | fuel + 1, m => do
    match ← peek? with
    | none => return []
    | some c =>
      if m.stop c then return []
      match c with
      | '\\' => do
        skip
        match ← peek? with
        | none => return [.text "\\"]
        | some '\n' => do skip; parts fuel m
        | some d => do
          if m.quoted && !("$\x60\"\\".toList.contains d) then
            return cons "\\" (← parts fuel m)
          else do
            skip
            let rest ← parts fuel m
            return if m.quoted then cons d.toString rest else .quoted [.text d.toString] :: rest
      | '\'' => do
        if m.quoted then do skip; return cons "'" (← parts fuel m)
        else do
          let line := (← get).line
          skip
          let s ← takeWhile (· != '\'')
          if (← peek?).isNone then throw (.unclosed '\'' line)
          skip
          return .quoted [.text s] :: (← parts fuel m)
      | '"' => do
        let line := (← get).line
        skip
        let inside ← parts fuel ⟨true, (· == '"')⟩
        if (← peek?).isNone then throw (.unclosed '"' line)
        skip
        return .quoted inside :: (← parts fuel m)
      | '\x60' => do
        let s ← get
        match backquotedText m.quoted [] (s.chars.drop 1) with
        | none => throw (.unclosed '\x60' s.line)
        | some (inside, rest) => do
          let p ← inner fuel inside
          skipTo rest
          return .output p :: (← parts fuel m)
      | '$' => do
        skip
        let p ← dollar fuel m
        return p :: (← parts fuel m)
      | c => do skip; return cons c.toString (← parts fuel m)

/-- The commands of a text of its own. -/
def inner : Nat → List Char → Parser (List Command)
  | 0, _ => throw (.incomplete none)
  | fuel + 1, text => do
    let s ← get
    set (⟨text, s.line⟩ : Source)
    let cs ← sequence fuel false
    if !(← get).chars.isEmpty then unexpected none
    set s
    return cs

/-- What follows a dollar sign. -/
def dollar : Nat → Mode → Parser Part
  | 0, _ => throw (.incomplete none)
  | fuel + 1, m => do
    let s ← get
    match s.chars with
    | '(' :: '(' :: rest =>
      match arithmeticText 0 [] rest with
      | some (inside, rest) => do
        set (⟨inside, s.line⟩ : Source)
        let e ← parts fuel ⟨true, fun _ => false⟩
        set s
        skipTo rest
        return .arithmetic e
      | none => throw (.unclosed ')' s.line)
    | '(' :: _ => do
      skip
      let cs ← sequence fuel false
      match ← peek? with
      | some ')' => do skip; return .output cs
      | none => throw (.unclosed ')' (← get).line)
      | some _ => unexpected none
    | '\x7b' :: _ => do skip; braced fuel m
    | '\'' :: rest =>
      if m.quoted then return .text "$"
      else
        match escapedText (rest.length + 1) [] rest with
        | some (t, rest) => do skipTo rest; return .quoted [.text t]
        | none => throw (.unclosed '\'' s.line)
    | '"' :: _ => if m.quoted then return .text "$" else return .text ""
    | c :: _ =>
      if isNameStart c then return .parameter (← takeWhile isNameChar)
      else if isSign c then do skip; return .parameter c.toString
      else return .text "$"
    | [] => return .text "$"

/-- What follows a dollar sign and an opening brace. -/
def braced : Nat → Mode → Parser Part
  | 0, _ => throw (.incomplete none)
  | fuel + 1, m => do
    let line := (← get).line
    let finish (p : Part) : Parser Part := do
      match ← peek? with
      | some '\x7d' => do skip; return p
      | none => throw (.unclosed '\x7d' line)
      | some _ => unexpected none
    let name : Parser String := do
      match ← peek? with
      | some c =>
        if isNameStart c then takeWhile isNameChar
        else if c.isDigit then takeWhile Char.isDigit
        else if isSign c then do skip; return c.toString
        else unexpected none
      | none => throw (.unclosed '\x7d' line)
    match (← get).chars with
    | '#' :: c :: _ =>
      if isNameChar c then do skip; finish (.length (← name))
      else finish (.parameter (← name))
    | _ => do
      let n ← name
      let emptyToo ← takes ":"
      let kind : Option Fallback := match ← peek? with
        | some '-' => some .word
        | some '=' => some .assign
        | some '+' => some .alternative
        | some '?' => some .refuse
        | _ => none
      let trim ← if emptyToo then pure none else trim?
      match kind, trim with
      | none, some (fromEnd, longest) => do
        finish (.trimmed n fromEnd longest (← parts fuel ⟨m.quoted, (· == '\x7d')⟩))
      | none, none => finish (.parameter n)
      | some k, _ => do
        skip
        let w ← parts fuel ⟨m.quoted, (· == '\x7d')⟩
        finish (.orElse n emptyToo k w)

/-- The word that has to come next. -/
def target : Nat → Parser Word
  | 0 => throw (.incomplete none)
  | fuel + 1 => do
    skipBlanks
    match ← peek? with
    | none => throw (.unexpected "newline" (← get).line)
    | some c => if isSeparator c then unexpected none else parts fuel ⟨false, isSeparator⟩

/-- What a sign of redirection stands for. -/
def redirected : Nat → Option Nat → String → Parser (List Redirection)
  | 0, _, _ => throw (.incomplete none)
  | fuel + 1, d, s => do
    let w ← target fuel
    match s with
    | "<" => return [.read w]
    | "<<<" => return [.readText (w ++ [.quoted [.text "\n"]])]
    | "<<" | "<<-" => do
      let t ← hereText (plainText w) (s == "<<-")
      let isPlain := w.all fun
        | .text _ => true
        | _ => false
      if !isPlain then return [.readText [.quoted [.text t]]]
      let s ← get
      set (⟨t.toList, s.line⟩ : Source)
      let ps ← parts fuel ⟨true, fun _ => false⟩
      set s
      return [.readText [.quoted ps]]
    | "<&" => return [.duplicate (d.getD 0) w]
    | ">" | ">|" => return [.write (d.getD 1) false w]
    | ">>" => return [.write (d.getD 1) true w]
    | ">&" => return [.duplicate (d.getD 1) w]
    | "&>" => return [.write 1 false w, .duplicate 2 [.text "1"]]
    | _ => return [.write 1 true w, .duplicate 2 [.text "1"]]

/-- All redirections that come next. -/
def redirections : Nat → Parser (List Redirection)
  | 0 => throw (.incomplete none)
  | fuel + 1 => do
    skipBlanks
    match ← redirection? with
    | none => return []
    | some (d, s) => do
      let r ← redirected fuel d s
      return r ++ (← redirections fuel)

/-- A simple command, of which some has been read. -/
def simple : Nat → Nat → List (String × Word) → List Word → List Redirection → Parser Command
  | 0, _, _, _, _ => throw (.incomplete none)
  | fuel + 1, line, as, ws, rs => do
    skipBlanks
    let done : Parser Command := do
      if as.isEmpty && ws.isEmpty && rs.isEmpty then unexpected none
      return .simple line as.reverse ws.reverse rs
    match ← redirection? with
    | some (d, s) => do
      let r ← redirected fuel d s
      simple fuel line as ws (rs ++ r)
    | none =>
      match ← peek? with
      | none => done
      | some '(' => do
        if ws.length == 1 && as.isEmpty then do
          skip
          skipBlanks
          if !(← takes ")") then unexpected none
          skipLines fuel
          return .define (plainText (ws.headD [])) (← command fuel)
        else if ws.isEmpty && as.isEmpty then done
        else unexpected none
      | some c =>
        if isSeparator c then done
        else
          match ← (if ws.isEmpty then assigned? else pure none) with
          | some n => do
            let v ← parts fuel ⟨false, isSeparator⟩
            simple fuel line ((n, v) :: as) ws rs
          | none => do
            let w ← parts fuel ⟨false, isSeparator⟩
            simple fuel line as (w :: ws) rs

/-- The rest of a condition after its first word. -/
def condition : Nat → Parser Command
  | 0 => throw (.incomplete none)
  | fuel + 1 => do
    let c ← sequence fuel false
    word "then"
    let b ← sequence fuel false
    if ← takesWord "elif" then return .conditional c b [← condition fuel]
    else if ← takesWord "else" then do
      let o ← sequence fuel false
      word "fi"
      return .conditional c b o
    else do
      word "fi"
      return .conditional c b []

/-- The body of a loop. -/
def body : Nat → Parser (List Command)
  | 0 => throw (.incomplete none)
  | fuel + 1 => do
    word "do"
    let b ← sequence fuel false
    word "done"
    return b

/-- The words up to the end of the command. -/
def words : Nat → Parser (List Word)
  | 0 => throw (.incomplete none)
  | fuel + 1 => do
    skipBlanks
    match ← peek? with
    | none => return []
    | some c =>
      if isSeparator c then return []
      else do
        let w ← parts fuel ⟨false, isSeparator⟩
        return w :: (← words fuel)

/-- The cases up to the end of a choice. -/
def cases : Nat → Parser (List (List Word × List Command))
  | 0 => throw (.incomplete none)
  | fuel + 1 => do
    skipLines fuel
    if ← takesWord "esac" then return []
    let _ ← takes "("
    let ps ← patterns fuel
    let cs ← sequence fuel false
    skipLines fuel
    if ← takes ";;" then return (ps, cs) :: (← cases fuel)
    else do
      word "esac"
      return [(ps, cs)]

/-- The patterns of a case up to its bracket. -/
def patterns : Nat → Parser (List Word)
  | 0 => throw (.incomplete none)
  | fuel + 1 => do
    let p ← target fuel
    skipBlanks
    if ← takes "|" then return p :: (← patterns fuel)
    else if ← takes ")" then return [p]
    else unexpected (some ")")

/-- One command. -/
def command : Nat → Parser Command
  | 0 => throw (.incomplete none)
  | fuel + 1 => do
    skipBlanks
    let line := (← get).line
    let wrapped (c : Command) : Parser Command := do
      let rs ← redirections fuel
      return if rs.isEmpty then c else .redirected c rs
    if ← takes "(" then do
      let cs ← sequence fuel false
      if cs.isEmpty then unexpected (some ")")
      if !(← takes ")") then unexpected (some ")")
      wrapped (.subshell cs)
    else match ← reserved? with
      | some "\x7b" => do
        word "\x7b"
        let cs ← sequence fuel false
        word "\x7d"
        wrapped (.sequence cs)
      | some "if" => do word "if"; wrapped (← condition fuel)
      | some "while" => do
        word "while"
        let c ← sequence fuel false
        wrapped (.loop false c (← body fuel))
      | some "until" => do
        word "until"
        let c ← sequence fuel false
        wrapped (.loop true c (← body fuel))
      | some "for" => do
        word "for"
        skipBlanks
        let n ← takeWhile isNameChar
        if n.isEmpty then unexpected none
        skipLines fuel
        let ws ← if ← takesWord "in" then words fuel else pure []
        skipBlanks
        let _ ← takes ";"
        skipLines fuel
        wrapped (.forEach n ws (← body fuel))
      | some "case" => do
        word "case"
        let w ← target fuel
        skipLines fuel
        word "in"
        wrapped (.choose w (← cases fuel))
      | some "in" => simple fuel line [] [] []
      | some _ => unexpected none
      | none => simple fuel line [] [] []

/-- Commands joined by `|`. -/
def pipeline : Nat → Parser Command
  | 0 => throw (.incomplete none)
  | fuel + 1 => do
    skipBlanks
    if ← takesWord "!" then return .negated (← pipeline fuel)
    let first ← command fuel
    let rest ← stages fuel
    return if rest.isEmpty then first else .pipeline (first :: rest)

/-- The commands after each `|`. -/
def stages : Nat → Parser (List Command)
  | 0 => throw (.incomplete none)
  | fuel + 1 => do
    skipBlanks
    if "||".toList.isPrefixOf (← get).chars then return []
    if ← takes "|" then do
      skipLines fuel
      let c ← command fuel
      return c :: (← stages fuel)
    else return []

/-- Pipelines joined by `&&` and `||` after the first. -/
def chain : Nat → Command → Parser Command
  | 0, _ => throw (.incomplete none)
  | fuel + 1, l => do
    skipBlanks
    if ← takes "&&" then do
      skipLines fuel
      chain fuel (.both l (← pipeline fuel))
    else if ← takes "||" then do
      skipLines fuel
      chain fuel (.either l (← pipeline fuel))
    else return l

/-- Commands up to what ends a list of them, or up to the end of the line. -/
def sequence : Nat → Bool → Parser (List Command)
  | 0, _ => throw (.incomplete none)
  | fuel + 1, oneLine => do
    if oneLine then skipBlanks else skipLines fuel
    if oneLine && (← peek?) == some '\n' then return []
    if ← isClosed then return []
    let c ← chain fuel (← pipeline fuel)
    skipBlanks
    match (← get).chars with
    | ';' :: ';' :: _ => return [c]
    | ';' :: _ | '&' :: _ => do skip; return c :: (← sequence fuel oneLine)
    | '\n' :: _ => do
      if oneLine then return [c]
      skip
      return c :: (← sequence fuel oneLine)
    | _ => return [c]

end

end Parser

/-- The bound of the steps that reading a text takes. -/
def Source.bound (s : Source) : Nat := 8 * s.chars.length + 64

/-- The commands of the next line that holds some, and what follows them. -/
def Source.nextLine (s : Source) : Except SyntaxFault (Option (List Command × Source)) :=
  let read : Parser (Option (List Command)) := do
    Parser.skipLines (s.chars.length + 1)
    if (← Parser.peek?).isNone then return none
    let cs ← Parser.sequence s.bound true
    match ← Parser.peek? with
    | none => return some cs
    | some '\n' => do Parser.skip; return some cs
    | some _ => Parser.unexpected none
  match read.run s with
  | .ok (some cs, rest) => .ok (some (cs, rest))
  | .ok (none, _) => .ok none
  | .error f => .error f

end Runbook.Shell

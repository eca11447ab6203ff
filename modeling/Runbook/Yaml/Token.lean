import Runbook.Json.Basic

/-!
# Tokens of documents

A document in YAML is split into tokens. Indentation is turned into tokens of its own, so that what
reads the tokens does not look at columns: a block collection begins with a start token and ends
with `blockEnd`. A key without a mark in front is recognised when its colon is met, at most 1024
characters later and on the same line; its `key` token is then put in its place.
-/

namespace Runbook.Yaml

/-- Why a text is no document. -/
inductive Fault where
  | character
  | indentation
  | unclosed
  | escape
  | directive
  | tag
  | anchor
  | misplaced
  | missingColon
  | unknownAnchor
  | manyDocuments
  deriving Repr, BEq, DecidableEq

/-- How a scalar is written. -/
inductive Style where
  | plain
  | quoted
  | literal
  | folded
  deriving Repr, BEq, DecidableEq

/-- A token of a document. -/
inductive Token where
  | version (major minor : Nat)
  | handle (name start : List Char)
  | documentStart
  | documentEnd
  | blockSequence
  | blockMapping
  | blockEnd
  | openSequence
  | closeSequence
  | openMapping
  | closeMapping
  | entry
  | comma
  | key
  | value
  | alias (name : List Char)
  | anchor (name : List Char)
  | tag (handle suffix : List Char)
  | scalar (text : String) (style : Style)
  | finish
  deriving Repr, BEq, DecidableEq

/-! ## Characters -/

/-- A line break. -/
def isBreak (c : Char) : Bool :=
  c == '\n' || c == '\r' || c == '\u0085' || c == '\u2028' || c == '\u2029'

/-- A space or a tab. -/
def isGap (c : Char) : Bool := c == ' ' || c == '\t'

/-- Whether the text goes on with a space, a tab or a break, or ends. -/
def atGap : List Char → Bool
  | [] => true
  | c :: _ => isGap c || isBreak c

/-- Whether the text goes on with a break or ends. -/
def atBreak : List Char → Bool
  | [] => true
  | c :: _ => isBreak c

/-- Characters of names of anchors and of handles. -/
def isNameChar (c : Char) : Bool := c.isAlphanum || c == '_' || c == '-'

/-- Characters that a document may hold. -/
def isAllowed (c : Char) : Bool :=
  let n := c.toNat
  n == 9 || n == 10 || n == 13 || (32 ≤ n && n ≤ 126) || n == 133 || (160 ≤ n && n ≤ 0xD7FF) ||
    (0xE000 ≤ n && n ≤ 0xFFFD) || 0x10000 ≤ n

/-! ## Places -/

/-- A place in a text: what is left of it, and where that begins. -/
structure Cursor where
  rest : List Char
  index : Nat := 0
  line : Nat := 0
  column : Nat := 0

namespace Cursor

/-- The place after the next character, which is no break. -/
def skip (p : Cursor) : Cursor :=
  { p with rest := p.rest.tail, index := p.index + 1, column := p.column + 1 }

/-- The place after several characters, none of which is a break. -/
def skipMany (p : Cursor) (n : Nat) : Cursor :=
  { p with rest := p.rest.drop n, index := p.index + n, column := p.column + n }

/-- A break as it counts in a scalar, and the place after it. -/
def takeBreak (p : Cursor) : List Char × Cursor :=
  let next (n : Nat) (rest : List Char) : Cursor := ⟨rest, p.index + n, p.line + 1, 0⟩
  match p.rest with
  | '\r' :: '\n' :: rest => (['\n'], next 2 rest)
  | c :: rest =>
    if c == '\u2028' || c == '\u2029' then ([c], next 1 rest) else (['\n'], next 1 rest)
  | [] => ([], p)

/-- The place after the characters that satisfy a test, none of which is a break. -/
def skipWhile (p : Cursor) (test : Char → Bool) : Cursor :=
  p.skipMany (p.rest.takeWhile test).length

/-- The place after a comment, if there is one. -/
def skipComment (p : Cursor) : Cursor :=
  match p.rest with
  | '#' :: _ => p.skipWhile fun c => !isBreak c
  | _ => p

/-- Whether a mark of three characters that separates documents stands here. -/
def atDocumentMark (p : Cursor) : Bool :=
  p.column == 0 &&
    match p.rest with
    | '-' :: '-' :: '-' :: r => atGap r
    | '.' :: '.' :: '.' :: r => atGap r
    | _ => false

end Cursor

/-! ## Scanner -/

/-- A place where a key without a mark may have begun. A required one has to be a key. -/
structure Candidate where
  required : Bool
  number : Nat
  index : Nat
  line : Nat
  column : Nat

/-- The state of splitting. `candidates` holds one candidate at most for each level of flow
collections, the innermost first; `indents` holds the indentations around the current one. -/
structure Scanner where
  at_ : Cursor
  tokens : Array Token := #[]
  flow : Nat := 0
  candidates : List (Option Candidate) := [none]
  indent : Int := -1
  indents : List Int := []
  keyAllowed : Bool := true

namespace Scanner

/-- The scanner with one more token. -/
def push (s : Scanner) (t : Token) : Scanner := { s with tokens := s.tokens.push t }

/-- The scanner at another place. -/
def moved (s : Scanner) (p : Cursor) : Scanner := { s with at_ := p }

/-- Closes the block collections that are indented more than `column`. -/
def unrollTo (column : Int) : Nat → Scanner → Scanner
  | 0, s => s
  | fuel + 1, s =>
    if s.indent > column then
      match s.indents with
      | i :: is => unrollTo column fuel { s.push .blockEnd with indent := i, indents := is }
      | [] => s
    else s

/-- Closes the block collections that are indented more than `column`, outside of flow
collections. -/
def unroll (s : Scanner) (column : Int) : Scanner :=
  if s.flow > 0 then s else unrollTo column (s.indents.length + 1) s

/-- Opens a block collection at a column that is indented more, with its start token at the place
`number` among the tokens. -/
def roll (s : Scanner) (column : Nat) (number : Nat) (t : Token) : Scanner :=
  if s.flow > 0 || s.indent ≥ column then s
  else
    { s with
      indents := s.indent :: s.indents
      indent := column
      tokens := s.tokens.insertIdxIfInBounds number t }

/-- Forgets the candidate of the current level; a required one is missing its colon. -/
def dropCandidate (s : Scanner) : Except Fault Scanner :=
  match s.candidates with
  | some c :: rest =>
    if c.required then .error .missingColon else .ok { s with candidates := none :: rest }
  | _ => .ok s

/-- Takes the current place for a candidate if a key may begin here. -/
def saveCandidate (s : Scanner) : Except Fault Scanner :=
  if s.keyAllowed then do
    let required := s.flow == 0 && s.indent == s.at_.column
    let s ← s.dropCandidate
    .ok { s with
      candidates :=
        some ⟨required, s.tokens.size, s.at_.index, s.at_.line, s.at_.column⟩ ::
          s.candidates.tail }
  else .ok s

/-- Whether a candidate can no longer be a key here. -/
def isStale (p : Cursor) (c : Candidate) : Bool := c.line < p.line || c.index + 1024 < p.index

/-- Forgets the candidates that can no longer be keys; a required one is missing its colon. -/
def dropStale (s : Scanner) : Except Fault Scanner :=
  let stale (c : Option Candidate) : Bool := (c.map (isStale s.at_)).getD false
  if s.candidates.any fun c => stale c && (c.map (·.required)).getD false then
    .error .missingColon
  else .ok { s with candidates := s.candidates.map fun c => if stale c then none else c }

/-! ### Between tokens -/

/-- The place of the next token, and whether a key may begin there. -/
def toNext (flow : Nat) : Nat → Bool → Cursor → Bool × Cursor
  | 0, allowed, p => (allowed, p)
  | fuel + 1, allowed, p =>
    let p := p.skipWhile fun c => c == ' ' || (c == '\t' && (flow > 0 || !allowed))
    let p := p.skipComment
    match p.rest with
    | c :: _ =>
      if isBreak c then toNext flow fuel (allowed || flow == 0) p.takeBreak.2 else (allowed, p)
    | [] => (allowed, p)

/-! ### Directives, anchors and tags -/

/-- The place after the rest of a line that may hold a comment only. -/
def endLine (p : Cursor) : Except Fault Cursor :=
  let p := (p.skipWhile isGap).skipComment
  if atBreak p.rest then .ok (if p.rest.isEmpty then p else p.takeBreak.2) else .error .directive

/-- A number of at most nine digits. -/
def readNumber (p : Cursor) : Except Fault (Nat × Cursor) :=
  let ds := p.rest.takeWhile Char.isDigit
  if ds.isEmpty || 9 < ds.length then .error .directive
  else .ok (ds.foldl (fun n c => n * 10 + (c.toNat - 48)) 0, p.skipMany ds.length)

/-- The handle of a tag: an exclamation mark, or a name between two. In a directive it has to be
closed, unless it is a single mark. -/
def readHandle (directive : Bool) (p : Cursor) : Except Fault (List Char × Cursor) :=
  match p.rest with
  | '!' :: rest =>
    let name := rest.takeWhile isNameChar
    let p := p.skipMany (1 + name.length)
    match p.rest with
    | '!' :: _ => .ok ('!' :: name ++ ['!'], p.skip)
    | _ => if directive && !name.isEmpty then .error .tag else .ok ('!' :: name, p)
  | _ => .error .tag

/-- Characters of tags; those of flow collections belong to tags in angle brackets only. -/
def isTagChar (verbatim : Bool) (c : Char) : Bool :=
  isNameChar c || ";/?:@&=+$.%!~*'()".toList.contains c ||
    (verbatim && [',', '[', ']'].contains c)

/-- The text of a tag after what has been read of it. -/
def readTagText (verbatim : Bool) (head : List Char) (p : Cursor) :
    Except Fault (List Char × Cursor) :=
  let cs := p.rest.takeWhile (isTagChar verbatim)
  if head.isEmpty && cs.isEmpty then .error .tag
  else .ok (head.tail ++ cs, p.skipMany cs.length)

/-- A tag, which ends at a gap. -/
def readTag (flow : Nat) (p : Cursor) : Except Fault (Token × Cursor) := do
  let (t, p) ← match p.rest with
    | '!' :: '<' :: _ => do
      let (suffix, p) ← readTagText true [] (p.skipMany 2)
      match p.rest with
      | '>' :: _ => pure (Token.tag [] suffix, p.skip)
      | _ => throw .tag
    | _ => do
      let (name, p) ← readHandle false p
      if 1 < name.length && name.getLast? == some '!' then
        let (suffix, p) ← readTagText false [] p
        pure (Token.tag name suffix, p)
      else do
        let (suffix, p) ← readTagText false name p
        pure (if suffix.isEmpty then Token.tag [] ['!'] else Token.tag ['!'] suffix, p)
  if atGap p.rest || (flow > 0 && p.rest.head? == some ',') then .ok (t, p) else .error .tag

/-- The name of an anchor or an alias, after its mark. -/
def readName (p : Cursor) : Except Fault (List Char × Cursor) :=
  let name := p.rest.takeWhile isNameChar
  let p := p.skipMany name.length
  let ends := match p.rest with
    | [] => true
    | c :: _ => isGap c || isBreak c || "?:,]\x7d%@\x60".toList.contains c
  if name.isEmpty || !ends then .error .anchor else .ok (name, p)

/-- A directive, after its mark. -/
def readDirective (p : Cursor) : Except Fault (Token × Cursor) := do
  let name := p.rest.takeWhile isNameChar
  let p := p.skipMany name.length
  if !atGap p.rest then throw .directive
  let p := p.skipWhile isGap
  if name = "YAML".toList then
    let (major, p) ← readNumber p
    match p.rest with
    | '.' :: _ => do
      let (minor, p) ← readNumber p.skip
      return (.version major minor, ← endLine p)
    | _ => throw .directive
  else if name = "TAG".toList then
    let (handle, p) ← readHandle true p
    if !(p.rest.head?.map isGap).getD false then throw .directive
    let (start, p) ← readTagText true [] (p.skipWhile isGap)
    if !atGap p.rest then throw .directive
    return (.handle handle start, ← endLine p)
  else throw .directive

/-! ### Scalars in quotes -/

/-- The white space between two parts of a scalar: the spaces, or the breaks when there are any.
`first` is the first break and `more` are the others. -/
structure Space where
  blanks : List Char := []
  first : List Char := []
  more : List Char := []
  broken : Bool := false

namespace Space

/-- What white space stands for: itself on one line; a single break for a space, and any further
breaks for themselves. -/
def folded (w : Space) : List Char :=
  if !w.broken then w.blanks
  else if w.first == ['\n'] then (if w.more.isEmpty then [' '] else w.more)
  else w.first ++ w.more

end Space

/-- Reads white space and breaks. `indent` is the column before which a tab may not stand after a
break, if there is one. -/
def readSpace (indent : Option Int) : Nat → Space → Cursor → Except Fault (Space × Cursor)
  | 0, w, p => .ok (w, p)
  | fuel + 1, w, p =>
    match p.rest with
    | [] => .ok (w, p)
    | c :: _ =>
      if isGap c then
        if w.broken then
          if c == '\t' && (indent.map fun i => decide ((p.column : Int) < i)).getD false then
            .error .indentation
          else readSpace indent fuel w p.skip
        else readSpace indent fuel { w with blanks := w.blanks ++ [c] } p.skip
      else if isBreak c then
        let (b, p) := p.takeBreak
        if w.broken then readSpace indent fuel { w with more := w.more ++ b } p
        else readSpace indent fuel { w with first := b, broken := true } p
      else .ok (w, p)

/-- The value of a hexadecimal digit. -/
def hex? (c : Char) : Option Nat :=
  if c.isDigit then some (c.toNat - 48)
  else if 'a' ≤ c && c ≤ 'f' then some (c.toNat - 87)
  else if 'A' ≤ c && c ≤ 'F' then some (c.toNat - 55)
  else none

/-- The character of an escape, after its backslash, and the number of characters it takes. -/
def readEscape (cs : List Char) : Except Fault (Char × Nat) :=
  let code (width : Nat) (rest : List Char) : Except Fault (Char × Nat) :=
    match (rest.take width).mapM hex? with
    | some ds =>
      let n := ds.foldl (fun n d => n * 16 + d) 0
      if ds.length < width || !n.isValidChar then .error .escape
      else .ok (Char.ofNat n, width + 1)
    | none => .error .escape
  match cs with
  | '0' :: _ => .ok ('\x00', 1)
  | 'a' :: _ => .ok ('\x07', 1)
  | 'b' :: _ => .ok ('\x08', 1)
  | 't' :: _ => .ok ('\t', 1)
  | '\t' :: _ => .ok ('\t', 1)
  | 'n' :: _ => .ok ('\n', 1)
  | 'v' :: _ => .ok ('\x0b', 1)
  | 'f' :: _ => .ok ('\x0c', 1)
  | 'r' :: _ => .ok ('\r', 1)
  | 'e' :: _ => .ok ('\x1b', 1)
  | ' ' :: _ => .ok (' ', 1)
  | '"' :: _ => .ok ('"', 1)
  | '/' :: _ => .ok ('/', 1)
  | '\\' :: _ => .ok ('\\', 1)
  | 'N' :: _ => .ok ('\u0085', 1)
  | '_' :: _ => .ok ('\u00a0', 1)
  | 'L' :: _ => .ok ('\u2028', 1)
  | 'P' :: _ => .ok ('\u2029', 1)
  | 'x' :: rest => code 2 rest
  | 'u' :: rest => code 4 rest
  | 'U' :: rest => code 8 rest
  | _ => .error .escape

/-- A scalar in quotes after its opening quote; `acc` holds what has been read, in reverse. -/
def readQuoted (single : Bool) : Nat → List Char → Cursor → Except Fault (String × Cursor)
  | 0, _, _ => .error .unclosed
  | fuel + 1, acc, p =>
    let spaced (w : Space) (acc : List Char) (p : Cursor) : Except Fault (String × Cursor) := do
      let (w, p) ← readSpace none (p.rest.length + 1) w p
      readQuoted single fuel (w.folded.reverse ++ acc) p
    if p.atDocumentMark then .error .misplaced
    else match p.rest with
      | [] => .error .unclosed
      | '\'' :: '\'' :: _ =>
        if single then readQuoted single fuel ('\'' :: acc) (p.skipMany 2)
        else readQuoted single fuel ('\'' :: acc) p.skip
      | '\'' :: _ =>
        if single then .ok (String.ofList acc.reverse, p.skip)
        else readQuoted single fuel ('\'' :: acc) p.skip
      | '"' :: _ =>
        if single then readQuoted single fuel ('"' :: acc) p.skip
        else .ok (String.ofList acc.reverse, p.skip)
      | '\\' :: rest =>
        if single then readQuoted single fuel ('\\' :: acc) p.skip
        else if (rest.head?.map isBreak).getD false then
          spaced { broken := true } acc p.skip.takeBreak.2
        else do
          let (c, n) ← readEscape rest
          readQuoted single fuel (c :: acc) (p.skipMany (n + 1))
      | c :: _ =>
        if isGap c || isBreak c then spaced {} acc p else readQuoted single fuel (c :: acc) p.skip

/-! ### Plain scalars -/

/-- Whether a plain scalar ends here. -/
def plainEnds (flow : Nat) : List Char → Bool
  | [] => true
  | ':' :: rest => atGap rest
  | c :: _ => flow > 0 && ",[]\x7b\x7d".toList.contains c

/-- Whether a colon stands here that a flow collection does not allow. -/
def badColon (flow : Nat) : List Char → Bool
  | ':' :: c :: _ => flow > 0 && ",?[]\x7b\x7d".toList.contains c
  | _ => false

/-- A part of a plain scalar without white space; `acc` is in reverse. -/
def readWord (flow : Nat) : Nat → List Char → Cursor → Except Fault (List Char × Cursor)
  | 0, acc, p => .ok (acc, p)
  | fuel + 1, acc, p =>
    match p.rest with
    | [] => .ok (acc, p)
    | c :: _ =>
      if isGap c || isBreak c then .ok (acc, p)
      else if badColon flow p.rest then .error .misplaced
      else if plainEnds flow p.rest then .ok (acc, p)
      else readWord flow fuel (c :: acc) p.skip

/-- A plain scalar: what has been read in reverse, the white space after it, and the place of the
next word. The result tells whether a break came last. -/
def readPlain (flow : Nat) (indent : Int) : Nat → List Char → Space → Cursor →
    Except Fault ((String × Bool) × Cursor)
  | 0, acc, w, p => .ok ((String.ofList acc.reverse, w.broken), p)
  | fuel + 1, acc, w, p =>
    let finished : Except Fault ((String × Bool) × Cursor) :=
      .ok ((String.ofList acc.reverse, w.broken), p)
    if p.atDocumentMark || p.rest.head? == some '#' then finished
    else do
      let (word, q) ← readWord flow (p.rest.length + 1) [] p
      if word.isEmpty then finished
      else
        let acc := word ++ w.folded.reverse ++ acc
        let (v, r) ← readSpace (some indent) (q.rest.length + 1) {} q
        if v.blanks.isEmpty && !v.broken then .ok ((String.ofList acc.reverse, false), r)
        else if flow == 0 && (r.column : Int) < indent then
          .ok ((String.ofList acc.reverse, v.broken), r)
        else readPlain flow indent fuel acc v r

/-! ### Block scalars -/

/-- What becomes of the breaks at the end of a block scalar. -/
inductive Chomping where
  | clip
  | strip
  | keep
  deriving BEq

/-- The header of a block scalar after its indicator: chomping and indentation in either order. -/
def readHeader (p : Cursor) : Except Fault ((Chomping × Nat) × Cursor) := do
  let chomp (p : Cursor) : Chomping × Cursor :=
    match p.rest with
    | '+' :: _ => (.keep, p.skip)
    | '-' :: _ => (.strip, p.skip)
    | _ => (.clip, p)
  let width (p : Cursor) : Except Fault (Nat × Cursor) :=
    match p.rest with
    | '0' :: _ => .error .indentation
    | c :: _ => if c.isDigit then .ok (c.toNat - 48, p.skip) else .ok (0, p)
    | [] => .ok (0, p)
  let (c, p) := chomp p
  let (n, p) ← width p
  let (c, p) := if c == .clip && n > 0 then chomp p else (c, p)
  let p := (p.skipWhile isGap).skipComment
  if atBreak p.rest then .ok ((c, n), if p.rest.isEmpty then p else p.takeBreak.2)
  else .error .misplaced

/-- The breaks before the next line of a block scalar; `indent` is zero as long as it is not
known. The result holds the greatest column met. -/
def readBreaks (indent : Nat) : Nat → Nat → List Char → Cursor →
    Except Fault ((List Char × Nat) × Cursor)
  | 0, widest, acc, p => .ok ((acc, widest), p)
  | fuel + 1, widest, acc, p =>
    let spaces := (p.rest.takeWhile (· == ' ')).length
    let p := p.skipMany (if indent == 0 then spaces else min spaces (indent - p.column))
    let widest := max widest p.column
    match p.rest with
    | [] => .ok ((acc, widest), p)
    | c :: _ =>
      if c == '\t' && (indent == 0 || p.column < indent) then .error .indentation
      else if isBreak c then
        let (b, p) := p.takeBreak
        readBreaks indent fuel widest (acc ++ b) p
      else .ok ((acc, widest), p)

/-- The lines of a block scalar. `lead` is the break after the last line and `more` are those that
follow; `blank` tells whether the last line began with a gap. -/
def readLines (literal : Bool) (indent : Nat) : Nat → List Char → List Char → List Char → Bool →
    Cursor → Except Fault ((List Char × List Char × List Char) × Cursor)
  | 0, acc, lead, more, _, p => .ok ((acc, lead, more), p)
  | fuel + 1, acc, lead, more, blank, p =>
    if p.column != indent || p.rest.isEmpty then .ok ((acc, lead, more), p)
    else do
      let starts := (p.rest.head?.map isGap).getD false
      let join :=
        if !literal && lead.head? == some '\n' && !blank && !starts then
          (if more.isEmpty then [' '] else more)
        else lead ++ more
      let line := p.rest.takeWhile fun c => !isBreak c
      let p := p.skipMany line.length
      let (lead, p) := p.takeBreak
      let ((more, _), p) ← readBreaks indent (p.rest.length + 1) 0 [] p
      readLines literal indent fuel (acc ++ join ++ line) lead more starts p

/-- A block scalar after its indicator. -/
def readBlock (literal : Bool) (outer : Int) (p : Cursor) : Except Fault (String × Cursor) := do
  let ((chomping, n), p) ← readHeader p
  let given : Nat := if n == 0 then 0 else if outer ≥ 0 then outer.toNat + n else n
  let ((more, widest), p) ← readBreaks given (p.rest.length + 1) 0 [] p
  let indent := if given == 0 then max (max widest (outer + 1).toNat) 1 else given
  let ((text, lead, more), p) ← readLines literal indent (p.rest.length + 1) [] [] more false p
  let tail := match chomping with
    | .strip => []
    | .clip => lead
    | .keep => lead ++ more
  return (String.ofList (text ++ tail), p)

/-! ### Tokens -/

/-- Whether a character may begin a plain scalar wherever it stands. -/
def startsPlain (c : Char) : Bool :=
  !(isGap c || isBreak c || "-?:,[]\x7b\x7d#&*!|>'\"%@\x60".toList.contains c)

/-- A collection in brackets begins. -/
def openFlow (s : Scanner) (t : Token) : Except Fault Scanner := do
  let s ← s.saveCandidate
  return { (s.push t).moved s.at_.skip with
    flow := s.flow + 1
    candidates := none :: s.candidates
    keyAllowed := true }

/-- A collection in brackets ends. -/
def closeFlow (s : Scanner) (t : Token) : Except Fault Scanner := do
  let s ← s.dropCandidate
  return { (s.push t).moved s.at_.skip with
    flow := s.flow - 1
    candidates := if s.flow > 0 then s.candidates.tail else s.candidates
    keyAllowed := false }

/-- A mark that stands for itself: a dash, a question mark or a comma. -/
def mark (s : Scanner) (t : Token) (keyAllowed : Bool) : Except Fault Scanner := do
  let s ← s.dropCandidate
  return { (s.push t).moved s.at_.skip with keyAllowed }

/-- A dash or a question mark, which begins a block collection. -/
def blockMark (s : Scanner) (start t : Token) (keyAllowed : Bool) : Except Fault Scanner :=
  if s.flow > 0 then s.mark t keyAllowed
  else if !s.keyAllowed then .error .misplaced
  else (s.roll s.at_.column s.tokens.size start).mark t keyAllowed

/-- A colon: the candidate becomes a key, if there is one. -/
def colon (s : Scanner) : Except Fault Scanner :=
  match s.candidates with
  | some c :: rest =>
    let s := { s with
      tokens := s.tokens.insertIdxIfInBounds c.number .key
      candidates := none :: rest
      keyAllowed := false }
    let s := s.roll c.column c.number .blockMapping
    .ok ((s.push .value).moved s.at_.skip)
  | _ =>
    if s.flow == 0 && !s.keyAllowed then .error .misplaced
    else
      let s := if s.flow == 0 then s.roll s.at_.column s.tokens.size .blockMapping else s
      .ok { (s.push .value).moved s.at_.skip with keyAllowed := s.flow == 0 }

/-- A mark between documents. -/
def documentMark (s : Scanner) (t : Token) : Except Fault Scanner := do
  let s ← (s.unroll (-1)).dropCandidate
  return { (s.push t).moved (s.at_.skipMany 3) with keyAllowed := false }

/-- A token that may be, or belong to, a key. -/
def part (s : Scanner) (read : Cursor → Except Fault (Token × Cursor)) : Except Fault Scanner := do
  let s ← s.saveCandidate
  let (t, p) ← read s.at_
  return { (s.push t).moved p with keyAllowed := false }

/-- A plain scalar. -/
def plain (s : Scanner) : Except Fault Scanner := do
  let s ← s.saveCandidate
  let ((text, broken), p) ←
    readPlain s.flow (s.indent + 1) (s.at_.rest.length + 1) [] {} s.at_
  return { (s.push (.scalar text .plain)).moved p with keyAllowed := broken }

/-- A block scalar. -/
def block (s : Scanner) (literal : Bool) : Except Fault Scanner := do
  let s ← s.dropCandidate
  let (text, p) ← readBlock literal s.indent s.at_.skip
  return { (s.push (.scalar text (if literal then .literal else .folded))).moved p with
    keyAllowed := true }

/-- The scanner at the place of its next token. -/
def settle (s : Scanner) : Except Fault Scanner := do
  let (allowed, p) := toNext s.flow (s.at_.rest.length + 1) s.keyAllowed s.at_
  let s ← ({ s with at_ := p, keyAllowed := allowed } : Scanner).dropStale
  return s.unroll p.column

/-- The scanner after the token that begins with a character and goes on in `rest`. -/
def tokenFrom (s : Scanner) (c : Char) (rest : List Char) : Except Fault Scanner :=
  if c == '[' then s.openFlow .openSequence
  else if c == '{' then s.openFlow .openMapping
  else if c == ']' then s.closeFlow .closeSequence
  else if c == '}' then s.closeFlow .closeMapping
  else if c == ',' then s.mark .comma true
  else if c == '-' && atGap rest then s.blockMark .blockSequence .entry true
  else if c == '?' && (s.flow > 0 || atGap rest) then s.blockMark .blockMapping .key (s.flow == 0)
  else if c == ':' && (s.flow > 0 || atGap rest) then s.colon
  else if c == '*' then s.part fun p => (readName p.skip).map fun (n, p) => (.alias n, p)
  else if c == '&' then s.part fun p => (readName p.skip).map fun (n, p) => (.anchor n, p)
  else if c == '!' then s.part (readTag s.flow)
  else if c == '|' && s.flow == 0 then s.block true
  else if c == '>' && s.flow == 0 then s.block false
  else if c == '\'' || c == '"' then
    s.part fun p =>
      (readQuoted (c == '\'') (p.rest.length + 1) [] p.skip).map fun (t, p) =>
        (.scalar t .quoted, p)
  else if startsPlain c || (c == '-' && !(rest.head?.map isGap).getD false) ||
      (s.flow == 0 && (c == '?' || c == ':') && !atGap rest) then s.plain
  else .error .character

/-- The scanner after the token at its place, and whether the text goes on. -/
def token (s : Scanner) : Except Fault (Scanner × Bool) :=
  match s.at_.rest with
  | [] => do
    let s ← (s.unroll (-1)).dropCandidate
    return (s.push .finish, false)
  | c :: rest =>
    if s.at_.column == 0 && c == '%' then do
      let s ← (s.unroll (-1)).dropCandidate
      let (t, p) ← readDirective s.at_.skip
      return ({ (s.push t).moved p with keyAllowed := false }, true)
    else
      (if s.at_.atDocumentMark then
        s.documentMark (if c == '-' then .documentStart else .documentEnd)
      else s.tokenFrom c rest).map (·, true)

/-- The scanner after the next token, and whether the text goes on. -/
def next (s : Scanner) : Except Fault (Scanner × Bool) := s.settle >>= token

/-- The tokens up to the end of the text. -/
def all : Nat → Scanner → Except Fault (List Token)
  | 0, _ => .error .unclosed
  | fuel + 1, s =>
    match s.next with
    | .error e => .error e
    | .ok (s, true) => all fuel s
    | .ok (s, false) => .ok s.tokens.toList

end Scanner

/-- The text without the mark of its encoding. -/
def dropByteOrderMark : List Char → List Char
  | '\ufeff' :: cs => cs
  | cs => cs

/-- The tokens of a text. -/
def Token.ofText (s : String) : Except Fault (List Token) :=
  let cs := dropByteOrderMark s.toList
  if cs.all isAllowed then Scanner.all (cs.length + 2) { at_ := { rest := cs } }
  else .error .character

end Runbook.Yaml

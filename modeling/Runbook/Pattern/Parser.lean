import Runbook.Pattern.Basic

/-!
# Reading patterns

`Pattern.parse` reads the usual notation: literals and escapes, classes in brackets with set
operations, groups, choice, repetition and flags. There is neither look-around nor reference to
an earlier group. A parser of a part of the notation takes the remaining characters and returns
what it leaves.
-/

namespace Runbook.Pattern

/-- Why a text is no pattern. -/
inductive Fault where
  | unclosed
  | unopened
  | missingOperand
  | badCount
  | badEscape
  | badClass
  | badGroup
  | badFlags
  | unsupported
  deriving Repr, BEq, DecidableEq

/-- The wording of a fault. -/
def Fault.message (_ : Fault) : String := "regex parse error"

/-- The flags in force at a point of a pattern. -/
structure Flags where
  ignoreCase : Bool := false
  multiLine : Bool := false
  dotAll : Bool := false
  wide : Bool := true
  crlf : Bool := false
  verbose : Bool := false
  deriving Repr, BEq

/-- The flags in force and the names of the groups so far. -/
structure State where
  flags : Flags := {}
  names : List (List Char) := []

/-! ## Blanks -/

/-- What follows a comment. -/
def afterComment : List Char → List Char
  | [] => []
  | '\n' :: cs => cs
  | _ :: cs => afterComment cs

theorem afterComment_length (cs : List Char) : (afterComment cs).length ≤ cs.length := by
  fun_induction afterComment cs with
  | case1 => simp
  | case2 => simp
  | case3 c cs _ ih => exact Nat.le_succ_of_le ih

/-- The characters after blanks and comments, which a verbose pattern ignores. -/
def skip (verbose : Bool) : List Char → List Char
  | [] => []
  | c :: cs =>
    if !verbose then c :: cs
    else if Text.isBlank c then skip verbose cs
    else if c = '#' then skip verbose (afterComment cs)
    else c :: cs
termination_by cs => cs.length
decreasing_by
  all_goals simp
  all_goals have := afterComment_length cs
  all_goals omega

/-! ## Numbers and escapes -/

/-- The value of a hexadecimal digit. -/
def hex? (c : Char) : Option Nat :=
  if c.isDigit then some (c.toNat - 48)
  else if 'a' ≤ c && c ≤ 'f' then some (c.toNat - 87)
  else if 'A' ≤ c && c ≤ 'F' then some (c.toNat - 55)
  else none

/-- The character of a code point written with hexadecimal digits. -/
def ofHex (ds : List Char) : Except Fault Char :=
  match ds, ds.mapM hex? with
  | [], _ => .error .badEscape
  | _, none => .error .badEscape
  | _, some vs =>
    let n := vs.foldl (fun n v => min (n * 16 + v) 0x200000) 0
    if n.isValidChar then .ok (Char.ofNat n) else .error .badEscape

/-- The code point after `\x`, `\u` or `\U`: as many digits as the letter asks for, or any number
of them in braces. -/
def readHex (width : Nat) (cs : List Char) : Except Fault (Char × List Char) :=
  match cs with
  | '{' :: rest =>
    let ds := rest.takeWhile (· ≠ '}')
    match rest.drop ds.length with
    | _ :: after => do
      let c ← ofHex ds
      return (c, after)
    | [] => .error .badEscape
  | cs =>
    if (cs.take width).length < width then .error .badEscape
    else do
      let c ← ofHex (cs.take width)
      return (c, cs.drop width)

/-- Characters that mean something in a pattern. -/
def isSpecial (c : Char) : Bool := "\\.+*?()|[]\x7b\x7d^$#&-~".toList.contains c

/-- Characters that may stand after a backslash for themselves. -/
def isEscapable (c : Char) : Bool :=
  isSpecial c || (c.toNat < 128 && !c.isAlphanum && c ≠ '<' && c ≠ '>')

/-- What an escape or a plain character stands for. -/
inductive Atom where
  | char (c : Char)
  | set (s : CharSet)
  | place (a : Anchor)

/-- The word edges that have a name. -/
def namedEdge (wide : Bool) : List Char → Option Anchor
  | name =>
    if name = "start".toList then some (.wordStart wide)
    else if name = "end".toList then some (.wordEnd wide)
    else if name = "start-half".toList then some (.wordStartHalf wide)
    else if name = "end-half".toList then some (.wordEndHalf wide)
    else none

/-- A character of the name of a word edge. -/
def isEdgeChar (c : Char) : Bool := c.isAlpha || c == '-'

/-- What follows `\b`: the name of a word edge in braces, or nothing. -/
def readEdge (wide : Bool) (cs : List Char) : Except Fault (Anchor × List Char) :=
  match cs with
  | '{' :: c :: rest =>
    if isEdgeChar c then
      let name := (c :: rest).takeWhile isEdgeChar
      match (c :: rest).drop name.length with
      | '}' :: after =>
        match namedEdge wide name with
        | some a => .ok (a, after)
        | none => .error .badEscape
      | _ => .error .badEscape
    else .ok (.wordEdge wide, cs)
  | cs => .ok (.wordEdge wide, cs)

/-- What an escape stands for, after its backslash. -/
def readEscape (f : Flags) : List Char → Except Fault (Atom × List Char)
  | [] => .error .badEscape
  | c :: cs =>
    if c.isDigit then .error .unsupported
    else if isEscapable c then .ok (.char c, cs)
    else match c with
      | 'x' => (readHex 2 cs).map fun (d, rest) => (.char d, rest)
      | 'u' => (readHex 4 cs).map fun (d, rest) => (.char d, rest)
      | 'U' => (readHex 8 cs).map fun (d, rest) => (.char d, rest)
      | 'd' => .ok (.set (.digit f.wide), cs)
      | 'D' => .ok (.set (.compl (.digit f.wide)), cs)
      | 'w' => .ok (.set (.word f.wide), cs)
      | 'W' => .ok (.set (.compl (.word f.wide)), cs)
      | 's' => .ok (.set (.blank f.wide), cs)
      | 'S' => .ok (.set (.compl (.blank f.wide)), cs)
      | 'a' => .ok (.char '\x07', cs)
      | 'f' => .ok (.char '\x0c', cs)
      | 't' => .ok (.char '\t', cs)
      | 'n' => .ok (.char '\n', cs)
      | 'r' => .ok (.char '\r', cs)
      | 'v' => .ok (.char '\x0b', cs)
      | 'A' => .ok (.place .textStart, cs)
      | 'z' => .ok (.place .textEnd, cs)
      | 'B' => .ok (.place (.wordInside f.wide), cs)
      | '<' => .ok (.place (.wordStart f.wide), cs)
      | '>' => .ok (.place (.wordEnd f.wide), cs)
      | 'b' => (readEdge f.wide cs).map fun (a, rest) => (.place a, rest)
      | _ => .error .badEscape

/-! ## Classes in brackets -/

/-- A set with the case variants of its characters, if case is ignored. -/
def foldedBy (f : Flags) (s : CharSet) : CharSet := if f.ignoreCase then .folded f.wide s else s

/-- An ASCII class such as `[:alpha:]`, after its opening bracket. -/
def asciiClass? (cs : List Char) : Option (CharSet × List Char) :=
  match cs with
  | ':' :: rest =>
    let (negated, rest) := match rest with
      | '^' :: r => (true, r)
      | r => (false, r)
    let name := rest.takeWhile Char.isAlpha
    match rest.drop name.length with
    | ':' :: ']' :: after =>
      (CharSet.ofClassName? (String.ofList name)).map fun s =>
        (if negated then .compl s else s, after)
    | _ => none
  | _ => none

/-- One end of a range or one item of a class. -/
def readItem (f : Flags) : List Char → Except Fault (Atom × List Char)
  | [] => .error .unclosed
  | '\\' :: cs => readEscape f cs
  | c :: cs => .ok (.char c, cs)

/-- The set that an item of a class stands for. -/
def itemSet : Atom → Except Fault CharSet
  | .char c => .ok (.single c)
  | .set s => .ok s
  | .place _ => .error .badClass

/-- An item of a class, or a range if a dash and another item follow. -/
def readRange (f : Flags) (cs : List Char) : Except Fault (CharSet × List Char) := do
  let (first, cs) ← readItem f cs
  let rest := skip f.verbose cs
  match rest with
  | [] => .error .unclosed
  | '-' :: after =>
    match skip f.verbose after with
    | [] => .error .unclosed
    | ']' :: _ => return (← itemSet first, rest)
    | '-' :: _ => return (← itemSet first, rest)
    | next => do
      let (last, rest) ← readItem f next
      match first, last with
      | .char a, .char b => if a ≤ b then .ok (.range a b, rest) else .error .badClass
      | _, _ => .error .badClass
  | rest => return (← itemSet first, rest)

/-- A set operation of classes. -/
inductive SetOp where
  | inter
  | minus
  | xor

/-- The set that an operation makes of two. -/
def SetOp.apply : SetOp → CharSet → CharSet → CharSet
  | .inter, a, b => .inter a b
  | .minus, a, b => .minus a b
  | .xor, a, b => .union (.minus a b) (.minus b a)

/-- The set of a class whose operations are all applied. -/
def joined (f : Flags) (before : Option (CharSet × SetOp)) (items : CharSet) : CharSet :=
  match before with
  | none => items
  | some (left, op) => op.apply (foldedBy f left) (foldedBy f items)

/-- The dashes and the bracket that a class may start with as literals. -/
def leading (f : Flags) : Nat → CharSet → List Char → CharSet × List Char
  | 0, acc, cs => (acc, cs)
  | fuel + 1, acc, cs =>
    match skip f.verbose cs with
    | '-' :: rest => leading f fuel (.union acc (.single '-')) rest
    | ']' :: rest => if acc = .none then (.union acc (.single ']'), rest) else (acc, ']' :: rest)
    | rest => (acc, rest)

mutual
/-- A class in brackets, after its opening bracket. -/
def readClass (f : Flags) : Nat → List Char → Except Fault (CharSet × List Char)
  | 0, _ => .error .unclosed
  | fuel + 1, cs =>
    match skip f.verbose cs with
    | '^' :: rest => do
      let (items, rest) := leading f rest.length .none rest
      let (s, rest) ← readItems f fuel none items rest
      return (.compl (foldedBy f s), rest)
    | rest => do
      let (items, rest) := leading f rest.length .none rest
      let (s, rest) ← readItems f fuel none items rest
      return (foldedBy f s, rest)

/-- The items of a class up to its closing bracket; `before` is the left side of the last set
operation, `items` the union of the items since. -/
def readItems (f : Flags) : Nat → Option (CharSet × SetOp) → CharSet → List Char →
    Except Fault (CharSet × List Char)
  | 0, _, _, _ => .error .unclosed
  | fuel + 1, before, items, cs =>
    let operation (op : SetOp) (rest : List Char) :=
      readItems f fuel (some (joined f before items, op)) .none rest
    match skip f.verbose cs with
    | [] => .error .unclosed
    | ']' :: rest => .ok (joined f before items, rest)
    | '&' :: '&' :: rest => operation .inter rest
    | '-' :: '-' :: rest => operation .minus rest
    | '~' :: '~' :: rest => operation .xor rest
    | '[' :: rest =>
      match asciiClass? rest with
      | some (s, rest) => readItems f fuel before (.union items s) rest
      | none => do
        let (s, rest) ← readClass f fuel rest
        readItems f fuel before (.union items s) rest
    | rest => do
      let (s, rest) ← readRange f rest
      readItems f fuel before (.union items s) rest
end

/-! ## Groups and flags -/

/-- Sets a flag; the flag that swaps greedy and lazy repetition changes no match. -/
def Flags.set? (f : Flags) (c : Char) (value : Bool) : Option Flags :=
  match c with
  | 'i' => some { f with ignoreCase := value }
  | 'm' => some { f with multiLine := value }
  | 's' => some { f with dotAll := value }
  | 'u' => some { f with wide := value }
  | 'R' => some { f with crlf := value }
  | 'x' => some { f with verbose := value }
  | 'U' => some f
  | _ => none

/-- The flags up to `:` or `)`; each may be named once, and those after a dash are cleared. The
result holds the flags, whether any were named and the mark that ended them. -/
def readFlags (f : Flags) (negative dangling : Bool) (seen : List Char) :
    List Char → Except Fault ((Flags × Bool × Char) × List Char)
  | [] => .error .badFlags
  | ':' :: cs => if dangling then .error .badFlags else .ok ((f, !seen.isEmpty, ':'), cs)
  | ')' :: cs => if dangling then .error .badFlags else .ok ((f, !seen.isEmpty, ')'), cs)
  | '-' :: cs => if negative then .error .badFlags else readFlags f true true seen cs
  | c :: cs =>
    if seen.contains c then .error .badFlags
    else match f.set? c (!negative) with
      | some f => readFlags f negative false (c :: seen) cs
      | none => .error .badFlags

/-- A character of the name of a group. -/
def isNameChar (first : Bool) (c : Char) : Bool :=
  c == '_' || (Text.isWord c && (!first || !Text.isDigit c)) ||
    (!first && (c == '.' || c == '[' || c == ']'))

/-- Whether the characters are the name of a group. -/
def isName : List Char → Bool
  | [] => false
  | c :: cs => isNameChar true c && cs.all (isNameChar false)

/-- What the opening of a group says. -/
inductive Opening where
  | group (inner : State)
  | flags (f : Flags)

/-- The name of a group up to its closing bracket. -/
def readName (st : State) (cs : List Char) : Except Fault (Opening × List Char) :=
  let name := cs.takeWhile (· ≠ '>')
  match cs.drop name.length with
  | [] => .error .badGroup
  | _ :: rest =>
    if isName name && !st.names.contains name then
      .ok (.group { st with names := name :: st.names }, rest)
    else .error .badGroup

/-- The opening of a group after its parenthesis. -/
def readOpening (st : State) (cs : List Char) : Except Fault (Opening × List Char) :=
  match skip st.flags.verbose cs with
  | '?' :: '=' :: _ => .error .unsupported
  | '?' :: '!' :: _ => .error .unsupported
  | '?' :: '<' :: '=' :: _ => .error .unsupported
  | '?' :: '<' :: '!' :: _ => .error .unsupported
  | '?' :: 'P' :: '<' :: rest => readName st rest
  | '?' :: '<' :: rest => readName st rest
  | '?' :: rest => do
    let ((f, named, mark), rest) ← readFlags st.flags false false [] rest
    if mark = ':' then return (.group { st with flags := f }, rest)
    else if named then return (.flags f, rest)
    else .error .missingOperand
  | rest => .ok (.group st, rest)

/-! ## Repetition -/

/-- A decimal number below `2^32` between blanks. -/
def readCount (verbose : Bool) (cs : List Char) : Except Fault (Nat × List Char) :=
  let cs := cs.dropWhile Text.isBlank
  let ds := cs.takeWhile Char.isDigit
  let n := ds.foldl (fun n c => n * 10 + (c.toNat - 48)) 0
  if ds.isEmpty || n ≥ Nat.pow 2 32 then .error .badCount
  else .ok (n, (skip verbose (cs.drop ds.length)).dropWhile Text.isBlank)

/-- The counts of a repetition, after its opening brace: how many at least and how many more. -/
def readCounts (verbose : Bool) (cs : List Char) :
    Except Fault ((Nat × Option Nat) × List Char) := do
  let (least, cs) ← readCount verbose (skip verbose cs)
  match cs with
  | '}' :: rest => return ((least, some 0), rest)
  | ',' :: rest =>
    match skip verbose rest with
    | '}' :: rest => return ((least, none), rest)
    | rest => do
      let (most, cs) ← readCount verbose rest
      match cs with
      | '}' :: rest =>
        if most < least then .error .badCount else return ((least, some (most - least)), rest)
      | _ => .error .badCount
  | _ => .error .badCount

/-- The characters after the mark of lazy repetition, which changes no match. -/
def dropLazy : List Char → List Char
  | '?' :: cs => cs
  | cs => cs

/-! ## Patterns -/

/-- What a parser of a group knows: the branches before, the pieces of this branch and the last
piece, which a repetition applies to. -/
structure Pieces where
  branches : Option Pattern := none
  done : Option Pattern := none
  last : Option Pattern := none

namespace Pieces

/-- A sequence whose first part may be missing. -/
def after (done : Option Pattern) (p : Pattern) : Pattern :=
  match done with
  | none => p
  | some d => .seq d p

/-- The pattern of the current branch. -/
def branch (ps : Pieces) : Pattern :=
  match ps.last with
  | none => ps.done.getD .empty
  | some p => after ps.done p

/-- One more piece. -/
def push (ps : Pieces) (p : Pattern) : Pieces :=
  match ps.last with
  | none => { ps with last := some p }
  | some q => { ps with done := some (after ps.done q), last := some p }

/-- What flags leave behind: there is nothing to repeat. -/
def settle (ps : Pieces) : Pieces :=
  match ps.last with
  | none => ps
  | some q => { ps with done := some (after ps.done q), last := none }

/-- The pattern of the whole group. -/
def whole (ps : Pieces) : Pattern :=
  match ps.branches with
  | none => ps.branch
  | some p => .alt p ps.branch

end Pieces

/-- The characters that `.` stands for. -/
def dot (f : Flags) : CharSet :=
  if f.dotAll then .all
  else if f.crlf then .compl (.union (.single '\r') (.single '\n'))
  else .compl (.single '\n')

/-- The pattern of an atom. -/
def ofAtom (f : Flags) : Atom → Pattern
  | .char c => .one (foldedBy f (.single c))
  | .set s => .one s
  | .place a => .place a

/-- A group up to its closing parenthesis, which is left, or to the end. -/
def readGroup : Nat → State → Pieces → List Char → Except Fault ((Pattern × State) × List Char)
  | 0, _, _, _ => .error .unclosed
  | fuel + 1, st, ps, cs =>
    let f := st.flags
    let piece (p : Pattern) (rest : List Char) := readGroup fuel st (ps.push p) rest
    let repeated (least : Nat) (extra : Option Nat) (rest : List Char) :=
      match ps.last with
      | none => .error .missingOperand
      | some p =>
        readGroup fuel st { ps with last := some (.rep p least extra) } (dropLazy rest)
    match skip f.verbose cs with
    | [] => .ok ((ps.whole, st), [])
    | ')' :: rest => .ok ((ps.whole, st), ')' :: rest)
    | '|' :: rest => readGroup fuel st { branches := some ps.whole } rest
    | '*' :: rest => repeated 0 none rest
    | '+' :: rest => repeated 1 none rest
    | '?' :: rest => repeated 0 (some 1) rest
    | '{' :: rest =>
      match ps.last with
      | none => .error .missingOperand
      | some _ => do
        let ((least, extra), rest) ← readCounts f.verbose rest
        repeated least extra (skip f.verbose rest)
    | '(' :: rest => do
      let (opening, rest) ← readOpening st rest
      match opening with
      | .flags f => readGroup fuel { st with flags := f } ps.settle rest
      | .group inner => do
        let ((p, inner), rest) ← readGroup fuel inner {} rest
        match rest with
        | ')' :: rest => readGroup fuel { st with names := inner.names } (ps.push p) rest
        | _ => .error .unclosed
    | '[' :: rest => do
      let (s, rest) ← readClass f (2 * rest.length + 2) rest
      piece (.one s) rest
    | '.' :: rest => piece (.one (dot f)) rest
    | '^' :: rest => piece (.place (if f.multiLine then .lineStart f.crlf else .textStart)) rest
    | '$' :: rest => piece (.place (if f.multiLine then .lineEnd f.crlf else .textEnd)) rest
    | '\\' :: rest => do
      let (a, rest) ← readEscape f rest
      piece (ofAtom f a) rest
    | c :: rest => piece (ofAtom f (.char c)) rest

/-- The pattern that a text denotes when `flags` are in force at its start. -/
def parseWith (flags : Flags) (s : String) : Except Fault Pattern :=
  match readGroup (s.length + 1) { flags } {} s.toList with
  | .error e => .error e
  | .ok ((p, _), []) => .ok p
  | .ok (_, _ :: _) => .error .unopened

/-- The pattern that a text denotes. -/
def parse (s : String) : Except Fault Pattern := parseWith {} s

end Runbook.Pattern

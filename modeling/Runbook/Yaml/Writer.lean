import Runbook.Json.Text
import Runbook.Yaml.Scalar

/-!
# Writing documents

`Yaml.write` writes a value as a block document. A text is written plain where it reads back as the
same text, in single quotes where it would read as something else or holds an indicator, in double
quotes where it holds characters without a form of their own, and as a literal block when it has
several lines. The fields of an object are written in the order they have in it.
-/

namespace Runbook.Yaml

/-- What matters about a text for the way it is written. -/
structure Traits where
  multiline : Bool
  plainAllowed : Bool
  singleAllowed : Bool
  literalAllowed : Bool

namespace Traits

/-- A character that may stand for itself. -/
def isPrintable (c : Char) : Bool :=
  let n := c.toNat
  n == 10 || (32 ≤ n && n ≤ 126) || (160 ≤ n && n ≤ 0xD7FF) ||
    (0xE000 ≤ n && n ≤ 0xFFFD && n != 0xFEFF) || 0x10000 ≤ n

/-- Whether the first character makes a text no plain scalar. -/
def badStart : List Char → Bool
  | [] => false
  | c :: rest =>
    "#,[]\x7b\x7d&*!|>'\"%@\x60".toList.contains c || ([':', '?', '-'].contains c && atGap rest)

/-- Whether characters after the first make a text no plain scalar; `spaced` tells whether white
space stands before them. -/
def badInside (spaced : Bool) : List Char → Bool
  | [] => false
  | c :: rest =>
    (c == ':' && atGap rest) || (c == '#' && spaced) || badInside (isGap c || isBreak c) rest

/-- Whether a space stands before a break. -/
def spaceBeforeBreak : List Char → Bool
  | ' ' :: c :: rest => isBreak c || spaceBeforeBreak (c :: rest)
  | _ :: rest => spaceBeforeBreak rest
  | [] => false

/-- Whether a space stands after a break. -/
def spaceAfterBreak : List Char → Bool
  | c :: ' ' :: rest => isBreak c || spaceAfterBreak (' ' :: rest)
  | _ :: rest => spaceAfterBreak rest
  | [] => false

/-- Whether a text begins like a mark between documents. -/
def startsLikeMark : List Char → Bool
  | '-' :: '-' :: '-' :: _ => true
  | '.' :: '.' :: '.' :: _ => true
  | _ => false

/-- The traits of a text. -/
def ofChars (cs : List Char) : Traits :=
  match cs with
  | [] => ⟨false, true, true, false⟩
  | c :: rest =>
    let isEdge (d : Char) : Bool := d == ' ' || isBreak d
    let last := cs.getLast?.getD c
    let multiline := cs.any isBreak
    let special := cs.any fun d => !isPrintable d
    let hopeless := spaceBeforeBreak cs || special
    let indicators :=
      startsLikeMark cs || badStart cs || badInside (isGap c || isBreak c) rest
    { multiline
      plainAllowed :=
        !(isEdge c || isEdge last || multiline || spaceAfterBreak cs || hopeless || indicators)
      singleAllowed := !(spaceAfterBreak cs || hopeless)
      literalAllowed := !(last == ' ' || hopeless) }

end Traits

/-- How a text is written. -/
inductive Form where
  | plain
  | single
  | double
  | literal
  deriving Repr, BEq, DecidableEq

/-- Whether a text read without quotes stands for itself. -/
def readsAsText (s : String) : Bool :=
  match Scalar.ofPlain s with
  | .text _ => !Scalar.hasLeadingZero s.toList
  | _ => false

/-- The form of a text. -/
def formOf (s : String) : Form :=
  let t := Traits.ofChars s.toList
  if s.toList.contains '\n' then (if t.literalAllowed then .literal else .double)
  else if readsAsText s && t.plainAllowed then .plain
  else if t.singleAllowed then .single
  else .double

/-- The escape of a character in double quotes. -/
def escapeChar (c : Char) : List Char :=
  let upper (width n : Nat) : List Char := (Text.hexPadded width n).map Char.toUpper
  match c with
  | '"' => ['\\', '"']
  | '\\' => ['\\', '\\']
  | '\x00' => ['\\', '0']
  | '\x07' => ['\\', 'a']
  | '\x08' => ['\\', 'b']
  | '\t' => ['\\', 't']
  | '\n' => ['\\', 'n']
  | '\x0b' => ['\\', 'v']
  | '\x0c' => ['\\', 'f']
  | '\r' => ['\\', 'r']
  | '\x1b' => ['\\', 'e']
  | '\u0085' => ['\\', 'N']
  | '\u2028' => ['\\', 'L']
  | '\u2029' => ['\\', 'P']
  | c =>
    if Traits.isPrintable c then [c]
    else if c.toNat ≤ 0xFF then '\\' :: 'x' :: upper 2 c.toNat
    else if c.toNat ≤ 0xFFFF then '\\' :: 'u' :: upper 4 c.toNat
    else '\\' :: 'U' :: upper 8 c.toNat

/-- A text in double quotes. -/
def doubleQuoted (s : String) : List Char := '"' :: s.toList.flatMap escapeChar ++ ['"']

/-- Spaces up to a column. -/
def spaces (n : Nat) : List Char := List.replicate n ' '

/-- The characters of a text between single quotes. What follows a break is indented, and `broken`
tells whether a break came last. -/
def singleLines (indent : Nat) (broken : Bool) : List Char → List Char
  | [] => if broken then spaces indent else []
  | c :: cs =>
    if isBreak c then c :: singleLines indent true cs
    else
      (if broken then spaces indent else []) ++ (if c == '\'' then ['\'', '\''] else [c]) ++
        singleLines indent false cs

/-- A text in single quotes, whose lines are indented to a column. -/
def singleQuoted (indent : Nat) (s : String) : List Char :=
  '\'' :: singleLines indent false s.toList ++ ['\'']

/-- The lines of a literal block; `fresh` tells whether a line begins. -/
def literalLines (indent : Nat) (fresh : Bool) : List Char → List Char
  | [] => []
  | c :: cs =>
    if isBreak c then c :: literalLines indent true cs
    else (if fresh then spaces indent else []) ++ c :: literalLines indent false cs

/-- What a literal block says about the breaks at its end. -/
def chompingMark (cs : List Char) : List Char :=
  match cs.reverse with
  | [] => ['-']
  | c :: rest =>
    if !isBreak c then ['-']
    else match rest with
      | [] => ['+']
      | d :: _ => if isBreak d then ['+'] else []

/-- What a literal block says about the indentation of its lines, when the first one does not show
it. -/
def indentHint : List Char → List Char
  | [] => []
  | c :: _ => if c == ' ' || isBreak c then ['2'] else []

/-- A literal block whose lines are indented to a column. -/
def literalBlock (indent : Nat) (s : String) : List Char :=
  '|' :: indentHint s.toList ++ chompingMark s.toList ++ '\n' :: literalLines indent true s.toList

/-- A text as it is written. -/
def writeText (indent : Nat) (s : String) : List Char :=
  match formOf s with
  | .plain => s.toList
  | .single => singleQuoted indent s
  | .double => doubleQuoted s
  | .literal => literalBlock indent s

/-- Whether a key is written before its colon on one line. -/
def isSimpleKey (s : String) : Bool := s.utf8ByteSize ≤ 128 && !(Traits.ofChars s.toList).multiline

/-- A scalar value. -/
def writeScalar (indent : Nat) : Json → List Char
  | .null => "null".toList
  | .bool b => (if b then "true" else "false").toList
  | .int i => (toString i).toList
  | .double x => (Decimal.write Decimal.documentStyle x).toList
  | .str s => writeText indent s
  | .arr _ => "[]".toList
  | .obj _ => "\x7b\x7d".toList

/-- A text with the break that ends its last line, unless it ends with one. -/
def ended (cs : List Char) : List Char :=
  if (cs.getLast?.map isBreak).getD false then cs else cs ++ ['\n']

/-- A field in a mapping at a column, with the way its value is written below its key or on the same
line. -/
def writeField (indent : Nat) (k : String) (value : Bool → List Char) : List Char :=
  if isSimpleKey k then writeText (indent + 2) k ++ ':' :: value true
  else '?' :: ' ' :: ended (writeText (indent + 2) k) ++ spaces indent ++ ':' :: value false

mutual
/-- A value after its key or dash, to the end of its last line. `indent` is the column of the
collection that holds it, and `below` tells whether a collection begins on a line of its own. -/
def writeValue (indent : Nat) (below : Bool) : Json → List Char
  | .arr (x :: xs) =>
    if below then '\n' :: writeItems indent (x :: xs)
    else ' ' :: '-' :: writeValue (indent + 2) false x ++ writeItems (indent + 2) xs
  | .obj ((k, v) :: es) =>
    if below then '\n' :: writeFields (indent + 2) ((k, v) :: es)
    else ' ' :: writeField (indent + 2) k (fun b => writeValue (indent + 2) b v) ++
      writeFields (indent + 2) es
  | v => ' ' :: ended (writeScalar (indent + 2) v)

/-- The items of a sequence at a column, each on lines of its own. -/
def writeItems (indent : Nat) : List Json → List Char
  | [] => []
  | x :: xs => spaces indent ++ '-' :: writeValue indent false x ++ writeItems indent xs

/-- The fields of a mapping at a column, each on lines of its own. -/
def writeFields (indent : Nat) : List (String × Json) → List Char
  | [] => []
  | (k, v) :: es =>
    spaces indent ++ writeField indent k (fun b => writeValue indent b v) ++ writeFields indent es
end

/-- The document of a value. -/
def write (v : Json) : String :=
  String.ofList <| match v with
    | .arr (x :: xs) => writeItems 0 (x :: xs)
    | .obj (e :: es) => writeFields 0 (e :: es)
    | v => ended (writeScalar 2 v)

end Runbook.Yaml

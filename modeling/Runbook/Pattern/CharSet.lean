import Runbook.Text.Blank
import Runbook.Text.Case
import Runbook.Text.Word

/-!
# Character sets

The sets of characters that patterns are made of: ranges, the classes of digits, word characters
and blanks, and what set operations make of them. `CharSet.mem` decides membership.
-/

namespace Runbook

/-- A set of characters. The classes are those of all scripts or, when `wide` is false, of ASCII
alone; so is the closure under case of `folded`. -/
inductive CharSet where
  | none
  | range (first last : Char)
  | digit (wide : Bool)
  | word (wide : Bool)
  | blank (wide : Bool)
  | union (a b : CharSet)
  | inter (a b : CharSet)
  | minus (a b : CharSet)
  | compl (a : CharSet)
  | folded (wide : Bool) (a : CharSet)
  deriving Repr, BEq, DecidableEq

namespace CharSet

/-- The set of one character. -/
def single (c : Char) : CharSet := .range c c

/-- The set of all characters. -/
def all : CharSet := .compl .none

/-- A blank of ASCII. -/
def isNarrowBlank (c : Char) : Bool := (9 ≤ c.toNat && c.toNat ≤ 13) || c == ' '

/-- A word character of ASCII. -/
def isNarrowWord (c : Char) : Bool := c.isAlphanum || c == '_'

/-- The case variants of a character, in all scripts or in ASCII alone. -/
def variants (wide : Bool) (c : Char) : List Char :=
  if wide then Text.caseVariants c else [c, c.toUpper, c.toLower]

/-- Whether a character belongs to a set. -/
def mem : CharSet → Char → Bool
  | .none, _ => false
  | .range a b, c => a ≤ c && c ≤ b
  | .digit wide, c => if wide then Text.isDigit c else c.isDigit
  | .word wide, c => if wide then Text.isWord c else isNarrowWord c
  | .blank wide, c => if wide then Text.isBlank c else isNarrowBlank c
  | .union a b, c => a.mem c || b.mem c
  | .inter a b, c => a.mem c && b.mem c
  | .minus a b, c => a.mem c && !b.mem c
  | .compl a, c => !a.mem c
  | .folded wide a, c => (variants wide c).any a.mem

/-- The union of sets. -/
def unionAll : List CharSet → CharSet
  | [] => .none
  | [a] => a
  | a :: as => .union a (unionAll as)

/-- The set of a list of ranges. -/
def ofRanges (rs : List (Char × Char)) : CharSet := unionAll (rs.map fun (a, b) => .range a b)

/-- The ASCII class of a name such as `alpha`. -/
def ofClassName? : String → Option CharSet
  | "alnum" => some (ofRanges [('0', '9'), ('A', 'Z'), ('a', 'z')])
  | "alpha" => some (ofRanges [('A', 'Z'), ('a', 'z')])
  | "ascii" => some (ofRanges [('\x00', '\x7f')])
  | "blank" => some (ofRanges [('\t', '\t'), (' ', ' ')])
  | "cntrl" => some (ofRanges [('\x00', '\x1f'), ('\x7f', '\x7f')])
  | "digit" => some (ofRanges [('0', '9')])
  | "graph" => some (ofRanges [('!', '~')])
  | "lower" => some (ofRanges [('a', 'z')])
  | "print" => some (ofRanges [(' ', '~')])
  | "punct" => some (ofRanges [('!', '/'), (':', '@'), ('[', '\x60'), ('\x7b', '~')])
  | "space" => some (.blank false)
  | "upper" => some (ofRanges [('A', 'Z')])
  | "word" => some (.word false)
  | "xdigit" => some (ofRanges [('0', '9'), ('A', 'F'), ('a', 'f')])
  | _ => none

end CharSet
end Runbook

/-!
# Blank characters, trimming and lines

White space in the Unicode sense, the text without white space at its ends, and the lines of a
text. `nonBlankLines` is what both the line-splitting filter of templates and the line mode of
device output use.
-/

namespace Runbook.Text

/-- White space of all scripts. -/
def isBlank (c : Char) : Bool :=
  let n := c.toNat
  (9 ≤ n && n ≤ 13) || n == 32 || n == 133 || n == 160 || n == 5760 || (8192 ≤ n && n ≤ 8202) ||
    n == 8232 || n == 8233 || n == 8239 || n == 8287 || n == 12288

/-- The characters without the blanks at the start. -/
def trimStartChars (cs : List Char) : List Char := cs.dropWhile isBlank

/-- The characters without the blanks at the end. -/
def trimEndChars (cs : List Char) : List Char := (cs.reverse.dropWhile isBlank).reverse

/-- The characters without the blanks at either end. -/
def trimChars (cs : List Char) : List Char := trimEndChars (trimStartChars cs)

/-- The text without the blanks at either end. -/
def trim (s : String) : String := String.ofList (trimChars s.toList)

/-- The pieces between line feeds: one more than there are line feeds. -/
def splitLineFeeds : List Char → List (List Char)
  | [] => [[]]
  | c :: cs =>
    if c == '\n' then [] :: splitLineFeeds cs
    else match splitLineFeeds cs with
      | [] => [[c]]
      | l :: ls => (c :: l) :: ls

/-- The lines of the text that are not blank, each without the blanks at its ends. -/
def nonBlankLineChars (cs : List Char) : List (List Char) :=
  ((splitLineFeeds cs).map trimChars).filter (· ≠ [])

/-- The lines of the text that are not blank, each without the blanks at its ends. -/
def nonBlankLines (s : String) : List String := (nonBlankLineChars s.toList).map String.ofList

/-- Whether `part` occurs in `cs`. -/
def occursIn (part cs : List Char) : Bool :=
  part.isPrefixOf cs || match cs with
    | [] => false
    | _ :: rest => occursIn part rest

/-- Whether the text `part` occurs in `s`. -/
def contains (s part : String) : Bool := occursIn part.toList s.toList

/-- The characters after `part` when `cs` starts with it. -/
def dropStart? : List Char → List Char → Option (List Char)
  | [], cs => some cs
  | p :: ps, c :: cs => if p == c then dropStart? ps cs else none
  | _ :: _, [] => none

end Runbook.Text

import Runbook.Decimal.Parse
import Runbook.Text.Blank

/-!
# Tokens of templates

A template is text with blocks: `{{ … }}` writes an expression, `{% … %}` holds a statement and
`{# … #}` a comment. A dash next to a delimiter removes the white space of the
text beside it. `Token.ofTemplate` splits a template, `Token.ofExpression` a lone expression. A
fault is the last token, so that a parser meets it where it stands.
-/

namespace Runbook.Template

/-- Why a text cannot be split or parsed. -/
inductive SyntaxFault where
  | malformed
  | escape
  deriving Repr, BEq, DecidableEq

/-- A token of a template. -/
inductive Token where
  | text (s : String)
  | outputStart
  | outputEnd
  | blockStart
  | blockEnd
  | ident (name : String)
  | str (s : String)
  | int (n : Nat)
  | float (x : Float)
  | sign (s : String)
  | fault (e : SyntaxFault)

namespace Token

/-- White space between tokens. -/
def isSpace (c : Char) : Bool :=
  c == ' ' || c == '\t' || c == '\n' || c == '\r' || c.toNat == 12

/-- The first character of a name. -/
def isNameStart (c : Char) : Bool := c.isAlpha || c == '_'

/-- A further character of a name. -/
def isNameRest (c : Char) : Bool := c.isAlphanum || c == '_'

/-! ## Texts between quotes -/

/-- The raw characters up to the closing quote; a backslash takes the next character along. -/
def readQuoted (quote : Char) : List Char → Option (List Char × List Char)
  | [] => none
  | '\\' :: c :: r => (readQuoted quote r).map fun (s, rest) => ('\\' :: c :: s, rest)
  | c :: r =>
    if c == quote then some ([], r) else (readQuoted quote r).map fun (s, rest) => (c :: s, rest)

/-- The value of a hexadecimal digit. -/
def hex? (c : Char) : Option Nat :=
  if '0' ≤ c && c ≤ '9' then some (c.toNat - 48)
  else if 'a' ≤ c && c ≤ 'f' then some (c.toNat - 87)
  else if 'A' ≤ c && c ≤ 'F' then some (c.toNat - 55)
  else none

/-- The characters that escapes stand for. A character beyond the first plane takes two escapes;
`pending` is the first of them. -/
def unescape (pending : Option Nat) : List Char → Option (List Char)
  | [] => if pending.isSome then none else some []
  | '\\' :: 'u' :: a :: b :: c :: d :: r =>
    match hex? a, hex? b, hex? c, hex? d with
    | some a, some b, some c, some d =>
      let n := ((a * 16 + b) * 16 + c) * 16 + d
      match pending with
      | some hi =>
        if 0xDC00 ≤ n && n ≤ 0xDFFF then
          (unescape none r).map (Char.ofNat (0x10000 + (hi - 0xD800) * 1024 + (n - 0xDC00)) :: ·)
        else none
      | none =>
        if 0xD800 ≤ n && n ≤ 0xDBFF then unescape (some n) r
        else if 0xDC00 ≤ n && n ≤ 0xDFFF then none
        else (unescape none r).map (Char.ofNat n :: ·)
    | _, _, _, _ => none
  | '\\' :: c :: r =>
    if pending.isSome then none
    else match c with
      | '"' => (unescape none r).map ('"' :: ·)
      | '\\' => (unescape none r).map ('\\' :: ·)
      | '/' => (unescape none r).map ('/' :: ·)
      | '\'' => (unescape none r).map ('\'' :: ·)
      | 'b' => (unescape none r).map (Char.ofNat 8 :: ·)
      | 'f' => (unescape none r).map (Char.ofNat 12 :: ·)
      | 'n' => (unescape none r).map ('\n' :: ·)
      | 'r' => (unescape none r).map ('\r' :: ·)
      | 't' => (unescape none r).map ('\t' :: ·)
      | _ => none
  | c :: r => if pending.isSome then none else (unescape none r).map (c :: ·)

/-! ## Numbers -/

/-- Which part of a number the next character belongs to. -/
inductive NumberPart where
  | integer | fraction | exponent | exponentDigits | radix (base : Nat)
  deriving BEq

/-- The characters of a number, and whether it has a point or an exponent; a point belongs to it
only before a digit. -/
def numberChars (part : NumberPart) : List Char → List Char × NumberPart × List Char
  | [] => ([], part, [])
  | c :: r =>
    let next : Option NumberPart :=
      match part, c with
      | .integer, '.' => if (r.head?.map Char.isDigit).getD false then some .fraction else none
      | .integer, 'e' => some .exponent
      | .integer, 'E' => some .exponent
      | .fraction, 'e' => some .exponent
      | .fraction, 'E' => some .exponent
      | .exponent, '+' => some .exponentDigits
      | .exponent, '-' => some .exponentDigits
      | .exponent, c =>
        if c.isDigit then some .exponentDigits else if c == '_' then some part else none
      | .radix 16, c => if (hex? c).isSome || c == '_' then some part else none
      | _, c => if c.isDigit || c == '_' then some part else none
    match next with
    | some p =>
      let (cs, q, rest) := numberChars p r
      (c :: cs, q, rest)
    | none => ([], part, c :: r)

/-- The value of digits in a base, none when one of them is no digit of that base. -/
def natOfBase? (base : Nat) (cs : List Char) : Option Nat :=
  match cs with
  | [] => none
  | _ => cs.foldl (fun acc c => acc.bind fun n => (hex? c).bind fun d =>
      if d < base then some (n * base + d) else none) (some 0)

/-- A number: an integer below `2^128` in base 2, 8, 10 or 16, or a double. -/
def readNumber (cs : List Char) : Token × List Char :=
  let (base, start) := match cs with
    | '0' :: 'b' :: r => (2, r)
    | '0' :: 'B' :: r => (2, r)
    | '0' :: 'o' :: r => (8, r)
    | '0' :: 'O' :: r => (8, r)
    | '0' :: 'x' :: r => (16, r)
    | '0' :: 'X' :: r => (16, r)
    | r => (10, r)
  let (raw, part, rest) := numberChars (if base == 10 then .integer else .radix base) start
  let digits := raw.filter (· ≠ '_')
  if raw.getLast? == some '_' then (.fault .malformed, rest)
  else
    let whole := match part with
      | .integer => true
      | .radix _ => true
      | _ => false
    if whole then
      match natOfBase? base digits with
      | some n => (if n < Nat.pow 2 128 then .int n else .fault .malformed, rest)
      | none => (.fault .malformed, rest)
    else match Decimal.double? (String.ofList digits) with
      | some x => (.float x, rest)
      | none => (.fault .malformed, rest)

/-! ## Tokens inside a block -/

/-- The signs of two characters. -/
def longSigns : List (Char × Char) :=
  [('/', '/'), ('*', '*'), ('=', '='), ('!', '='), ('>', '='), ('<', '=')]

/-- The signs of one character. -/
def shortSigns : List Char := "+-*/%.,:~|=><()[]\x7b\x7d".toList

/-- The first token of a text inside a block that is neither blank nor at the block's end. -/
def next (cs : List Char) : Token × List Char :=
  match cs with
  | [] => (.fault .malformed, [])
  | c :: r =>
    match r with
    | d :: r' =>
      if longSigns.contains (c, d) then (.sign (String.ofList [c, d]), r')
      else single c r
    | [] => single c r
where
  /-- A token that is not a sign of two characters. -/
  single (c : Char) (r : List Char) : Token × List Char :=
    if shortSigns.contains c then (.sign (String.ofList [c]), r)
    else if c == '\'' || c == '"' then
      match readQuoted c r with
      | none => (.fault .malformed, [])
      | some (raw, rest) =>
        match unescape none raw with
        | some s => (.str (String.ofList s), rest)
        | none => (.fault .escape, [])
    else if c.isDigit then readNumber (c :: r)
    else if isNameStart c then
      (.ident (String.ofList (c :: r.takeWhile isNameRest)), r.dropWhile isNameRest)
    else (.fault .malformed, [])

/-- How a sign changes the number of open brackets. -/
def bracketChange (t : Token) (open_ : Nat) : Nat :=
  match t with
  | .sign s =>
    if s == "(" || s == "[" || s == "\x7b" then open_ + 1
    else if s == ")" || s == "]" || s == "\x7d" then open_ - 1
    else open_
  | _ => open_

/-! ## Whole texts -/

/-- The text after the white space at its start. -/
def skipSpace (cs : List Char) : List Char := cs.dropWhile isSpace

/-- The text up to the first delimiter that opens a block, and the text from it on. -/
def splitText : List Char → List Char × List Char
  | '{' :: c :: r =>
    if c == '{' || c == '%' || c == '#' then ([], '{' :: c :: r)
    else
      let (s, rest) := splitText (c :: r)
      ('{' :: s, rest)
  | c :: r =>
    let (s, rest) := splitText r
    (c :: s, rest)
  | [] => ([], [])

/-- The text after a comment's end, and whether a dash stood before that end. -/
def skipComment (before : Char) : List Char → Option (Bool × List Char)
  | '#' :: '}' :: r => some (before == '-', r)
  | c :: r => skipComment c r
  | [] => none

/-- After `{%`: the text behind a statement that is the single word `name`, and whether a dash
stands before its end. -/
def loneWord? (name : String) (cs : List Char) : Option (Bool × List Char) :=
  match Text.dropStart? name.toList (skipSpace cs) with
  | none => none
  | some r =>
    match skipSpace r with
    | '-' :: '%' :: '}' :: r' => some (true, r')
    | '+' :: '%' :: '}' :: r' => some (false, r')
    | '%' :: '}' :: r' => some (false, r')
    | _ => none

/-- The sign that may follow the opening of a block: whether it removes white space, and what is
left. -/
def openMark (cs : List Char) : Bool × List Char :=
  match cs with
  | '-' :: r => (true, r)
  | '+' :: r => (false, r)
  | r => (false, r)

/-- The verbatim text up to the statement that ends it, whether the white space before and after
that statement is removed, and the rest. -/
def splitRaw : List Char → Option (List Char × Bool × Bool × List Char)
  | '{' :: '%' :: r =>
    let (trimBefore, r') := openMark r
    match loneWord? "endraw" r' with
    | some (trimAfter, rest) => some ([], trimBefore, trimAfter, rest)
    | none => (splitRaw r).map fun (s, x) => ('{' :: '%' :: s, x)
  | c :: r => (splitRaw r).map fun (s, x) => (c :: s, x)
  | [] => none

/-- The token of a text, none for an empty one. -/
def ofText (cs : List Char) : List Token :=
  match cs with
  | [] => []
  | _ => [.text (String.ofList cs)]

/-- What is being split: text, with `trim` when the white space at its start goes, or the inside
of a block with a number of open brackets. -/
inductive Place where
  | text (trim : Bool)
  | output (open_ : Nat)
  | statement (open_ : Nat)

/-- The tokens of a text, with a bound on their number. -/
def scan : Nat → Place → List Char → List Token
  | 0, _, _ => []
  | fuel + 1, .text trim, cs =>
    match cs with
    | [] => []
    | _ =>
      let (lead, rest) := splitText cs
      let lead := if trim then Text.trimStartChars lead else lead
      match rest with
      | '{' :: k :: r =>
        let (trimBefore, r') := openMark r
        let lead := if trimBefore then Text.trimEndChars lead else lead
        if k == '#' then
          match skipComment '#' r' with
          | none => ofText lead ++ [.fault .malformed]
          | some (trimAfter, r'') => ofText lead ++ scan fuel (.text trimAfter) r''
        else if k == '{' then ofText lead ++ .outputStart :: scan fuel (.output 0) r'
        else
          match loneWord? "raw" r' with
          | some (trimStart, body) =>
            match splitRaw body with
            | none => ofText lead ++ [.fault .malformed]
            | some (raw, trimEnd, trimAfter, r'') =>
              let raw := if trimStart then Text.trimStartChars raw else raw
              let raw := if trimEnd then Text.trimEndChars raw else raw
              ofText lead ++ ofText raw ++ scan fuel (.text trimAfter) r''
          | none => ofText lead ++ .blockStart :: scan fuel (.statement 0) r'
      | _ => ofText lead
  | fuel + 1, .output n, cs =>
    let cs := skipSpace cs
    match n, cs with
    | 0, '-' :: '}' :: '}' :: r => .outputEnd :: scan fuel (.text true) r
    | 0, '+' :: '}' :: '}' :: r => .outputEnd :: scan fuel (.text false) r
    | 0, '}' :: '}' :: r => .outputEnd :: scan fuel (.text false) r
    | _, [] => []
    | _, _ =>
      match next cs with
      | (.fault e, _) => [.fault e]
      | (t, r) => t :: scan fuel (.output (bracketChange t n)) r
  | fuel + 1, .statement n, cs =>
    let cs := skipSpace cs
    match n, cs with
    | 0, '-' :: '%' :: '}' :: r => .blockEnd :: scan fuel (.text true) r
    | 0, '+' :: '%' :: '}' :: r => .blockEnd :: scan fuel (.text false) r
    | 0, '%' :: '}' :: r => .blockEnd :: scan fuel (.text false) r
    | _, [] => []
    | _, _ =>
      match next cs with
      | (.fault e, _) => [.fault e]
      | (t, r) => t :: scan fuel (.statement (bracketChange t n)) r

/-- A text without one line end at its end. -/
def dropLineEnd (cs : List Char) : List Char :=
  let cs := if cs.getLast? == some '\n' then cs.dropLast else cs
  if cs.getLast? == some '\r' then cs.dropLast else cs

/-- The tokens of a template. -/
def ofTemplate (s : String) : List Token :=
  let cs := dropLineEnd s.toList
  scan (cs.length + 1) (.text false) cs

/-- The tokens of an expression on its own. -/
def ofExpression (s : String) : List Token :=
  let cs := dropLineEnd s.toList
  scan (cs.length + 1) (.output 0) cs

end Token
end Runbook.Template

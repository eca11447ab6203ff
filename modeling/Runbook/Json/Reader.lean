import Runbook.Json.Basic

/-!
# Reading JSON text

`Json.read` reads one JSON document. A fault names its cause and where it was found; the place is
kept as the text that was left, and `ReadError.message` turns it into a line and a column counted
in bytes. An integer that fits neither the signed nor the unsigned 64-bit range becomes a double;
at most 127 brackets may be open at once; of two fields with one key the last wins.
-/

namespace Runbook.Json

/-- Why a text is no JSON document. -/
inductive ReadCause where
  | endInValue | endInList | endInObject | endInString
  | expectedColon | expectedListEnd | expectedObjectEnd | expectedIdent | expectedValue
  | invalidEscape | invalidNumber | numberOutOfRange | controlCharacter | keyNotString
  | trailingComma | trailingCharacters | loneSurrogate | unfinishedSurrogate | tooDeep
  deriving Repr, BEq, DecidableEq

/-- The wording of a cause. -/
def ReadCause.message : ReadCause → String
  | .endInValue => "EOF while parsing a value"
  | .endInList => "EOF while parsing a list"
  | .endInObject => "EOF while parsing an object"
  | .endInString => "EOF while parsing a string"
  | .expectedColon => "expected `:`"
  | .expectedListEnd => "expected `,` or `]`"
  | .expectedObjectEnd => "expected `,` or `\x7d`"
  | .expectedIdent => "expected ident"
  | .expectedValue => "expected value"
  | .invalidEscape => "invalid escape"
  | .invalidNumber => "invalid number"
  | .numberOutOfRange => "number out of range"
  | .controlCharacter => "control character (\\u0000-\\u001F) found while parsing a string"
  | .keyNotString => "key must be a string"
  | .trailingComma => "trailing comma"
  | .trailingCharacters => "trailing characters"
  | .loneSurrogate => "lone leading surrogate in hex escape"
  | .unfinishedSurrogate => "unexpected end of hex escape"
  | .tooDeep => "recursion limit exceeded"

/-- A fault: its cause, the text left when it was found, and whether the next character of that
text (rather than the one before it) is to blame. -/
structure ReadFault where
  cause : ReadCause
  rest : List Char
  ahead : Bool

/-- A fault placed in its document. -/
structure ReadError where
  cause : ReadCause
  line : Nat
  column : Nat
  deriving Repr, BEq

/-- The wording of a placed fault. -/
def ReadError.message (e : ReadError) : String :=
  e.cause.message ++ " at line " ++ toString e.line ++ " column " ++ toString e.column

/-- The number of bytes of a list of characters. -/
def byteLength (cs : List Char) : Nat := cs.foldl (fun n c => n + c.utf8Size) 0

/-- Line and column of the byte offset `target`, reading from offset `at_` in line `line` whose
first byte is at `start`. -/
def placeFrom (target at_ line start : Nat) : List Char → Nat × Nat
  | [] => (line, target - start)
  | c :: cs =>
    if at_ < target then
      if c == '\n' then placeFrom target (at_ + 1) (line + 1) (at_ + 1) cs
      else placeFrom target (at_ + c.utf8Size) line start cs
    else (line, target - start)

/-- The fault with its line and column in the whole text. -/
def ReadFault.place (whole : List Char) (f : ReadFault) : ReadError :=
  let total := byteLength whole
  let index := total - byteLength f.rest
  let index := if f.ahead then min total (index + 1) else index
  let (line, column) := placeFrom index 0 1 0 whole
  ⟨f.cause, line, column⟩

/-- A reader gives a value and the text that follows it. -/
abbrev Read (α : Type) := Except ReadFault (α × List Char)

/-- The fault of the next character. -/
def ahead {α : Type} (cause : ReadCause) (rest : List Char) : Except ReadFault α :=
  .error ⟨cause, rest, true⟩

/-- The fault of the characters just read. -/
def behind {α : Type} (cause : ReadCause) (rest : List Char) : Except ReadFault α :=
  .error ⟨cause, rest, false⟩

/-- White space between the tokens of a document. -/
def isSpace (c : Char) : Bool := c == ' ' || c == '\n' || c == '\t' || c == '\r'

/-- The text after white space. -/
def skipSpace (cs : List Char) : List Char := cs.dropWhile isSpace

/-- The rest of a word such as `null` after its first letter. -/
def readWord (value : Json) : List Char → List Char → Read Json
  | [], cs => .ok (value, cs)
  | _ :: _, [] => behind .endInValue []
  | w :: ws, c :: cs => if w == c then readWord value ws cs else behind .expectedIdent cs

/-! ## Numbers -/

/-- The value of a decimal digit. -/
def digitValue (c : Char) : Nat := c.toNat - 48

/-- The largest unsigned 64-bit integer. -/
def maxUnsigned : Nat := 18446744073709551615

/-- The double nearest to `significand`, scaled by a power of ten in steps of at most `1e308`.
None when it is not finite. -/
def scaled (significand : Nat) (exponent : Int) : Option Float :=
  let f := significand.toUInt64.toFloat
  let power (n : Nat) : Float := Float.ofScientific 1 false n
  if exponent ≥ 0 then
    if exponent ≤ 308 then
      let r := f * power exponent.toNat
      if r.isInf then none else some r
    else if f == 0.0 then some f
    else none
  else
    let n := exponent.natAbs
    if n ≤ 308 then some (f / power n)
    else if f == 0.0 then some f
    else
      let f := f / power 308
      let n := n - 308
      if n ≤ 308 then some (f / power n)
      else some (f / power 308 / power 308)

/-- The double of a sign, a significand and a power of ten. -/
def doubleOf (positive : Bool) (significand : Nat) (exponent : Int) (cs : List Char) : Read Json :=
  match scaled significand exponent with
  | some f => .ok (.double (if positive then f else -f), cs)
  | none => behind .numberOutOfRange cs

/-- The digits of an exponent after the first. -/
def readExponentDigits (positive positiveExp : Bool) (significand : Nat) (start : Int) (exp : Nat) :
    List Char → Read Json
  | c :: cs =>
    if c.isDigit then
      let exp := exp * 10 + digitValue c
      if exp > 2147483647 then
        if significand != 0 && positiveExp then behind .numberOutOfRange cs
        else .ok (.double (if positive then 0.0 else -0.0), cs.dropWhile Char.isDigit)
      else readExponentDigits positive positiveExp significand start exp cs
    else doubleOf positive significand (if positiveExp then start + exp else start - exp) (c :: cs)
  | [] => doubleOf positive significand (if positiveExp then start + exp else start - exp) []

/-- An exponent, after its `e`. -/
def readExponent (positive : Bool) (significand : Nat) (start : Int) (cs : List Char) :
    Read Json :=
  let (positiveExp, cs) := match cs with
    | '+' :: r => (true, r)
    | '-' :: r => (false, r)
    | r => (true, r)
  match cs with
  | [] => behind .endInValue []
  | c :: r =>
    if c.isDigit then readExponentDigits positive positiveExp significand start (digitValue c) r
    else behind .invalidNumber r

/-- What follows the digits of a number with a fraction. -/
def readAfterFraction (positive : Bool) (significand : Nat) (exponent : Int) (cs : List Char) :
    Read Json :=
  match cs with
  | 'e' :: r => readExponent positive significand exponent r
  | 'E' :: r => readExponent positive significand exponent r
  | _ => doubleOf positive significand exponent cs

/-- The digits after the decimal point; digits that no longer fit 64 bits are left out. -/
def readFraction (positive : Bool) (significand : Nat) (before : Int) (after : Nat) :
    List Char → Read Json
  | c :: cs =>
    if c.isDigit then
      let next := significand * 10 + digitValue c
      if next > maxUnsigned then
        readAfterFraction positive significand (before - after) (cs.dropWhile Char.isDigit)
      else readFraction positive next before (after + 1) cs
    else if after == 0 then ahead .invalidNumber (c :: cs)
    else readAfterFraction positive significand (before - after) (c :: cs)
  | [] =>
    if after == 0 then ahead .endInValue []
    else doubleOf positive significand (before - after) []

/-- An integer too large for 64 bits: only the number of its further digits matters. -/
def readLong (positive : Bool) (significand : Nat) (exponent : Nat) : List Char → Read Json
  | c :: cs =>
    if c.isDigit then readLong positive significand (exponent + 1) cs
    else if c == '.' then readFraction positive significand exponent 0 cs
    else readAfterFraction positive significand exponent (c :: cs)
  | [] => doubleOf positive significand exponent []

/-- What follows the digits of an integer that fits 64 bits. -/
def readAfterInteger (positive : Bool) (significand : Nat) (cs : List Char) : Read Json :=
  match cs with
  | '.' :: r => readFraction positive significand 0 0 r
  | 'e' :: r => readExponent positive significand 0 r
  | 'E' :: r => readExponent positive significand 0 r
  | _ =>
    if positive then .ok (.int significand, cs)
    else if significand == 0 || significand > 9223372036854775808 then
      .ok (.double (-significand.toUInt64.toFloat), cs)
    else .ok (.int (-significand), cs)

/-- The digits of an integer after the first. -/
def readInteger (positive : Bool) (significand : Nat) : List Char → Read Json
  | c :: cs =>
    if c.isDigit then
      let next := significand * 10 + digitValue c
      if next > maxUnsigned then readLong positive significand 0 (c :: cs)
      else readInteger positive next cs
    else readAfterInteger positive significand (c :: cs)
  | [] => readAfterInteger positive significand []

/-- A number after its sign. -/
def readNumber (positive : Bool) (cs : List Char) : Read Json :=
  match cs with
  | [] => behind .endInValue []
  | '0' :: r =>
    match r with
    | d :: _ => if d.isDigit then ahead .invalidNumber r else readAfterInteger positive 0 r
    | [] => readAfterInteger positive 0 []
  | c :: r =>
    if c.isDigit then readInteger positive (digitValue c) r else behind .invalidNumber r

/-! ## Texts -/

/-- The value of a hexadecimal digit. -/
def hexValue? (c : Char) : Option Nat :=
  if '0' ≤ c && c ≤ '9' then some (c.toNat - 48)
  else if 'a' ≤ c && c ≤ 'f' then some (c.toNat - 87)
  else if 'A' ≤ c && c ≤ 'F' then some (c.toNat - 55)
  else none

/-- Four hexadecimal digits. -/
def readHex4 (cs : List Char) : Read Nat :=
  match cs with
  | a :: b :: c :: d :: r =>
    match hexValue? a, hexValue? b, hexValue? c, hexValue? d with
    | some a, some b, some c, some d => .ok (((a * 16 + b) * 16 + c) * 16 + d, r)
    | _, _, _, _ => behind .invalidEscape r
  | _ => behind .endInString []

/-- The character of a hexadecimal escape, after its `u`; a character beyond the first plane takes
two escapes. -/
def readUnicode (cs : List Char) : Read Char :=
  match readHex4 cs with
  | .error e => .error e
  | .ok (n, r) =>
    if 0xDC00 ≤ n && n ≤ 0xDFFF then behind .loneSurrogate r
    else if 0xD800 ≤ n && n ≤ 0xDBFF then
      match r with
      | [] => behind .endInString []
      | '\\' :: [] => behind .endInString []
      | '\\' :: 'u' :: r' =>
        match readHex4 r' with
        | .error e => .error e
        | .ok (m, r'') =>
          if 0xDC00 ≤ m && m ≤ 0xDFFF then
            .ok (Char.ofNat (0x10000 + (n - 0xD800) * 1024 + (m - 0xDC00)), r'')
          else behind .loneSurrogate r''
      | '\\' :: _ :: r' => behind .unfinishedSurrogate r'
      | _ :: r' => behind .unfinishedSurrogate r'
    else .ok (Char.ofNat n, r)

/-- The character of an escape, after its backslash. -/
def readEscape (cs : List Char) : Read Char :=
  match cs with
  | [] => behind .endInString []
  | 'u' :: r => readUnicode r
  | c :: r =>
    match c with
    | '"' => .ok ('"', r)
    | '\\' => .ok ('\\', r)
    | '/' => .ok ('/', r)
    | 'b' => .ok (Char.ofNat 8, r)
    | 'f' => .ok (Char.ofNat 12, r)
    | 'n' => .ok ('\n', r)
    | 'r' => .ok ('\r', r)
    | 't' => .ok ('\t', r)
    | _ => behind .invalidEscape r

/-- A text after its opening quote; `acc` holds the characters read so far, the last one first. -/
def readText : Nat → List Char → List Char → Read String
  | 0, _, cs => behind .endInString cs
  | fuel + 1, acc, cs =>
    match cs with
    | [] => behind .endInString []
    | '"' :: r => .ok (String.ofList acc.reverse, r)
    | '\\' :: r =>
      match readEscape r with
      | .error e => .error e
      | .ok (c, r') => readText fuel (c :: acc) r'
    | c :: r =>
      if c.toNat < 32 then behind .controlCharacter r else readText fuel (c :: acc) r

/-! ## Values -/

mutual
/-- One value, with `depth` brackets that may still be opened. -/
def readValue : Nat → Nat → List Char → Read Json
  | 0, _, cs => ahead .endInValue cs
  | fuel + 1, depth, cs =>
    match skipSpace cs with
    | [] => ahead .endInValue []
    | 'n' :: r => readWord .null "ull".toList r
    | 't' :: r => readWord (.bool true) "rue".toList r
    | 'f' :: r => readWord (.bool false) "alse".toList r
    | '-' :: r => readNumber false r
    | '"' :: r =>
      match readText (fuel + 1) [] r with
      | .error e => .error e
      | .ok (s, r') => .ok (.str s, r')
    | '[' :: r =>
      match depth with
      | 0 => ahead .tooDeep ('[' :: r)
      | 1 => ahead .tooDeep ('[' :: r)
      | d + 1 => readItems fuel d true [] r
    | '{' :: r =>
      match depth with
      | 0 => ahead .tooDeep ('{' :: r)
      | 1 => ahead .tooDeep ('{' :: r)
      | d + 1 => readFields fuel d true [] r
    | c :: r => if c.isDigit then readNumber true (c :: r) else ahead .expectedValue (c :: r)

/-- The items of an array; `acc` holds those read so far, the last one first. -/
def readItems : Nat → Nat → Bool → List Json → List Char → Read Json
  | 0, _, _, _, cs => ahead .endInList cs
  | fuel + 1, depth, first, acc, cs =>
    match skipSpace cs with
    | [] => ahead .endInList []
    | ']' :: r => .ok (.arr acc.reverse, r)
    | c :: r =>
      let item : Except ReadFault (List Char) :=
        if first then .ok (c :: r)
        else if c == ',' then
          match skipSpace r with
          | [] => ahead .endInValue []
          | ']' :: r' => ahead .trailingComma (']' :: r')
          | r' => .ok r'
        else ahead .expectedListEnd (c :: r)
      match item with
      | .error e => .error e
      | .ok start =>
        match readValue fuel depth start with
        | .error e => .error e
        | .ok (v, r') => readItems fuel depth false (v :: acc) r'

/-- The fields of an object; `acc` holds those read so far, in order of their keys. -/
def readFields : Nat → Nat → Bool → Fields → List Char → Read Json
  | 0, _, _, _, cs => ahead .endInObject cs
  | fuel + 1, depth, first, acc, cs =>
    match skipSpace cs with
    | [] => ahead .endInObject []
    | '}' :: r => .ok (.obj acc, r)
    | c :: r =>
      let key : Except ReadFault (List Char) :=
        if first then
          if c == '"' then .ok r else ahead .keyNotString (c :: r)
        else if c == ',' then
          match skipSpace r with
          | [] => ahead .endInValue []
          | '"' :: r' => .ok r'
          | '}' :: r' => ahead .trailingComma ('}' :: r')
          | r' => ahead .keyNotString r'
        else ahead .expectedObjectEnd (c :: r)
      match key with
      | .error e => .error e
      | .ok start =>
        match readText (fuel + 1) [] start with
        | .error e => .error e
        | .ok (k, r') =>
          match skipSpace r' with
          | [] => ahead .endInObject []
          | ':' :: r'' =>
            match readValue fuel depth r'' with
            | .error e => .error e
            | .ok (v, r''') => readFields fuel depth false (Table.insert k v acc) r'''
          | r'' => ahead .expectedColon r''
end

/-- A whole document: one value with nothing but white space around it. -/
def readChars (cs : List Char) : Except ReadFault Json :=
  match readValue (2 * cs.length + 2) 128 cs with
  | .error e => .error e
  | .ok (v, r) =>
    match skipSpace r with
    | [] => .ok v
    | r' => ahead .trailingCharacters r'

/-- Reads a JSON document. -/
def read (s : String) : Except ReadError Json :=
  let cs := s.toList
  match readChars cs with
  | .ok v => .ok v
  | .error f => .error (f.place cs)

end Runbook.Json

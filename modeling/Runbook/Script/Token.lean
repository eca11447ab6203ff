import Runbook.Decimal.Parse
import Runbook.Script.Value
import Runbook.Text.Blank

/-!
# Tokens of scripts

`Token.ofScript` splits the text of a script. A text between backticks may hold code: its pieces
are tokens of their own (`Token.piece`), each followed by the tokens of the code in braces, and its
last piece is an ordinary text. A character that starts no token, an unfinished text and a number
that cannot be read end the list with `Token.fault`.
-/

namespace Runbook.Script

/-- A token of a script. -/
inductive Token where
  | int (i : Int)
  | float (x : Float)
  | char (c : Char)
  | str (s : String)
  | piece (s : String)
  | ident (name : String)
  | special (name : String)
  | keyword (name : String)
  | reserved (name : String)
  | sign (s : String)
  | fault (detail : String)
  deriving Inhabited

namespace Token

/-! ## Names -/

/-- The words of the language. -/
def keywords : List String :=
  ["true", "false", "let", "const", "if", "else", "switch", "do", "while", "until", "loop", "for",
   "in", "continue", "break", "return", "throw", "try", "catch", "fn", "private", "import", "export",
   "as", "this"]

/-- The words that are kept free. -/
def reservedWords : List String :=
  ["public", "protected", "super", "new", "use", "module", "package", "var", "static", "shared",
   "with", "is", "goto", "match", "case", "default", "void", "null", "nil", "spawn", "thread", "go",
   "sync", "async", "await", "yield"]

/-- The names that can be called and nothing else. -/
def specialNames : List String :=
  ["print", "debug", "type_of", "eval", "Fn", "call", "curry", "is_shared", "is_def_var",
   "is_def_fn"]

/-- Whether a name has a letter after its leading underscores. -/
def isProperName (cs : List Char) : Bool :=
  match cs.dropWhile (· == '_') with
  | c :: _ => c.isAlpha
  | [] => false

/-- The token of a word. -/
def ofWord (cs : List Char) : Token :=
  let s := String.ofList cs
  if keywords.contains s then .keyword s
  else if reservedWords.contains s then .reserved s
  else if specialNames.contains s then .special s
  else if s == "_" then .sign "_"
  else if isProperName cs then .ident s
  else .fault ("'" ++ s ++ "' is not a proper identifier")

/-- A character inside a name. -/
def isNameChar (c : Char) : Bool := c.isAlphanum || c == '_'

/-! ## Numbers -/

/-- The value of a hexadecimal digit. -/
def hexValue? (c : Char) : Option Nat :=
  if '0' ≤ c && c ≤ '9' then some (c.toNat - 48)
  else if 'a' ≤ c && c ≤ 'f' then some (c.toNat - 87)
  else if 'A' ≤ c && c ≤ 'F' then some (c.toNat - 55)
  else none

/-- Digits in a base as a number. -/
def natOfBase? (base : Nat) (cs : List Char) : Option Nat :=
  match cs with
  | [] => none
  | _ => cs.foldl (fun acc c => do
      let n ← acc
      let d ← hexValue? c
      if d < base then some (n * base + d) else none) (some 0)

/-- The base that a letter after a leading zero stands for. -/
def baseOf? (c : Char) : Option Nat :=
  if c == 'x' || c == 'X' then some 16
  else if c == 'o' || c == 'O' then some 8
  else if c == 'b' || c == 'B' then some 2
  else none

/-- The characters of a number, in reverse, and what comes after it. A point belongs to the number
when a digit follows, or anything that cannot start the name of a property; an `e` does when a
digit or a sign follows. -/
def scanNumber (base : Option Nat) (acc : List Char) :
    List Char → Option Nat × List Char × List Char
  | [] => (base, acc, [])
  | c :: r =>
    let stop := (base, acc, c :: r)
    let isDigit := if base == some 16 then (hexValue? c).isSome else c.isDigit
    if c == '_' then scanNumber base acc r
    else if isDigit then scanNumber base (c :: acc) r
    else if c == '.' then
      match r.head? with
      | some d =>
        if d.isDigit then scanNumber base ('.' :: acc) r
        else if d == '_' || d == '.' || d.isAlpha then stop
        else scanNumber base ('0' :: '.' :: acc) r
      | none => stop
    else if c == 'e' && base.isNone then
      if r.head?.any fun d => d.isDigit || d == '+' || d == '-' then scanNumber base ('e' :: acc) r
      else stop
    else if (c == '+' || c == '-') && base.isNone && acc.head? == some 'e' then
      scanNumber base (c :: acc) r
    else if acc == ['0'] && base.isNone then
      match baseOf? c with
      | some b => scanNumber (some b) [] r
      | none => stop
    else stop

/-- An integer brought into the range of 64 bits with a sign. -/
def wrap64 (n : Int) : Int := Int.bmod n (Nat.pow 2 64)

/-- The token of a number: an integer, or a double when it has a point, an exponent or too many
digits. With a base it may use all 64 bits. -/
def ofNumber (negative : Bool) (base : Option Nat) (cs : List Char) : Token :=
  let text := if negative then '-' :: cs else cs
  match base with
  | some b =>
    match natOfBase? b cs with
    | some n =>
      if n < Nat.pow 2 64 then .int (if negative then wrap64 (-(wrap64 n)) else wrap64 n)
      else .fault ("malformed number: " ++ String.ofList cs)
    | none => .fault ("malformed number: " ++ String.ofList cs)
  | none =>
    match Decimal.int64? text with
    | some i => .int i
    | none =>
      match Decimal.double? (String.ofList text) with
      | some x => .float x
      | none => .fault ("malformed number: " ++ String.ofList text)

/-! ## Texts -/

/-- The character with a given number. -/
def charOf? (n : Nat) : Option Char :=
  if n < 0xD800 || (0xDFFF < n && n < 0x110000) then some (Char.ofNat n) else none

/-- The character that hexadecimal digits stand for. -/
def escaped? (cs : List Char) : Option Char := (natOfBase? 16 cs).bind charOf?

/-- The characters of a text up to its closing quote, in reverse, and what comes after it. A quote
written twice stands for itself. -/
def scanText (quote : Char) (acc : List Char) : List Char → Option (List Char × List Char)
  | [] => none
  | '\\' :: 'x' :: a :: b :: r => (escaped? [a, b]).bind fun c => scanText quote (c :: acc) r
  | '\\' :: 'u' :: a :: b :: c :: d :: r =>
    (escaped? [a, b, c, d]).bind fun x => scanText quote (x :: acc) r
  | '\\' :: 'U' :: a :: b :: c :: d :: e :: f :: g :: h :: r =>
    (escaped? [a, b, c, d, e, f, g, h]).bind fun x => scanText quote (x :: acc) r
  | '\\' :: c :: r =>
    if c == '\\' then scanText quote ('\\' :: acc) r
    else if c == 't' then scanText quote ('\t' :: acc) r
    else if c == 'n' then scanText quote ('\n' :: acc) r
    else if c == 'r' then scanText quote ('\r' :: acc) r
    else if c == quote then scanText quote (quote :: acc) r
    else if c == '\n' then scanText quote acc r
    else none
  | '\\' :: [] => none
  | c :: d :: r =>
    if c == quote then
      if d == quote then scanText quote (quote :: acc) r else some (acc, d :: r)
    else if c == '\n' then none
    else scanText quote (c :: acc) (d :: r)
  | c :: [] => if c == quote then some (acc, []) else none

/-- The characters of a text between backticks up to its end or to a piece of code, in reverse;
whether code follows; and what comes after. -/
def scanPiece (acc : List Char) : List Char → Option (List Char × Bool × List Char)
  | [] => none
  | '`' :: '`' :: r => scanPiece ('`' :: acc) r
  | '`' :: r => some (acc, false, r)
  | '$' :: '{' :: r => some (acc, true, '{' :: r)
  | c :: r => scanPiece (c :: acc) r

/-- Drops the line end right after an opening backtick. -/
def dropFirstLineEnd : List Char → List Char
  | '\r' :: '\n' :: r => r
  | '\n' :: r => r
  | r => r

/-- The characters of a raw text up to a quote and as many hashes as stand before it. -/
def scanRaw (hashes : List Char) (acc : List Char) : List Char → Option (List Char × List Char)
  | [] => none
  | c :: r =>
    if c == '"' && hashes.isPrefixOf r then some (acc, r.drop hashes.length)
    else scanRaw hashes (c :: acc) r

/-- What comes after a comment between `/*` and `*/`; comments nest. -/
def skipComment (depth : Nat) : List Char → List Char
  | [] => []
  | '/' :: '*' :: r => skipComment (depth + 1) r
  | '*' :: '/' :: r => if depth ≤ 1 then r else skipComment (depth - 1) r
  | _ :: r => skipComment depth r

/-! ## Signs -/

/-- The signs, longer ones before those they start with. -/
def signs : List String :=
  ["..=", "...", "..", ".", "===", "==", "=>", "=", "!==", "!=", "!.", "!", "**=", "**", "*=", "*)",
   "*", "++", "+=", "+", "--", "-=", "->", "-", "/=", "/", "%=", "%", "<<=", "<<", "<=", "<-", "<|",
   "<", ">>=", ">>", ">=", ">", "||", "|=", "|>", "|", "&&", "&=", "&", "^=", "^", "::<", "::", ":=",
   ":;", ":", "?.", "?[", "??", "?", ",", ";", "(*", "(", ")", "[", "]", "\x7b", "\x7d", "#\x7b",
   "~", "@", "$", "#"]

/-- The signs that no script may use. -/
def reservedSigns : List String :=
  ["===", "!==", "->", "<-", "?", ":=", ":;", "~", "!.", "::<", "(*", "*)", "#", "@", "$", "++", "--",
   "...", "<|", "|>"]

/-- The sign that a text starts with, and what comes after it. -/
def scanSign? (cs : List Char) : Option (String × List Char) :=
  (signs.find? fun s => s.toList.isPrefixOf cs).map fun s => (s, cs.drop s.toList.length)

/-- Whether a minus after the token is the sign of a number. -/
def startsOperand : Token → Bool
  | .sign s => !(s == ")" || s == "]" || s == "\x7d" || s == "." || s == "?." || s == "_")
  | .keyword k => !(k == "true" || k == "false" || k == "this")
  | .piece _ => true
  | _ => false

/-! ## The whole script -/

/-- Where the splitting stands: the tokens so far in reverse, and for each text with code around
the current place how many braces are open in it. -/
structure Progress where
  tokens : List Token
  openBraces : List Nat

/-- The progress with one more token. -/
def Progress.push (p : Progress) (t : Token) : Progress := { p with tokens := t :: p.tokens }

/-- Whether a minus at this place is the sign of a number. -/
def Progress.atOperand (p : Progress) : Bool :=
  match p.tokens with
  | [] => true
  | t :: _ => t.startsOperand

/-- The progress after a sign; braces are counted. -/
def Progress.pushSign (p : Progress) (s : String) : Progress :=
  let t : Token :=
    if reservedSigns.contains s then .fault ("'" ++ s ++ "' is reserved") else .sign s
  let openBraces := match p.openBraces with
    | [] => []
    | n :: ns =>
      if s == "\x7b" || s == "#\x7b" then (n + 1) :: ns
      else if s == "\x7d" then (n - 1) :: ns
      else n :: ns
  ⟨t :: p.tokens, openBraces⟩

/-- The next piece of a text between backticks. -/
def Progress.pushPiece (p : Progress) (cs : List Char) : Progress × List Char :=
  match scanPiece [] cs with
  | none => (p.push (.fault "open string is not terminated"), [])
  | some (acc, true, r) =>
    (⟨.piece (String.ofList acc.reverse) :: p.tokens, 0 :: p.openBraces⟩, r)
  | some (acc, false, r) => (p.push (.str (String.ofList acc.reverse)), r)

/-- The token of a character between single quotes. -/
def ofCharacter (acc : List Char) : Token :=
  match acc with
  | [c] => .char c
  | _ => .fault "malformed character"

/-- A number at this place, with its sign. -/
def Progress.pushNumber (p : Progress) (negative : Bool) (cs : List Char) : Progress × List Char :=
  let (base, acc, r) := scanNumber none [] cs
  (p.push (ofNumber negative base acc.reverse), r)

/-- One token, comment or stretch of white space. -/
def Progress.step (p : Progress) (cs : List Char) : Progress × List Char :=
  match cs with
  | [] => (p, [])
  | '/' :: '/' :: r => (p, r.dropWhile (· != '\n'))
  | '/' :: '*' :: r => (p, skipComment 1 r)
  | '"' :: r =>
    match scanText '"' [] r with
    | some (acc, r) => (p.push (.str (String.ofList acc.reverse)), r)
    | none => (p.push (.fault "open string is not terminated"), [])
  | '\'' :: '\'' :: _ => (p.push (.fault "malformed character"), [])
  | '\'' :: r =>
    match scanText '\'' [] r with
    | some (acc, r) => (p.push (ofCharacter acc), r)
    | none => (p.push (.fault "malformed character"), [])
  | '`' :: r => p.pushPiece (dropFirstLineEnd r)
  | '#' :: '!' :: r =>
    if p.tokens.isEmpty then (p, r.dropWhile (· != '\n'))
    else (p.push (.fault "'#!' is reserved"), [])
  | '!' :: 'i' :: 'n' :: r =>
    if r.head?.any isNameChar then (p.pushSign "!", 'i' :: 'n' :: r) else (p.pushSign "!in", r)
  | c :: r =>
    if Text.isBlank c then (p, r)
    else if c.isDigit then p.pushNumber false cs
    else if c == '-' && p.atOperand && r.head?.any Char.isDigit then p.pushNumber true r
    else if c.isAlpha || c == '_' then
      (p.push (ofWord (cs.takeWhile isNameChar)), cs.dropWhile isNameChar)
    else if c == '#' && (cs.dropWhile (· == '#')).head? == some '"' then
      match scanRaw (cs.takeWhile (· == '#')) [] ((cs.dropWhile (· == '#')).drop 1) with
      | some (acc, r) => (p.push (.str (String.ofList acc.reverse)), r)
      | none => (p.push (.fault "open string is not terminated"), [])
    else
      match scanSign? cs with
      | some (s, r) => (p.pushSign s, r)
      | none => (p.push (.fault "unexpected character"), [])

/-- Whether the code inside of a text has just been closed. -/
def Progress.codeClosed (p : Progress) : Bool :=
  match p.tokens, p.openBraces with
  | .sign "\x7d" :: _, 0 :: _ => true
  | _, _ => false

/-- Whether the last token is a fault. -/
def Progress.failed (p : Progress) : Bool :=
  match p.tokens with
  | .fault _ :: _ => true
  | _ => false

/-- Splits what is left, token by token. -/
def Progress.run : Nat → Progress → List Char → Progress
  | 0, p, _ => p
  | fuel + 1, p, cs =>
    if p.failed || cs.isEmpty then p
    else
      let (p, r) := p.step cs
      if p.codeClosed then
        let (p, r) := Progress.pushPiece { p with openBraces := p.openBraces.drop 1 } r
        Progress.run fuel p r
      else Progress.run fuel p r

/-- The tokens of a script. -/
def ofScript (code : String) : List Token :=
  let cs := code.toList
  ((Progress.run (cs.length + 1) ⟨[], []⟩ cs).tokens).reverse

end Token
end Runbook.Script

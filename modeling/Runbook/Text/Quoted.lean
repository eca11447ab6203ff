/-!
# Quoted text in messages

A text in a message stands between double quotes; the quote, the backslash and control characters
are escaped.
-/

namespace Runbook.Text

/-- The hexadecimal digits of a number, in lower case and without leading zeros. -/
def hexDigits (n : Nat) : List Char := Nat.toDigits 16 n

/-- The hexadecimal digits of a number, with zeros in front up to `width` digits. -/
def hexPadded (width n : Nat) : List Char :=
  let ds := hexDigits n
  List.replicate (width - ds.length) '0' ++ ds

/-- Characters that have no visible form of their own: controls, format and private characters,
and the blanks other than the space. -/
def isUnprintable (c : Char) : Bool :=
  let n := c.toNat
  n < 32 || (127 ≤ n && n < 161) || n == 173 || (768 ≤ n && n < 880) || n == 5760 ||
    (8192 ≤ n && n ≤ 8207) || (8232 ≤ n && n ≤ 8239) || (8287 ≤ n && n ≤ 8303) || n == 12288 ||
    (57344 ≤ n && n ≤ 63743) || n == 65279 || (65529 ≤ n && n ≤ 65531) || 917504 ≤ n

/-- One character of a quoted text. -/
def quotedChar (c : Char) : List Char :=
  match c with
  | '"' => ['\\', '"']
  | '\\' => ['\\', '\\']
  | '\n' => ['\\', 'n']
  | '\r' => ['\\', 'r']
  | '\t' => ['\\', 't']
  | '\x00' => ['\\', '0']
  | c =>
    if isUnprintable c then ['\\', 'u', '{'] ++ hexDigits c.toNat ++ ['}'] else [c]

/-- The text between double quotes, with escapes. -/
def quoted (s : String) : String :=
  String.ofList ('"' :: s.toList.flatMap quotedChar ++ ['"'])

end Runbook.Text

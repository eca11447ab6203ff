/-!
# Base64

The standard alphabet with padding. `decode` accepts exactly the canonical written forms: full
groups of four symbols, padding only at the end, and no stray bits in the last symbol. A fault
names the offending byte and its offset.
-/

namespace Runbook.Text.Base64

/-- Why a text is no base64. -/
inductive Fault where
  | symbol (byte offset : Nat)
  | lastSymbol (byte offset : Nat)
  | length (n : Nat)
  | padding
  deriving Repr, BEq

/-- The wording of a fault. -/
def Fault.message : Fault → String
  | .symbol b i => "Invalid symbol " ++ toString b ++ ", offset " ++ toString i ++ "."
  | .lastSymbol b i => "Invalid last symbol " ++ toString b ++ ", offset " ++ toString i ++ "."
  | .length n => "Invalid input length: " ++ toString n
  | .padding => "Invalid padding"

/-- The symbol of a six-bit group. -/
def symbol (n : Nat) : Char :=
  if n < 26 then Char.ofNat (65 + n)
  else if n < 52 then Char.ofNat (97 + n - 26)
  else if n < 62 then Char.ofNat (48 + n - 52)
  else if n == 62 then '+'
  else '/'

/-- The six-bit group of a symbol. -/
def value? (b : Nat) : Option Nat :=
  if 65 ≤ b && b ≤ 90 then some (b - 65)
  else if 97 ≤ b && b ≤ 122 then some (b - 71)
  else if 48 ≤ b && b ≤ 57 then some (b + 4)
  else if b == 43 then some 62
  else if b == 47 then some 63
  else none

/-- The symbols of a list of bytes. -/
def encodeBytes : List Nat → List Char
  | [] => []
  | [a] => [symbol (a / 4), symbol (a % 4 * 16), '=', '=']
  | [a, b] => [symbol (a / 4), symbol (a % 4 * 16 + b / 16), symbol (b % 16 * 4), '=']
  | a :: b :: c :: rest =>
    symbol (a / 4) :: symbol (a % 4 * 16 + b / 16) :: symbol (b % 16 * 4 + c / 64) ::
      symbol (c % 64) :: encodeBytes rest

/-- The bytes of a text. -/
def bytesOf (s : String) : List Nat := s.toUTF8.toList.map UInt8.toNat

/-- The base64 form of a text. -/
def encode (s : String) : String := String.ofList (encodeBytes (bytesOf s))

/-- The six-bit groups of the last, possibly padded, symbols: the groups, the number of padding
signs and the last symbol. `first` is the offset of the first padding sign. -/
def readTail (offset index : Nat) (groups : List Nat) (pads first last : Nat) :
    List Nat → Except Fault (List Nat × Nat × Nat)
  | [] => .ok (groups.reverse, pads, last)
  | b :: rest =>
    if b == 61 then
      if index < 2 then .error (.symbol b (offset + index))
      else readTail offset (index + 1) groups (pads + 1) (if pads == 0 then index else first) last
        rest
    else if pads > 0 then .error (.symbol 61 (offset + first))
    else match value? b with
      | none => .error (.symbol b (offset + index))
      | some v => readTail offset (index + 1) (v :: groups) pads first b rest

/-- The bytes of the last, possibly padded, symbols. -/
def decodeTail (offset : Nat) (bytes : List Nat) : Except Fault (List Nat) :=
  match readTail offset 0 [] 0 0 0 bytes with
  | .error e => .error e
  | .ok (groups, pads, last) =>
    if groups.length < 2 then .error (.length (offset + groups.length))
    else if (pads + groups.length) % 4 ≠ 0 then .error .padding
    else match groups with
      | [a, b] =>
        if b % 16 ≠ 0 then .error (.lastSymbol last (offset + 1)) else .ok [a * 4 + b / 16]
      | [a, b, c] =>
        if c % 4 ≠ 0 then .error (.lastSymbol last (offset + 2))
        else .ok [a * 4 + b / 16, b % 16 * 16 + c / 4]
      | [a, b, c, d] => .ok [a * 4 + b / 16, b % 16 * 16 + c / 4, c % 4 * 64 + d]
      | _ => .error .padding

/-- The offset of the first byte that is no symbol. -/
def firstBad (offset : Nat) : List Nat → Option Fault
  | [] => none
  | b :: rest => if (value? b).isNone then some (.symbol b offset) else firstBad (offset + 1) rest

/-- The bytes of a list of symbols, `offset` symbols into the text. -/
def decodeFrom (offset : Nat) : List Nat → Except Fault (List Nat)
  | a :: b :: c :: d :: e :: rest =>
    match firstBad offset [a, b, c, d] with
    | some f => .error f
    | none =>
      match decodeFrom (offset + 4) (e :: rest) with
      | .error f => .error f
      | .ok out =>
        let v (x : Nat) : Nat := (value? x).getD 0
        .ok ((v a * 4 + v b / 16) :: (v b % 16 * 16 + v c / 4) :: (v c % 4 * 64 + v d) :: out)
  | tail => decodeTail offset tail

/-- The bytes that a base64 text stands for. -/
def decode (s : String) : Except Fault (List Nat) :=
  let bytes := bytesOf s
  match bytes with
  | [] => .ok []
  | _ =>
    match bytes.length % 4, bytes.getLast? with
    | 1, some b =>
      if b ≠ 61 && (value? b).isNone then .error (.symbol b (bytes.length - 1))
      else decodeFrom 0 bytes
    | _, _ => decodeFrom 0 bytes

end Runbook.Text.Base64

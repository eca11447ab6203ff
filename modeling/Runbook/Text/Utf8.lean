/-!
# UTF-8

Reading bytes as text. `decode` names the first place where the bytes are no UTF-8; `decodeLossy`
puts the replacement character for every maximal run of bytes that cannot be continued.
-/

namespace Runbook.Text.Utf8

/-- Where bytes stop being UTF-8: after `good` bytes, followed by `bad` bytes that cannot be
completed (`none` when the bytes end inside a character). -/
structure Fault where
  good : Nat
  bad : Option Nat
  deriving Repr, BEq

/-- The wording of a fault. -/
def Fault.message (f : Fault) : String :=
  match f.bad with
  | some n => "invalid utf-8 sequence of " ++ toString n ++ " bytes from index " ++ toString f.good
  | none => "incomplete utf-8 byte sequence from index " ++ toString f.good

/-- A byte that continues a character. -/
def isContinuation (b : Nat) : Bool := 128 ≤ b && b < 192

/-- One step of reading: a character and the number of its bytes, or the number of bytes that
cannot start one (`none` when more bytes are needed). -/
inductive Step where
  | char (c : Char) (size : Nat)
  | bad (size : Nat)
  | unfinished (size : Nat)

/-- The range of second bytes that a first byte of a long character allows. -/
def secondRange (a : Nat) : Nat × Nat :=
  if a == 0xE0 then (0xA0, 0xBF)
  else if a == 0xED then (0x80, 0x9F)
  else if a == 0xF0 then (0x90, 0xBF)
  else if a == 0xF4 then (0x80, 0x8F)
  else (0x80, 0xBF)

/-- The character at the start of the bytes. -/
def step : List Nat → Step
  | [] => .unfinished 0
  | a :: rest =>
    if a < 0x80 then .char (Char.ofNat a) 1
    else if a < 0xC2 || a > 0xF4 then .bad 1
    else if a < 0xE0 then
      match rest with
      | [] => .unfinished 1
      | b :: _ =>
        if isContinuation b then .char (Char.ofNat ((a - 0xC0) * 64 + (b - 128))) 2 else .bad 1
    else
      let (lo, hi) := secondRange a
      match rest with
      | [] => .unfinished 1
      | b :: rest =>
        if b < lo || b > hi then .bad 1
        else match rest with
          | [] => .unfinished 2
          | c :: rest =>
            if !isContinuation c then .bad 2
            else if a < 0xF0 then
              .char (Char.ofNat (((a - 0xE0) * 64 + (b - 128)) * 64 + (c - 128))) 3
            else match rest with
              | [] => .unfinished 3
              | d :: _ =>
                if !isContinuation d then .bad 3
                else .char (Char.ofNat
                  ((((a - 0xF0) * 64 + (b - 128)) * 64 + (c - 128)) * 64 + (d - 128))) 4

/-- Characters from byte offset `good` on, in reverse, with a bound on the number of steps. -/
def decodeFrom : Nat → Nat → List Char → List Nat → Except Fault (List Char)
  | 0, _, acc, _ => .ok acc.reverse
  | fuel + 1, good, acc, bytes =>
    match bytes with
    | [] => .ok acc.reverse
    | _ =>
      match step bytes with
      | .char c n => decodeFrom fuel (good + n) (c :: acc) (bytes.drop n)
      | .bad n => .error ⟨good, some n⟩
      | .unfinished _ => .error ⟨good, none⟩

/-- The text of the bytes. -/
def decode (bytes : List Nat) : Except Fault String :=
  match decodeFrom (bytes.length + 1) 0 [] bytes with
  | .ok cs => .ok (String.ofList cs)
  | .error f => .error f

/-- Characters of the bytes with a bound on the number of steps, replacing what cannot be read. -/
def lossyFrom : Nat → List Char → List Nat → List Char
  | 0, acc, _ => acc.reverse
  | fuel + 1, acc, bytes =>
    match bytes with
    | [] => acc.reverse
    | _ =>
      match step bytes with
      | .char c n => lossyFrom fuel (c :: acc) (bytes.drop n)
      | .bad n => lossyFrom fuel (Char.ofNat 0xFFFD :: acc) (bytes.drop n)
      | .unfinished n => lossyFrom fuel (Char.ofNat 0xFFFD :: acc) (bytes.drop (max n 1))

/-- The text of the bytes, with replacement characters where they are no UTF-8. -/
def decodeLossy (bytes : List Nat) : String :=
  String.ofList (lossyFrom (bytes.length + 1) [] bytes)

end Runbook.Text.Utf8

import Runbook.Decimal.Parse
import Runbook.Text.Quoted

/-!
# Identifiers of runs

A run is named by 128 bits, written as 32 hexadecimal digits in groups of 8, 4, 4, 4 and 12.
`Identifier.parse` also reads the digits alone, in braces or behind `urn:uuid:`.
-/

namespace Runbook

/-- The 128 bits that name a run. -/
structure Identifier where
  bits : Nat
  deriving Repr, BEq, DecidableEq, Inhabited

namespace Identifier

/-- The identifier without a bit set. -/
def nil : Identifier := ⟨0⟩

/-- The identifier with random bits: the bits that tell how it was made have fixed values. -/
def ofRandom (bytes : List Nat) : Identifier :=
  let fixed (i b : Nat) : Nat :=
    if i == 6 then 64 + b % 16 else if i == 8 then 128 + b % 64 else b % 256
  ⟨((bytes.take 16).zipIdx.map fun (b, i) => fixed i b).foldl (fun n b => n * 256 + b) 0⟩

/-- The digits of an identifier in groups. -/
def text (i : Identifier) : String :=
  let ds := Text.hexPadded 32 i.bits
  let group (start n : Nat) := String.ofList ((ds.drop start).take n)
  String.intercalate "-" [group 0 8, group 8 4, group 12 4, group 16 4, group 20 12]

/-- Why a text is no identifier. -/
inductive Fault where
  | character (c : Char) (index : Nat)
  | plainLength (n : Nat)
  | groupCount (n : Nat)
  | groupLength (group expected found : Nat)
  deriving Repr, BEq, DecidableEq

/-- The wording of a fault. -/
def Fault.message : Fault → String
  | .character c i => "invalid character: found `" ++ c.toString ++ "` at " ++ toString i
  | .plainLength n =>
    "invalid length: expected length 32 for simple format, found " ++ toString n
  | .groupCount n => "invalid group count: expected 5, found " ++ toString n
  | .groupLength g e n =>
    "invalid group length in group " ++ toString g ++ ": expected " ++ toString e ++ ", found " ++
      toString n

/-- The value of a hexadecimal digit. -/
def hexDigit? (c : Char) : Option Nat :=
  if c.isDigit then some (c.toNat - 48)
  else if 'a' ≤ c && c ≤ 'f' then some (c.toNat - 87)
  else if 'A' ≤ c && c ≤ 'F' then some (c.toNat - 55)
  else none

/-- The number that hexadecimal digits denote. -/
def natOfHex? (cs : List Char) : Option Nat :=
  cs.foldl (fun acc c => acc.bind fun n => (hexDigit? c).map (n * 16 + ·)) (some 0)

/-- The lengths of the groups. -/
def groupLengths : List Nat := [8, 4, 4, 4, 12]

/-- The groups between dashes. -/
def groups : List Char → List (List Char)
  | [] => [[]]
  | '-' :: cs => [] :: groups cs
  | c :: cs =>
    match groups cs with
    | [] => [[c]]
    | g :: gs => (c :: g) :: gs

/-- The first character that is neither a digit nor a dash, with the place of its first byte. -/
def firstForeign (index : Nat) : List Char → Option Fault
  | [] => none
  | c :: cs =>
    if c == '-' || (hexDigit? c).isSome then firstForeign (index + c.utf8Size) cs
    else some (.character c index)

/-- The text without the marks around it, the number of bytes before it, and whether there are no
such marks. -/
def unwrap (cs : List Char) : List Char × Nat × Bool :=
  match cs with
  | '{' :: rest => if rest.getLast? = some '}' then (rest.dropLast, 1, false) else (cs, 0, true)
  | 'u' :: 'r' :: 'n' :: ':' :: 'u' :: 'u' :: 'i' :: 'd' :: ':' :: rest => (rest, 9, false)
  | _ => (cs, 0, true)

/-- The first group that has not its length. -/
def wrongGroup (index : Nat) : List Nat → List (List Char) → Fault
  | n :: ns, g :: gs =>
    if g.length = n && !gs.isEmpty then wrongGroup (index + 1) ns gs
    else .groupLength index n g.length
  | _, _ => .groupLength index 12 0

/-- The identifier that a text stands for. -/
def parse (s : String) : Except Fault Identifier :=
  let (cs, offset, plain) := unwrap s.toList
  match firstForeign offset cs with
  | some f => .error f
  | none =>
    let gs := groups cs
    if gs.length = 1 && plain then
      if cs.length = 32 then .ok ⟨(natOfHex? cs).getD 0⟩ else .error (.plainLength cs.length)
    else if gs.length ≠ 5 then .error (.groupCount gs.length)
    else if gs.map List.length = groupLengths then .ok ⟨(natOfHex? gs.flatten).getD 0⟩
    else .error (wrongGroup 0 groupLengths gs)

end Identifier
end Runbook

import Runbook.Decimal.Parse
import Runbook.Text.Blank

/-!
# Instants

An instant is a point of universal time with nanoseconds, and may lie within a leap second, where
its nanoseconds exceed a thousand millions. `Instant.parse` reads an internet date and time of any
offset, `Instant.text` writes one in universal time with 0, 3, 6 or 9 decimals.
-/

namespace Runbook

/-- A point in time: seconds since the first instant of 1970, and nanoseconds, which reach two
thousand millions within a leap second. -/
structure Instant where
  seconds : Int
  nanos : Nat
  deriving Repr, BEq, DecidableEq, Inhabited

namespace Instant

/-- The first instant of 1970. -/
def epoch : Instant := ⟨0, 0⟩

/-- The instant some milliseconds later. -/
def addMillis (t : Instant) (ms : Nat) : Instant :=
  let nanos := t.nanos + (ms % 1000) * 1000000
  ⟨t.seconds + (ms / 1000 : Nat) + (nanos / 1000000000 : Nat), nanos % 1000000000⟩

/-! ## Calendar -/

/-- The days from the first of January 1970 to a date, which may be negative. -/
def daysOf (year : Int) (month day : Nat) : Int :=
  let y := if month ≤ 2 then year - 1 else year
  let era := y.fdiv 400
  let ofEra := y - era * 400
  let m : Int := if month ≤ 2 then month + 9 else month - 3
  let ofYear := (153 * m + 2) / 5 + day - 1
  era * 146097 + (ofEra * 365 + ofEra / 4 - ofEra / 100 + ofYear) - 719468

/-- The date that lies some days after the first of January 1970. -/
def dateOf (days : Int) : Int × Nat × Nat :=
  let z := days + 719468
  let era := z.fdiv 146097
  let ofEra := z - era * 146097
  let year := (ofEra - ofEra / 1460 + ofEra / 36524 - ofEra / 146096) / 365
  let ofYear := ofEra - (365 * year + year / 4 - year / 100)
  let m := (5 * ofYear + 2) / 153
  let day := ofYear - (153 * m + 2) / 5 + 1
  let month := if m < 10 then m + 3 else m - 9
  (year + era * 400 + (if month ≤ 2 then 1 else 0), month.toNat, day.toNat)

/-- Whether a year of the Gregorian calendar has a 29th of February. -/
def isLeapYear (year : Int) : Bool := year % 4 == 0 && (year % 100 != 0 || year % 400 == 0)

/-- The number of days of a month. -/
def daysIn (year : Int) (month : Nat) : Nat :=
  if month == 2 then (if isLeapYear year then 29 else 28)
  else if [4, 6, 9, 11].contains month then 30 else 31

/-! ## Difference -/

/-- The seconds since the start of the day. -/
def secondOfDay (t : Instant) : Int := t.seconds % 86400

/-- The nanoseconds from one instant to another; a leap second between them is counted. -/
def nanosBetween (start stop : Instant) : Int :=
  let a := start.secondOfDay
  let b := stop.secondOfDay
  let leap : Int :=
    if a < b then (if 1000000000 ≤ start.nanos then 1 else 0)
    else if b < a then (if 1000000000 ≤ stop.nanos then -1 else 0)
    else 0
  (stop.seconds - start.seconds + leap) * 1000000000 + (stop.nanos - start.nanos : Int)

/-- The whole milliseconds from one instant to another, rounded toward zero. -/
def millisBetween (start stop : Instant) : Int := (nanosBetween start stop).tdiv 1000000

/-! ## Text -/

/-- A number with at least `width` digits. -/
def padded (width n : Nat) : String :=
  let ds := Nat.toDigits 10 n
  String.ofList (List.replicate (width - ds.length) '0' ++ ds)

/-- A year has four digits; one outside of 0 to 9999 has a sign and at least four. -/
def yearText (year : Int) : String :=
  if year < 0 then "-" ++ padded 4 year.natAbs
  else if 9999 < year then "+" ++ padded 5 year.natAbs
  else padded 4 year.natAbs

/-- The decimals of a second: as few of 0, 3, 6 or 9 as tell the nanoseconds. -/
def fractionText (nanos : Nat) : String :=
  if nanos == 0 then ""
  else if nanos % 1000000 == 0 then "." ++ padded 3 (nanos / 1000000)
  else if nanos % 1000 == 0 then "." ++ padded 6 (nanos / 1000)
  else "." ++ padded 9 nanos

/-- The text of an instant in universal time. -/
def text (t : Instant) : String :=
  let (year, month, day) := dateOf (t.seconds.fdiv 86400)
  let s := t.secondOfDay.toNat
  let second := s % 60 + t.nanos / 1000000000
  yearText year ++ "-" ++ padded 2 month ++ "-" ++ padded 2 day ++ "T" ++ padded 2 (s / 3600) ++
    ":" ++ padded 2 (s / 60 % 60) ++ ":" ++ padded 2 second ++
    fractionText (t.nanos % 1000000000) ++ "Z"

/-! ## Reading -/

/-- Why a text is no instant. -/
inductive Fault where
  | outOfRange
  | impossible
  | invalid
  | tooShort
  | tooLong
  deriving Repr, BEq, DecidableEq

/-- The wording of a fault. -/
def Fault.message : Fault → String
  | .outOfRange => "input is out of range"
  | .impossible => "no possible date and time matching input"
  | .invalid => "input contains invalid characters"
  | .tooShort => "premature end of input"
  | .tooLong => "trailing input"

/-- The digits at the start, at most `width` of them if a width is given. -/
def leadingDigits (width : Option Nat) (cs : List Char) : List Char :=
  (match width with | some w => cs.take w | none => cs).takeWhile Char.isDigit

/-- A number of at least one and at most `width` digits, if a width is given. -/
def readDigits (width : Option Nat) (cs : List Char) : Except Fault (Nat × List Char) :=
  let ds := leadingDigits width cs
  match cs, ds with
  | [], _ => .error .tooShort
  | _, [] => .error .invalid
  | _, ds =>
    match Decimal.natOfDigits? ds with
    | some n => if n < 9223372036854775808 then .ok (n, cs.drop ds.length) else .error .outOfRange
    | none => .error .invalid

/-- A number within bounds, after blanks. -/
def readPart (lo hi : Nat) (cs : List Char) : Except Fault (Nat × List Char) := do
  let (n, rest) ← readDigits (some 2) (Text.trimStartChars cs)
  if lo ≤ n && n ≤ hi then .ok (n, rest) else .error .outOfRange

/-- A number of four digits at most, or with a sign and any number of them. -/
def readSigned (cs : List Char) : Except Fault (Int × List Char) :=
  match Text.trimStartChars cs with
  | '-' :: rest => do
    let (n, rest) ← readDigits none rest
    .ok (-(n : Int), rest)
  | '+' :: rest => do
    let (n, rest) ← readDigits none rest
    .ok ((n : Int), rest)
  | cs => do
    let (n, rest) ← readDigits (some 4) cs
    .ok ((n : Int), rest)

/-- A year, which has no more than 32 bits. -/
def readYear (cs : List Char) : Except Fault (Int × List Char) := do
  let (year, rest) ← readSigned cs
  if -2147483648 ≤ year && year ≤ 2147483647 then .ok (year, rest) else .error .outOfRange

/-- One given character, after blanks. -/
def readMark (c : Char) (cs : List Char) : Except Fault (List Char) :=
  match Text.trimStartChars cs with
  | [] => .error .tooShort
  | d :: rest => if d = c then .ok rest else .error .invalid

/-- The mark between a date and a time. -/
def readTimeMark : List Char → Except Fault (List Char)
  | [] => .error .tooShort
  | c :: rest => if c = 'T' || c = 't' || c = ' ' then .ok rest else .error .invalid

/-- The decimals of a second, if there are any, in nanoseconds; those beyond nine are dropped. -/
def readFraction : List Char → Except Fault (Nat × List Char)
  | '.' :: cs => do
    let (n, rest) ← readDigits (some 9) cs
    let used := cs.length - rest.length
    .ok (n * Nat.pow 10 (9 - used), rest.dropWhile Char.isDigit)
  | cs => .ok (0, cs)

/-- The minutes of an offset. -/
def readOffsetMinutes : List Char → Except Fault (Nat × List Char)
  | a :: b :: rest =>
    if a.isDigit && b.isDigit then
      if a.toNat ≤ '5'.toNat then .ok ((a.toNat - 48) * 10 + (b.toNat - 48), rest)
      else .error .outOfRange
    else .error .invalid
  | _ => .error .tooShort

/-- The hours and minutes of an offset, in seconds. -/
def readHoursMinutes : List Char → Except Fault (Nat × List Char)
  | a :: b :: rest =>
    if a.isDigit && b.isDigit then do
      let (minutes, rest) ←
        readOffsetMinutes (rest.dropWhile fun c => c == ':' || Text.isBlank c)
      .ok (((a.toNat - 48) * 10 + (b.toNat - 48)) * 3600 + minutes * 60, rest)
    else .error .invalid
  | _ => .error .tooShort

/-- The offset from universal time, in seconds. -/
def readOffset (cs : List Char) : Except Fault (Int × List Char) :=
  match Text.trimStartChars cs with
  | [] => .error .tooShort
  | c :: rest =>
    let upperCase := (c :: rest.take 2).map Char.toUpper
    if upperCase = ['U', 'T', 'C'] then .ok (0, rest.drop 2)
    else if c = 'Z' || c = 'z' then .ok (0, rest)
    else if c = '+' then do
      let (n, rest) ← readHoursMinutes rest
      .ok ((n : Int), rest)
    else if c = '-' || c = '−' then do
      let (n, rest) ← readHoursMinutes rest
      .ok (-(n : Int), rest)
    else .error .invalid

/-- The years that an instant may lie in. -/
def inRange (year : Int) : Bool := -262143 ≤ year && year ≤ 262142

/-- The year of universal time that an instant lies in. -/
def year (t : Instant) : Int := (dateOf (t.seconds.fdiv 86400)).1

/-- The instant of a date and a time some seconds ahead of universal time; the last of 61 seconds is
a leap second. -/
def ofLocal (year : Int) (month day hour minute second nanos : Nat) (offset : Int) :
    Except Fault Instant :=
  if offset.natAbs ≥ 86400 || !inRange year || daysIn year month < day then .error .outOfRange
  else
    let leap := second == 60
    let second := if leap then 59 else second
    let t : Instant :=
      ⟨daysOf year month day * 86400 + (hour * 3600 + minute * 60 + second : Nat) - offset,
        nanos + (if leap then 1000000000 else 0)⟩
    if inRange t.year then .ok t else .error .impossible

/-- The instant that a text stands for: a date, the letter T or a blank, a time and an offset. -/
def parse (s : String) : Except Fault Instant := do
  let (year, cs) ← readYear s.toList
  let cs ← readMark '-' cs
  let (month, cs) ← readPart 1 12 cs
  let cs ← readMark '-' cs
  let (day, cs) ← readPart 1 31 cs
  let cs ← readTimeMark cs
  let (hour, cs) ← readPart 0 23 cs
  let cs ← readMark ':' cs
  let (minute, cs) ← readPart 0 59 cs
  let cs ← readMark ':' cs
  let (second, cs) ← readPart 0 60 cs
  let (nanos, cs) ← readFraction cs
  let (offset, cs) ← readOffset cs
  if !(Text.trimStartChars cs).isEmpty then .error .tooLong
  else ofLocal year month day hour minute second nanos offset

end Instant
end Runbook

import Runbook.Shell.Parser
import Runbook.Shell.Arithmetic
import Runbook.Text.Base64

/-!
# Escapes and formats

The escapes that `echo` and `printf` replace, and formats: a format is used again as long as there
are arguments, and missing arguments count as empty texts.
-/

namespace Runbook.Shell.Format

/-- The bytes of a character. -/
def bytesOf (c : Char) : List Nat := Text.Base64.bytesOf c.toString

/-- Which escapes are replaced. -/
structure Escapes where
  /-- Octal numbers need a zero in front. -/
  zeroFirst : Bool
  /-- Hexadecimal numbers are known. -/
  hexadecimal : Bool
  /-- `\c` ends the text. -/
  canStop : Bool

/-- An escape after its backslash: its bytes and what follows it, or the end of the text. -/
def escape (e : Escapes) (cs : List Char) : Option (List Nat × List Char) :=
  match cs with
  | [] => some ([92], [])
  | 'a' :: r => some ([7], r)
  | 'b' :: r => some ([8], r)
  | 'f' :: r => some ([12], r)
  | 'n' :: r => some ([10], r)
  | 'r' :: r => some ([13], r)
  | 't' :: r => some ([9], r)
  | 'v' :: r => some ([11], r)
  | '\\' :: r => some ([92], r)
  | c :: r =>
    let octal (ds : List Char) : Option (List Nat × List Char) :=
      match digitsOf 8 3 ds with
      | some (n, rest) => some ([n % 256], rest)
      | none => some ([0], ds)
    let number (limit : Nat) (encode : Nat → List Nat) : Option (List Nat × List Char) :=
      match if e.hexadecimal then digitsOf 16 limit r else none with
      | some (n, rest) => some (encode n, rest)
      | none => some (92 :: bytesOf c, r)
    if c == 'c' && e.canStop then none
    else if c == '0' && e.zeroFirst then octal r
    else if (digitIn? 8 c).isSome && !e.zeroFirst then octal cs
    else if c == 'x' then number 2 fun n => [n]
    else if c == 'u' then number 4 fun n => bytesOf (Char.ofNat n)
    else if c == 'U' then number 8 fun n => bytesOf (Char.ofNat n)
    else if c == 'e' && e.hexadecimal then some ([27], r)
    else if c == '"' && !e.zeroFirst then some ([34], r)
    else some (92 :: bytesOf c, r)

/-- A text with its escapes replaced, and whether one of them ended it. -/
def unescaped (e : Escapes) : Nat → List Char → List Nat × Bool
  | 0, _ => ([], false)
  | _, [] => ([], false)
  | fuel + 1, '\\' :: cs =>
    match escape e cs with
    | none => ([], true)
    | some (bytes, rest) =>
      let (more, ended) := unescaped e fuel rest
      (bytes ++ more, ended)
  | fuel + 1, c :: cs =>
    let (more, ended) := unescaped e fuel cs
    (bytesOf c ++ more, ended)

/-- What `echo` writes. -/
def echo (d : Dialect) (args : List String) : List Nat :=
  let isOption (a : String) : Bool :=
    match d with
    | .dash => a == "-n"
    | .bash =>
      match a.toList with
      | '-' :: c :: cs => (c :: cs).all "neE".toList.contains
      | _ => false
  let options := (match d with
    | .bash => args.takeWhile isOption
    | .dash => (args.take 1).takeWhile isOption).flatMap String.toList
  let words := args.drop (match d with
    | .bash => (args.takeWhile isOption).length
    | .dash => ((args.take 1).takeWhile isOption).length)
  let escapes := match d with
    | .dash => true
    | .bash => (options.filter fun c => c == 'e' || c == 'E').getLast? == some 'e'
  let text := " ".intercalate words
  let (bytes, ended) :=
    if escapes then unescaped ⟨true, d == .bash, true⟩ (text.length + 1) text.toList
    else (Text.Base64.bytesOf text, false)
  if ended || options.contains 'n' then bytes else bytes ++ [10]

/-! ## Formats -/

/-- What stands between the percent sign and the letter of a directive. -/
structure Directive where
  flags : List Char := []
  width : Option Int := none
  precision : Option Nat := none
  deriving Inhabited

/-- What a format has written so far. -/
structure Progress where
  output : List Nat := []
  errors : List String := []
  args : List String
  /-- Whether a directive has taken an argument. -/
  used : Bool := false
  /-- Whether an escape ended the output. -/
  ended : Bool := false

/-- Takes the next argument. -/
def Progress.pop (p : Progress) : String × Progress :=
  (p.args.headD "", { p with args := p.args.drop 1, used := true })

/-- An integer as an argument: a character after a quote stands for its number. -/
def integer? (s : String) : Option Int :=
  match s.toList with
  | [] => some 0
  | '"' :: c :: _ | '\'' :: c :: _ => some c.toNat
  | cs =>
    let (negative, ds) := match Arithmetic.trimmed cs with
      | '-' :: ds => (true, ds)
      | '+' :: ds => (false, ds)
      | ds => (false, ds)
    match Arithmetic.literal? ds with
    | some (n, []) => some (if negative then -n else n)
    | _ => none

/-- A decimal number as an argument: its sign, digits and the power of ten below them. -/
def decimal? (s : String) : Option (Bool × Nat × Nat) :=
  let (negative, ds) := match s.toList with
    | '-' :: ds => (true, ds)
    | '+' :: ds => (false, ds)
    | ds => (false, ds)
  let whole := ds.takeWhile Char.isDigit
  let fraction := match ds.drop whole.length with
    | '.' :: rest => if rest.all Char.isDigit then some rest else none
    | [] => some []
    | _ => none
  fraction.bind fun fraction =>
    if whole.isEmpty && fraction.isEmpty then (if ds.isEmpty then some (false, 0, 0) else none)
    else
      let all := whole ++ fraction
      some (negative, ((digitsOf 10 all.length all).map (·.1)).getD 0, fraction.length)

/-- The digits of a number rounded to some places, a half to the even neighbour. -/
def fixed (digits scale places : Nat) : String :=
  let n :=
    if scale ≤ places then digits * Nat.pow 10 (places - scale)
    else
      let unit := Nat.pow 10 (scale - places)
      let q := digits / unit
      let r := digits % unit
      if 2 * r > unit || (2 * r == unit && q % 2 == 1) then q + 1 else q
  let text := toString n
  let text := String.ofList (List.replicate (places + 1 - text.length) '0') ++ text
  if places == 0 then text
  else
    String.ofList (text.toList.take (text.length - places)) ++ "." ++
      String.ofList (text.toList.drop (text.length - places))

/-- Bytes brought to the width of a directive. -/
def padded (d : Directive) (count : Nat) (bytes : List Nat) : List Nat :=
  let width := d.width.getD 0
  let gap := List.replicate (width.natAbs - count) 32
  if width < 0 || d.flags.contains '-' then bytes ++ gap else gap ++ bytes

/-- A number brought to the width of a directive, with its sign. -/
def number (d : Directive) (negative : Bool) (digits : String) (zeros : Bool) : List Nat :=
  let sign := if negative then "-" else if d.flags.contains '+' then "+"
    else if d.flags.contains ' ' then " " else ""
  let width := (d.width.getD 0).natAbs
  let fill :=
    if zeros && d.flags.contains '0' && !d.flags.contains '-' && 0 ≤ d.width.getD 0 then
      width - sign.length - digits.length
    else 0
  let text := sign ++ String.ofList (List.replicate fill '0') ++ digits
  padded d text.length (Text.Base64.bytesOf text)

/-- The digits of a natural number with at least as many as the precision asks for. -/
def digits (d : Directive) (base : Nat) (upper : Bool) (n : Nat) : String :=
  let ds := Nat.toDigits base n
  let ds := if upper then ds.map Char.toUpper else ds
  let ds := if d.precision == some 0 && n == 0 then [] else ds
  String.ofList (List.replicate (d.precision.getD 1 - ds.length) '0' ++ ds)

/-- The output of a directive. -/
def directive (dialect : Dialect) (e : Escapes) (d : Directive) (letter : Char) (p : Progress) :
    Progress :=
  let write (p : Progress) (bytes : List Nat) : Progress := { p with output := p.output ++ bytes }
  let cut (s : String) : String := (d.precision.map fun n => String.ofList (s.toList.take n)).getD s
  let complaint (s : String) : String :=
    s ++ (match dialect with
      | .bash => ": invalid number"
      | .dash => ": expected numeric value")
  let integer (put : Int → List Nat) : Progress :=
    let (s, p) := p.pop
    match integer? s with
    | some n => write p (put n)
    | none => write { p with errors := p.errors ++ [complaint s] } (put 0)
  let word (n : Int) : Nat := (n.emod (Int.pow 2 64)).toNat
  match letter with
  | '%' => write p [37]
  | 's' =>
    let (s, p) := p.pop
    let s := cut s
    write p (padded d s.utf8ByteSize (Text.Base64.bytesOf s))
  | 'c' =>
    let (s, p) := p.pop
    let s := String.ofList (s.toList.take 1)
    write p (padded d s.utf8ByteSize (Text.Base64.bytesOf s))
  | 'b' =>
    let (s, p) := p.pop
    let (bytes, ended) := unescaped { e with zeroFirst := true, canStop := true } (s.length + 1)
      s.toList
    let p := write p (padded d bytes.length bytes)
    { p with ended := p.ended || ended }
  | 'd' | 'i' => integer fun n => number d (n < 0) (digits d 10 false n.natAbs) d.precision.isNone
  | 'u' => integer fun n => number d false (digits d 10 false (word n)) d.precision.isNone
  | 'o' => integer fun n => number d false (digits d 8 false (word n)) d.precision.isNone
  | 'x' => integer fun n => number d false (digits d 16 false (word n)) d.precision.isNone
  | 'X' => integer fun n => number d false (digits d 16 true (word n)) d.precision.isNone
  | 'f' | 'F' =>
    let (s, p) := p.pop
    match decimal? s with
    | some (negative, ds, scale) =>
      write p (number d negative (fixed ds scale (d.precision.getD 6)) true)
    | none =>
      write { p with errors := p.errors ++ [complaint s] }
        (number d false (fixed 0 0 (d.precision.getD 6)) true)
  | c =>
    { p with
      errors := p.errors ++ ["\x60" ++ c.toString ++ "': invalid format character"]
      ended := true }

/-- The number or the star that a directive has in one place. -/
def measure (cs : List Char) (p : Progress) : Option Int × List Char × Progress :=
  match cs with
  | '*' :: cs =>
    let (s, p) := p.pop
    (some ((integer? s).getD 0), cs, p)
  | cs =>
    match digitsOf 10 cs.length cs with
    | some (n, cs) => (some n, cs, p)
    | none => (none, cs, p)

/-- One pass over a format. -/
def pass (dialect : Dialect) (e : Escapes) : Nat → List Char → Progress → Progress
  | 0, _, p => p
  | _, [], p => p
  | fuel + 1, '\\' :: cs, p =>
    match escape e cs with
    | none => { p with ended := true }
    | some (bytes, rest) => pass dialect e fuel rest { p with output := p.output ++ bytes }
  | fuel + 1, '%' :: cs, p =>
    let flags := cs.takeWhile "-+ 0#".toList.contains
    let (width, cs, p) := measure (cs.drop flags.length) p
    let (precision, cs, p) : Option Nat × List Char × Progress :=
      match cs with
      | '.' :: cs =>
        let (n, cs, p) := measure cs p
        (some (n.getD 0).toNat, cs, p)
      | cs => (none, cs, p)
    match cs with
    | [] => { p with errors := p.errors ++ ["\x60%': missing format character"], ended := true }
    | letter :: cs =>
      let p := directive dialect e ⟨flags, width, precision⟩ letter p
      if p.ended then p else pass dialect e fuel cs p
  | fuel + 1, c :: cs, p => pass dialect e fuel cs { p with output := p.output ++ bytesOf c }

/-- Passes over a format until the arguments are used up. -/
def passes (dialect : Dialect) (e : Escapes) (format : List Char) : Nat → Progress → Progress
  | 0, p => p
  | fuel + 1, p =>
    let q := pass dialect e (format.length + 1) format { p with used := false }
    if q.ended || q.args.isEmpty || !q.used then q else passes dialect e format fuel q

/-- What `printf` writes, and its complaints. -/
def printf (d : Dialect) (format : String) (args : List String) : List Nat × List String :=
  let p := passes d ⟨false, d == .bash, false⟩ format.toList (args.length + 1) { args }
  (p.output, p.errors)

end Runbook.Shell.Format

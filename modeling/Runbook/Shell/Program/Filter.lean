import Runbook.Pattern.Parser
import Runbook.Shell.Program.Basic

/-!
# Filters

Programs that read their input, or files, and write what they make of it: whole, in part, counted,
with bytes exchanged, or by lines. A filter that needs all of a stream that never ends does not
end either.
-/

namespace Runbook.Shell.Program

/-! ## Input -/

/-- What the files of a call hold, in order, and the complaints about those that cannot be read; the
name `-` stands for the input, and so does having no files. -/
def inputs (c : Call) (files : List String) (complain : String → SystemFault → String) :
    List (String × Stream) × List String :=
  if files.isEmpty then ([("", c.input)], [])
  else
    let opened := files.map fun f =>
      if f == "-" then (f, .ok c.input) else (f, c.host.read c.directory f)
    (opened.filterMap fun
      | (f, .ok s) => some (f, s)
      | _ => none,
     opened.filterMap fun
      | (f, .error e) => some (complain f e ++ "\n")
      | _ => none)

/-- The usual complaint about a file. -/
def unreadable (name : String) (file : String) (f : SystemFault) : String :=
  name ++ ": " ++ file ++ ": " ++ f.message

/-- What a filter answers: output and complaints. -/
def answer (output : Stream) (errors : List String) : Reply :=
  { status := if errors.isEmpty then 0 else 1, output, errors := String.join errors }

/-- Writes its input as it is. -/
def cat : Program := fun c =>
  let (streams, errors) := inputs c (c.args.filter (· != "-u")) (unreadable "cat")
  answer (streams.foldl (fun acc s => acc ++ s.2) {}) errors

/-! ## The first and the last -/

/-- What `head` and `tail` keep. -/
structure Portion where
  /-- Bytes instead of lines. -/
  inBytes : Bool := false
  /-- The sign in front of the number. -/
  sign : Option Char := none
  count : Nat := 10

/-- A number with a sign that may stand in front, and a letter for a multiple behind. -/
def countOf (inBytes : Bool) (s : String) : Option Portion :=
  let (sign, cs) := match s.toList with
    | '-' :: cs => (some '-', cs)
    | '+' :: cs => (some '+', cs)
    | cs => (none, cs)
  let (cs, unit) := match cs.reverse with
    | 'K' :: ds | 'k' :: ds => (ds.reverse, 1024)
    | 'M' :: ds => (ds.reverse, 1048576)
    | 'b' :: ds => (ds.reverse, 512)
    | _ => (cs, 1)
  (natural? (String.ofList cs)).map fun n => { inBytes, sign, count := n * unit }

/-- The portion that options ask for, and the files. -/
def portion (name : String) : Nat → Portion → List String → Except String (Portion × List String)
  | 0, p, args => .ok (p, args)
  | _, p, [] => .ok (p, [])
  | fuel + 1, p, a :: args =>
    let counted (inBytes : Bool) (s : String) (rest : List String) :
        Except String (Portion × List String) :=
      match countOf inBytes s with
      | some p => portion name fuel p rest
      | none =>
        .error ("invalid number of " ++ (if inBytes then "bytes" else "lines") ++ ": '" ++ s ++ "'")
    let attached (inBytes : Bool) (cs : List Char) : Except String (Portion × List String) :=
      match cs, args with
      | [], [] =>
        .error ("option requires an argument -- '" ++ (if inBytes then "c" else "n") ++ "'")
      | [], s :: rest => counted inBytes s rest
      | cs, _ => counted inBytes (String.ofList cs) args
    match a.toList with
    | ['-'] => (portion name fuel p args).map fun (p, fs) => (p, "-" :: fs)
    | '-' :: '-' :: _ =>
      let after (option : String) := Text.dropStart? option.toList a.toList
      match after "--bytes=", after "--lines=" with
      | some n, _ => counted true (String.ofList n) args
      | _, some n => counted false (String.ofList n) args
      | none, none =>
        if a == "--" then .ok (p, args) else .error ("unrecognized option '" ++ a ++ "'")
    | '-' :: 'c' :: cs => attached true cs
    | '-' :: 'n' :: cs => attached false cs
    | '-' :: 'q' :: [] => portion name fuel p args
    | '-' :: c :: cs =>
      if c.isDigit then counted false (String.ofList (c :: cs)) args
      else .error ("invalid option -- '" ++ c.toString ++ "'")
    | _ => (portion name fuel p args).map fun (p, fs) => (p, a :: fs)

/-- The first lines of a stream; none when they never end. -/
def firstLines (n : Nat) (s : Stream) : Option (List Nat) :=
  if s.isEndless && !s.cycle.contains lineFeed && (linesOf s.bytes).length < n + 1 then
    if n == 0 then some [] else none
  else some ((linesOf (s.take (s.bytes.length + n * s.cycle.length))).take n).flatten

/-- The start of a stream; none when it never ends. -/
def Portion.start (p : Portion) (s : Stream) : Option (List Nat) :=
  match p.inBytes, p.sign with
  | true, some '-' =>
    if s.isEndless then none else some (s.bytes.take (s.bytes.length - p.count))
  | true, _ => some (s.take p.count)
  | false, some '-' =>
    if s.isEndless then none
    else
      let ls := linesOf s.bytes
      some (ls.take (ls.length - p.count)).flatten
  | false, _ => firstLines p.count s

/-- The end of a stream; none when it never ends. -/
def Portion.finish (p : Portion) (s : Stream) : Option (List Nat) :=
  if s.isEndless then none
  else
    let ls := linesOf s.bytes
    some (match p.inBytes, p.sign with
      | true, some '+' => s.bytes.drop (p.count - 1)
      | true, _ => s.bytes.drop (s.bytes.length - p.count)
      | false, some '+' => (ls.drop (p.count - 1)).flatten
      | false, _ => (ls.drop (ls.length - p.count)).flatten)

/-- Writes a portion of every stream, each under its name when there are several. -/
def portions (name : String) (take : Portion → Stream → Option (List Nat)) : Program := fun c =>
  match portion name (c.args.length + 1) {} c.args with
  | .error m =>
    if m.startsWith "invalid number" then .complaint 1 (name ++ ": " ++ m) else .misuse name m
  | .ok (p, files) =>
    let (streams, errors) := inputs c files fun f e =>
      name ++ ": " ++ (match e with
        | .isDirectory => "error reading '" ++ f ++ "': "
        | _ => "cannot open '" ++ f ++ "' for reading: ") ++ e.message
    let parts := streams.map fun (f, s) => (f, take p s)
    if parts.any fun x => x.2.isNone then .never
    else
      let title (f : String) : List Nat :=
        if files.length < 2 then []
        else Text.Base64.bytesOf
          ("==> " ++ (if f == "-" then "standard input" else f) ++ " <==\n")
      let pieces := parts.map fun (f, bs) => title f ++ bs.getD []
      answer ⟨(pieces.intersperse (if files.length < 2 then [] else [lineFeed])).flatten, []⟩ errors

/-- Writes the first lines or bytes. -/
def head : Program := portions "head" Portion.start

/-- Writes the last lines or bytes. -/
def tail : Program := portions "tail" Portion.finish

/-! ## Counting -/

/-- The stretches of bytes without blanks. -/
def wordCount (bs : List Nat) : Nat :=
  let isBlank (b : Nat) : Bool := b == 32 || (9 ≤ b && b ≤ 13)
  (bs.foldl (fun (n, inside) b =>
    if isBlank b then (n, false) else (if inside then n else n + 1, true)) (0, false)).1

/-- Counts lines, words, characters and bytes. -/
def wc : Program := fun c =>
  let isOption (a : String) : Bool := a.length > 1 && a.toList.head? == some '-'
  let options := (c.args.filter isOption).flatMap fun a => a.toList.drop 1
  let files := c.args.filter fun a => !isOption a
  match options.find? fun o => !"lwcm".toList.contains o with
  | some o => .misuse "wc" ("invalid option -- '" ++ o.toString ++ "'")
  | none =>
    let options := if options.isEmpty then ['l', 'w', 'c'] else options
    let (streams, errors) := inputs c files (unreadable "wc")
    if streams.any fun s => s.2.isEndless then .never
    else
      let kinds := ['l', 'w', 'm', 'c'].filter options.contains
      let count (bs : List Nat) (kind : Char) : Nat :=
        match kind with
        | 'l' => bs.count lineFeed
        | 'w' => wordCount bs
        | 'm' => (bs.filter fun b => !Text.Utf8.isContinuation b).length
        | _ => bs.length
      let rows := streams.map fun (f, s) => (f, kinds.map (count s.bytes))
      let all := streams.flatMap fun s => s.2.bytes
      let total := kinds.map (count all)
      let rows := if files.length > 1 then rows ++ [("total", total)] else rows
      let width :=
        if kinds.length == 1 && files.length < 2 then 1
        else if files.isEmpty then 7
        else (toString all.length).length
      let cell (n : Nat) : String :=
        let t := toString n
        String.ofList (List.replicate (width - t.length) ' ') ++ t
      let row (f : String) (ns : List Nat) : String :=
        " ".intercalate (ns.map cell) ++ (if f.isEmpty then "" else " " ++ f) ++ "\n"
      answer (.ofText (String.join (rows.map fun (f, ns) => row f ns))) errors

/-! ## Bytes for bytes -/

/-- The bytes of a class. -/
def classBytes? (name : String) : Option (List Nat) :=
  let range (a b : Char) : List Nat := (List.range (b.toNat + 1 - a.toNat)).map (· + a.toNat)
  let upper := range 'A' 'Z'
  let lower := range 'a' 'z'
  let digit := range '0' '9'
  let punct := range '!' '/' ++ range ':' '@' ++ range '[' '\x60' ++ range '\x7b' '~'
  match name with
  | "upper" => some upper
  | "lower" => some lower
  | "alpha" => some (upper ++ lower)
  | "digit" => some digit
  | "alnum" => some (digit ++ upper ++ lower)
  | "space" => some [9, 10, 11, 12, 13, 32]
  | "blank" => some [9, 32]
  | "punct" => some punct
  | "cntrl" => some (List.range 32 ++ [127])
  | "print" => some ((List.range 95).map (· + 32))
  | "graph" => some ((List.range 94).map (· + 33))
  | _ => none

/-- The bytes that a set of `tr` lists. -/
def setBytes : Nat → List Char → List Nat
  | 0, _ => []
  | _, [] => []
  | fuel + 1, cs =>
    let one (cs : List Char) : List Nat × List Char :=
      match cs with
      | '\\' :: rest =>
        match Format.escape ⟨false, false, false⟩ rest with
        | some (92 :: bs@(_ :: _), rest) => (bs, rest)
        | some r => r
        | none => ([92], rest)
      | c :: rest => (Format.bytesOf c, rest)
      | [] => ([], [])
    let single : List Nat :=
      let (a, rest) := one cs
      match rest with
      | '-' :: c :: more =>
        let (b, rest) := one (c :: more)
        match a, b with
        | [x], [y] => (List.range (y + 1 - x)).map (· + x) ++ setBytes fuel rest
        | _, _ => a ++ setBytes fuel ('-' :: c :: more)
      | _ => a ++ setBytes fuel rest
    match Text.dropStart? "[:".toList cs with
    | none => single
    | some rest =>
      let name := rest.takeWhile Char.isAlpha
      let rest := Text.dropStart? ":]".toList (rest.drop name.length)
      match classBytes? (String.ofList name), rest with
      | some bs, some rest => bs ++ setBytes fuel rest
      | _, _ => single

/-- The bytes with neighbours in the set that are equal made one. -/
def squeezed (set : List Nat) : List Nat → List Nat
  | [] => []
  | b :: rest =>
    match squeezed set rest with
    | [] => [b]
    | d :: ds => if b == d && set.contains b then d :: ds else b :: d :: ds

/-- Exchanges, deletes or squeezes bytes. -/
def tr : Program := fun c =>
  let isOption (a : String) : Bool := a.length > 1 && a.toList.head? == some '-'
  let options := (c.args.takeWhile isOption).flatMap fun a => a.toList.drop 1
  let sets := (c.args.dropWhile isOption).map fun s => setBytes (s.length + 1) s.toList
  let complement (s : List Nat) : List Nat :=
    if options.contains 'c' || options.contains 'C' then
      (List.range 256).filter fun b => !s.contains b
    else s
  let squeeze (set : List Nat) (s : Stream) : Stream :=
    if options.contains 's' then ⟨squeezed set s.bytes, squeezed set s.cycle⟩ else s
  match sets with
  | [] => .misuse "tr" "missing operand"
  | [a] =>
    let a := complement a
    if options.contains 'd' then
      { output := c.input.flatMap fun b => if a.contains b then [] else [b] }
    else if options.contains 's' then { output := squeeze a c.input }
    else .misuse "tr" ("missing operand after '" ++ (c.args.getLast?.getD "") ++
      "'\nTwo strings must be given when translating.")
  | a :: b :: _ =>
    let a := complement a
    if options.contains 'd' then
      { output := squeeze b (c.input.flatMap fun x => if a.contains x then [] else [x]) }
    else
      let last := b.getLast?.getD 0
      let exchange (x : Nat) : Nat :=
        match (a.reverse.idxOf? x).map fun i => a.length - 1 - i with
        | some i => b.getD i last
        | none => x
      let table := (List.range 256).toArray.map exchange
      { output := squeeze b (c.input.flatMap fun x => [table.getD x x]) }

/-! ## Lines -/

/-- Lines that each have an end. -/
def closedLines (bs : List Nat) : List (List Nat) :=
  (linesOf bs).map fun l => if l.getLast? == some lineFeed then l else l ++ [lineFeed]

/-- Whether bytes come before others or equal them. -/
def isBefore : List Nat → List Nat → Bool
  | [], _ => true
  | _ :: _, [] => false
  | a :: as, b :: bs => a < b || (a == b && isBefore as bs)

/-- Writes its lines in order. -/
def sort : Program := fun c =>
  let isOption (a : String) : Bool := a.length > 1 && a.toList.head? == some '-'
  let options := (c.args.filter isOption).flatMap fun a => a.toList.drop 1
  let (streams, errors) := inputs c (c.args.filter fun a => !isOption a) (unreadable "sort")
  if streams.any fun s => s.2.isEndless then .never
  else
    let lines := streams.flatMap fun s => closedLines s.2.bytes
    let value (l : List Nat) : Int :=
      let cs := (Text.Utf8.decodeLossy l).toList.dropWhile (· == ' ')
      let (negative, cs) := match cs with
        | '-' :: cs => (true, cs)
        | cs => (false, cs)
      let n := ((digitsOf 10 cs.length cs).map fun (x : Nat × List Char) => (x.1 : Int)).getD 0
      if negative then -n else n
    let le (a b : List Nat) : Bool :=
      if options.contains 'n' then
        value a < value b || (value a == value b && isBefore a.dropLast b.dropLast)
      else isBefore a.dropLast b.dropLast
    let le (a b : List Nat) : Bool := if options.contains 'r' then le b a else le a b
    let sorted := lines.mergeSort le
    let sorted := if options.contains 'u' then sorted.eraseDups else sorted
    answer ⟨sorted.flatten, []⟩ errors

/-- Writes the lines that match a pattern. -/
def grep : Program := fun c =>
  let isOption (a : String) : Bool := a.length > 1 && a.toList.head? == some '-'
  let options := (c.args.takeWhile isOption).flatMap fun a => a.toList.drop 1
  match c.args.dropWhile isOption with
  | [] =>
    .complaint 2 ("Usage: grep [OPTION]... PATTERNS [FILE]...\n" ++
      "Try 'grep --help' for more information.")
  | pattern :: files =>
    let (streams, errors) := inputs c files (unreadable "grep")
    if streams.any fun s => s.2.isEndless then .never
    else
      let pattern := if options.contains 'F' then
        String.ofList (pattern.toList.flatMap fun ch =>
          if ch.isAlphanum || ch == ' ' || ch == '_' then [ch] else ['\\', ch])
        else pattern
      match Pattern.parseWith { ignoreCase := options.contains 'i' } pattern with
      | .error _ => .complaint 2 "grep: Invalid regular expression"
      | .ok p =>
        let isWanted (l : List Nat) : Bool :=
          p.occursIn (Text.Utf8.decodeLossy l.dropLast) != options.contains 'v'
        let found := streams.map fun (f, s) => (f, (closedLines s.bytes).filter isWanted)
        let label (f : String) : List Nat :=
          if files.length < 2 then [] else Text.Base64.bytesOf (f ++ ":")
        let hit := found.any fun x => !x.2.isEmpty
        let output :=
          if options.contains 'q' then []
          else if options.contains 'c' then
            found.flatMap fun (f, ls) =>
              label f ++ Text.Base64.bytesOf (toString ls.length ++ "\n")
          else found.flatMap fun (f, ls) => ls.flatMap fun l => label f ++ l
        { status := if !errors.isEmpty then 2 else if hit then 0 else 1
          output := ⟨output, []⟩
          errors := String.join errors }

end Runbook.Shell.Program

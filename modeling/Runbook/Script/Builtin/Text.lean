import Runbook.Script.Builtin.Basic
import Runbook.Text.Case
import Runbook.Text.Search

/-!
# Functions on texts and characters

A text is a list of characters. The functions that trim, cut or replace change the text that they
are called on; those that split it or take a part of it give new values.
-/

namespace Runbook.Script.Builtin

/-- A value of characters. -/
def text (cs : List Char) : Value := .str (String.ofList cs)

/-- The part of a text from a place on. -/
def part (cs : List Char) (start count : Int) : List Char :=
  let (first, n) := partOf cs.length start count
  (cs.drop first).take n

/-- A list of texts. -/
def texts (pieces : List (List Char)) : Value := .list (pieces.map text)

/-- The place of a part in a text from a place on, and -1 when there is none. -/
def placeIn (cs part : List Char) (start : Int) : Value :=
  let first := (partOf cs.length start 0).1
  match Text.position? part (cs.drop first) with
  | some n => .int (first + n : Nat)
  | none => .int (-1)

/-- A text made longer with copies of another, up to a number of characters. -/
def padded (cs : List Char) (count : Int) (fill : List Char) : List Char :=
  if fill.isEmpty then cs
  else
    let missing := count.toNat - cs.length
    let copies := (missing + fill.length - 1) / fill.length
    (cs ++ (List.replicate copies fill).flatten).take (max count.toNat cs.length)

/-- The characters of a text or a character. -/
def lettersOf (v : Value) : Option (List Char) := Value.letters? v

/-- Functions on one text. -/
def ofText (name : String) (s : String) : Answer :=
  let cs := s.toList
  match name with
  | "len" => .value (.int cs.length)
  | "bytes" => .value (.int s.utf8ByteSize)
  | "is_empty" => .value (.bool cs.isEmpty)
  | "to_upper" => .value (.str (Text.upper s))
  | "to_lower" => .value (.str (Text.lower s))
  | "make_upper" => .change (.str (Text.upper s))
  | "make_lower" => .change (.str (Text.lower s))
  | "trim" => .change (text (Text.trimChars cs))
  | "clear" => .change (.str "")
  | "chars" => .value (.list (cs.map .char))
  | "to_chars" => .value (.list (cs.map .char))
  | "split" => .value (texts (Text.words cs))
  | "pop" =>
    match cs.getLast? with
    | some c => .both (.char c) (text cs.dropLast)
    | none => .value .unit
  | _ => none

/-- Functions on a text and an integer. -/
def ofTextAndInteger (name : String) (s : String) (i : Int) : Answer :=
  let cs := s.toList
  match name with
  | "sub_string" => .value (text (part cs i cs.length))
  | "crop" => .change (text (part cs i cs.length))
  | "truncate" => .change (text (cs.take i.toNat))
  | "chars" => .value (.list ((part cs i cs.length).map .char))
  | "get" =>
    match (placeOf? cs.length i).bind (cs[·]?) with
    | some c => .value (.char c)
    | none => .value .unit
  | "pop" =>
    let n := cs.length - i.toNat
    if i ≤ 0 then .value (.str "") else .both (text (cs.drop n)) (text (cs.take n))
  | "split" =>
    let n := (partOf cs.length i 0).1
    .value (texts [cs.take n, cs.drop n])
  | _ => none

/-- Functions on a text and another text or a character. -/
def ofTexts (name : String) (s : String) (part : List Char) : Answer :=
  let cs := s.toList
  match name with
  | "index_of" => .value (placeIn cs part 0)
  | "remove" => .change (.str (Value.without s (String.ofList part)))
  | "split" => .value (texts (Text.pieces part (cs.length + 2) cs))
  | "split_rev" => .value (texts (Text.pieces part (cs.length + 2) cs).reverse)
  | _ => none

/-- Functions on texts and characters. -/
def onText (name : String) (args : List Value) : Answer :=
  match args with
  | [.str s] => ofText name s
  | [.char c] =>
    match name with
    | "to_upper" => .value (.char ((Text.upperChar c).headD c))
    | "to_lower" => .value (.char ((Text.lowerChar c).headD c))
    | "make_upper" => .change (.char ((Text.upperChar c).headD c))
    | "make_lower" => .change (.char ((Text.lowerChar c).headD c))
    | "to_int" => .value (.int c.toNat)
    | _ => none
  | [.str s, .int i] => ofTextAndInteger name s i
  | [.str s, .range a b closed] =>
    let (start, count) := partOfRange a b closed
    match name with
    | "sub_string" => .value (text (part s.toList start count))
    | "crop" => .change (text (part s.toList start count))
    | "chars" => .value (.list ((part s.toList start count).map .char))
    | _ => none
  | [.str s, .str t] =>
    match name with
    | "starts_with" => .value (.bool (t.toList.isPrefixOf s.toList))
    | "ends_with" => .value (.bool (t.toList.reverse.isPrefixOf s.toList.reverse))
    | "max" => .value (.str (if s < t then t else s))
    | "min" => .value (.str (if t < s then t else s))
    | "append" => .change (.str (s ++ t))
    | _ => ofTexts name s t.toList
  | [.char c, .char d] =>
    match name with
    | "max" => .value (.char (if c < d then d else c))
    | "min" => .value (.char (if d < c then d else c))
    | _ => none
  | [.str s, .int i, .int n] =>
    match name with
    | "sub_string" => .value (text (part s.toList i n))
    | "crop" => .change (text (part s.toList i n))
    | "chars" => .value (.list ((part s.toList i n).map .char))
    | _ => none
  | [.str s, .int i, .char c] =>
    match name with
    | "set" =>
      match placeOf? s.length i with
      | some n => .change (text (s.toList.set n c))
      | none => .value .unit
    | "pad" => .change (text (padded s.toList i [c]))
    | _ => none
  | [.str s, .int i, .str t] =>
    if name == "pad" then .change (text (padded s.toList i t.toList)) else none
  | [.str s, a, .int i] =>
    match name, lettersOf a with
    | "index_of", some cs => .value (placeIn s.toList cs i)
    | "split", some cs => .value (texts (Text.pieces cs (i.toNat - 1) s.toList))
    | _, _ => none
  | [.str s, a] =>
    match lettersOf a with
    | some cs =>
      if name == "append" then .change (.str (s ++ String.ofList cs)) else ofTexts name s cs
    | none => if name == "append" then .change (.str (s ++ a.appended)) else none
  | [.str s, a, b] =>
    match name, lettersOf a, lettersOf b with
    | "replace", some x, some y =>
      .change (.str (Text.replaceAll s (String.ofList x) (String.ofList y)))
    | _, _, _ => none
  | _ => none

end Runbook.Script.Builtin

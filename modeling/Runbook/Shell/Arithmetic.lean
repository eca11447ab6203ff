import Runbook.Shell.Parser

/-!
# Arithmetic of the command language

Integer expressions with the usual operators, evaluated on 64-bit words. A name stands for the
value of the variable, and a variable without a number for zero.
-/

namespace Runbook.Shell.Arithmetic

/-- Why an expression has no value. -/
inductive Fault where
  | divisionByZero (token : String)
  | operandExpected (token : String)
  | tooGreat (token : String)
  | invalid (token : String)
  deriving Repr, BEq, DecidableEq

/-- The report of a fault in an expression. -/
def Fault.message (expression : String) : Fault → String
  | .divisionByZero t => expression ++ ": division by 0 (error token is \"" ++ t ++ "\")"
  | .operandExpected t =>
    expression ++ ": syntax error: operand expected (error token is \"" ++ t ++ "\")"
  | .tooGreat t => expression ++ ": value too great for base (error token is \"" ++ t ++ "\")"
  | .invalid t => expression ++ ": syntax error in expression (error token is \"" ++ t ++ "\")"

/-- The number as a signed word of 64 bits. -/
def wrap (n : Int) : Int := Int.bmod n (Nat.pow 2 64)

/-- The characters without blanks at the start. -/
def trimmed (cs : List Char) : List Char := cs.dropWhile fun c => c == ' ' || c == '\t' || c == '\n'

/-- A number in the notation of the language: decimal, octal after `0`, hexadecimal after `0x`. -/
def literal? (cs : List Char) : Option (Nat × List Char) :=
  match cs with
  | '0' :: 'x' :: rest | '0' :: 'X' :: rest => digitsOf 16 rest.length rest
  | '0' :: rest =>
    match digitsOf 8 rest.length rest with
    | some r => some r
    | none => some (0, rest)
  | _ => digitsOf 10 cs.length cs

/-- A whole text as a number; any other text counts as zero. -/
def numberOr0 (s : String) : Int :=
  let (negative, cs) := match trimmed s.toList with
    | '-' :: cs => (true, cs)
    | '+' :: cs => (false, cs)
    | cs => (false, cs)
  match literal? cs with
  | some (n, rest) => if (trimmed rest).isEmpty then wrap (if negative then -n else n) else 0
  | none => 0

/-- The operators between two operands with their strength; longer signs come first. -/
def infixes : List (String × Nat) :=
  [("**", 11), ("<<", 8), (">>", 8), ("<=", 7), (">=", 7), ("==", 6), ("!=", 6), ("&&", 2),
   ("||", 1), ("*", 10), ("/", 10), ("%", 10), ("+", 9), ("-", 9), ("<", 7), (">", 7), ("&", 5),
   ("^", 4), ("|", 3)]

/-- The operator at the start of a text. -/
def infix? (cs : List Char) : Option (String × Nat) :=
  infixes.find? fun o => o.1.toList.isPrefixOf cs

/-- One for what holds and zero for what does not. -/
def truth (b : Bool) : Int := if b then 1 else 0

/-- The value of an operator; `right` is the text of the right operand. -/
def apply (op : String) (a b : Int) (right : String) : Except Fault Int :=
  match op with
  | "+" => .ok (wrap (a + b))
  | "-" => .ok (wrap (a - b))
  | "*" => .ok (wrap (a * b))
  | "/" => if b == 0 then .error (.divisionByZero right) else .ok (wrap (a.tdiv b))
  | "%" => if b == 0 then .error (.divisionByZero right) else .ok (wrap (a.tmod b))
  | "**" => if b < 0 then .error (.invalid right) else .ok (wrap (Int.pow a (b.toNat % 4096)))
  | "<<" => .ok (wrap (a * Int.pow 2 (b.emod 64).toNat))
  | ">>" => .ok (wrap (a / Int.pow 2 (b.emod 64).toNat))
  | "<" => .ok (truth (a < b))
  | "<=" => .ok (truth (a ≤ b))
  | ">" => .ok (truth (a > b))
  | ">=" => .ok (truth (a ≥ b))
  | "==" => .ok (truth (a == b))
  | "!=" => .ok (truth (a != b))
  | "&&" => .ok (truth (a != 0 && b != 0))
  | "||" => .ok (truth (a != 0 || b != 0))
  | "&" => .ok (Int64.ofInt a &&& Int64.ofInt b).toInt
  | "^" => .ok (Int64.ofInt a ^^^ Int64.ofInt b).toInt
  | _ => .ok (Int64.ofInt a ||| Int64.ofInt b).toInt

mutual

/-- The value of an operand at the start of a text, and what follows it. -/
def operand (lookup : String → String) : Nat → List Char → Except Fault (Int × List Char)
  | 0, cs => .error (.invalid (String.ofList cs))
  | fuel + 1, cs => do
    match trimmed cs with
    | '(' :: rest => do
      let (v, rest) ← choice lookup fuel rest
      match trimmed rest with
      | ')' :: rest => return (v, rest)
      | rest => throw (.invalid (String.ofList rest))
    | '-' :: rest => do
      let (v, rest) ← operand lookup fuel rest
      return (wrap (-v), rest)
    | '+' :: rest => operand lookup fuel rest
    | '!' :: rest => do
      let (v, rest) ← operand lookup fuel rest
      return (truth (v == 0), rest)
    | '~' :: rest => do
      let (v, rest) ← operand lookup fuel rest
      return (-v - 1, rest)
    | cs =>
      let name := cs.takeWhile isNameChar
      match name with
      | [] => throw (.operandExpected (String.ofList cs))
      | c :: _ =>
        if isNameStart c then
          return (numberOr0 (lookup (String.ofList name)), cs.drop name.length)
        else match literal? cs with
          | some (n, rest) =>
            if (rest.head?.any isNameChar) then throw (.tooGreat (String.ofList name))
            return (wrap n, rest)
          | none => throw (.invalid (String.ofList cs))

/-- Operators of at least some strength after a left operand. -/
def operators (lookup : String → String) :
    Nat → Nat → Int → List Char → Except Fault (Int × List Char)
  | 0, _, _, cs => .error (.invalid (String.ofList cs))
  | fuel + 1, strength, a, cs => do
    let cs := trimmed cs
    match infix? cs with
    | none => return (a, cs)
    | some (op, s) =>
      if s < strength then return (a, cs)
      let right := trimmed (cs.drop op.length)
      if right.isEmpty then throw (.operandExpected op)
      let (b, rest) ← operand lookup fuel right
      let (b, rest) ← operators lookup fuel (if op == "**" then s else s + 1) b rest
      let v ← apply op a b (String.ofList right)
      operators lookup fuel strength v rest

/-- An expression with the choice `?:` at the start of a text. -/
def choice (lookup : String → String) : Nat → List Char → Except Fault (Int × List Char)
  | 0, cs => .error (.invalid (String.ofList cs))
  | fuel + 1, cs => do
    let (a, rest) ← operand lookup fuel cs
    let (c, rest) ← operators lookup fuel 1 a rest
    match trimmed rest with
    | '?' :: rest => do
      let (x, rest) ← choice lookup fuel rest
      match trimmed rest with
      | ':' :: rest => do
        let (y, rest) ← choice lookup fuel rest
        return (if c != 0 then x else y, rest)
      | rest => throw (.invalid (String.ofList rest))
    | rest => return (c, rest)

end

/-- The value of an expression. -/
def eval (lookup : String → String) (expression : String) : Except Fault Int := do
  let cs := trimmed expression.toList
  if cs.isEmpty then return 0
  let (v, rest) ← choice lookup (4 * cs.length + 4) cs
  if rest.isEmpty then return v else throw (.invalid (String.ofList rest))

end Runbook.Shell.Arithmetic

import Runbook.Script.Syntax
import Runbook.Script.Token
import Runbook.Table

/-!
# Parsing scripts

From tokens to the statements and functions of a script. The operators, loosest first: `||` and
`|`, `&&` and `&`, equality, `in`, order, `??`, ranges, sums, products, powers, shifts; only the
power associates to the right. `Source.parse` is total: every recursive call spends one unit of a
bound computed from the number of tokens. How deep expressions nest is limited by `Limits`.
-/

namespace Runbook.Script

/-- A reader of tokens: takes some from the front, or ends with the reason why it cannot. -/
abbrev Parser (α : Type) := StateT (List Token) (Except String) α

namespace Parser

/-- Where a construct stands. -/
structure Place where
  /-- How deep the construct is nested. -/
  depth : Nat
  /-- How deep it may be, zero for any depth. -/
  limit : Nat
  /-- The most bytes of a text, zero for any number. -/
  textLimit : Nat
  /-- Whether it stands in a loop. -/
  inLoop : Bool
  /-- Whether `|` separates the labels of a case here. -/
  inLabel : Bool

/-- A place one level deeper. -/
def Place.deeper (p : Place) : Parser Place :=
  if p.limit != 0 && p.depth + 1 > p.limit then throw "expression exceeds maximum complexity"
  else pure { p with depth := p.depth + 1 }

/-- The next token, which stays in place. -/
def peek? : Parser (Option Token) := do return (← get).head?

/-- Drops the next token. -/
def skip : Parser Unit := modify (·.drop 1)

/-- Fails at the next token. -/
def unexpected {α : Type} : Parser α := do
  match ← peek? with
  | some (.fault d) => throw d
  | some _ => throw "unexpected token"
  | none => throw "script is incomplete"

/-- Whether the sign comes next; it is taken. -/
def takesSign (s : String) : Parser Bool := do
  match ← peek? with
  | some (.sign t) => if t == s then do skip; return true else return false
  | _ => return false

/-- Whether the word comes next; it is taken. -/
def takesWord (w : String) : Parser Bool := do
  match ← peek? with
  | some (.keyword k) => if k == w then do skip; return true else return false
  | _ => return false

/-- Takes the sign, which has to come next. -/
def sign (s : String) : Parser Unit := do
  if ← takesSign s then pure () else unexpected

/-- Takes the word, which has to come next. -/
def word (w : String) : Parser Unit := do
  if ← takesWord w then pure () else unexpected

/-- Takes the name that has to come next. -/
def name : Parser String := do
  match ← peek? with
  | some (.ident n) => do skip; return n
  | _ => unexpected

/-- Whether the sign comes next; it stays in place. -/
def nextIs (s : String) : Parser Bool := do
  match ← peek? with
  | some (.sign t) => return t == s
  | _ => return false

/-! ## Operators -/

/-- What stands between two operands. -/
inductive Infix where
  | apply (op : BinOp)
  | and | or | orElse
  | isIn (negated : Bool)
  | range (closed : Bool)

/-- The operators with their strength; `bindsRight` tells which associate to the right. -/
def infixOf? (inLabel : Bool) : Token → Option (Nat × Infix)
  | .sign "||" => some (30, .or)
  | .sign "|" => if inLabel then none else some (30, .apply .bitOr)
  | .sign "^" => some (30, .apply .bitXor)
  | .sign "&&" => some (60, .and)
  | .sign "&" => some (60, .apply .bitAnd)
  | .sign "==" => some (90, .apply .eq)
  | .sign "!=" => some (90, .apply .ne)
  | .keyword "in" => some (110, .isIn false)
  | .sign "!in" => some (110, .isIn true)
  | .sign "<" => some (130, .apply .lt)
  | .sign "<=" => some (130, .apply .le)
  | .sign ">" => some (130, .apply .gt)
  | .sign ">=" => some (130, .apply .ge)
  | .sign "??" => some (135, .orElse)
  | .sign ".." => some (140, .range false)
  | .sign "..=" => some (140, .range true)
  | .sign "+" => some (150, .apply .add)
  | .sign "-" => some (150, .apply .sub)
  | .sign "*" => some (180, .apply .mul)
  | .sign "/" => some (180, .apply .div)
  | .sign "%" => some (180, .apply .rem)
  | .sign "**" => some (190, .apply .pow)
  | .sign "<<" => some (210, .apply .shiftLeft)
  | .sign ">>" => some (210, .apply .shiftRight)
  | _ => none

/-- The strength of powers, the only operator that associates to the right. -/
def powerStrength : Nat := 190

/-- The next operator and its strength, which stay in place. -/
def nextInfix? (p : Place) : Parser (Option (Nat × Infix)) := do
  match ← peek? with
  | some (.fault d) => throw d
  | some t => return infixOf? p.inLabel t
  | none => return none

/-- The expression of an operator and its operands. -/
def Infix.build : Infix → Expr → Expr → Expr
  | .apply op, l, r => .binary op l r
  | .and, l, r => .and l r
  | .or, l, r => .or l r
  | .orElse, l, r => .orElse l r
  | .isIn n, l, r => .isIn n l r
  | .range c, l, r => .range l r c

/-- The operator of an assignment: none for a plain one. -/
def assignment? : Token → Option (Option BinOp)
  | .sign "=" => some none
  | .sign "+=" => some (some .add)
  | .sign "-=" => some (some .sub)
  | .sign "*=" => some (some .mul)
  | .sign "/=" => some (some .div)
  | .sign "%=" => some (some .rem)
  | .sign "**=" => some (some .pow)
  | .sign "<<=" => some (some .shiftLeft)
  | .sign ">>=" => some (some .shiftRight)
  | .sign "&=" => some (some .bitAnd)
  | .sign "|=" => some (some .bitOr)
  | .sign "^=" => some (some .bitXor)
  | _ => none

/-! ## Constants -/

mutual
/-- The value of an expression that is made of literals only. -/
def constant? : Expr → Option Value
  | .lit v => some v
  | .list items => (constantItems? items).map .list
  | .map fields => (constantFields? fields).map .map
  | .unary .negate (.lit (.int i)) => some (.int (-i))
  | .unary .negate (.lit (.float x)) => some (.float (-x))
  | _ => none

/-- The values of items that are made of literals only. -/
def constantItems? : List Expr → Option (List Value)
  | [] => some []
  | e :: es => do return (← constant? e) :: (← constantItems? es)

/-- The values of fields that are made of literals only. -/
def constantFields? : List (String × Expr) → Option (List (String × Value))
  | [] => some []
  | (k, e) :: es => do return (k, ← constant? e) :: (← constantFields? es)
end

/-- The label of a case. -/
def label (e : Expr) : Parser CaseLabel :=
  match e with
  | .range l r closed =>
    match constant? l, constant? r with
    | some (.int a), some (.int b) => pure (.range a b closed)
    | _, _ => throw "expecting a literal"
  | e =>
    match constant? e with
    | some v => pure (.value v)
    | none => throw "expecting a literal"

/-- Whether a link that follows is guarded, for each way to write one. -/
def linkSign? : Token → Option (Bool × Bool)
  | .sign "." => some (false, false)
  | .sign "?." => some (false, true)
  | .sign "[" => some (true, false)
  | .sign "?[" => some (true, true)
  | _ => none

/-- An expression with one more link. -/
def extend (e : Expr) (l : Link) : Expr :=
  match e with
  | .chain base links => .chain base (links ++ [l])
  | e => .chain e [l]

/-! ## Expressions and statements -/

mutual
/-- An expression. -/
def expr : Nat → Place → Parser Expr
  | 0, _ => throw "expression exceeds maximum complexity"
  | fuel + 1, p => do
    let p ← p.deeper
    let lhs ← operand fuel p
    operators fuel p 1 lhs

/-- What follows an operand: operators that bind it at least as tightly as `strength`. -/
def operators : Nat → Place → Nat → Expr → Parser Expr
  | 0, _, _, _ => throw "expression exceeds maximum complexity"
  | fuel + 1, p, strength, lhs => do
    match ← nextInfix? p with
    | none => return lhs
    | some (s, op) =>
      if s < strength || (s == strength && s != powerStrength) then return lhs
      else
        skip
        let rhs ← operand fuel p
        let rhs ← match ← nextInfix? p with
          | some (t, _) =>
            if s < t || (s == t && s == powerStrength) then operators fuel p s rhs else pure rhs
          | none => pure rhs
        operators fuel (← p.deeper) strength (op.build lhs rhs)

/-- An operand with its signs and links. -/
def operand : Nat → Place → Parser Expr
  | 0, _ => throw "expression exceeds maximum complexity"
  | fuel + 1, p => do
    match ← peek? with
    | some (.sign "-") => do
      skip
      return .unary .negate (← operand fuel (← p.deeper))
    | some (.sign "+") => do
      skip
      return .unary .plus (← operand fuel (← p.deeper))
    | some (.sign "!") => do
      skip
      return .unary .not (← operand fuel (← p.deeper))
    | _ => do
      let base ← primary fuel p
      links fuel p base

/-- An operand without signs and links. -/
def primary : Nat → Place → Parser Expr
  | 0, _ => throw "expression exceeds maximum complexity"
  | fuel + 1, p => do
    match ← peek? with
    | some (.int i) => do skip; return .lit (.int i)
    | some (.float x) => do skip; return .lit (.float x)
    | some (.char c) => do skip; return .lit (.char c)
    | some (.str s) => do
      skip
      if p.textLimit != 0 && s.utf8ByteSize > p.textLimit then throw "string is too long"
      return .lit (.str s)
    | some (.piece s) => do
      skip
      let parts ← pieces fuel (← p.deeper)
      return .text (.lit (.str s) :: parts)
    | some (.keyword "true") => do skip; return .lit (.bool true)
    | some (.keyword "false") => do skip; return .lit (.bool false)
    | some (.keyword "this") => do skip; return .this
    | some (.keyword "if") | some (.keyword "switch") | some (.keyword "while")
    | some (.keyword "loop") | some (.keyword "do") | some (.keyword "for")
    | some (.sign "\x7b") => return .run (← stmt fuel (← p.deeper))
    | some (.sign "(") => do
      skip
      if ← takesSign ")" then return .lit .unit
      else
        let e ← expr fuel { ← p.deeper with inLabel := false }
        sign ")"
        return e
    | some (.sign "[") => do
      skip
      return .list (← args fuel { ← p.deeper with inLabel := false } "]")
    | some (.sign "#\x7b") => do
      skip
      return .map (← fields fuel { ← p.deeper with inLabel := false } [])
    | some (.special n) => do
      skip
      sign "("
      return .call n (← args fuel { ← p.deeper with inLabel := false } ")")
    | some (.ident n) => do
      skip
      if ← takesSign "(" then
        return .call n (← args fuel { ← p.deeper with inLabel := false } ")")
      else return .var n
    | _ => unexpected

/-- The rest of a text with code: the code in braces, then a further piece or the last one. -/
def pieces : Nat → Place → Parser (List Expr)
  | 0, _ => throw "expression exceeds maximum complexity"
  | fuel + 1, p => do
    let code ← block fuel { p with inLabel := false }
    match ← peek? with
    | some (.piece s) => do
      skip
      return .run (.block code) :: .lit (.str s) :: (← pieces fuel p)
    | some (.str s) => do
      skip
      return [.run (.block code), .lit (.str s)]
    | _ => unexpected

/-- Expressions between commas up to a closing sign. -/
def args : Nat → Place → String → Parser (List Expr)
  | 0, _, _ => throw "expression exceeds maximum complexity"
  | fuel + 1, p, close => do
    if ← takesSign close then return []
    else
      let e ← expr fuel p
      if ← takesSign "," then return e :: (← args fuel p close)
      else
        sign close
        return [e]

/-- The fields of a map up to its closing brace. -/
def fields : Nat → Place → List String → Parser (List (String × Expr))
  | 0, _, _ => throw "expression exceeds maximum complexity"
  | fuel + 1, p, seen => do
    if ← takesSign "\x7d" then return []
    else
      let key ← match ← peek? with
        | some (.ident n) => pure n
        | some (.str s) => pure s
        | _ => unexpected
      skip
      if seen.contains key then throw "duplicated property"
      sign ":"
      let e ← expr fuel p
      if ← takesSign "," then return (key, e) :: (← fields fuel p (key :: seen))
      else
        sign "\x7d"
        return [(key, e)]

/-- The links after an operand. -/
def links : Nat → Place → Expr → Parser Expr
  | 0, _, _ => throw "expression exceeds maximum complexity"
  | fuel + 1, p, e => do
    match (← peek?).bind linkSign? with
    | none => return e
    | some (true, guarded) => do
      skip
      let index ← expr fuel { ← p.deeper with inLabel := false }
      sign "]"
      links fuel p (extend e (.item index guarded))
    | some (false, guarded) => do
      skip
      match ← peek? with
      | some (.ident n) => do
        skip
        if ← takesSign "(" then
          let as ← args fuel { ← p.deeper with inLabel := false } ")"
          links fuel p (extend e (.method n as guarded))
        else links fuel p (extend e (.property n guarded))
      | some (.special n) => do
        skip
        sign "("
        let as ← args fuel { ← p.deeper with inLabel := false } ")"
        links fuel p (extend e (.method n as guarded))
      | _ => unexpected

/-- The statements between braces. -/
def block : Nat → Place → Parser (List Stmt)
  | 0, _ => throw "expression exceeds maximum complexity"
  | fuel + 1, p => do
    sign "\x7b"
    let p ← p.deeper
    stmts fuel p

/-- Statements up to a closing brace. -/
def stmts : Nat → Place → Parser (List Stmt)
  | 0, _ => throw "expression exceeds maximum complexity"
  | fuel + 1, p => do
    if ← takesSign "\x7d" then return []
    else if ← takesSign ";" then stmts fuel p
    else
      let s ← stmt fuel p
      if ← nextIs "\x7d" then return s :: (← stmts fuel p)
      else
        if ← takesSign ";" then pure ()
        else if s.endsItself then pure ()
        else unexpected
        return s :: (← stmts fuel p)

/-- A statement. -/
def stmt : Nat → Place → Parser Stmt
  | 0, _ => throw "expression exceeds maximum complexity"
  | fuel + 1, p => do
    match ← peek? with
    | some (.sign "\x7b") => return .block (← block fuel (← p.deeper))
    | some (.keyword "if") => branch fuel (← p.deeper)
    | some (.keyword "switch") => do
      skip
      let p ← p.deeper
      let subject ← expr fuel p
      sign "\x7b"
      let (cases, default) ← cases fuel p
      return .choose subject cases default
    | some (.keyword "while") => do
      skip
      let p ← p.deeper
      let c ← expr fuel p
      return .loop (some c) (← block fuel { p with inLoop := true })
    | some (.keyword "loop") => do
      skip
      let p ← p.deeper
      return .loop none (← block fuel { p with inLoop := true })
    | some (.keyword "do") => do
      skip
      let p ← p.deeper
      let body ← block fuel { p with inLoop := true }
      let negated ← takesWord "until"
      if negated then pure () else word "while"
      return .after body (← expr fuel p) negated
    | some (.keyword "for") => do
      skip
      let p ← p.deeper
      let (n, counter) ← (do
        if ← takesSign "(" then
          let n ← name
          sign ","
          let counter ← name
          sign ")"
          if n == counter then throw "duplicated variable"
          return (n, some counter)
        else return (← name, none) : Parser (String × Option String))
      word "in"
      let source ← expr fuel p
      return .each n counter source (← block fuel { p with inLoop := true })
    | some (.keyword "try") => do
      skip
      let p ← p.deeper
      let body ← block fuel p
      word "catch"
      let caught ← (do
        if ← takesSign "(" then
          let n ← name
          sign ")"
          return some n
        else return none : Parser (Option String))
      return .attempt body caught (← block fuel p)
    | some (.keyword "let") => do
      skip
      let n ← name
      if ← takesSign "=" then return .declare n false (some (← expr fuel (← p.deeper)))
      else return .declare n false none
    | some (.keyword "const") => do
      skip
      let n ← name
      if ← takesSign "=" then return .declare n true (some (← expr fuel (← p.deeper)))
      else return .declare n true none
    | some (.keyword "break") => do
      skip
      if p.inLoop then return .leave (← value? fuel p)
      else throw "break statement outside of a loop"
    | some (.keyword "continue") => do
      skip
      if p.inLoop then return .next else throw "continue statement outside of a loop"
    | some (.keyword "return") => do
      skip
      return .give (← value? fuel p)
    | some (.keyword "throw") => do
      skip
      return .throw (← value? fuel p)
    | _ => do
      let e ← expr fuel (← p.deeper)
      match (← peek?).bind assignment? with
      | none => return .expr e
      | some op =>
        if e.isTarget then
          skip
          return .assign e op (← expr fuel (← p.deeper))
        else throw "cannot assign to this expression"

/-- The value after `break`, `return` or `throw`, if there is one. -/
def value? : Nat → Place → Parser (Option Expr)
  | 0, _ => throw "expression exceeds maximum complexity"
  | fuel + 1, p => do
    match ← peek? with
    | none | some (.sign "\x7d") | some (.sign ";") => return none
    | _ => return some (← expr fuel (← p.deeper))

/-- An `if` with its branches. -/
def branch : Nat → Place → Parser Stmt
  | 0, _ => throw "expression exceeds maximum complexity"
  | fuel + 1, p => do
    word "if"
    let c ← expr fuel p
    let yes ← block fuel p
    if ← takesWord "else" then
      match ← peek? with
      | some (.keyword "if") => return .branch c yes [← branch fuel (← p.deeper)]
      | _ => return .branch c yes (← block fuel p)
    else return .branch c yes []

/-- The cases of a `switch` up to its closing brace, the default one apart. -/
def cases : Nat → Place → Parser (List Case × Option Stmt)
  | 0, _ => throw "expression exceeds maximum complexity"
  | fuel + 1, p => do
    if ← takesSign "\x7d" then return ([], none)
    else if ← takesSign "_" then
      sign "=>"
      let s ← stmt fuel p
      let _ ← takesSign ","
      sign "\x7d"
      return ([], some s)
    else
      let ls ← labels fuel p
      let guard ← (do
        if ← takesWord "if" then return some (← expr fuel p) else return none :
          Parser (Option Expr))
      sign "=>"
      let s ← stmt fuel p
      if ← nextIs "\x7d" then pure ()
      else if ← takesSign "," then pure ()
      else if s.endsItself then pure ()
      else unexpected
      let (rest, default) ← cases fuel p
      return (.mk ls guard s :: rest, default)

/-- The labels of a case. -/
def labels : Nat → Place → Parser (List CaseLabel)
  | 0, _ => throw "expression exceeds maximum complexity"
  | fuel + 1, p => do
    let l ← label (← expr fuel { p with inLabel := true })
    if ← takesSign "|" then return l :: (← labels fuel p) else return [l]
end

/-- The names between commas up to a closing parenthesis, all of them different. -/
def params : Nat → List String → Parser (List String)
  | 0, _ => throw "too many parameters"
  | fuel + 1, seen => do
    if ← takesSign ")" then return []
    else
      let n ← name
      if seen.contains n then throw "duplicated parameter"
      if ← takesSign "," then return n :: (← params fuel (n :: seen))
      else
        sign ")"
        return [n]

/-- A function, without the word that begins it. -/
def function (fuel : Nat) (p : Place) : Parser Function := do
  let n ← name
  sign "("
  let ps ← params fuel []
  let body ← block fuel { p with depth := 0, inLoop := false }
  return { name := n, params := ps, body }

/-- The script with the function that follows; no other may have its name and number of
parameters. -/
def define (fuel : Nat) (p : Place) (s : Source) : Parser Source := do
  let f ← function fuel p
  if s.functions.any fun g => g.name == f.name && g.params.length == f.params.length then
    throw "function already exists"
  return { s with functions := f :: s.functions }

/-- The statements and functions of a script. -/
def script : Nat → Place → Source → Parser Source
  | 0, _, _ => throw "expression exceeds maximum complexity"
  | fuel + 1, p, s => do
    match ← peek? with
    | none => return ⟨s.body.reverse, s.functions⟩
    | some (.sign ";") => do skip; script fuel p s
    | some (.keyword "private") => do
      skip
      word "fn"
      script fuel p (← define fuel p s)
    | some (.keyword "fn") => do
      skip
      script fuel p (← define fuel p s)
    | _ => do
      let st ← stmt fuel p
      if (← peek?).isNone then pure ()
      else if ← takesSign ";" then pure ()
      else if st.endsItself then pure ()
      else unexpected
      script fuel p { s with body := st :: s.body }

end Parser

/-- Reads a script. `depth` limits how deep its expressions nest and `text` the bytes of its
literal texts; zero means no limit. -/
def Source.parse (depth text : Nat) (code : String) : Except String Source :=
  let ts := Token.ofScript code
  let place : Parser.Place :=
    { depth := 0, limit := depth, textLimit := text, inLoop := false, inLabel := false }
  (Parser.script (16 * ts.length + 16) place ⟨[], []⟩).run' ts

end Runbook.Script

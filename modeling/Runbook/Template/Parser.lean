import Runbook.Template.Syntax
import Runbook.Template.Token

/-!
# Parsing templates

From tokens to expressions and statements. The levels of an expression, loosest first: conditional,
`or`, `and`, `not`, comparison, sum, `~`, product, power, sign, then attributes, calls, filters and
tests. All operators of one level associate to the left. `Expr.parse` and `Node.parse` are total:
every recursive call spends one unit of a bound computed from the number of tokens, and expressions
nest at most 150 deep.
-/

namespace Runbook.Template

namespace Parse

/-- The fault of the next token. -/
def unexpected {α : Type} (ts : List Token) : Except SyntaxFault α :=
  match ts with
  | .fault e :: _ => .error e
  | _ => .error .malformed

/-- The tokens after the sign `s`. -/
def sign? (s : String) : List Token → Option (List Token)
  | .sign t :: ts => if t == s then some ts else none
  | _ => none

/-- The tokens after the word `w`. -/
def word? (w : String) : List Token → Option (List Token)
  | .ident x :: ts => if x == w then some ts else none
  | _ => none

/-- The tokens after the sign `s`, which has to come next. -/
def sign (s : String) (ts : List Token) : Except SyntaxFault (List Token) :=
  match sign? s ts with
  | some r => .ok r
  | none => unexpected ts

/-- The tokens after the end of a statement, which has to come next. -/
def blockEnd (ts : List Token) : Except SyntaxFault (List Token) :=
  match ts with
  | .blockEnd :: r => .ok r
  | _ => unexpected ts

/-- The name that has to come next. -/
def ident (ts : List Token) : Except SyntaxFault (String × List Token) :=
  match ts with
  | .ident x :: r => .ok (x, r)
  | _ => unexpected ts

/-- The comparison that comes next, whether it is negated, and the tokens after it. -/
def comparison? (ts : List Token) : Option (Except SyntaxFault (BinOp × Bool × List Token)) :=
  match ts with
  | .sign "==" :: r => some (.ok (.eq, false, r))
  | .sign "!=" :: r => some (.ok (.ne, false, r))
  | .sign "<" :: r => some (.ok (.lt, false, r))
  | .sign "<=" :: r => some (.ok (.le, false, r))
  | .sign ">" :: r => some (.ok (.gt, false, r))
  | .sign ">=" :: r => some (.ok (.ge, false, r))
  | .ident "in" :: r => some (.ok (.isIn, false, r))
  | .ident "not" :: .ident "in" :: r => some (.ok (.isIn, true, r))
  | .ident "not" :: r => some (unexpected r)
  | _ => none

/-- The operators of the arithmetic levels, loosest first. -/
def arithmetic (level : Nat) (s : String) : Option BinOp :=
  match level with
  | 0 => if s == "+" then some .add else if s == "-" then some .sub else none
  | 1 => if s == "~" then some .concat else none
  | 2 =>
    if s == "*" then some .mul else if s == "/" then some .div
    else if s == "//" then some .floorDiv else if s == "%" then some .rem else none
  | _ => if s == "**" then some .pow else none

/-- Words that end a test's name rather than begin its argument. -/
def afterTest : List String := ["and", "or", "else", "is", "if", "in", "not"]

/-- Whether the next token begins the argument of a test without brackets. -/
def startsArgument : List Token → Bool
  | .ident x :: _ => !afterTest.contains x
  | .str _ :: _ => true
  | .int _ :: _ => true
  | .float _ :: _ => true
  | .sign s :: _ => s == "[" || s == "\x7b"
  | _ => false

/-- Texts that stand side by side are one text. -/
def joinTexts (s : String) : List Token → String × List Token
  | .str t :: ts => joinTexts (s ++ t) ts
  | ts => (s, ts)

mutual
/-- An expression, with `depth` more levels of nesting allowed. -/
def expr : Nat → Nat → List Token → Except SyntaxFault (Expr × List Token)
  | 0, _, ts => unexpected ts
  | _ + 1, 0, ts => unexpected ts
  | fuel + 1, depth + 1, ts => do
    let (e, ts) ← orLevel fuel depth ts
    conditional fuel depth e ts

/-- The `if` parts after an expression. -/
def conditional : Nat → Nat → Expr → List Token → Except SyntaxFault (Expr × List Token)
  | 0, _, _, ts => unexpected ts
  | fuel + 1, depth, e, ts =>
    match word? "if" ts with
    | none => .ok (e, ts)
    | some ts => do
      let (c, ts) ← orLevel fuel depth ts
      match word? "else" ts with
      | none => conditional fuel depth (.ifElse c e none) ts
      | some ts => do
        let (f, ts) ← orLevel fuel depth ts
        let (f, ts) ← conditional fuel depth f ts
        conditional fuel depth (.ifElse c e (some f)) ts

/-- An expression of the `or` level. -/
def orLevel : Nat → Nat → List Token → Except SyntaxFault (Expr × List Token)
  | 0, _, ts => unexpected ts
  | fuel + 1, depth, ts => do
    let (e, ts) ← andLevel fuel depth ts
    orRest fuel depth e ts

/-- Further operands of `or`. -/
def orRest : Nat → Nat → Expr → List Token → Except SyntaxFault (Expr × List Token)
  | 0, _, _, ts => unexpected ts
  | fuel + 1, depth, e, ts =>
    match word? "or" ts with
    | none => .ok (e, ts)
    | some ts => do
      let (f, ts) ← andLevel fuel depth ts
      orRest fuel depth (.or e f) ts

/-- An expression of the `and` level. -/
def andLevel : Nat → Nat → List Token → Except SyntaxFault (Expr × List Token)
  | 0, _, ts => unexpected ts
  | fuel + 1, depth, ts => do
    let (e, ts) ← notLevel fuel depth ts
    andRest fuel depth e ts

/-- Further operands of `and`. -/
def andRest : Nat → Nat → Expr → List Token → Except SyntaxFault (Expr × List Token)
  | 0, _, _, ts => unexpected ts
  | fuel + 1, depth, e, ts =>
    match word? "and" ts with
    | none => .ok (e, ts)
    | some ts => do
      let (f, ts) ← notLevel fuel depth ts
      andRest fuel depth (.and e f) ts

/-- An expression of the `not` level. -/
def notLevel : Nat → Nat → List Token → Except SyntaxFault (Expr × List Token)
  | 0, _, ts => unexpected ts
  | fuel + 1, depth, ts =>
    match word? "not" ts with
    | some ts => do
      match depth with
      | 0 => unexpected ts
      | depth + 1 =>
        let (e, ts) ← notLevel fuel depth ts
        .ok (.not e, ts)
    | none => do
      let (e, ts) ← arithLevel fuel depth 0 ts
      compareRest fuel depth e ts

/-- Further operands of comparisons. -/
def compareRest : Nat → Nat → Expr → List Token → Except SyntaxFault (Expr × List Token)
  | 0, _, _, ts => unexpected ts
  | fuel + 1, depth, e, ts =>
    match comparison? ts with
    | none => .ok (e, ts)
    | some (.error x) => .error x
    | some (.ok (op, negated, ts)) => do
      let (f, ts) ← arithLevel fuel depth 0 ts
      let e := Expr.bin op e f
      compareRest fuel depth (if negated then .not e else e) ts

/-- An expression of an arithmetic level: sum, `~`, product, power, sign. -/
def arithLevel : Nat → Nat → Nat → List Token → Except SyntaxFault (Expr × List Token)
  | 0, _, _, ts => unexpected ts
  | fuel + 1, depth, level, ts =>
    if level ≥ 4 then signed fuel depth ts
    else do
      let (e, ts) ← arithLevel fuel depth (level + 1) ts
      arithRest fuel depth level e ts

/-- Further operands of an arithmetic level. -/
def arithRest : Nat → Nat → Nat → Expr → List Token → Except SyntaxFault (Expr × List Token)
  | 0, _, _, _, ts => unexpected ts
  | fuel + 1, depth, level, e, ts =>
    match ts with
    | .sign s :: r =>
      match arithmetic level s with
      | none => .ok (e, ts)
      | some op => do
        let (f, r) ← arithLevel fuel depth (level + 1) r
        arithRest fuel depth level (.bin op e f) r
    | _ => .ok (e, ts)

/-- An operand with its sign, attributes, calls, filters and tests. -/
def signed : Nat → Nat → List Token → Except SyntaxFault (Expr × List Token)
  | 0, _, ts => unexpected ts
  | fuel + 1, depth, ts => do
    let (e, ts) ← minus fuel depth ts
    let (e, ts) ← postfixes fuel depth e ts
    filters fuel depth e ts

/-- An operand with any number of minus signs before it. -/
def minus : Nat → Nat → List Token → Except SyntaxFault (Expr × List Token)
  | 0, _, ts => unexpected ts
  | fuel + 1, depth, ts =>
    match sign? "-" ts with
    | some ts => do
      match depth with
      | 0 => unexpected ts
      | depth + 1 =>
        let (e, ts) ← minus fuel depth ts
        .ok (.neg e, ts)
    | none => primary fuel depth ts

/-- A literal, a name or something in brackets. -/
def primary : Nat → Nat → List Token → Except SyntaxFault (Expr × List Token)
  | 0, _, ts => unexpected ts
  | fuel + 1, depth, ts =>
    match ts with
    | .ident x :: r =>
      if x == "true" || x == "True" then .ok (.bool true, r)
      else if x == "false" || x == "False" then .ok (.bool false, r)
      else if x == "none" || x == "None" then .ok (.none, r)
      else .ok (.name x, r)
    | .str s :: r =>
      let (s, r) := joinTexts s r
      .ok (.str s, r)
    | .int n :: r => .ok (.int n, r)
    | .float x :: r => .ok (.float x, r)
    | .sign "(" :: r =>
      match sign? ")" r with
      | some r => .ok (.list [], r)
      | none => do
        let (e, r) ← expr fuel depth r
        match sign? "," r with
        | none => do
          let r ← sign ")" r
          .ok (e, r)
        | some r => do
          let (es, r) ← items fuel depth ")" [e] r
          .ok (.list es, r)
    | .sign "[" :: r => do
      let (es, r) ← items fuel depth "]" [] r
      .ok (.list es, r)
    | .sign "\x7b" :: r => do
      let (es, r) ← entries fuel depth [] r
      .ok (.map es, r)
    | _ => unexpected ts

/-- The expressions up to a closing bracket; a comma may stand before it. -/
def items : Nat → Nat → String → List Expr → List Token →
    Except SyntaxFault (List Expr × List Token)
  | 0, _, _, _, ts => unexpected ts
  | fuel + 1, depth, close, acc, ts =>
    match sign? close ts with
    | some r => .ok (acc.reverse, r)
    | none => do
      let (e, r) ← expr fuel depth ts
      match sign? "," r with
      | some r => items fuel depth close (e :: acc) r
      | none => do
        let r ← sign close r
        .ok ((e :: acc).reverse, r)

/-- The entries of a map up to its closing bracket; a comma may stand before it. -/
def entries : Nat → Nat → List (Expr × Expr) → List Token →
    Except SyntaxFault ((List (Expr × Expr)) × List Token)
  | 0, _, _, ts => unexpected ts
  | fuel + 1, depth, acc, ts =>
    match sign? "\x7d" ts with
    | some r => .ok (acc.reverse, r)
    | none => do
      let (k, r) ← expr fuel depth ts
      let r ← sign ":" r
      let (v, r) ← expr fuel depth r
      match sign? "," r with
      | some r => entries fuel depth ((k, v) :: acc) r
      | none => do
        let r ← sign "\x7d" r
        .ok (((k, v) :: acc).reverse, r)

/-- Attributes, subscripts and calls after an operand. -/
def postfixes : Nat → Nat → Expr → List Token → Except SyntaxFault (Expr × List Token)
  | 0, _, _, ts => unexpected ts
  | fuel + 1, depth, e, ts =>
    match ts with
    | .sign "." :: .ident x :: r =>
      match sign? "(" r with
      | some r => do
        let (args, r) ← items fuel depth ")" [] r
        postfixes fuel depth (.method e x args) r
      | none => postfixes fuel depth (.attr e x) r
    | .sign "." :: .int n :: r => postfixes fuel depth (.item e (.int n)) r
    | .sign "." :: r => unexpected r
    | .sign "[" :: r => do
      let (start, r) ← bound fuel depth [":"] r
      match sign? ":" r with
      | none =>
        match start with
        | none => unexpected r
        | some i => do
          let r ← sign "]" r
          postfixes fuel depth (.item e i) r
      | some r => do
        let (stop, r) ← bound fuel depth [":", "]"] r
        match sign? ":" r with
        | none => do
          let r ← sign "]" r
          postfixes fuel depth (.slice e start stop none) r
        | some r => do
          let (step, r) ← bound fuel depth ["]"] r
          let r ← sign "]" r
          postfixes fuel depth (.slice e start stop step) r
    | .sign "(" :: r => do
      let (args, r) ← items fuel depth ")" [] r
      match e with
      | .name x => postfixes fuel depth (.call x args) r
      | e => postfixes fuel depth (.apply e args) r
    | _ => .ok (e, ts)

/-- An optional expression: none when one of the signs comes next. -/
def bound : Nat → Nat → List String → List Token → Except SyntaxFault (Option Expr × List Token)
  | 0, _, _, ts => unexpected ts
  | fuel + 1, depth, stops, ts =>
    if stops.any fun s => (sign? s ts).isSome then .ok (none, ts)
    else do
      let (e, r) ← expr fuel depth ts
      .ok (some e, r)

/-- Filters and tests after an operand. -/
def filters : Nat → Nat → Expr → List Token → Except SyntaxFault (Expr × List Token)
  | 0, _, _, ts => unexpected ts
  | fuel + 1, depth, e, ts =>
    match ts with
    | .sign "|" :: r => do
      let (x, r) ← ident r
      match sign? "(" r with
      | some r => do
        let (args, r) ← items fuel depth ")" [] r
        filters fuel depth (.filter e x args) r
      | none => filters fuel depth (.filter e x []) r
    | .ident "is" :: r => do
      let (negated, r) := match word? "not" r with
        | some r => (true, r)
        | none => (false, r)
      let (x, r) ← ident r
      let wrap (args : List Expr) : Expr :=
        if negated then .not (.test e x args) else .test e x args
      match sign? "(" r with
      | some r => do
        let (args, r) ← items fuel depth ")" [] r
        filters fuel depth (wrap args) r
      | none =>
        if startsArgument r then do
          let (a, r) ← minus fuel depth r
          let (a, r) ← postfixes fuel depth a r
          filters fuel depth (wrap [a]) r
        else filters fuel depth (wrap []) r
    | _ => .ok (e, ts)
end

/-- How deep expressions may nest. -/
def maxNesting : Nat := 150

/-- A bound on the calls that parsing these tokens takes. -/
def fuelFor (ts : List Token) : Nat := 16 * ts.length + 32

/-! ## Statements -/

/-- Names that cannot be assigned. -/
def reserved : List String := ["true", "True", "false", "False", "none", "None", "loop"]

mutual
/-- What an assignment binds: names separated by commas. -/
def target : Nat → List Token → Except SyntaxFault (Target × List Token)
  | 0, ts => unexpected ts
  | fuel + 1, ts => do
    let (t, r) ← targetPart fuel ts
    match sign? "," r with
    | none => .ok (t, r)
    | some r => do
      let (parts, r) ← targetRest fuel [t] r
      .ok (.tuple parts, r)

/-- One name or a bracketed list of them. -/
def targetPart : Nat → List Token → Except SyntaxFault (Target × List Token)
  | 0, ts => unexpected ts
  | fuel + 1, ts =>
    match ts with
    | .sign "(" :: r => do
      let (t, r) ← target fuel r
      let r ← sign ")" r
      .ok (t, r)
    | .ident x :: r => if reserved.contains x then unexpected [] else .ok (.name x, r)
    | _ => unexpected ts

/-- Further targets after a comma. -/
def targetRest : Nat → List Target → List Token → Except SyntaxFault (List Target × List Token)
  | 0, _, ts => unexpected ts
  | fuel + 1, acc, ts =>
    match ts with
    | .ident "in" :: _ => .ok (acc.reverse, ts)
    | .sign "=" :: _ => .ok (acc.reverse, ts)
    | .sign ")" :: _ => .ok (acc.reverse, ts)
    | .blockEnd :: _ => .ok (acc.reverse, ts)
    | _ => do
      let (t, r) ← targetPart fuel ts
      match sign? "," r with
      | some r => targetRest fuel (t :: acc) r
      | none => .ok ((t :: acc).reverse, r)
end

mutual
/-- The pieces up to a statement that one of the words in `ends` begins (to the end of the
template when there is none); the word and the tokens after it. -/
def nodes : Nat → List String → List Node → List Token →
    Except SyntaxFault ((List Node × String) × List Token)
  | 0, _, _, ts => unexpected ts
  | fuel + 1, ends, acc, ts =>
    match ts with
    | [] => if ends.isEmpty then .ok ((acc.reverse, ""), []) else unexpected []
    | .text s :: r => nodes fuel ends (.text s :: acc) r
    | .outputStart :: r => do
      let (e, r) ← expr (fuelFor r) maxNesting r
      match r with
      | .outputEnd :: r => nodes fuel ends (.output e :: acc) r
      | _ => unexpected r
    | .blockStart :: .ident w :: r =>
      if ends.contains w then .ok ((acc.reverse, w), r)
      else do
        let (n, r) ← statement fuel w r
        nodes fuel ends (n :: acc) r
    | .blockStart :: r => unexpected r
    | _ => unexpected ts

/-- The statement that the word `w` begins. -/
def statement : Nat → String → List Token → Except SyntaxFault (Node × List Token)
  | 0, _, ts => unexpected ts
  | fuel + 1, w, ts =>
    if w == "if" then conditionalNode fuel ts
    else if w == "for" then do
      let (t, ts) ← target (fuelFor ts) ts
      match word? "in" ts with
      | none => unexpected ts
      | some ts => do
        let (items, ts) ← orLevel (fuelFor ts) maxNesting ts
        let (keep, ts) ← (match word? "if" ts with
          | some r => do
            let (e, r) ← expr (fuelFor r) maxNesting r
            .ok (some e, r)
          | none => .ok (none, ts) : Except SyntaxFault (Option Expr × List Token))
        let ts := (word? "recursive" ts).getD ts
        let ts ← blockEnd ts
        let ((body, stop), ts) ← nodes fuel ["endfor", "else"] [] ts
        if stop == "else" then do
          let ts ← blockEnd ts
          let ((empty, _), ts) ← nodes fuel ["endfor"] [] ts
          let ts ← blockEnd ts
          .ok (.loop t items keep body empty, ts)
        else do
          let ts ← blockEnd ts
          .ok (.loop t items keep body [], ts)
    else if w == "set" then do
      let (t, ts) ← target (fuelFor ts) ts
      match sign? "=" ts with
      | some ts => do
        let (e, ts) ← expr (fuelFor ts) maxNesting ts
        let ts ← blockEnd ts
        .ok (.assign t e, ts)
      | none => do
        let ts ← blockEnd ts
        let ((body, _), ts) ← nodes fuel ["endset"] [] ts
        let ts ← blockEnd ts
        .ok (.capture t body, ts)
    else unexpected []

/-- The rest of a conditional, after its `if`. -/
def conditionalNode : Nat → List Token → Except SyntaxFault (Node × List Token)
  | 0, ts => unexpected ts
  | fuel + 1, ts => do
    let (c, ts) ← expr (fuelFor ts) maxNesting ts
    let ts ← blockEnd ts
    let ((yes, stop), ts) ← nodes fuel ["endif", "else", "elif"] [] ts
    if stop == "elif" then do
      let (n, ts) ← conditionalNode fuel ts
      .ok (.cond c yes [n], ts)
    else if stop == "else" then do
      let ts ← blockEnd ts
      let ((no, _), ts) ← nodes fuel ["endif"] [] ts
      let ts ← blockEnd ts
      .ok (.cond c yes no, ts)
    else do
      let ts ← blockEnd ts
      .ok (.cond c yes [], ts)
end

end Parse

/-- The expression that a text stands for. -/
def Expr.parse (s : String) : Except SyntaxFault Expr :=
  let ts := Token.ofExpression s
  match Parse.expr (Parse.fuelFor ts) Parse.maxNesting ts with
  | .error e => .error e
  | .ok (e, []) => .ok e
  | .ok (_, rest) => Parse.unexpected rest

/-- The pieces of a template. -/
def Node.parse (s : String) : Except SyntaxFault (List Node) :=
  let ts := Token.ofTemplate s
  match Parse.nodes (2 * ts.length + 2) [] [] ts with
  | .error e => .error e
  | .ok ((ns, _), _) => .ok ns

end Runbook.Template

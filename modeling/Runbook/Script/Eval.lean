import Runbook.Script.Parser
import Runbook.Script.Place

/-!
# Running scripts

`Eval.expr` and `Eval.stmt` give values to expressions and statements. They are total: every
recursive call spends one unit of a bound that `Script.run` computes from the length of the script
and from the number of calls that may be under way, so that it is never used up. `Script.run` runs a
script over some variables and gives its value and the variables afterwards.
-/

namespace Runbook.Script

namespace Eval

/-- The truth value that a condition must have. -/
def truth (v : Value) : Eval Bool :=
  match v with
  | .bool b => pure b
  | v => fail (.wrongKind "bool" v.kind)

/-- Whether a case of a `switch` names a value. -/
def names (v : Value) : CaseLabel → Bool
  | .value w => Value.same v w
  | .range _ _ _ => false

/-- Whether a case of a `switch` has a range that holds a value. -/
def spans (v : Value) : CaseLabel → Bool
  | .value _ => false
  | .range a b closed =>
    match v with
    | .int i => a ≤ i && (i < b || (closed && i == b))
    | _ => false

/-- The statements of the first of some cases whose guard holds. -/
def firstOpen (guard : Option Expr → Eval Bool) : List Case → Eval (Option Stmt)
  | [] => pure none
  | .mk _ g s :: rest => do if ← guard g then return some s else firstOpen guard rest

/-- The cases of a `switch` that come into question: those that name the value or, when there are
none, those whose range holds it. -/
def candidates (v : Value) (cases : List Case) : List Case :=
  let named := cases.filter fun | .mk ls _ _ => ls.any (names v)
  if named.isEmpty then cases.filter fun | .mk ls _ _ => ls.any (spans v) else named

theorem mem_of_mem_candidates {v : Value} {cases : List Case} {c : Case}
    (h : c ∈ candidates v cases) : c ∈ cases := by
  unfold candidates at h
  dsimp only at h
  split at h <;> exact (List.mem_filter.1 h).1

/-- The statement that a `switch` comes to: that of the first case in question whose guard holds;
else the default. -/
def chosen (guard : Option Expr → Eval Bool) (v : Value) (cases : List Case)
    (default : Option Stmt) :
    Eval (Option Stmt) := do
  match ← firstOpen guard (candidates v cases) with
  | some s => return some s
  | none => return default

/-- A call of a built-in function; what becomes of the first argument is part of the answer. -/
def builtin (h : Host) (name : String) (args : List Value) : Eval (Value × Option Value) := do
  let r ← ofExcept (Builtin.invoke h.now name args)
  let v ← sized h r.value
  match r.changed with
  | some c => return (v, some (← sized h c))
  | none => return (v, none)

/-- The function of a script with a name and a number of parameters. -/
def function? (h : Host) (name : String) (count : Nat) : Option Function :=
  h.functions.find? fun f => f.name == name && f.params.length == count

/-- The variables of a call. -/
def slotsOf (params : List String) (args : List Value) : List Slot :=
  ((params.zip args).map fun (n, v) => ⟨n, false, v⟩).reverse

/-- How often a loop may go round; a limit on operations ends it before. -/
def rounds (h : Host) : Nat :=
  if h.limits.operations == 0 then Nat.pow 2 64 else h.limits.operations + 1

/-- Asks about the variables and functions of a script, and ends it. -/
def reserved? (h : Host) (name : String) (args : List Value) : Option (Eval Value) :=
  match name, args with
  | "is_def_var", [.str n] => some do return .bool ((← get).slots.any fun s => s.name == n)
  | "is_def_fn", [.str n, .int k] => some (pure (.bool (function? h n k.toNat).isSome))
  | "exit", [] => some (throw (.exit .unit))
  | "exit", [v] => some (throw (.exit v))
  | _, _ => none

mutual
/-- The value of an expression. -/
def expr (h : Host) : Nat → Expr → Eval Value
  | 0, _ => fail .tooManyCalls
  | fuel + 1, e => do
    tick h
    match e with
    | .lit v => return v
    | .text parts =>
      let vs ← parts.mapM (expr h fuel)
      sized h (.str (vs.foldl (fun s v => s ++ v.appended) ""))
    | .list items => sized h (.list (← items.mapM (expr h fuel)))
    | .map fields =>
      let fs ← fields.mapM fun (k, e) => do return (k, ← expr h fuel e)
      sized h (.map (Table.ofList fs))
    | .var name => return (← slot name).value
    | .this =>
      match (← get).receiver with
      | some v => return v
      | none => fail (.unknownVariable "this")
    | .chain base links =>
      let places ← links.mapM (place h fuel)
      let call := method h fuel
      match base with
      | .var name =>
        let s ← slot name
        let (r, changed) ← Place.follow call s.constant s.value places
        match changed with
        | some v => store name (← sized h v)
        | none => pure ()
        return r
      | .this =>
        let v ← expr h fuel .this
        let (r, changed) ← Place.follow call false v places
        match changed with
        | some v => modify fun s => { s with receiver := some v }
        | none => pure ()
        return r
      | base => return (← Place.follow call false (← expr h fuel base) places).1
    | .call name args =>
      let vs ← args.mapM (expr h fuel)
      match reserved? h name vs with
      | some act => act
      | none =>
        match function? h name vs.length with
        | some f => return (← call h fuel f vs none).1
        | none =>
          let (r, changed) ← builtin h name vs
          match args.head?, changed with
          | some (.var x), some v => if (← slot x).constant then pure () else store x v
          | _, _ => pure ()
          return r
    | .unary op e => ofExcept (Value.applyUnary op (← expr h fuel e))
    | .binary op l r =>
      let a ← expr h fuel l
      let b ← expr h fuel r
      sized h (← ofExcept (Value.apply op a b))
    | .and l r =>
      if ← truth (← expr h fuel l) then return .bool (← truth (← expr h fuel r))
      else return .bool false
    | .or l r =>
      if ← truth (← expr h fuel l) then return .bool true
      else return .bool (← truth (← expr h fuel r))
    | .orElse l r =>
      match ← expr h fuel l with
      | .unit => expr h fuel r
      | v => return v
    | .isIn negated l r =>
      let a ← expr h fuel l
      let b ← expr h fuel r
      return .bool ((← ofExcept (Value.holds b a)) != negated)
    | .range l r closed =>
      match ← expr h fuel l, ← expr h fuel r with
      | .int a, .int b => return .range a b closed
      | a, b => ofExcept (Value.inapplicable (if closed then "..=" else "..") a b)
    | .run s => stmt h fuel s

/-- A link with its index or arguments as values. -/
def place (h : Host) : Nat → Link → Eval Place
  | 0, _ => fail .tooManyCalls
  | fuel + 1, l =>
    match l with
    | .property n g => return .property n g
    | .item e g => return .item (← expr h fuel e) g
    | .method n args g => return .method n (← args.mapM (expr h fuel)) g

/-- A call of a function of the script. -/
def call (h : Host) : Nat → Function → List Value → Option Value → Eval (Value × Option Value)
  | 0, _, _, _ => fail .tooManyCalls
  | fuel + 1, f, args, receiver => do
    tick h
    if (← get).depth + 1 > h.limits.calls then fail .tooManyCalls
    else
      framed (slotsOf f.params args) receiver
        (bounded f.name (f.body.foldlM (fun _ s => stmt h fuel s) .unit))

/-- A call of a function as a method, one of the script or a built-in one. A receiver that must stay
is not changed by the former, and cannot be given to one of the latter that would change it. -/
def method (h : Host) : Nat → Place.Call
  | 0, _, _, _, _ => fail .tooManyCalls
  | fuel + 1, fixed, v, name, args => do
    match function? h name args.length with
    | some f =>
      let (r, changed) ← call h fuel f args (some v)
      return (r, if fixed then none else changed)
    | none =>
      let (r, changed) ← builtin h name (v :: args)
      if fixed && changed.isSome then fail (.constantReceiver name) else return (r, changed)

/-- The value of a statement. -/
def stmt (h : Host) : Nat → Stmt → Eval Value
  | 0, _ => fail .tooManyCalls
  | fuel + 1, s => do
    tick h
    let block (body : List Stmt) : Eval Value :=
      inScope (body.foldlM (fun _ s => stmt h fuel s) .unit)
    let value (e : Option Expr) : Eval Value :=
      match e with
      | some e => expr h fuel e
      | none => pure .unit
    match s with
    | .expr e => expr h fuel e
    | .declare name constant e =>
      declare name constant (← value e)
      return .unit
    | .assign target op e =>
      let v ← expr h fuel e
      let new (old : Value) : Eval Value :=
        match op with
        | none => pure v
        | some op => do sized h (← ofExcept (Value.update op old v))
      match target with
      | .var name =>
        let s ← slot name
        if s.constant then fail (.constant name) else store name (← new s.value)
      | .this =>
        let old ← expr h fuel .this
        let w ← new old
        modify fun s => { s with receiver := some w }
      | .chain (.var name) links =>
        let places ← links.mapM (place h fuel)
        let s ← slot name
        if s.constant then fail (.constant name)
        else store name (← sized h (← Place.update (method h fuel) new s.value places))
      | .chain .this links =>
        let places ← links.mapM (place h fuel)
        let old ← expr h fuel .this
        let w ← sized h (← Place.update (method h fuel) new old places)
        modify fun s => { s with receiver := some w }
      | _ => fail (.malformed "cannot assign to this expression")
      return .unit
    | .block body => block body
    | .branch c yes no => if ← truth (← expr h fuel c) then block yes else block no
    | .choose subject cases default =>
      let v ← expr h fuel subject
      let guard (g : Option Expr) : Eval Bool :=
        match g with
        | some e => do truth (← expr h fuel e)
        | none => pure true
      match ← chosen guard v cases default with
      | some s => stmt h fuel s
      | none => return .unit
    | .loop c body =>
      repeated (rounds h) do
        let more ← match c with
          | some c => truth (← expr h fuel c)
          | none => do
            tick h
            pure true
        if more then round (block body) else return some .unit
    | .after body c negated =>
      repeated (rounds h) do
        match ← round (block body) with
        | some v => return some v
        | none =>
          if (← truth (← expr h fuel c)) != negated then return none else return some .unit
    | .each name counter source body =>
      let v ← expr h fuel source
      let go (x : Value) (i : Nat) : Eval (Option Value) :=
        round (inScope do
          match counter with
          | some c => declare c false (.int i)
          | none => pure ()
          declare name false x
          block body)
      match v with
      | .list xs => if body.isEmpty then return .unit else overItems go xs 0
      | .str s => if body.isEmpty then return .unit else overItems go (s.toList.map .char) 0
      | .range a b closed =>
        let count := (b - a + (if closed then 1 else 0)).toNat
        if body.isEmpty then return .unit else overCount (fun i => go (.int (a + i)) i) count 0
      | _ => fail .notIterable
    | .leave e => throw (.leave (← value e))
    | .next => throw .next
    | .give e => throw (.give (← value e))
    | .throw e => fail (.thrown (← value e))
    | .attempt body caught handler =>
      handled (block body) fun f => inScope do
        match caught with
        | some n => declare n false f.caught
        | none => pure ()
        block handler
end

end Eval

/-- Runs a script over some variables: its value and the variables afterwards, or the fault that
ended it. -/
def run (limits : Limits) (now : Instant) (slots : List Slot) (code : String) :
    Except Fault (Value × List Slot) := do
  match Source.parse limits.depth limits.textSize code with
  | .error d => throw (.malformed d)
  | .ok script =>
    let h : Host := { functions := script.functions, limits, now }
    let fuel := 8 * (code.length + 4) * (limits.calls + 2)
    let body : Eval Value := script.body.foldlM (fun _ s => Eval.stmt h fuel s) .unit
    match body { slots, receiver := none, operations := 0, depth := 0 } with
    | .ok v s => return (v, s.slots)
    | .error (.give v) s => return (v, s.slots)
    | .error (.exit v) s => return (v, s.slots)
    | .error (.leave v) s => return (v, s.slots)
    | .error .next s => return (.unit, s.slots)
    | .error (.fault f) _ => throw f

end Runbook.Script

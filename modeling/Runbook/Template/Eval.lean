import Runbook.Template.Filter
import Runbook.Template.Parser

/-!
# Evaluating templates

An expression is evaluated over a context tree; the names that a template has bound itself come
first, and the functions that every template knows come last. Writing an undefined value, testing it
for truth, going through it or looking into it is a fault.
-/

namespace Runbook.Template

/-- The names in scope: those bound by loops and assignments, the innermost first, and the context
tree. -/
structure Env where
  frames : List (List (String × Value))
  context : Value

namespace Env

/-- The environment of a context tree. -/
def ofContext (context : Json) : Env := ⟨[[]], Value.ofJson context⟩

/-- The value bound in the innermost frame that binds the name. -/
def inFrames? (x : String) : List (List (String × Value)) → Option Value
  | [] => none
  | f :: fs =>
    match f.find? (·.1 == x) with
    | some (_, v) => some v
    | none => inFrames? x fs

/-- The functions that every template knows. -/
def functions : List String := ["debug", "dict", "namespace", "range"]

/-- The function of a name. -/
def function? (x : String) : Option Value :=
  if functions.contains x then some (.function x) else none

/-- The value of a name. -/
def lookup? (env : Env) (x : String) : Option Value :=
  ((inFrames? x env.frames).or (Value.attribute? env.context x)).or (function? x)

/-- The environment with a name bound in the innermost frame. -/
def bind (env : Env) (x : String) (v : Value) : Env :=
  match env.frames with
  | [] => { env with frames := [[(x, v)]] }
  | f :: fs => { env with frames := ((x, v) :: f) :: fs }

/-- The environment with a new innermost frame. -/
def push (env : Env) : Env := { env with frames := [] :: env.frames }

end Env

/-- The integers of a range. -/
def rangeFrom (start stop step : Int) : Nat → List Value
  | 0 => []
  | fuel + 1 =>
    if (step > 0 && start < stop) || (step < 0 && start > stop) then
      .int start :: rangeFrom (start + step) stop step fuel
    else []

/-- The result of a function that every template knows. -/
def callBuiltin (name : String) (args : List Value) : Except Fault Value :=
  match name, args.map Value.asIndex? with
  | "range", [some n] => .ok (.list (rangeFrom 0 n 1 100000))
  | "range", [some a, some b] => .ok (.list (rangeFrom a b 1 100000))
  | "range", [some a, some b, some c] => .ok (.list (rangeFrom a b c 100000))
  | "range", [] => .error .missingArgument
  | "range", _ => .error (.invalid "cannot convert value to an integer")
  | name, _ => .error (.unknownFunction name)

/-- The result of calling a value. -/
def Value.call (args : List Value) : Value → Except Fault Value
  | .function name => callBuiltin name args
  | v => .error (.invalid ("value of type " ++ v.kind ++ " is not callable"))

mutual
/-- The value of an expression. -/
def Expr.eval (env : Env) : Expr → Except Fault Value
  | .none => .ok .none
  | .bool b => .ok (.bool b)
  | .int i => .ok (.int i)
  | .float x => .ok (.float x)
  | .str s => .ok (.str s)
  | .name x => .ok ((env.lookup? x).getD (.undefined false))
  | .attr e key =>
    match e.eval env with
    | .error f => .error f
    | .ok v => Value.orUndefined v (v.attribute? key)
  | .item e i =>
    match e.eval env with
    | .error f => .error f
    | .ok v =>
      match i.eval env with
      | .error f => .error f
      | .ok key => Value.orUndefined v (v.subscript? key)
  | .slice e a b c =>
    match e.eval env with
    | .error f => .error f
    | .ok v =>
      match evalOption env a, evalOption env b, evalOption env c with
      | .ok a, .ok b, .ok c => v.slice a b c
      | .error f, _, _ => .error f
      | _, .error f, _ => .error f
      | _, _, .error f => .error f
  | .neg e =>
    match e.eval env with
    | .error f => .error f
    | .ok v => v.negate
  | .not e =>
    match e.eval env with
    | .error f => .error f
    | .ok v => v.condition.map fun b => .bool !b
  | .bin op a b =>
    match a.eval env with
    | .error f => .error f
    | .ok v =>
      match b.eval env with
      | .error f => .error f
      | .ok w => Value.binary op v w
  | .and a b =>
    match a.eval env with
    | .error f => .error f
    | .ok v =>
      match v.condition with
      | .error f => .error f
      | .ok true => b.eval env
      | .ok false => .ok v
  | .or a b =>
    match a.eval env with
    | .error f => .error f
    | .ok v =>
      match v.condition with
      | .error f => .error f
      | .ok true => .ok v
      | .ok false => b.eval env
  | .ifElse c t f =>
    match c.eval env with
    | .error x => .error x
    | .ok v =>
      match v.condition with
      | .error x => .error x
      | .ok true => t.eval env
      | .ok false => evalElse env f
  | .filter e name args =>
    match e.eval env with
    | .error f => .error f
    | .ok v =>
      match evalList env args with
      | .error f => .error f
      | .ok vs => v.filter name vs
  | .test e name args =>
    match e.eval env with
    | .error f => .error f
    | .ok v =>
      match evalList env args with
      | .error f => .error f
      | .ok vs => v.test name vs
  | .call name args =>
    match evalList env args with
    | .error f => .error f
    | .ok vs =>
      match env.lookup? name with
      | some v => v.call vs
      | none => .error (.unknownFunction name)
  | .method e name args =>
    match e.eval env with
    | .error f => .error f
    | .ok v =>
      match evalList env args with
      | .error f => .error f
      | .ok vs =>
        match v.attribute? name with
        | some w => w.call vs
        | none => .error (.unknownMethod v.kind name)
  | .apply e args =>
    match e.eval env with
    | .error f => .error f
    | .ok v =>
      match evalList env args with
      | .error f => .error f
      | .ok vs => v.call vs
  | .list es =>
    match evalList env es with
    | .error f => .error f
    | .ok vs => .ok (.list vs)
  | .map es =>
    match evalEntries env [] es with
    | .error f => .error f
    | .ok vs => .ok (.map vs)

/-- The values of expressions, from left to right. -/
def evalList (env : Env) : List Expr → Except Fault (List Value)
  | [] => .ok []
  | e :: es =>
    match e.eval env with
    | .error f => .error f
    | .ok v =>
      match evalList env es with
      | .error f => .error f
      | .ok vs => .ok (v :: vs)

/-- The value of an optional expression. -/
def evalOption (env : Env) : Option Expr → Except Fault Value
  | none => .ok .none
  | some e => e.eval env

/-- The value of a conditional whose condition does not hold: that of its other branch, if it has
one. -/
def evalElse (env : Env) : Option Expr → Except Fault Value
  | none => .ok (.undefined true)
  | some e => e.eval env

/-- The entries of a map, added to those before them. -/
def evalEntries (env : Env) (before : List (Value × Value)) :
    List (Expr × Expr) → Except Fault (List (Value × Value))
  | [] => .ok before
  | (k, v) :: es =>
    match k.eval env with
    | .error f => .error f
    | .ok key =>
      match v.eval env with
      | .error f => .error f
      | .ok w => evalEntries env (Value.insertEntry key w before) es
end

mutual
/-- The environment with a target bound to a value. -/
def Target.bind (env : Env) (v : Value) : Target → Except Fault Env
  | .name x => .ok (env.bind x v)
  | .tuple parts =>
    match v with
    | .list xs =>
      if xs.length == parts.length then bindAll env xs parts
      else .error (.cannotUnpack ("sequence of wrong length (expected " ++ toString parts.length ++
        ", got " ++ toString xs.length ++ ")"))
    | _ => .error (.cannotUnpack "not a sequence")

/-- The environment with the parts of a tuple bound to the items of a list. -/
def bindAll (env : Env) (xs : List Value) : List Target → Except Fault Env
  | [] => .ok env
  | t :: ts =>
    match xs with
    | [] => .ok env
    | x :: xs =>
      match t.bind env x with
      | .error f => .error f
      | .ok env => bindAll env xs ts
end

/-- What a loop says about itself in its `index`-th round of `count`. -/
def loopInfo (depth index : Nat) (before : Option Value) (rest : List Value) : Value :=
  let count := index + 1 + rest.length
  .map [(.str "depth", .int depth), (.str "depth0", .int (depth - 1)),
    (.str "first", .bool (index == 0)), (.str "index", .int (index + 1)),
    (.str "index0", .int index), (.str "last", .bool rest.isEmpty), (.str "length", .int count),
    (.str "nextitem", rest.head?.getD (.undefined false)),
    (.str "previtem", before.getD (.undefined false)),
    (.str "revindex", .int (count - index : Nat)),
    (.str "revindex0", .int (count - index - 1 : Nat))]

/-- Runs a loop's body once per item. -/
def rounds (env : Env) (body : Env → Value → Value → Except Fault String) (depth index : Nat)
    (before : Option Value) (out : String) : List Value → Except Fault String
  | [] => .ok out
  | x :: xs =>
    match body env.push (loopInfo depth index before xs) x with
    | .error f => .error f
    | .ok s => rounds env body depth (index + 1) (some x) (out ++ s) xs

/-- The items for which the condition of a loop holds. -/
def kept (keep : Value → Except Fault Bool) : List Value → Except Fault (List Value)
  | [] => .ok []
  | x :: xs =>
    match keep x with
    | .error f => .error f
    | .ok b =>
      match kept keep xs with
      | .error f => .error f
      | .ok ys => .ok (if b then x :: ys else ys)

/-- The text that a value is written as. -/
def written : Value → Except Fault String
  | .undefined false => .error .undefinedValue
  | v => .ok v.text

mutual
/-- The text of a piece, and the environment after it. -/
def Node.render (depth : Nat) (env : Env) : Node → Except Fault (Env × String)
  | .text s => .ok (env, s)
  | .output e =>
    match e.eval env with
    | .error f => .error f
    | .ok v =>
      match written v with
      | .error f => .error f
      | .ok s => .ok (env, s)
  | .cond e yes no =>
    match e.eval env with
    | .error f => .error f
    | .ok v =>
      match v.condition with
      | .error f => .error f
      | .ok true => renderAll depth env "" yes
      | .ok false => renderAll depth env "" no
  | .loop target e keep body empty =>
    match e.eval env with
    | .error f => .error f
    | .ok v =>
      match v.items with
      | .error f => .error f
      | .ok xs =>
        let keeps (x : Value) : Except Fault Bool :=
          match keep with
          | none => .ok true
          | some c =>
            match target.bind env.push x with
            | .error f => .error f
            | .ok inner =>
              match c.eval inner with
              | .error f => .error f
              | .ok b => b.condition
        match kept keeps xs with
        | .error f => .error f
        | .ok [] => renderAll depth env "" empty
        | .ok ys =>
          let once (inner : Env) (info x : Value) : Except Fault String :=
            match target.bind (inner.bind "loop" info) x with
            | .error f => .error f
            | .ok inner => (renderAll (depth + 1) inner "" body).map Prod.snd
          match rounds env once (depth + 1) 0 none "" ys with
          | .error f => .error f
          | .ok s => .ok (env, s)
  | .assign target e =>
    match e.eval env with
    | .error f => .error f
    | .ok v =>
      match target.bind env v with
      | .error f => .error f
      | .ok env => .ok (env, "")
  | .capture target body =>
    match renderAll depth env.push "" body with
    | .error f => .error f
    | .ok (_, s) =>
      match target.bind env (.str s) with
      | .error f => .error f
      | .ok env => .ok (env, "")

/-- The text of pieces one after the other, and the environment after them. -/
def renderAll (depth : Nat) (env : Env) (out : String) : List Node → Except Fault (Env × String)
  | [] => .ok (env, out)
  | n :: ns =>
    match n.render depth env with
    | .error f => .error f
    | .ok (env, s) => renderAll depth env (out ++ s) ns
end

end Runbook.Template

/-!
# Expressions and statements of templates
-/

namespace Runbook.Template

/-- The operators between two values. -/
inductive BinOp where
  | add | sub | mul | div | floorDiv | rem | pow | concat
  | eq | ne | lt | le | gt | ge | isIn
  deriving Repr, BEq, DecidableEq

/-- An expression. -/
inductive Expr where
  | none
  | bool (b : Bool)
  | int (i : Int)
  | float (x : Float)
  | str (s : String)
  | name (x : String)
  | attr (e : Expr) (key : String)
  | item (e : Expr) (index : Expr)
  | slice (e : Expr) (start stop step : Option Expr)
  | neg (e : Expr)
  | not (e : Expr)
  | bin (op : BinOp) (a b : Expr)
  | and (a b : Expr)
  | or (a b : Expr)
  | ifElse (cond whenTrue : Expr) (whenFalse : Option Expr)
  | filter (e : Expr) (name : String) (args : List Expr)
  | test (e : Expr) (name : String) (args : List Expr)
  | call (name : String) (args : List Expr)
  | method (e : Expr) (name : String) (args : List Expr)
  | apply (e : Expr) (args : List Expr)
  | list (items : List Expr)
  | map (entries : List (Expr × Expr))
  deriving Inhabited

/-- What a loop or an assignment binds: one name or a tuple of targets. -/
inductive Target where
  | name (x : String)
  | tuple (parts : List Target)
  deriving Inhabited

/-- A piece of a template. -/
inductive Node where
  | text (s : String)
  | output (e : Expr)
  | cond (e : Expr) (yes no : List Node)
  | loop (target : Target) (items : Expr) (keep : Option Expr) (body empty : List Node)
  | assign (target : Target) (e : Expr)
  | capture (target : Target) (body : List Node)
  deriving Inhabited

end Runbook.Template

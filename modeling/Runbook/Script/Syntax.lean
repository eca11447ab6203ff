import Runbook.Script.Value

/-!
# Syntax of scripts

A script is a list of statements and of functions. Access to a part of a value is a chain: a base
followed by links, each a property, an item or a call of a method. A statement may stand where an
expression is expected (`Expr.run`); its value is that of the last statement in it.
-/

namespace Runbook.Script

/-- An operator between two values. -/
inductive BinOp where
  | add | sub | mul | div | rem | pow | shiftLeft | shiftRight | bitAnd | bitOr | bitXor
  | eq | ne | lt | le | gt | ge
  deriving Repr, BEq, DecidableEq, Inhabited

/-- The sign of an operator. -/
def BinOp.sign : BinOp → String
  | .add => "+" | .sub => "-" | .mul => "*" | .div => "/" | .rem => "%" | .pow => "**"
  | .shiftLeft => "<<" | .shiftRight => ">>" | .bitAnd => "&" | .bitOr => "|" | .bitXor => "^"
  | .eq => "==" | .ne => "!=" | .lt => "<" | .le => "<=" | .gt => ">" | .ge => ">="

/-- An operator on one value. -/
inductive UnOp where
  | negate | plus | not
  deriving Repr, BEq, DecidableEq, Inhabited

/-- The sign of an operator. -/
def UnOp.sign : UnOp → String
  | .negate => "-" | .plus => "+" | .not => "!"

/-- What a case of a `switch` stands for: one value or a range of integers. -/
inductive CaseLabel where
  | value (v : Value)
  | range (first last : Int) (closed : Bool)

mutual
/-- An expression. -/
inductive Expr where
  | lit (v : Value)
  | text (parts : List Expr)
  | list (items : List Expr)
  | map (fields : List (String × Expr))
  | var (name : String)
  | this
  | chain (base : Expr) (links : List Link)
  | call (name : String) (args : List Expr)
  | unary (op : UnOp) (e : Expr)
  | binary (op : BinOp) (l r : Expr)
  | and (l r : Expr)
  | or (l r : Expr)
  | orElse (l r : Expr)
  | isIn (negated : Bool) (l r : Expr)
  | range (l r : Expr) (closed : Bool)
  | run (s : Stmt)

/-- A step from a value to a part of it. A guarded step ends the chain at the unit. -/
inductive Link where
  | property (name : String) (guarded : Bool)
  | item (index : Expr) (guarded : Bool)
  | method (name : String) (args : List Expr) (guarded : Bool)

/-- A statement. -/
inductive Stmt where
  | expr (e : Expr)
  | declare (name : String) (constant : Bool) (value : Option Expr)
  | assign (target : Expr) (op : Option BinOp) (value : Expr)
  | block (body : List Stmt)
  | branch (condition : Expr) (yes no : List Stmt)
  | choose (subject : Expr) (cases : List Case) (default : Option Stmt)
  | loop (condition : Option Expr) (body : List Stmt)
  | after (body : List Stmt) (condition : Expr) (negated : Bool)
  | each (name : String) (counter : Option String) (source : Expr) (body : List Stmt)
  | leave (value : Option Expr)
  | next
  | give (value : Option Expr)
  | throw (value : Option Expr)
  | attempt (body : List Stmt) (caught : Option String) (handler : List Stmt)

/-- A case of a `switch`. -/
inductive Case where
  | mk (labels : List CaseLabel) (guard : Option Expr) (body : Stmt)
end

instance : Inhabited Expr := ⟨.lit .unit⟩
instance : Inhabited Stmt := ⟨.block []⟩
instance : Inhabited Link := ⟨.property "" false⟩
instance : Inhabited Case := ⟨.mk [] none (.block [])⟩

/-- Whether a statement needs no semicolon after it. -/
def Stmt.endsItself : Stmt → Bool
  | .block _ | .branch _ _ _ | .choose _ _ _ | .loop _ _ | .each _ _ _ _ | .attempt _ _ _ => true
  | _ => false

/-- Whether a value can be assigned to an expression: to a variable, or to a property or an item
in one. -/
def Expr.isTarget : Expr → Bool
  | .var _ | .this => true
  | .chain (.var _) links | .chain .this links =>
    match links.getLast? with
    | some (.method ..) | none => false
    | some _ => true
  | _ => false

/-- A function of a script. -/
structure Function where
  name : String
  params : List String
  body : List Stmt
  deriving Inhabited

/-- A whole script. -/
structure Source where
  body : List Stmt
  functions : List Function
  deriving Inhabited

end Runbook.Script

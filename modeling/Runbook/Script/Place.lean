import Runbook.Script.Builtin
import Runbook.Script.Machine

/-!
# Parts of values

A chain of links leads from a value to a part of it. `Place.follow` reads the part and tells what
becomes of the whole when a method on the way changes its receiver; `Place.update` replaces the
part.
-/

namespace Runbook.Script

/-- A link whose index or arguments are values. -/
inductive Place where
  | property (name : String) (guarded : Bool)
  | item (index : Value) (guarded : Bool)
  | method (name : String) (args : List Value) (guarded : Bool)

namespace Place

/-- A call of a method: whether the receiver must stay, the receiver, the name and the arguments;
with the value, what becomes of the receiver when it changes. -/
abbrev Call := Bool → Value → String → List Value → Eval (Value × Option Value)

/-- Whether a chain ends at the unit here. -/
def stops (p : Place) (v : Value) : Bool :=
  let guarded := match p with
    | .property _ g => g
    | .item _ g => g
    | .method _ _ g => g
  match v with
  | .unit => guarded
  | _ => false

/-- The property of a value. A map that lacks it has the unit there. -/
def propertyOf (v : Value) (name : String) : Eval Value :=
  match v with
  | .map fs => pure ((Table.get? name fs).getD .unit)
  | v => Eval.ofExcept (Builtin.property v name)

/-- The value with a property replaced; only the fields of maps can be. -/
def withProperty (v : Value) (name : String) (new : Value) : Eval Value :=
  match v with
  | .map fs => pure (.map (Table.insert name new fs))
  | v => Eval.fail (.readOnlyProperty name v.kind)

/-- The part that a chain leads to, and what becomes of the whole when it changes. -/
def follow (call : Call) (fixed : Bool) : Value → List Place → Eval (Value × Option Value)
  | v, [] => pure (v, none)
  | v, p :: rest => do
    if p.stops v then return (.unit, none)
    match p with
    | .property n _ =>
      let (r, changed) ← follow call fixed (← propertyOf v n) rest
      match changed, v with
      | some c, .map fs => return (r, some (.map (Table.insert n c fs)))
      | _, _ => return (r, none)
    | .item i _ =>
      let (r, changed) ← follow call fixed (← Eval.ofExcept (Builtin.item v i)) rest
      match changed with
      | some c => return (r, some (← Eval.ofExcept (Builtin.withItem v i c)))
      | none => return (r, none)
    | .method n args _ =>
      let (r, changed) ← call fixed v n args
      let (r, _) ← follow call false r rest
      return (r, changed)

/-- The whole with the part that a chain leads to replaced. -/
def update (call : Call) (new : Value → Eval Value) : Value → List Place → Eval Value
  | v, [] => new v
  | v, p :: rest => do
    if p.stops v then return v
    match p with
    | .property n _ =>
      match v with
      | .map fs =>
        let w ← update call new ((Table.get? n fs).getD .unit) rest
        return .map (Table.insert n w fs)
      | v =>
        if rest.isEmpty then withProperty v n .unit
        else
          let _ ← update call new (← propertyOf v n) rest
          return v
    | .item i _ =>
      match v, i with
      | .map fs, .str k =>
        let w ← update call new ((Table.get? k fs).getD .unit) rest
        return .map (Table.insert k w fs)
      | v, i =>
        let w ← update call new (← Eval.ofExcept (Builtin.item v i)) rest
        Eval.ofExcept (Builtin.withItem v i w)
    | .method n args _ =>
      let (r, changed) ← call false v n args
      let _ ← update call new r rest
      return changed.getD v

end Place
end Runbook.Script

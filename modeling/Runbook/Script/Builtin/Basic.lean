import Runbook.Script.Operator

/-!
# Replies of built-in functions

A built-in function takes values and gives a `Reply`: a value and, when it changes the value that it
is called on, what becomes of that. Places in texts and lists may be counted from the end, with
negative numbers.
-/

namespace Runbook.Script

/-- What a built-in function gives. -/
structure Reply where
  /-- The value of the call. -/
  value : Value
  /-- What becomes of the first argument, when the function changes it. -/
  changed : Option Value := none

/-- What a call of a built-in function comes to; none when no function fits the arguments. -/
abbrev Answer := Option (Except Fault Reply)

namespace Answer

/-- A call that gives a value and changes nothing. -/
def value (v : Value) : Answer := some (.ok { value := v })

/-- A call that changes its first argument and gives the unit. -/
def change (v : Value) : Answer := some (.ok { value := .unit, changed := some v })

/-- A call that changes its first argument and gives a value. -/
def both (v changed : Value) : Answer := some (.ok { value := v, changed := some changed })

/-- A call that fails. -/
def fault (f : Fault) : Answer := some (.error f)

end Answer

/-- A place counted from the start, or from the end when it is negative; it may be one past the
end. None when there is no such place. -/
def placeOf? (size : Nat) (i : Int) : Option Nat :=
  if i < 0 then (if i.natAbs ≤ size then some (size - i.natAbs) else none)
  else if i.toNat < size then some i.toNat
  else none

/-- Where a part of `count` items from a place on begins, and how many items it has. A place before
the start counts as the start. -/
def partOf (size : Nat) (start count : Int) : Nat × Nat :=
  if start ≥ 0 && start.toNat ≥ size then (size, 0)
  else
    let first := if start < 0 then size - start.natAbs else start.toNat
    (first, min count.toNat (size - first))

/-- The start and the number of the items of a range. -/
def partOfRange (first last : Int) (closed : Bool) : Int × Int :=
  let first := max first 0
  let last := max last 0
  (first, last - first + (if closed then 1 else 0))

end Runbook.Script

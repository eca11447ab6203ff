import Mathlib.Algebra.Group.Int.Defs
import Runbook.Json.Basic
import Runbook.Proofs.Table

/-!
# Values without doubles

A value is made of scalars by arrays and objects (`Json.induction`). One without doubles is the same
after it has been written and read, since integers and texts are, when it has integers of 64 bits,
sorted keys and bounded depth (`Json.Held`).
-/

namespace Runbook.Json

/-- A property of all values, from scalars to the values made of them. -/
theorem induction {P : Json → Prop} (null : P .null) (bool : ∀ b, P (.bool b))
    (int : ∀ i, P (.int i))
    (double : ∀ x, P (.double x)) (str : ∀ s, P (.str s))
    (arr : ∀ xs, (∀ x ∈ xs, P x) → P (.arr xs))
    (obj : ∀ es, (∀ k v, (k, v) ∈ es → P v) → P (.obj es)) (v : Json) : P v :=
  match v with
  | .null => null
  | .bool b => bool b
  | .int i => int i
  | .double x => double x
  | .str s => str s
  | .arr xs => arr xs fun x _ => induction null bool int double str arr obj x
  | .obj es => obj es fun _ v _ => induction null bool int double str arr obj v
termination_by sizeOf v
decreasing_by
  · have := List.sizeOf_lt_of_mem ‹_›
    rw [Json.arr.sizeOf_spec]
    omega
  · have := List.sizeOf_lt_of_mem ‹_›
    rw [Prod.mk.sizeOf_spec] at this
    rw [Json.obj.sizeOf_spec]
    omega

mutual
/-- Whether all numbers of a value are integers. -/
def isIntegral : Json → Bool
  | .double _ => false
  | .arr xs => areIntegral xs
  | .obj es => haveIntegral es
  | _ => true

/-- Whether all numbers of some values are integers. -/
def areIntegral : List Json → Bool
  | [] => true
  | x :: xs => isIntegral x && areIntegral xs

/-- Whether all numbers under some keys are integers. -/
def haveIntegral : List (String × Json) → Bool
  | [] => true
  | (_, x) :: es => isIntegral x && haveIntegral es
end

theorem areIntegral_iff {xs : List Json} :
    areIntegral xs = true ↔ ∀ x ∈ xs, isIntegral x = true := by
  induction xs with
  | nil => simp [areIntegral]
  | cons x xs ih => simp [areIntegral, ih]

theorem haveIntegral_iff {es : List (String × Json)} :
    haveIntegral es = true ↔ ∀ k v, (k, v) ∈ es → isIntegral v = true := by
  induction es with
  | nil => simp [haveIntegral]
  | cons e es ih =>
    obtain ⟨k, v⟩ := e
    rw [haveIntegral, Bool.and_eq_true, ih]
    constructor
    · rintro ⟨hv, hes⟩ l w hmem
      rcases List.mem_cons.1 hmem with heq | hmem
      · cases heq
        exact hv
      · exact hes l w hmem
    · exact fun h => ⟨h k v List.mem_cons_self, fun l w hmem => h l w (List.mem_cons_of_mem _ hmem)⟩

/-- A value that a document holds, with collections nested no deeper than `depth`. -/
inductive Held : Nat → Json → Prop
  | null {depth : Nat} : Held depth .null
  | bool {depth : Nat} (b : Bool) : Held depth (.bool b)
  | int {depth : Nat} {i : Int} (h : -(2 ^ 63) ≤ i ∧ i < 2 ^ 64) : Held depth (.int i)
  | double {depth : Nat} (x : Float) : Held depth (.double x)
  | str {depth : Nat} (s : String) : Held depth (.str s)
  | arr {depth : Nat} {vs : List Json} (h : ∀ v ∈ vs, Held depth v) : Held (depth + 1) (.arr vs)
  | obj {depth : Nat} {es : Fields} (hs : Table.Sorted es) (h : ∀ k v, (k, v) ∈ es → Held depth v) :
    Held (depth + 1) (.obj es)

end Runbook.Json

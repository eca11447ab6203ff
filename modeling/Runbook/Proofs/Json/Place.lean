import Runbook.Json.Basic
import Runbook.Proofs.Table

/-!
# Places in a value

A place is the way from a value down to one of its parts (`Json.at?`), through the keys of objects
and the positions of sequences. Places are in the order in which the value is written
(`Json.Before`): where two ways part, by key or by position. Of two texts in a value one comes first
(`Json.before_trichotomy`).
-/

namespace Runbook.Json

/-- One step down into a value. -/
inductive Step where
  | key (k : String)
  | item (i : Nat)
  deriving DecidableEq

/-- The part of a value one step down. -/
def child? : Json → Step → Option Json
  | .obj fs, .key k => Table.get? k fs
  | .arr xs, .item i => xs[i]?
  | _, _ => none

/-- The part of a value at a place. -/
def at? : Json → List Step → Option Json
  | v, [] => some v
  | v, step :: place => (v.child? step).bind fun w => w.at? place

/-- A key or a position is less. -/
inductive Step.Less : Step → Step → Prop
  | key {k l : String} (h : k < l) : Less (.key k) (.key l)
  | item {i j : Nat} (h : i < j) : Less (.item i) (.item j)

/-- The first place comes before the second: where they part, its key or its position is less. -/
inductive Before : List Step → List Step → Prop
  | head {step step' : Step} {p q : List Step} (h : step.Less step') :
      Before (step :: p) (step' :: q)
  | tail {step : Step} {p q : List Step} (h : Before p q) : Before (step :: p) (step :: q)

variable {v w : Json} {s t : String} {step : Step} {p q : List Step}

@[simp] theorem at?_nil : v.at? [] = some v := by rw [at?]

theorem at?_cons : v.at? (step :: p) = (v.child? step).bind fun w => w.at? p := by rw [at?]

theorem at?_cons_eq_some {u : Json} :
    v.at? (step :: p) = some u ↔ ∃ w, v.child? step = some w ∧ w.at? p = some u := by
  rw [at?_cons, Option.bind_eq_some_iff]

/-- There is nothing below a text. -/
theorem at?_str (h : (Json.str s).at? p = some v) : p = [] ∧ v = .str s := by
  cases p with
  | nil => exact ⟨rfl, by simpa using h.symm⟩
  | cons step p =>
    obtain ⟨w, hw, -⟩ := at?_cons_eq_some.1 h
    cases step <;> cases hw

theorem not_before_nil : ¬Before p [] := nofun

/-- The only steps down are by the keys of an object and the positions of a sequence. -/
theorem child?_eq_some :
    v.child? step = some w ↔
      (∃ fs k, v = .obj fs ∧ step = .key k ∧ Table.get? k fs = some w) ∨
      (∃ xs i, v = .arr xs ∧ step = .item i ∧ xs[i]? = some w) := by
  cases v <;> cases step <;> simp [child?]

/-- Two steps down into one value are the same, or one is less. -/
theorem child?_trichotomy {step' : Step} {w' : Json} (h : v.child? step = some w)
    (h' : v.child? step' = some w') : step = step' ∨ step.Less step' ∨ step'.Less step := by
  obtain ⟨fs, k, rfl, rfl, -⟩ | ⟨xs, i, rfl, rfl, -⟩ := child?_eq_some.1 h
  · obtain ⟨_, l, -, rfl, -⟩ | ⟨_, _, hne, -⟩ := child?_eq_some.1 h'
    · rcases Std.lt_trichotomy k l with hlt | rfl | hlt
      · exact .inr (.inl (.key hlt))
      · exact .inl rfl
      · exact .inr (.inr (.key hlt))
    · cases hne
  · obtain ⟨_, _, hne, -⟩ | ⟨_, j, -, rfl, -⟩ := child?_eq_some.1 h'
    · cases hne
    · rcases Nat.lt_trichotomy i j with hlt | rfl | hlt
      · exact .inr (.inl (.item hlt))
      · exact .inl rfl
      · exact .inr (.inr (.item hlt))

/-- **Of two texts** in a value one comes first. -/
theorem before_trichotomy (hp : v.at? p = some (.str s)) (hq : v.at? q = some (.str t)) :
    p = q ∨ Before p q ∨ Before q p := by
  induction p generalizing v q with
  | nil =>
    obtain rfl : v = .str s := by simpa using hp
    exact .inl (at?_str hq).1.symm
  | cons step p ih =>
    cases q with
    | nil =>
      obtain rfl : v = .str t := by simpa using hq
      exact .inl (at?_str hp).1
    | cons step' q =>
      obtain ⟨w, hw, hp⟩ := at?_cons_eq_some.1 hp
      obtain ⟨w', hw', hq⟩ := at?_cons_eq_some.1 hq
      rcases child?_trichotomy hw hw' with rfl | hless | hless
      · obtain rfl : w = w' := Option.some_inj.1 (hw.symm.trans hw')
        rcases ih hp hq with rfl | h | h
        · exact .inl rfl
        · exact .inr (.inl (.tail h))
        · exact .inr (.inr (.tail h))
      · exact .inr (.inl (.head hless))
      · exact .inr (.inr (.head hless))

end Runbook.Json

import Mathlib.Data.List.Forall2
import Runbook.Json.Decode

/-!
# Fields of decoded records

Of a list of computations all succeed (`mapM_eq_ok_iff`), or the first that does not gives the error
(`exists_first_of_mapM_eq_error`). A record that is decoded from an object has the values of the
object under the names of its fields (`record_get?`). An object decodes when the fields of the
record pass their checks in it and none that is required is missing (`exists_record_iff`).
-/

namespace Runbook

/-- What a computation comes to that does not fail comes of its parts. -/
theorem bind_eq_ok {ε α β : Type} {x : Except ε α} {f : α → Except ε β} {b : β} :
    x >>= f = .ok b ↔ ∃ a, x = .ok a ∧ f a = .ok b := by
  cases x <;> simp [bind, Except.bind]

theorem map_eq_ok {ε α β : Type} {x : Except ε α} {f : α → β} {b : β} :
    x.map f = .ok b ↔ ∃ a, x = .ok a ∧ f a = b := by
  cases x <;> simp [Except.map]

/-- A computation that fails does so in one of its parts. -/
theorem bind_eq_error {ε α β : Type} {x : Except ε α} {f : α → Except ε β} {e : ε} :
    x >>= f = .error e ↔ x = .error e ∨ ∃ a, x = .ok a ∧ f a = .error e := by
  cases x <;> simp [bind, Except.bind]

theorem map_eq_error {ε α β : Type} {x : Except ε α} {f : α → β} {e : ε} :
    x.map f = .error e ↔ x = .error e := by
  cases x <;> simp [Except.map]

/-! ## Lists of computations -/

section

variable {ε α β : Type} {f : α → Except ε β} {xs : List α} {ys : List β} {e : ε}

theorem mapM_eq_ok_iff : xs.mapM f = .ok ys ↔ List.Forall₂ (fun x y => f x = .ok y) xs ys := by
  induction xs generalizing ys with
  | nil =>
    rw [List.mapM_nil, List.forall₂_nil_left_iff]
    exact ⟨fun h => by cases h; rfl, fun h => by rw [h]; rfl⟩
  | cons x xs ih =>
    simp only [List.mapM_cons, bind_eq_ok, List.forall₂_cons_left_iff]
    constructor
    · rintro ⟨y, hy, zs, hzs, h⟩
      cases h
      exact ⟨y, zs, hy, ih.1 hzs, rfl⟩
    · rintro ⟨y, zs, hy, hzs, rfl⟩
      exact ⟨y, hy, zs, ih.2 hzs, rfl⟩

/-- What a list of computations comes to that does not fail comes of one of them. -/
theorem exists_of_mapM_eq_ok (h : xs.mapM f = .ok ys) : ∀ y ∈ ys, ∃ x ∈ xs, f x = .ok y := by
  have hall := mapM_eq_ok_iff.1 h
  clear h
  induction hall with
  | nil => nofun
  | cons hy _ ih =>
    refine List.forall_mem_cons.2 ⟨⟨_, List.mem_cons_self, hy⟩, fun z hz => ?_⟩
    obtain ⟨w, hw, hf⟩ := ih z hz
    exact ⟨w, List.mem_cons_of_mem _ hw, hf⟩

/-- Of some computations that fail together, the first that fails gives the error. -/
theorem exists_first_of_mapM_eq_error (h : xs.mapM f = .error e) :
    ∃ before x after, xs = before ++ x :: after ∧ (∀ y ∈ before, ∃ z, f y = .ok z) ∧
      f x = .error e := by
  induction xs with
  | nil => cases h
  | cons x xs ih =>
    rw [List.mapM_cons] at h
    rcases bind_eq_error.1 h with h | ⟨y, hy, h⟩
    · exact ⟨[], x, xs, rfl, nofun, h⟩
    · rcases bind_eq_error.1 h with h | ⟨_, -, h⟩
      · obtain ⟨before, x', after, rfl, hbefore, he⟩ := ih h
        exact ⟨x :: before, x', after, rfl, List.forall_mem_cons.2 ⟨⟨y, hy⟩, hbefore⟩, he⟩
      · cases h

/-- A list of computations that fails does so in one of them. -/
theorem exists_of_mapM_eq_error (h : xs.mapM f = .error e) : ∃ x ∈ xs, f x = .error e := by
  obtain ⟨before, x, after, rfl, -, hx⟩ := exists_first_of_mapM_eq_error h
  exact ⟨x, by simp, hx⟩

end

namespace Decode

variable {α : Type} {fields : List Field} {fs found : Fields} {name kind : String}

theorem known_get? (hf : (fields.find? (·.name == name)).isSome) (h : known fields fs = .ok found) :
    Table.get? name found = Table.get? name fs := by
  induction fs generalizing found with
  | nil =>
    cases h
    rfl
  | cons x fs ih =>
    obtain ⟨k, v⟩ := x
    unfold known at h
    split at h
    · rename_i hn
      have hk : k ≠ name := fun he => by simp [← he, hn] at hf
      rw [Table.get?, if_neg hk]
      exact ih h
    · obtain ⟨-, -, h⟩ := bind_eq_ok.1 h
      obtain ⟨more, hm, h⟩ := bind_eq_ok.1 h
      cases h
      simp only [Table.get?, ih hm]

/-- A decoded record has the values of its object. -/
theorem record_get? (hf : (fields.find? (·.name == name)).isSome)
    (h : record kind fields (.obj fs) = .ok found) :
    Table.get? name found = Table.get? name fs := by
  obtain ⟨found', hk, h⟩ := bind_eq_ok.1 h
  split at h
  · cases h
  · cases h
    exact known_get? hf hk

/-- The known fields of an object decode when each of them passes its check. -/
theorem exists_known_iff :
    (∃ found, known fields fs = .ok found) ↔
      ∀ e ∈ fs, ∀ f, fields.find? (·.name == e.1) = some f → f.check e.2 = .ok () := by
  induction fs with
  | nil => exact iff_of_true ⟨_, rfl⟩ nofun
  | cons x fs ih =>
    obtain ⟨k, v⟩ := x
    rw [List.forall_mem_cons, ← ih, known]
    cases hf : fields.find? (·.name == k) with
    | none => simp
    | some f =>
      simp only [Option.some.injEq, forall_eq']
      constructor
      · rintro ⟨found, h⟩
        obtain ⟨u, hc, h⟩ := bind_eq_ok.1 h
        obtain ⟨more, hm, -⟩ := bind_eq_ok.1 h
        exact ⟨hc, more, hm⟩
      · rintro ⟨hc, more, hm⟩
        exact ⟨_, bind_eq_ok.2 ⟨(), hc, bind_eq_ok.2 ⟨more, hm, rfl⟩⟩⟩

/-- An object decodes as a record when its known fields pass their checks and none that is required
is missing. -/
theorem exists_record_iff (hn : ∀ f ∈ fields, (fields.find? (·.name == f.name)).isSome) :
    (∃ found, record kind fields (.obj fs) = .ok found) ↔
      (∀ e ∈ fs, ∀ f, fields.find? (·.name == e.1) = some f → f.check e.2 = .ok ()) ∧
        ∀ f ∈ fields, f.presence = .required → (Table.get? f.name fs).isSome := by
  rw [← exists_known_iff]
  have hmissing {found : Fields} (hk : known fields fs = .ok found) : missing? fields found = none ↔
      ∀ f ∈ fields, f.presence = .required → (Table.get? f.name fs).isSome := by
    rw [missing?, Option.map_eq_none_iff, List.find?_eq_none]
    refine forall₂_congr fun f hf => ?_
    rw [Table.has, known_get? (hn f hf) hk]
    simp [Option.isSome_iff_ne_none]
  constructor
  · rintro ⟨found, h⟩
    obtain ⟨found', hk, h⟩ := bind_eq_ok.1 h
    refine ⟨⟨found', hk⟩, (hmissing hk).1 ?_⟩
    cases hm : missing? fields found' with
    | none => rfl
    | some name => simp [hm] at h
  · rintro ⟨⟨found, hk⟩, hm⟩
    refine ⟨found, bind_eq_ok.2 ⟨found, hk, ?_⟩⟩
    rw [(hmissing hk).2 hm]

theorem text_eq_ok {v : Json} {s : String} : text v = .ok s ↔ v = .str s := by
  cases v <;> simp [text, wrongType]

theorem get_eq_ok {d : Decoder α} {a : α} :
    get fs name d = .ok a ↔ ∃ v, Table.get? name fs = some v ∧ d v = .ok a := by
  unfold get
  split <;> simp_all

end Decode
end Runbook

import Runbook.Proofs.Json.Decode
import Runbook.Proofs.Table

/-!
# Records through values

A record is written as an object of entries and decoded field by field. `Decode.ReadsAs` says what
one field of the entries is decoded as, whether it is there or left out; when every field of a record
is read as something, the record decodes and each of its fields has what it is read as
(`record_ofFields`, `ReadsAs.get`, `ReadsAs.getD`). Lists and tables are read back element by element
(`list_map`, `table_map`).
-/

namespace Runbook

variable {α β : Type}

theorem mapM_map_eq_ok {ε : Type} {f : α → β} {g : β → Except ε α} {xs : List α}
    (h : ∀ x ∈ xs, g (f x) = .ok x) : (xs.map f).mapM g = .ok xs := by
  induction xs with
  | nil => rfl
  | cons x xs ih =>
    obtain ⟨hx, hxs⟩ := List.forall_mem_cons.1 h
    rw [List.map_cons, List.mapM_cons, hx, ih hxs]
    rfl

namespace Table

variable {k name m : String} {v : α} {t u : Table α} {entries : List (String × α)}

theorem get?_eq_find? : get? k t = (t.find? (·.1 == k)).map (·.2) := by
  induction t with
  | nil => rfl
  | cons e t ih =>
    obtain ⟨l, v⟩ := e
    by_cases hl : l = k <;> simp [get?, hl, ih]

/-- A table of entries with distinct keys holds what the entries hold. -/
theorem get?_ofList_eq (hn : (entries.map (·.1)).Nodup) : get? k (ofList entries) = get? k entries := by
  rw [get?_ofList hn, get?_eq_find?]

theorem get?_of_mem (hn : (t.map (·.1)).Nodup) (h : (k, v) ∈ t) : get? k t = some v := by
  induction t with
  | nil => cases h
  | cons e t ih =>
    obtain ⟨l, w⟩ := e
    obtain ⟨hl, ht⟩ := List.nodup_cons.1 hn
    rcases List.mem_cons.1 h with he | he
    · cases he
      exact if_pos rfl
    · have hne : l ≠ k := fun hlk => hl (hlk ▸ List.mem_map_of_mem (f := (·.1)) he)
      rw [get?, if_neg hne, ih ht he]

end Table

namespace Decode

variable {kind name : String} {presence : Presence} {fields : List Field} {entries fs : Fields}
  {d : Decoder α} {default : Option α} {a : α} {v : Json}

/-- What a field of some entries is decoded as: the value under its name, or the default of a field
that is left out. -/
def ReadsAs (entries : Fields) (name : String) (d : Decoder α) (default : Option α) (a : α) : Prop :=
  match Table.get? name entries with
  | some v => d v = .ok a
  | none => default = some a

/-- A field that the entries have, where its value passes the check, or may leave out. -/
structure Fits (entries : Fields) (f : Field) : Prop where
  check : ∀ v, Table.get? f.name entries = some v → f.check v = .ok ()
  required : f.presence = .required → (Table.get? f.name entries).isSome = true

namespace ReadsAs

theorem fits (h : ReadsAs entries name d default a) (hp : presence = .required → default = none) :
    Fits entries (field name presence d) := by
  unfold ReadsAs at h
  constructor
  · intro v hv
    rw [show Table.get? name entries = some v from hv] at h
    exact map_eq_ok.2 ⟨a, h, rfl⟩
  · intro hrequired
    show (Table.get? name entries).isSome = true
    cases hv : Table.get? name entries with
    | some v => rfl
    | none =>
      rw [hv, hp hrequired] at h
      cases h

theorem get (h : ReadsAs entries name d none a) (he : Table.get? name fs = Table.get? name entries) :
    Decode.get fs name d = .ok a := by
  unfold ReadsAs at h
  unfold Decode.get
  rw [he]
  cases hv : Table.get? name entries with
  | some v =>
    rw [hv] at h
    exact h
  | none =>
    rw [hv] at h
    cases h

theorem getD {default : α} (h : ReadsAs entries name d (some default) a)
    (he : Table.get? name fs = Table.get? name entries) : Decode.getD fs name d default = .ok a := by
  unfold ReadsAs at h
  unfold Decode.getD
  rw [he]
  cases hv : Table.get? name entries with
  | some v =>
    rw [hv] at h
    exact h
  | none =>
    rw [hv] at h
    exact congrArg Except.ok (Option.some.inj h)

theorem of_some (hv : Table.get? name entries = some v) (hd : d v = .ok a) :
    ReadsAs entries name d default a := by
  unfold ReadsAs
  rw [hv]
  exact hd

end ReadsAs

/-- **A record** decodes from entries that fit its fields, and has what the entries have. -/
theorem record_ofFields (kind : String) (fields : List Field) (entries : Fields)
    (hn : (entries.map (·.1)).Nodup) (h : ∀ f ∈ fields, Fits entries f) :
    ∃ found, record kind fields (.ofFields entries) = .ok found ∧
      ∀ m ∈ fields.map Field.name, Table.get? m found = Table.get? m entries := by
  have hnamed : ∀ f ∈ fields, (fields.find? (·.name == f.name)).isSome := fun f hf =>
    List.find?_isSome.2 ⟨f, hf, beq_self_eq_true _⟩
  have hcheck : ∀ e ∈ Table.ofList entries, ∀ f, fields.find? (·.name == e.1) = some f →
      f.check e.2 = .ok () := by
    rintro ⟨k, v⟩ he f hf
    have hk := List.find?_some hf
    obtain rfl : f.name = k := beq_iff_eq.1 hk
    exact (h f (List.mem_of_find?_eq_some hf)).check v
      (Table.get?_of_mem hn (Table.mem_of_mem_ofList he))
  have hrequired : ∀ f ∈ fields, f.presence = .required →
      (Table.get? f.name (Table.ofList entries)).isSome := by
    intro f hf hrequired
    rw [Table.get?_ofList_eq hn]
    exact (h f hf).required hrequired
  obtain ⟨found, hfound⟩ : ∃ found, record kind fields (.obj (Table.ofList entries)) = .ok found :=
    (exists_record_iff hnamed).2 ⟨hcheck, hrequired⟩
  refine ⟨found, hfound, fun m hm => ?_⟩
  obtain ⟨f, hf, rfl⟩ := List.mem_map.1 hm
  rw [record_get? (hnamed f hf) hfound, Table.get?_ofList_eq hn]

/-! ## Values of fields -/

theorem optional_eq_ok (hv : v ≠ .null) (h : d v = .ok a) : optional d v = .ok (some a) := by
  unfold optional
  split
  · exact absurd rfl hv
  · rw [h]
    rfl

theorem of_optional {o : Option α} (h : optional d v = .ok o) : ∀ a ∈ o, d v = .ok a := by
  rintro a rfl
  unfold optional at h
  split at h
  · cases h
  · obtain ⟨b, hb, he⟩ := map_eq_ok.1 h
    cases he
    exact hb

/-- A field that is left out when it has no value. -/
theorem ReadsAs.optional {write : α → Json} {o : Option α}
    (hget : Table.get? name entries = o.map write)
    (h : ∀ a ∈ o, d (write a) = .ok a ∧ write a ≠ .null) :
    ReadsAs entries name (Decode.optional d) (some none) o := by
  unfold ReadsAs
  rw [hget]
  cases o with
  | none => rfl
  | some a => exact optional_eq_ok (h a rfl).2 (h a rfl).1

theorem unsigned_ofNat (n : Nat) : unsigned (.ofNat n) = .ok n := by
  have hn : ¬ (n : Int) < 0 := by omega
  rw [Json.ofNat, unsigned, if_neg hn, Int.toNat_natCast]

/-- A list is read back when each of its elements is. -/
theorem list_map {write : α → Json} {xs : List α} (h : ∀ x ∈ xs, d (write x) = .ok x) :
    list d (.arr (xs.map write)) = .ok xs :=
  mapM_map_eq_ok h

theorem list_texts (xs : List String) : list text (.ofStrings xs) = .ok xs :=
  list_map fun _ _ => rfl

/-- A table is read back when the value of each of its entries is. -/
theorem table_map {write : α → Json} {t : Table α} (h : ∀ e ∈ t, d (write e.2) = .ok e.2) :
    table d (.obj (t.map fun e => (e.1, write e.2))) = .ok t := by
  refine mapM_map_eq_ok fun e he => ?_
  show (d (write e.2)).map (e.1, ·) = .ok e
  rw [h e he]
  rfl

theorem getD_eq_ok {default : α} (h : Decode.getD fs name d default = .ok a) :
    a = default ∨ ∃ v, Table.get? name fs = some v ∧ d v = .ok a := by
  unfold Decode.getD at h
  split at h
  · exact .inr ⟨_, ‹_›, h⟩
  · exact .inl (Except.ok.inj h).symm

theorem of_list {xs : List α} (h : list d v = .ok xs) : ∀ x ∈ xs, ∃ w, d w = .ok x := by
  unfold list at h
  split at h
  · intro x hx
    obtain ⟨w, -, hw⟩ := exists_of_mapM_eq_ok h x hx
    exact ⟨w, hw⟩
  · cases h

end Decode
end Runbook

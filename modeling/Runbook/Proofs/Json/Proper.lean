import Runbook.Proofs.Table
import Runbook.Scope
import Runbook.Template.Value

/-!
# Values that survive a template

A value of a context is *proper* when the JSON format can hold it (`Json.Proper`): integers of 64
bits with or without a sign, finite doubles, and objects in the order of their keys. The values of
template expressions lose nothing of it (`Template.Value.toJson_ofJson`). Contexts and scopes are
proper when all that they hold is, and what runs do to them keeps them so.
-/

namespace Runbook

/-! ## Values -/

mutual
/-- A value that the JSON format can hold. -/
def Json.Proper : Json → Prop
  | .null | .bool _ | .str _ => True
  | .int i => -9223372036854775808 ≤ i ∧ i ≤ 18446744073709551615
  | .double x => x.isNaN = false ∧ x.isInf = false
  | .arr xs => ItemsProper xs
  | .obj fs => Table.Sorted fs ∧ FieldsProper fs

/-- All items are proper. -/
def ItemsProper : List Json → Prop
  | [] => True
  | x :: xs => x.Proper ∧ ItemsProper xs

/-- All values of the fields are proper. -/
def FieldsProper : List (String × Json) → Prop
  | [] => True
  | (_, x) :: fs => x.Proper ∧ FieldsProper fs
end

namespace Json.Proper

variable {fs : Fields} {key : String} {v w : Json}

theorem obj_iff : Json.Proper (.obj fs) ↔ Table.Sorted fs ∧ FieldsProper fs := by rw [Json.Proper]

@[simp] theorem str (s : String) : Json.Proper (.str s) := by rw [Json.Proper]; trivial

theorem ofNat {n : Nat} (h : n ≤ 18446744073709551615) : (Json.ofNat n).Proper := by
  rw [Json.ofNat, Json.Proper]
  omega

theorem field (h : FieldsProper fs) (hv : Table.get? key fs = some v) : v.Proper := by
  induction fs with
  | nil => cases hv
  | cons e fs ih =>
    obtain ⟨k, w⟩ := e
    rw [FieldsProper] at h
    unfold Table.get? at hv
    split at hv
    · cases hv
      exact h.1
    · exact ih h.2 hv

/-- What is under a key of a proper value is proper. -/
theorem get? (h : v.Proper) (hw : v.get? key = some w) : w.Proper := by
  cases v with
  | obj fs => exact field (obj_iff.1 h).2 hw
  | _ => cases hw

theorem insert_fields (h : FieldsProper fs) (hv : v.Proper) :
    FieldsProper (Table.insert key v fs) := by
  induction fs with
  | nil => simpa [Table.insert, FieldsProper] using hv
  | cons e fs ih =>
    obtain ⟨k, w⟩ := e
    rw [FieldsProper] at h
    unfold Table.insert
    split
    · exact ⟨hv, h.2⟩
    · split
      · exact ⟨hv, h⟩
      · exact ⟨h.1, ih h.2⟩

theorem insert (h : Json.Proper (.obj fs)) (hv : v.Proper) :
    Json.Proper (.obj (Table.insert key v fs)) := by
  rw [obj_iff] at h ⊢
  exact ⟨h.1.insert, insert_fields h.2 hv⟩

theorem foldl_insert {entries : List (String × Json)} (h : Json.Proper (.obj fs))
    (he : ∀ e ∈ entries, e.2.Proper) :
    Json.Proper (.obj (entries.foldl (fun t e => Table.insert e.1 e.2 t) fs)) := by
  induction entries generalizing fs with
  | nil => exact h
  | cons e es ih =>
    exact ih (h.insert (he e List.mem_cons_self)) fun x hx => he x (List.mem_cons_of_mem _ hx)

theorem ofFields {entries : List (String × Json)} (h : ∀ e ∈ entries, e.2.Proper) :
    (Json.ofFields entries).Proper :=
  foldl_insert (obj_iff.2 ⟨Table.sorted_nil, trivial⟩) h

/-- An object made of a table is proper when the value of each entry is. -/
theorem map {α : Type} {t : Table α} {f : String → α → Json} (ht : Table.Sorted t)
    (hf : ∀ e ∈ t, (f e.1 e.2).Proper) : Json.Proper (.obj (t.map fun (k, a) => (k, f k a))) := by
  refine obj_iff.2 ⟨ht.map, ?_⟩
  clear ht
  induction t with
  | nil => trivial
  | cons e t ih =>
    exact ⟨hf e List.mem_cons_self, ih fun e he => hf e (List.mem_cons_of_mem _ he)⟩

end Json.Proper

/-! ## Through a template -/

theorem Table.insert_last {α : Type} {t : Table α} {key : String} {v : α}
    (h : ∀ e ∈ t, e.1 < key) : Table.insert key v t = t ++ [(key, v)] := by
  induction t with
  | nil => rfl
  | cons e t ih =>
    have he : e.1 < key := h e List.mem_cons_self
    rw [Table.insert, if_neg fun hk => Std.lt_irrefl (hk ▸ he),
      if_neg fun hk => Std.lt_irrefl (Std.lt_trans he hk),
      ih fun e he => h e (List.mem_cons_of_mem _ he), List.cons_append]

namespace Template.Value

mutual
/-- **A proper value** is the same after its way through a template. -/
theorem toJson_ofJson : ∀ v : Json, v.Proper → (ofJson v).toJson = .ok v
  | .null, _ | .bool _, _ | .str _, _ => by simp only [ofJson, toJson]
  | .int i, h => by
    rw [Json.Proper] at h
    simp only [ofJson, toJson, fitsJson, decide_eq_true h.1, decide_eq_true h.2, Bool.and_self,
      if_true]
  | .double x, h => by
    rw [Json.Proper] at h
    simp only [ofJson, toJson, h.1, h.2, Bool.or_self, Bool.false_eq_true, if_false]
  | .arr xs, h => by
    rw [Json.Proper] at h
    simp only [ofJson, toJson, toJsonItems_ofJsonItems xs h]
  | .obj fs, h => by
    obtain ⟨hs, hf⟩ := Json.Proper.obj_iff.1 h
    simp only [ofJson, toJson, toJsonEntries_ofJsonFields fs [] hf hs, List.nil_append]

theorem toJsonItems_ofJsonItems : ∀ xs : List Json, ItemsProper xs →
    toJsonItems (ofJsonItems xs) = .ok xs
  | [], _ => rfl
  | x :: xs, h => by
    rw [ItemsProper] at h
    simp only [ofJsonItems, toJsonItems, toJson_ofJson x h.1, toJsonItems_ofJsonItems xs h.2]

/-- The fields come after those before them, so each goes to the end. -/
theorem toJsonEntries_ofJsonFields : ∀ (fs before : Fields), FieldsProper fs →
    Table.Sorted (before ++ fs) → toJsonEntries before (ofJsonFields fs) = .ok (before ++ fs)
  | [], before, _, _ => by simp only [ofJsonFields, toJsonEntries, List.append_nil]
  | (k, v) :: fs, before, h, hs => by
    rw [FieldsProper] at h
    have hlast : Table.insert k v before = before ++ [(k, v)] :=
      Table.insert_last fun e he => (List.pairwise_append.1 hs).2.2 e he (k, v) List.mem_cons_self
    have hs' : Table.Sorted ((before ++ [(k, v)]) ++ fs) := by
      rwa [List.append_assoc, List.singleton_append]
    simp only [ofJsonFields, toJsonEntries, keyText, toJson_ofJson v h.1, hlast,
      toJsonEntries_ofJsonFields fs _ h.2 hs', List.append_assoc, List.singleton_append]
end

end Template.Value

/-! ## Contexts and scopes -/

/-- A result whose parts are proper. -/
structure StepResult.Proper (r : StepResult) : Prop where
  data : r.data.Proper
  duration : r.durationMs ≤ 18446744073709551615

theorem StepResult.Proper.toJson {r : StepResult} (h : r.Proper) : r.toJson.Proper := by
  refine .ofFields ?_
  simpa [Status.toJson] using ⟨h.data, .ofNat h.duration⟩

/-- A context that holds proper values in sorted tables. -/
structure Context.Proper (c : Context) : Prop where
  globals : Json.Proper (.obj c.globals)
  devices : Table.Sorted c.devices ∧ ∀ e ∈ c.devices, Json.Proper (.obj e.2)
  results : Table.Sorted c.stepResults ∧ ∀ e ∈ c.stepResults,
    Table.Sorted e.2 ∧ ∀ r ∈ e.2, r.2.Proper

namespace Context.Proper

variable {c : Context}

theorem ofGlobals {globals : Fields} (h : Json.Proper (.obj globals)) :
    (Context.ofGlobals globals).Proper :=
  ⟨h, ⟨Table.sorted_nil, nofun⟩, Table.sorted_nil, nofun⟩

theorem devicesJson (h : c.Proper) : c.devicesJson.Proper :=
  .map (f := fun _ fs => .obj fs) h.devices.1 h.devices.2

theorem stepsTree (h : c.Proper) (device : Option String) : (c.stepsTree device).Proper := by
  refine .map (f := c.stepEntry device) h.results.1 fun e he => ?_
  obtain ⟨hs, hr⟩ := h.results.2 e he
  refine .ofFields fun x hx => ?_
  rcases List.mem_append.1 hx with hx | hx
  · obtain ⟨s, -, rfl⟩ := Option.map_eq_some_iff.1 (Option.mem_toList.1 hx)
    exact .str _
  · rcases List.mem_cons.1 hx with rfl | hx
    · exact .map (f := fun _ r => r.toJson) hs fun r h => (hr r h).toJson
    · obtain ⟨r, hown, rfl⟩ := Option.map_eq_some_iff.1 (Option.mem_toList.1 hx)
      rcases Option.or_eq_some_iff.1 hown with hown | ⟨-, hown⟩
      · obtain ⟨d, -, hown⟩ := Option.bind_eq_some_iff.1 hown
        exact (hr _ (Table.mem_of_get? hown)).toJson
      · exact (hr _ (Table.mem_of_get? hown)).toJson

end Context.Proper

/-- A scope over a proper context, with proper variables. -/
structure Scope.Proper (s : Scope) : Prop where
  context : s.context.Proper
  vars : Json.Proper (.obj s.vars)

namespace Scope.Proper

theorem new {c : Context} (h : c.Proper) (execution : Identifier) (step : String)
    (device : Option String) : (Scope.new execution step device c).Proper := by
  refine ⟨h, ?_⟩
  cases device with
  | none => exact h.globals
  | some d =>
    show Json.Proper (.obj ((c.device? d).getD []))
    cases hd : c.device? d with
    | none => exact Json.Proper.obj_iff.2 ⟨Table.sorted_nil, trivial⟩
    | some fs => exact h.devices.2 _ (Table.mem_of_get? hd)

theorem set {s : Scope} (h : s.Proper) (key : String) {v : Json} (hv : v.Proper) :
    (s.set key v).Proper :=
  ⟨h.context, h.vars.insert hv⟩

end Scope.Proper

end Runbook

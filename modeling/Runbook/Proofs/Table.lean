import Mathlib.Data.List.Forall2
import Runbook.Table

/-!
# Tables by their values

Looking up a key after a change (`get?_insert`), and the tables whose keys increase
(`Table.Sorted`): those that `insert` builds are sorted, and two of them with the same value under
every key are equal (`Sorted.ext`). `Table.HasKeys` says which keys such a table has, and
`Table.SameBut` that two tables differ at most under one key.
-/

namespace Runbook.Table

variable {α : Type} {k key : String} {v : α} {t u : Table α}

theorem get?_insert : get? k (insert key v t) = if key = k then some v else get? k t := by
  induction t with
  | nil => rfl
  | cons x t ih =>
    obtain ⟨l, w⟩ := x
    unfold insert
    split
    · rename_i h
      subst h
      by_cases hk : key = k <;> simp [get?, hk]
    · split
      · rfl
      · simp only [get?, ih]
        rename_i h _
        by_cases hl : l = k
        · subst hl
          simp [h]
        · simp [hl]

@[simp] theorem get?_insert_self : get? key (insert key v t) = some v := by simp [get?_insert]

theorem get?_foldl_insert {entries : List (String × α)} (hn : (entries.map (·.1)).Nodup) :
    get? k (entries.foldl (fun t e => insert e.1 e.2 t) t) =
      ((entries.find? (·.1 == k)).map (·.2)).or (get? k t) := by
  induction entries generalizing t with
  | nil => simp
  | cons e entries ih =>
    obtain ⟨he, hn⟩ := List.nodup_cons.1 hn
    rw [List.foldl_cons, ih hn, get?_insert]
    by_cases hk : e.1 = k
    · have hnone : entries.find? (·.1 == k) = none := by
        rw [List.find?_eq_none]
        intro x hx hxk
        have hxe : x.1 = e.1 := (beq_iff_eq.1 hxk).trans hk.symm
        exact he (List.mem_map.2 ⟨x, hx, hxe⟩)
      simp [hk, hnone]
    · simp [hk]

/-- A table of entries with distinct keys has the value of each of them. -/
theorem get?_ofList {entries : List (String × α)} (hn : (entries.map (·.1)).Nodup) :
    get? k (ofList entries) = (entries.find? (·.1 == k)).map (·.2) := by
  rw [ofList, get?_foldl_insert hn]
  simp [get?]

/-- The keys increase. -/
def Sorted (t : Table α) : Prop := t.Pairwise fun a b => a.1 < b.1

theorem sorted_nil : Sorted ([] : Table α) := List.Pairwise.nil

theorem mem_insert {x : String × α} (h : x ∈ insert key v t) : x = (key, v) ∨ x ∈ t := by
  induction t with
  | nil => simp_all [insert]
  | cons y t ih =>
    obtain ⟨l, w⟩ := y
    unfold insert at h
    split at h
    · rcases List.mem_cons.1 h with rfl | h
      · exact .inl rfl
      · exact .inr (List.mem_cons_of_mem _ h)
    · split at h
      · rcases List.mem_cons.1 h with rfl | h
        · exact .inl rfl
        · exact .inr h
      · rcases List.mem_cons.1 h with rfl | h
        · exact .inr List.mem_cons_self
        · exact (ih h).imp_right (List.mem_cons_of_mem _)

theorem mem_foldl_insert {e : String × α} {entries : List (String × α)}
    (h : e ∈ entries.foldl (fun t e => insert e.1 e.2 t) t) : e ∈ entries ∨ e ∈ t := by
  induction entries generalizing t with
  | nil => exact .inr h
  | cons x entries ih =>
    rcases ih h with h | h
    · exact .inl (List.mem_cons_of_mem _ h)
    · rcases mem_insert h with rfl | h
      · exact .inl List.mem_cons_self
      · exact .inr h

theorem mem_of_mem_ofList {e : String × α} {entries : List (String × α)}
    (h : e ∈ ofList entries) : e ∈ entries :=
  (mem_foldl_insert h).resolve_right List.not_mem_nil

theorem keys_insert {x : String × α} (h : x ∈ insert key v t) : x.1 = key ∨ x ∈ t :=
  (mem_insert h).imp_left (congrArg Prod.fst)

theorem Sorted.insert (h : Sorted t) : Sorted (insert key v t) := by
  induction t with
  | nil => simp [Sorted, Table.insert]
  | cons x t ih =>
    obtain ⟨l, w⟩ := x
    obtain ⟨hl, ht⟩ := List.pairwise_cons.1 h
    unfold Table.insert
    split
    · rename_i hk
      exact List.pairwise_cons.2 ⟨fun y hy => hk ▸ hl y hy, ht⟩
    · split
      · rename_i hk
        refine List.pairwise_cons.2 ⟨fun y hy => ?_, h⟩
        rcases List.mem_cons.1 hy with rfl | hy
        · exact hk
        · exact Std.lt_trans hk (hl y hy)
      · rename_i hne hk
        refine List.pairwise_cons.2 ⟨fun y hy => ?_, ih ht⟩
        rcases keys_insert hy with hy | hy
        · rw [hy]
          exact Std.lt_of_le_of_ne (Std.not_lt.1 hk) (Ne.symm hne)
        · exact hl y hy

theorem get?_eq_none (h : ∀ x ∈ t, k < x.1) : get? k t = none := by
  induction t with
  | nil => rfl
  | cons x t ih =>
    have hx : x.1 ≠ k := fun he => Std.lt_irrefl (he ▸ h x List.mem_cons_self)
    rw [get?, if_neg hx]
    exact ih fun y hy => h y (List.mem_cons_of_mem _ hy)

/-- **Sorted tables** are equal when they have the same value under every key. -/
theorem Sorted.ext (ht : Sorted t) (hu : Sorted u) (h : ∀ k, get? k t = get? k u) : t = u := by
  induction t generalizing u with
  | nil =>
    cases u with
    | nil => rfl
    | cons y u => simpa [get?] using h y.1
  | cons x t ih =>
    obtain ⟨a, v⟩ := x
    obtain ⟨hx, ht⟩ := List.pairwise_cons.1 ht
    cases u with
    | nil => simpa [get?] using h a
    | cons y u =>
      obtain ⟨b, w⟩ := y
      obtain ⟨hy, hu'⟩ := List.pairwise_cons.1 hu
      -- The least key of one table has a value in the other, so neither is below the other.
      have hab : a = b := by
        rcases Std.lt_trichotomy a b with hlt | he | hlt
        · have := h a
          rw [get?, if_pos rfl, get?, if_neg (fun he => Std.lt_irrefl (he ▸ hlt)),
            get?_eq_none fun z hz => Std.lt_trans hlt (hy z hz)] at this
          cases this
        · exact he
        · have := h b
          rw [get?, if_neg (fun he => Std.lt_irrefl (he ▸ hlt)), get?, if_pos rfl,
            get?_eq_none fun z hz => Std.lt_trans hlt (hx z hz)] at this
          cases this
      subst hab
      have hv : v = w := by simpa [get?] using h a
      subst hv
      refine congrArg _ (ih ht hu' fun k => ?_)
      by_cases hk : a = k
      · subst hk
        rw [get?_eq_none hx, get?_eq_none hy]
      · simpa [get?, hk] using h k

/-- A table without a key has no value under it, and the same value under the others. -/
theorem Sorted.get?_erase (h : Sorted t) :
    get? k (erase key t) = if key = k then none else get? k t := by
  induction t with
  | nil => simp [erase, get?]
  | cons x t ih =>
    obtain ⟨l, w⟩ := x
    obtain ⟨hl, ht⟩ := List.pairwise_cons.1 h
    unfold erase
    split
    · rename_i hlk
      subst hlk
      by_cases hk : l = k
      · subst hk
        simpa using get?_eq_none hl
      · simp [get?, hk]
    · rename_i hlk
      simp only [get?, ih ht]
      by_cases hk : l = k
      · subst hk
        simp [Ne.symm hlk]
      · simp [hk]

theorem get?_map {β : Type} {f : String → α → β} :
    get? k (t.map fun (l, v) => (l, f l v)) = (get? k t).map (f k) := by
  induction t with
  | nil => rfl
  | cons x t ih =>
    obtain ⟨l, v⟩ := x
    simp only [List.map_cons, get?, ih]
    split
    · rename_i h
      rw [h, Option.map_some]
    · rfl

theorem Sorted.map {β : Type} {f : String → α → β} (h : Sorted t) :
    Sorted (t.map fun (l, v) => (l, f l v)) :=
  List.pairwise_map.2 h

theorem mem_of_get? (h : get? key t = some v) : (key, v) ∈ t := by
  induction t with
  | nil => cases h
  | cons x t ih =>
    obtain ⟨l, w⟩ := x
    unfold get? at h
    split at h
    · rename_i hl
      cases h
      exact hl ▸ List.mem_cons_self
    · exact List.mem_cons_of_mem _ (ih h)

/-! ## The keys of a table -/

theorem mem_keys_iff : k ∈ keys t ↔ (get? k t).isSome := by
  induction t with
  | nil => simp [keys, get?]
  | cons x t ih =>
    obtain ⟨l, w⟩ := x
    by_cases hl : l = k
    · simp [keys, get?, hl]
    · have : k ∈ keys ((l, w) :: t) ↔ k ∈ keys t := by simp [keys, Ne.symm hl]
      rw [this, ih, get?, if_neg hl]

theorem mem_keys_insert : k ∈ keys (insert key v t) ↔ k = key ∨ k ∈ keys t := by
  rw [mem_keys_iff, mem_keys_iff, get?_insert]
  by_cases hk : key = k
  · simp [hk]
  · simp [hk, Ne.symm hk]

/-- The keys of a table are these, each once and in order. -/
structure HasKeys (t : Table α) (ks : List String) : Prop where
  sorted : Sorted t
  mem : ∀ k, k ∈ keys t ↔ k ∈ ks

namespace HasKeys

variable {ks ks' : List String}

theorem nil : HasKeys ([] : Table α) [] := ⟨sorted_nil, fun _ => Iff.rfl⟩

theorem congr (h : HasKeys t ks) (hk : ∀ k, k ∈ ks ↔ k ∈ ks') : HasKeys t ks' :=
  ⟨h.sorted, fun k => (h.mem k).trans (hk k)⟩

theorem insert (h : HasKeys t ks) (key : String) (v : α) :
    HasKeys (t.insert key v) (key :: ks) :=
  ⟨h.sorted.insert, fun k => by rw [mem_keys_insert, h.mem, List.mem_cons]⟩

/-- Setting a key that is there adds none. -/
theorem insert_mem (h : HasKeys t ks) (hk : key ∈ ks) (v : α) : HasKeys (t.insert key v) ks :=
  (h.insert key v).congr fun k => by
    rw [List.mem_cons, or_iff_right_of_imp]
    rintro rfl
    exact hk

theorem foldl_insert {β : Type} (h : HasKeys t ks) (key : β → String) (value : β → α)
    (xs : List β) :
    HasKeys (xs.foldl (fun t x => t.insert (key x) (value x)) t) (xs.map key ++ ks) := by
  induction xs generalizing t ks with
  | nil => exact h
  | cons x xs ih =>
    refine (ih (h.insert (key x) (value x))).congr fun k => ?_
    simp only [List.mem_append, List.mem_cons, List.map_cons]
    exact or_left_comm.trans or_assoc.symm

end HasKeys

/-- The tables have the same keys, and the same value under each but one. -/
def SameBut (x : String) (t u : Table α) : Prop :=
  List.Forall₂ (fun a b => b.1 = a.1 ∧ (a.1 ≠ x → b.2 = a.2)) t u

namespace SameBut

variable {x y : String} {w : α}

theorem refl (x : String) (t : Table α) : SameBut x t t :=
  List.forall₂_same.2 fun _ _ => ⟨rfl, fun _ => rfl⟩

theorem get?_eq (h : SameBut x t u) (hy : y ≠ x) : get? y u = get? y t := by
  induction h with
  | nil => rfl
  | @cons a b t u hab _ ih =>
    obtain ⟨k, v⟩ := a
    obtain ⟨_, w⟩ := b
    obtain ⟨rfl, hv⟩ := hab
    simp only [get?, ih]
    split
    · rename_i hk
      exact congrArg some (hv (hk ▸ hy))
    · rfl

theorem insert (h : SameBut x t u) (k : String) (hv : k ≠ x → w = v) :
    SameBut x (t.insert k v) (u.insert k w) := by
  induction h with
  | nil => exact .cons ⟨rfl, hv⟩ .nil
  | @cons a b t u hab ht ih =>
    obtain ⟨l, v'⟩ := a
    obtain ⟨_, w'⟩ := b
    obtain ⟨rfl, hv'⟩ := hab
    simp only [Table.insert]
    split
    · exact .cons ⟨rfl, hv⟩ ht
    · split
      · exact .cons ⟨rfl, hv⟩ (.cons ⟨rfl, hv'⟩ ht)
      · exact .cons ⟨rfl, hv'⟩ ih

theorem erase (h : SameBut x t u) (k : String) : SameBut x (t.erase k) (u.erase k) := by
  induction h with
  | nil => exact .nil
  | @cons a b t u hab ht ih =>
    obtain ⟨l, v'⟩ := a
    obtain ⟨_, w'⟩ := b
    obtain ⟨rfl, hv'⟩ := hab
    simp only [Table.erase]
    split
    · exact ht
    · exact .cons ⟨rfl, hv'⟩ ih

end SameBut

end Runbook.Table

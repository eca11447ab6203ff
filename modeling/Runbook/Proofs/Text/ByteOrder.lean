import Mathlib.Data.List.Basic

/-!
# The order of texts and of their bytes

Texts are ordered by their characters. UTF-8 keeps this order: the bytes of a character come before
those of a later one (`utf8EncodeChar_append_lt`), so texts are in the order of their bytes
(`bytes_lt_iff`).
-/

namespace Runbook.Text

/-- The bytes of a text in UTF-8. -/
def bytes (s : String) : List UInt8 := s.toUTF8.data.toList

theorem bytes_eq (s : String) : bytes s = s.toList.flatMap String.utf8EncodeChar := by
  rw [bytes, String.toUTF8, ← String.utf8Encode_toList, List.utf8Encode, List.toList_data_toByteArray]

/-- The bytes of a character by the length of its code. -/
theorem utf8EncodeChar_cases (c : Char) :
    c.toNat ≤ 0x7f ∧ String.utf8EncodeChar c = [.ofNat c.toNat] ∨
      (0x7f < c.toNat ∧ c.toNat ≤ 0x7ff) ∧ String.utf8EncodeChar c =
        [.ofNat (c.toNat / 64 + 192), .ofNat (c.toNat % 64 + 128)] ∨
      (0x7ff < c.toNat ∧ c.toNat ≤ 0xffff) ∧ String.utf8EncodeChar c =
        [.ofNat (c.toNat / 4096 + 224), .ofNat (c.toNat / 64 % 64 + 128),
          .ofNat (c.toNat % 64 + 128)] ∨
      (0xffff < c.toNat ∧ c.toNat ≤ 0x10ffff) ∧ String.utf8EncodeChar c =
        [.ofNat (c.toNat / 262144 + 240), .ofNat (c.toNat / 4096 % 64 + 128),
          .ofNat (c.toNat / 64 % 64 + 128), .ofNat (c.toNat % 64 + 128)] := by
  have hc : c.toNat ≤ 0x10ffff := by
    rcases c.valid with h | h
    · exact Nat.le_of_lt_succ (Nat.lt_trans h (by decide))
    · exact Nat.le_of_lt_succ h.2
  rw [String.utf8EncodeChar, ← Char.toNat.eq_1]
  generalize c.toNat = v at hc ⊢
  by_cases h₁ : v ≤ 0x7f
  · simp [h₁]
  by_cases h₂ : v ≤ 0x7ff
  · have : v / 64 % 32 = v / 64 := Nat.mod_eq_of_lt (by omega)
    refine .inr (.inl ⟨by omega, ?_⟩)
    simp only [h₁, h₂, this, if_true, if_false]
  by_cases h₃ : v ≤ 0xffff
  · have : v / 4096 % 16 = v / 4096 := Nat.mod_eq_of_lt (by omega)
    refine .inr (.inr (.inl ⟨by omega, ?_⟩))
    simp only [h₁, h₂, h₃, this, if_true, if_false]
  · have : v / 262144 % 8 = v / 262144 := Nat.mod_eq_of_lt (by omega)
    refine .inr (.inr (.inr ⟨by omega, ?_⟩))
    simp only [h₁, h₂, h₃, this, if_false]

/-- The bytes of a character come before those of a later one, whatever follows. -/
theorem utf8EncodeChar_append_lt {c d : Char} (h : c < d) (xs ys : List UInt8) :
    String.utf8EncodeChar c ++ xs < String.utf8EncodeChar d ++ ys := by
  have h : c.toNat < d.toNat := h
  rcases utf8EncodeChar_cases c with ⟨hm, hc⟩ | ⟨hm, hc⟩ | ⟨hm, hc⟩ | ⟨hm, hc⟩ <;>
  rcases utf8EncodeChar_cases d with ⟨hn, hd⟩ | ⟨hn, hd⟩ | ⟨hn, hd⟩ | ⟨hn, hd⟩ <;>
    simp (disch := omega) only [hc, hd, List.cons_append, List.nil_append, List.cons_lt_cons_iff,
      UInt8.lt_iff_toNat_lt, ← UInt8.toNat_inj, UInt8.toNat_ofNat', Nat.mod_eq_of_lt] <;>
    omega

theorem flatMap_lt {cs ds : List Char} (h : cs < ds) :
    cs.flatMap String.utf8EncodeChar < ds.flatMap String.utf8EncodeChar := by
  induction ds generalizing cs with
  | nil => exact absurd h (List.not_lt_nil _)
  | cons d ds ih =>
    rw [List.flatMap_cons]
    cases cs with
    | nil =>
      obtain ⟨b, bs, hb⟩ := List.exists_cons_of_ne_nil (String.utf8EncodeChar_ne_nil (c := d))
      rw [hb]
      exact List.nil_lt_cons _ _
    | cons c cs =>
      rw [List.flatMap_cons]
      rcases List.cons_lt_cons_iff.1 h with hlt | ⟨rfl, hlt⟩
      · exact utf8EncodeChar_append_lt hlt _ _
      · exact List.append_left_lt (ih hlt)

/-- **The order of texts** is the order of their bytes. -/
theorem bytes_lt_iff {s t : String} : bytes s < bytes t ↔ s < t := by
  rw [bytes_eq, bytes_eq]
  refine ⟨fun h => ?_, flatMap_lt⟩
  rcases Std.lt_trichotomy s.toList t.toList with hlt | he | hlt
  · exact hlt
  · rw [he] at h
    exact absurd h (Std.lt_irrefl)
  · exact absurd h ((Std.not_lt.2 (Std.le_of_lt (flatMap_lt hlt))))

end Runbook.Text

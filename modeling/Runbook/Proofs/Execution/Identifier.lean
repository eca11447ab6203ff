import Runbook.Identifier
import Runbook.Proofs.Text.Digits

/-!
# Identifiers through texts

The text of an identifier of 128 bits is read as that identifier (`Identifier.parse_text`), and what
is read of any text has 128 bits (`Identifier.lt_of_parse`).
-/

namespace Runbook.Identifier

variable {n : Nat} {c : Char} {g cs : List Char}

/-! ## Hexadecimal digits -/

theorem hexDigit?_digitChar : ∀ d < 16, hexDigit? d.digitChar = some d := by decide

theorem readsDigits_hex : ReadsDigits 16 fun m c => (hexDigit? c).map (m * 16 + ·) := by
  intro m d hd
  simp only [hexDigit?_digitChar d hd, Option.map_some]

theorem natOfHex?_hexPadded (w n : Nat) : natOfHex? (Text.hexPadded w n) = some n :=
  readsDigits_hex.foldl_padded (by decide) w n

theorem hexDigit?_of_mem_hexPadded {w : Nat} (hc : c ∈ Text.hexPadded w n) :
    ∃ d, hexDigit? c = some d := by
  obtain ⟨d, hd, rfl⟩ : ∃ d < 16, c = d.digitChar := exists_of_mem_digitsPadded (by decide) hc
  exact ⟨d, hexDigit?_digitChar d hd⟩

theorem hexDigit?_lt {d : Nat} (h : hexDigit? c = some d) : d < 16 := by
  unfold hexDigit? at h
  split at h
  · rename_i hc
    have hle : c.toNat ≤ 57 := (Char.isDigit_iff_toNat.1 hc).2
    cases h
    omega
  · split at h
    · rename_i hc
      simp only [Bool.and_eq_true, decide_eq_true_eq] at hc
      have hle : c.toNat ≤ 102 := hc.2
      cases h
      omega
    · split at h
      · rename_i hc
        simp only [Bool.and_eq_true, decide_eq_true_eq] at hc
        have hle : c.toNat ≤ 70 := hc.2
        cases h
        omega
      · cases h

/-- Some hexadecimal digits have a value below the power that has as many zeros. -/
theorem natOfHex?_lt (h : natOfHex? cs = some n) : n < 16 ^ cs.length := by
  rw [← Nat.one_mul (16 ^ _), ← Nat.zero_add 1]
  refine lt_of_foldl_eq_some (fun m c k hk => ?_) h
  obtain ⟨d, hd, rfl⟩ := Option.map_eq_some_iff.1 hk
  have hlt : d < 16 := hexDigit?_lt hd
  omega

theorem getD_natOfHex?_lt (cs : List Char) : (natOfHex? cs).getD 0 < 16 ^ cs.length := by
  cases h : natOfHex? cs with
  | none => exact Nat.pow_pos (by decide)
  | some n => exact natOfHex?_lt h

/-! ## Groups -/

theorem groups_of_not_mem (h : '-' ∉ g) : groups g = [g] := by
  induction g with
  | nil => rfl
  | cons c g ih =>
    have hc : c ≠ '-' := fun he => h (he ▸ List.mem_cons_self)
    have hg : groups g = [g] := ih fun hm => h (List.mem_cons_of_mem _ hm)
    rw [groups.eq_3 _ _ hc, hg]

theorem groups_append (h : '-' ∉ g) (cs : List Char) :
    groups (g ++ '-' :: cs) = g :: groups cs := by
  induction g with
  | nil => rfl
  | cons c g ih =>
    have hc : c ≠ '-' := fun he => h (he ▸ List.mem_cons_self)
    have hg : groups (g ++ '-' :: cs) = g :: groups cs :=
      ih fun hm => h (List.mem_cons_of_mem _ hm)
    rw [List.cons_append, groups.eq_3 _ _ hc, hg]

theorem firstForeign_eq_none {index : Nat}
    (h : ∀ c ∈ cs, c = '-' ∨ (hexDigit? c).isSome = true) : firstForeign index cs = none := by
  induction cs generalizing index with
  | nil => rfl
  | cons c cs ih =>
    have hc : (c == '-' || (hexDigit? c).isSome) = true := by
      simpa using h c List.mem_cons_self
    rw [firstForeign, if_pos hc]
    exact ih fun d hd => h d (List.mem_cons_of_mem _ hd)

/-- A text that starts with a digit has no marks around it. -/
theorem unwrap_of_hex {d : Nat} (h : hexDigit? c = some d) :
    unwrap (c :: cs) = (c :: cs, 0, true) := by
  have hbrace : c ≠ '{' := by
    rintro rfl
    cases h
  have hu : c ≠ 'u' := by
    rintro rfl
    cases h
  unfold unwrap
  split
  · rename_i he
    exact absurd (List.cons.inj he).1 hbrace
  · rename_i he
    exact absurd (List.cons.inj he).1 hu
  · rfl

/-! ## Round trip -/

/-- The digits of an identifier in groups. -/
def digitGroups (i : Identifier) : List (List Char) :=
  let ds := Text.hexPadded 32 i.bits
  [ds.take 8, (ds.drop 8).take 4, (ds.drop 12).take 4, (ds.drop 16).take 4, (ds.drop 20).take 12]

theorem length_digits {i : Identifier} (h : i.bits < 2 ^ 128) :
    (Text.hexPadded 32 i.bits).length = 32 :=
  Text.length_hexPadded (by decide) h

theorem flatten_digitGroups {i : Identifier} (h : i.bits < 2 ^ 128) :
    i.digitGroups.flatten = Text.hexPadded 32 i.bits := by
  have hlen := length_digits h
  simp only [digitGroups, List.flatten_cons, List.flatten_nil, List.append_nil]
  generalize Text.hexPadded 32 i.bits = ds at hlen
  have hcut (m k : Nat) : (ds.drop m).take k ++ ds.drop (m + k) = ds.drop m := by
    rw [← List.drop_drop, List.take_append_drop]
  have hlast : (ds.drop 20).take 12 = ds.drop 20 := List.take_of_length_le (by simp [hlen])
  rw [hlast, hcut 16 4, hcut 12 4, hcut 8 4, List.take_append_drop]

theorem lengths_digitGroups {i : Identifier} (h : i.bits < 2 ^ 128) :
    i.digitGroups.map List.length = groupLengths := by
  have hlen := length_digits h
  simp [digitGroups, groupLengths, hlen]

theorem hex_of_mem_digitGroups {i : Identifier} (hg : g ∈ i.digitGroups) (hc : c ∈ g) :
    ∃ d, hexDigit? c = some d := by
  have hpart (m k : Nat) (hc : c ∈ ((Text.hexPadded 32 i.bits).drop m).take k) :
      ∃ d, hexDigit? c = some d :=
    hexDigit?_of_mem_hexPadded (List.mem_of_mem_drop (List.mem_of_mem_take hc))
  simp only [digitGroups, List.mem_cons, List.not_mem_nil, or_false] at hg
  rcases hg with rfl | rfl | rfl | rfl | rfl
  · exact hpart 0 8 hc
  · exact hpart 8 4 hc
  · exact hpart 12 4 hc
  · exact hpart 16 4 hc
  · exact hpart 20 12 hc

theorem toList_text (i : Identifier) : i.text.toList = ['-'].intercalate i.digitGroups := by
  simp [text, digitGroups]

/-- Groups without dashes come apart again. -/
theorem groups_intercalate {gs : List (List Char)} (hne : gs ≠ []) (h : ∀ g ∈ gs, '-' ∉ g) :
    groups (['-'].intercalate gs) = gs := by
  induction gs with
  | nil => exact absurd rfl hne
  | cons g gs ih =>
    obtain ⟨hg, hgs⟩ := List.forall_mem_cons.1 h
    cases gs with
    | nil => simpa using groups_of_not_mem hg
    | cons g' gs =>
      rw [List.intercalate_cons_cons, List.append_assoc, List.singleton_append, groups_append hg,
        ih (List.cons_ne_nil _ _) hgs]

theorem mem_intercalate {gs : List (List Char)} (hc : c ∈ ['-'].intercalate gs) :
    c = '-' ∨ ∃ g ∈ gs, c ∈ g := by
  induction gs with
  | nil => cases hc
  | cons g gs ih =>
    cases gs with
    | nil => exact .inr ⟨g, List.mem_cons_self, by simpa using hc⟩
    | cons g' gs =>
      rw [List.intercalate_cons_cons, List.mem_append, List.mem_append, List.mem_singleton] at hc
      rcases hc with (hc | hc) | hc
      · exact .inr ⟨g, List.mem_cons_self, hc⟩
      · exact .inl hc
      · obtain hdash | ⟨g, hg, hc⟩ := ih hc
        · exact .inl hdash
        · exact .inr ⟨g, List.mem_cons_of_mem _ hg, hc⟩

/-- **The text of an identifier** is read as it. -/
theorem parse_text {i : Identifier} (h : i.bits < 2 ^ 128) : parse i.text = .ok i := by
  have hgroups : groups i.text.toList = i.digitGroups := by
    rw [toList_text]
    refine groups_intercalate (List.cons_ne_nil _ _) fun g hg hc => ?_
    obtain ⟨d, hd⟩ := hex_of_mem_digitGroups hg hc
    cases hd
  have hforeign : firstForeign 0 i.text.toList = none := by
    refine firstForeign_eq_none fun c hc => ?_
    rw [toList_text] at hc
    obtain hdash | ⟨g, hg, hc⟩ := mem_intercalate hc
    · exact .inl hdash
    · obtain ⟨d, hd⟩ := hex_of_mem_digitGroups hg hc
      right
      rw [hd]
      rfl
  have hunwrap : unwrap i.text.toList = (i.text.toList, 0, true) := by
    obtain ⟨c, cs, hcs⟩ := List.exists_cons_of_length_pos
      (show 0 < ((Text.hexPadded 32 i.bits).take 8).length by simp [length_digits h])
    obtain ⟨d, hd⟩ : ∃ d, hexDigit? c = some d := hex_of_mem_digitGroups List.mem_cons_self
      (show c ∈ (Text.hexPadded 32 i.bits).take 8 from hcs ▸ List.mem_cons_self)
    rw [toList_text, digitGroups, hcs, List.intercalate_cons_cons, List.cons_append,
      List.cons_append]
    exact unwrap_of_hex hd
  have hlengths := lengths_digitGroups h
  have hfive : i.digitGroups.length = 5 := rfl
  have hvalue : natOfHex? i.digitGroups.flatten = some i.bits := by
    rw [flatten_digitGroups h, natOfHex?_hexPadded]
  simp only [parse, hunwrap, hforeign, hgroups, hfive, hlengths, hvalue]
  simp

theorem lt_of_parse {s : String} {i : Identifier} (h : parse s = .ok i) : i.bits < 2 ^ 128 := by
  have hlt {cs : List Char} (hcs : cs.length = 32) : (natOfHex? cs).getD 0 < 2 ^ 128 := by
    have hpow : (natOfHex? cs).getD 0 < 16 ^ 32 := hcs ▸ getD_natOfHex?_lt cs
    exact hpow
  simp only [parse] at h
  split at h
  · cases h
  · split at h
    · split at h
      · rename_i hcs
        cases h
        exact hlt hcs
      · cases h
    · split at h
      · cases h
      · split at h
        · rename_i hgs
          cases h
          refine hlt ?_
          rw [List.length_flatten, hgs]
          rfl
        · cases h

end Runbook.Identifier

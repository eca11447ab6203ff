import Runbook.Proofs.Text.Digits
import Runbook.Proofs.Yaml.Literal
import Runbook.Proofs.Yaml.Plain
import Runbook.Proofs.Yaml.Quoted

/-!
# Forms of texts

A text is written in the form that its traits allow, and what a form asks of a text is what the
scanner needs to read it back: a plain text (`plainText_of_form`), one between single quotes
(`singleText_of_form`) or a literal block (`literalText_of_form`). Between double quotes every
character has a form that is read back as it (`solid_escapeChar`); in JSON every character has one
but for a break that is taken for a line feed (`written_jsonEscape`).
-/

namespace Runbook.Yaml

open Scanner

theorem isBreak_eq_true {c : Char} : isBreak c = true ↔
    c = '\n' ∨ c = '\r' ∨ c = '\u0085' ∨ c = '\u2028' ∨ c = '\u2029' := by
  simp [isBreak, or_assoc]

/-! ## Hexadecimal escapes -/

section
variable {f : Char → Char} {n w : Nat}

/-- A number that is padded with zeros is read back, where `f` changes the case of its digits. -/
theorem mapM_hexPadded (hf : ∀ d < 16, hex? (f d.digitChar) = some d) (hw : 0 < w) (hn : n < 16 ^ w)
    (t : List Char) : ∃ ds, (((Text.hexPadded w n).map f ++ t).take w).mapM hex? = some ds ∧
      ds.length = w ∧ ds.foldl (fun n d => n * 16 + d) 0 = n := by
  rw [List.take_left' (by rw [List.length_map, Text.length_hexPadded hw hn]), List.mapM_map]
  exact exists_mapM_digitsPadded hf (by decide) hw hn

theorem hex?_of_mem_hexPadded {c : Char} (hf : ∀ d < 16, hex? (f d.digitChar) = some d)
    (h : c ∈ (Text.hexPadded w n).map f) : ∃ d, hex? c = some d := by
  obtain ⟨e, he, rfl⟩ := List.mem_map.1 h
  obtain ⟨d, hd, rfl⟩ : ∃ d < 16, e = d.digitChar := exists_of_mem_digitsPadded (by decide) he
  exact ⟨d, hf d hd⟩

theorem solid_of_hex? {c : Char} {d : Nat} (h : hex? c = some d) :
    isBreak c = false ∧ isAllowed c = true := by
  have hn : 48 ≤ c.toNat ∧ c.toNat ≤ 102 := by
    unfold hex? at h
    split at h
    · rename_i hd
      have hbounds : 48 ≤ c.toNat ∧ c.toNat ≤ 57 := Char.isDigit_iff_toNat.1 hd
      omega
    · split at h
      · rename_i hd
        simp only [Bool.and_eq_true, decide_eq_true_eq] at hd
        have h1 : 97 ≤ c.toNat := hd.1
        have h2 : c.toNat ≤ 102 := hd.2
        omega
      · split at h
        · rename_i hd
          simp only [Bool.and_eq_true, decide_eq_true_eq] at hd
          have h1 : 65 ≤ c.toNat := hd.1
          have h2 : c.toNat ≤ 70 := hd.2
          omega
        · cases h
  constructor
  · refine Bool.eq_false_iff.2 fun hb => ?_
    rcases isBreak_eq_true.1 hb with rfl | rfl | rfl | rfl | rfl <;> revert hn <;> decide
  · simp only [isAllowed, Bool.or_eq_true, Bool.and_eq_true, beq_iff_eq, decide_eq_true_eq]
    omega

theorem hex?_digitChar : ∀ d < 16, hex? d.digitChar = some d := by decide

theorem hex?_digitChar_upper : ∀ d < 16, hex? d.digitChar.toUpper = some d := by decide

end

/-! ## Characters between double quotes -/

section
variable {c : Char} {esc : Char → List Char}

theorem isAllowed_of_isPrintable (h : Traits.isPrintable c = true) : isAllowed c = true := by
  simp only [Traits.isPrintable, isAllowed, Bool.or_eq_true, Bool.and_eq_true, beq_iff_eq,
    decide_eq_true_eq] at h ⊢
  omega

theorem ne_tab_of_isPrintable (h : Traits.isPrintable c = true) : c ≠ '\t' := by
  rintro rfl
  cases h

/-- The breaks that may stand for themselves count as themselves. -/
theorem isOwnBreak_of_isPrintable (h : Traits.isPrintable c = true) (hb : isBreak c = true) :
    Cursor.IsOwnBreak c := by
  rcases isBreak_eq_true.1 hb with rfl | rfl | rfl | rfl | rfl
  · exact .inl rfl
  · cases h
  · cases h
  · exact .inr (.inl rfl)
  · exact .inr (.inr rfl)

/-- The escape by a number, of a kind that is read as one. -/
theorem stands_code {esc : Char → List Char} {f : Char → Char} {mark : Char} {w : Nat}
    (hmark : ∀ rest, readEscape (mark :: rest) =
      match (rest.take w).mapM hex? with
      | some ds =>
        let n := ds.foldl (fun n d => n * 16 + d) 0
        if ds.length < w || !n.isValidChar then .error .escape else .ok (Char.ofNat n, w + 1)
      | none => .error .escape)
    (hf : ∀ d < 16, hex? (f d.digitChar) = some d) (hm : isBreak mark = false) (hw : 0 < w)
    (hc : c.toNat < 16 ^ w) (h : esc c = '\\' :: mark :: (Text.hexPadded w c.toNat).map f) :
    Stands false c (esc c) := by
  rw [h]
  refine stands_escape ?_ (List.cons_ne_nil _ _) fun t => ?_
  · refine List.forall_mem_cons.2 ⟨hm, fun d hd => ?_⟩
    obtain ⟨k, hk⟩ := hex?_of_mem_hexPadded hf hd
    exact (solid_of_hex? hk).1
  · obtain ⟨ds, hds, hlen, hfold⟩ := mapM_hexPadded hf hw hc t
    have hvalid : c.toNat.isValidChar := c.valid
    rw [List.cons_append, hmark, hds]
    simp [hlen, hfold, hvalid, Text.length_hexPadded hw hc]

/-- A character between double quotes that stands for itself. -/
theorem solid_self (he : esc c = [c]) (ht : c ≠ '\t') (hb : isBreak c = false)
    (hc : c ≠ '"' ∧ c ≠ '\\') : Solid false esc c := by
  by_cases hsp : c = ' '
  · exact .space hsp he
  · exact .stands (he ▸ stands_self (by simp [isGap, hsp, ht]) hb (by simpa using hc))

/-- **Every character** is read back between double quotes. -/
theorem solid_escapeChar (c : Char) : Solid false escapeChar c := by
  obtain ⟨r, hr⟩ : ∃ r, escapeChar c = r := ⟨_, rfl⟩
  have hcase := hr
  unfold escapeChar at hcase
  split at hcase
  case h_15 hquote hslash _ _ _ _ hfeed _ _ hreturn _ hnext hline hparagraph =>
    split at hcase
    · rename_i hp
      refine solid_self (hr.trans hcase.symm) (ne_tab_of_isPrintable hp)
        (Bool.eq_false_iff.2 fun hb => ?_) ⟨hquote, hslash⟩
      rcases isBreak_eq_true.1 hb with h | h | h | h | h
      exacts [hfeed h, hreturn h, hnext h, hline h, hparagraph h]
    · split at hcase
      · exact .stands (stands_code (w := 2) (fun _ => rfl) hex?_digitChar_upper rfl (by decide)
          (by omega) (hr.trans hcase.symm))
      · split at hcase
        · exact .stands (stands_code (w := 4) (fun _ => rfl) hex?_digitChar_upper rfl (by decide)
            (by omega) (hr.trans hcase.symm))
        · exact .stands (stands_code (w := 8) (fun _ => rfl) hex?_digitChar_upper rfl (by decide)
            c.val.toNat_lt (hr.trans hcase.symm))
  all_goals exact .stands (stands_escape (by decide) (by decide) fun _ => rfl)

/-- In the form of JSON, a break without an escape stands as it is. -/
theorem jsonEscape_break (h : 32 ≤ c.toNat) (hb : isBreak c = true) : Json.escapeChar c = [c] := by
  rcases isBreak_eq_true.1 hb with rfl | rfl | rfl | rfl | rfl
  · exact absurd h (by decide)
  · exact absurd h (by decide)
  · rfl
  · rfl
  · rfl

/-- In the form of JSON, a character is read back unless it is a break that has no escape there. -/
theorem solid_jsonEscape (h : c.toNat < 32 ∨ isBreak c = false) :
    Solid false Json.escapeChar c := by
  obtain ⟨r, hr⟩ : ∃ r, Json.escapeChar c = r := ⟨_, rfl⟩
  have hcase := hr
  unfold Json.escapeChar at hcase
  split at hcase
  case h_6 hquote hslash hfeed hreturn htab =>
    split at hcase
    · rename_i hc
      have hc : c = '\x08' := Char.toNat_inj.1 (beq_iff_eq.1 hc)
      subst hc
      exact .stands (stands_escape (by decide) (by decide) fun _ => rfl)
    · split at hcase
      · rename_i hc
        have hc : c = '\x0c' := Char.toNat_inj.1 (beq_iff_eq.1 hc)
        subst hc
        exact .stands (stands_escape (by decide) (by decide) fun _ => rfl)
      · split at hcase
        · have hcode : Json.escapeChar c = '\\' :: 'u' :: (Text.hexPadded 4 c.toNat).map id := by
            rw [List.map_id]
            exact hr.trans hcase.symm
          exact .stands (stands_code (fun _ => rfl) hex?_digitChar rfl (by decide) (by omega) hcode)
        · rename_i hc
          exact solid_self (hr.trans hcase.symm) htab (h.resolve_left hc) ⟨hquote, hslash⟩
  all_goals exact .stands (stands_escape (by decide) (by decide) fun _ => rfl)

/-- A break without an escape is read back where it counts as itself. -/
theorem written_jsonEscape (h : c.toNat < 32 ∨ c ≠ '\u0085') : Written false Json.escapeChar c := by
  by_cases hb : c.toNat < 32 ∨ isBreak c = false
  · exact .solid (solid_jsonEscape hb)
  · obtain ⟨hlarge, hb⟩ := not_or.1 hb
    have hb : isBreak c = true := by simpa using hb
    have hnext := h.resolve_left hlarge
    have he := jsonEscape_break (Nat.not_lt.1 hlarge) hb
    rcases isBreak_eq_true.1 hb with rfl | rfl | rfl | rfl | rfl
    · exact absurd (by decide) hlarge
    · exact absurd (by decide) hlarge
    · exact absurd rfl hnext
    · exact .own (.inr (.inl rfl)) (by decide) he
    · exact .own (.inr (.inr rfl)) (by decide) he

end

/-! ## What a form asks of a text -/

section
variable {cs : List Char} {c d : Char} {s : String}

theorem isPrintable_of_special (h : (cs.any fun d => !Traits.isPrintable d) = false) (hc : c ∈ cs) :
    Traits.isPrintable c = true := by
  simpa using List.any_eq_false.1 h c hc

theorem spaceBeforeBreak_cons : Traits.spaceBeforeBreak (c :: d :: cs) = false ↔
    (c = ' ' → isBreak d = false) ∧ Traits.spaceBeforeBreak (d :: cs) = false := by
  by_cases hc : c = ' '
  · subst hc
    simp [Traits.spaceBeforeBreak]
  · rw [Traits.spaceBeforeBreak]
    · simp [hc]
    · rintro _ _ rfl
      exact absurd rfl hc

theorem spaceAfterBreak_cons : Traits.spaceAfterBreak (c :: d :: cs) = false ↔
    (isBreak c = true → d ≠ ' ') ∧ Traits.spaceAfterBreak (d :: cs) = false := by
  by_cases hd : d = ' '
  · subst hd
    simp [Traits.spaceAfterBreak]
  · rw [Traits.spaceAfterBreak]
    · simp [hd]
    · rintro _ h
      exact absurd (List.cons.inj h).1 hd

/-- A text without spaces beside its breaks. -/
theorem isChain_of_spaces (hb : Traits.spaceBeforeBreak cs = false)
    (ha : Traits.spaceAfterBreak cs = false) :
    cs.IsChain fun c d => (c = ' ' → isBreak d = false) ∧ (isBreak c = true → d ≠ ' ') := by
  induction cs with
  | nil => exact .nil
  | cons c cs ih =>
    cases cs with
    | nil => exact .singleton c
    | cons d cs =>
      obtain ⟨hb, hb'⟩ := spaceBeforeBreak_cons.1 hb
      obtain ⟨ha, ha'⟩ := spaceAfterBreak_cons.1 ha
      exact .cons_cons ⟨hb, ha⟩ (ih hb' ha')

theorem singleText_of_traits (h : (Traits.ofChars cs).singleAllowed = true) (hn : '\n' ∉ cs) :
    SingleText cs := by
  cases cs with
  | nil => exact ⟨nofun, .nil⟩
  | cons c cs =>
    simp only [Traits.ofChars, Bool.not_eq_true', Bool.or_eq_false_iff] at h
    obtain ⟨ha, hb, hs⟩ := h
    refine ⟨fun d hd => ?_, isChain_of_spaces hb ha⟩
    have hp := isPrintable_of_special hs hd
    refine ⟨ne_tab_of_isPrintable hp, fun hbreak => ⟨isOwnBreak_of_isPrintable hp hbreak, ?_⟩⟩
    rintro rfl
    exact hn hd

theorem literalText_of_traits (h : (Traits.ofChars cs).literalAllowed = true) : LiteralText cs := by
  cases cs with
  | nil => nofun
  | cons c cs =>
    simp only [Traits.ofChars, Bool.not_eq_true', Bool.or_eq_false_iff] at h
    obtain ⟨-, -, hs⟩ := h
    intro d hd
    have hp := isPrintable_of_special hs hd
    exact ⟨ne_tab_of_isPrintable hp, isOwnBreak_of_isPrintable hp⟩

theorem plainText_of_traits (h : (Traits.ofChars cs).plainAllowed = true) (hne : cs ≠ []) :
    PlainText cs := by
  cases cs with
  | nil => exact absurd rfl hne
  | cons c cs =>
    simp only [Traits.ofChars, Bool.not_eq_true', Bool.or_eq_false_iff] at h
    obtain ⟨⟨⟨⟨⟨hfirst, hlast⟩, hlines⟩, -⟩, -, hs⟩, ⟨hmark, hstart⟩, hinside⟩ := h
    have hflat : ∀ d ∈ c :: cs, isBreak d = false := by simpa using hlines
    refine ⟨fun d hd => ⟨hflat d hd, ne_tab_of_isPrintable (isPrintable_of_special hs hd)⟩,
      ⟨c, cs, rfl, ?_⟩, hstart, ?_, fun d hd => ?_, hmark⟩
    · simpa using hfirst.1
    · have hcolon : (c == ':' && atGap cs) = false := by
        simp only [Traits.badStart, Bool.or_eq_false_iff] at hstart
        rw [Bool.eq_false_iff, Ne, Bool.and_eq_true, beq_iff_eq]
        rintro ⟨rfl, hgap⟩
        simp [hgap] at hstart
      simp only [Traits.badInside, hcolon, hinside, Bool.and_false, Bool.or_false]
    · rw [Option.mem_def.1 hd] at hlast
      simpa using hlast.1

/-! ## Forms -/

theorem ofPlain_eq_text {t : String} (h : Scalar.ofPlain s = .text t) : t = s := by
  have hinteger (x : Scalar) (hx : Scalar.integer? s.toList = some x) : x ≠ .text t := by
    rintro rfl
    unfold Scalar.integer? at hx
    simp only [Option.or_eq_some_iff, Option.map_eq_some_iff] at hx
    rcases hx with ⟨_, _, h⟩ | ⟨_, ⟨_, _, h⟩ | ⟨_, ⟨_, _, h⟩ | ⟨_, _, _, h⟩⟩⟩ <;> cases h
  unfold Scalar.ofPlain at h
  split at h
  · cases h
  · split at h
    · cases h
    · split at h
      · exact absurd h (hinteger _ ‹_›)
      · split at h
        · cases h; rfl
        · split at h
          · cases h
          · cases h; rfl

theorem ofPlain_of_readsAsText (h : readsAsText s = true) : Scalar.ofPlain s = .text s := by
  unfold readsAsText at h
  split at h
  · rename_i t ht
    rw [ht, ofPlain_eq_text ht]
  · cases h

theorem plainText_of_form (h : formOf s = .plain) :
    PlainText s.toList ∧ Scalar.ofPlain s = .text s := by
  simp only [formOf] at h
  split at h
  · split at h <;> cases h
  · split at h
    · rename_i hplain
      rw [Bool.and_eq_true] at hplain
      have htext := ofPlain_of_readsAsText hplain.1
      refine ⟨plainText_of_traits hplain.2 fun hnil => ?_, htext⟩
      obtain rfl : s = "" := String.toList_inj.1 hnil
      cases htext
    · split at h <;> cases h

theorem singleText_of_form (h : formOf s = .single) : SingleText s.toList := by
  simp only [formOf] at h
  split at h
  · split at h <;> cases h
  · rename_i hline
    split at h
    · cases h
    · split at h
      · exact singleText_of_traits ‹_› (by simpa using hline)
      · cases h

theorem literalText_of_form (h : formOf s = .literal) : LiteralText s.toList ∧ s.toList ≠ [] := by
  simp only [formOf] at h
  split at h
  · rename_i hline
    split at h
    · exact ⟨literalText_of_traits ‹_›, List.ne_nil_of_mem (by simpa using hline)⟩
    · cases h
  · split at h
    · cases h
    · split at h <;> cases h

/-! ## What a document may hold -/

theorem isPrintable_of_form (h : formOf s ≠ .double) (hc : c ∈ s.toList) :
    Traits.isPrintable c = true := by
  have hspecial : s.toList ≠ [] → (Traits.ofChars s.toList).plainAllowed = true ∨
      (Traits.ofChars s.toList).singleAllowed = true ∨
      (Traits.ofChars s.toList).literalAllowed = true →
      (s.toList.any fun d => !Traits.isPrintable d) = false := by
    cases s.toList with
    | nil => exact fun hne => absurd rfl hne
    | cons d ds =>
      intro _ h
      simp only [Traits.ofChars, Bool.not_eq_true', Bool.or_eq_false_iff] at h
      rcases h with ⟨⟨-, -, h⟩, -⟩ | ⟨-, -, h⟩ | ⟨-, -, h⟩ <;> exact h
  refine isPrintable_of_special (hspecial (List.ne_nil_of_mem hc) ?_) hc
  simp only [formOf] at h
  split at h
  · split at h
    · exact .inr (.inr ‹_›)
    · exact absurd rfl h
  · split at h
    · rename_i hplain
      exact .inl (Bool.and_eq_true_iff.1 hplain).2
    · split at h
      · exact .inr (.inl ‹_›)
      · exact absurd rfl h

theorem isAllowed_escapeChar (c : Char) : ∀ d ∈ escapeChar c, isAllowed d = true := by
  have hcode (w : Nat) (mark : Char) (hm : isAllowed mark = true) :
      ∀ d ∈ '\\' :: mark :: (Text.hexPadded w c.toNat).map Char.toUpper, isAllowed d = true := by
    refine List.forall_mem_cons.2 ⟨rfl, List.forall_mem_cons.2 ⟨hm, fun d hd => ?_⟩⟩
    obtain ⟨k, hk⟩ := hex?_of_mem_hexPadded hex?_digitChar_upper hd
    exact (solid_of_hex? hk).2
  unfold escapeChar
  split
  case h_15 =>
    split
    · simpa using isAllowed_of_isPrintable ‹_›
    · split
      · exact hcode 2 'x' rfl
      · split
        · exact hcode 4 'u' rfl
        · exact hcode 8 'U' rfl
  all_goals decide

theorem isAllowed_jsonEscape (h : c.toNat < 32 ∨ isAllowed c = true) :
    ∀ d ∈ Json.escapeChar c, isAllowed d = true := by
  unfold Json.escapeChar
  split
  case h_6 =>
    split
    · decide
    · split
      · decide
      · split
        · refine List.forall_mem_append.2 ⟨by decide, fun d hd => ?_⟩
          have hmem : d ∈ (Text.hexPadded 4 c.toNat).map id := by rwa [List.map_id]
          obtain ⟨k, hk⟩ := hex?_of_mem_hexPadded hex?_digitChar hmem
          exact (solid_of_hex? hk).2
        · simpa using h.resolve_left ‹_›
  all_goals decide

theorem mem_singleLines {n : Nat} {b : Bool} (h : d ∈ singleLines n b cs) :
    d ∈ cs ∨ d = ' ' ∨ d = '\'' := by
  induction cs generalizing b with
  | nil =>
    rw [singleLines] at h
    split at h
    · exact .inr (.inl (mem_spaces h))
    · cases h
  | cons c cs ih =>
    have htail {b : Bool} (h : d ∈ singleLines n b cs) : d ∈ c :: cs ∨ d = ' ' ∨ d = '\'' :=
      (ih h).imp_left (List.mem_cons_of_mem _)
    rw [singleLines] at h
    split at h
    · rcases List.mem_cons.1 h with rfl | h
      · exact .inl List.mem_cons_self
      · exact htail h
    · rw [List.mem_append, List.mem_append] at h
      rcases h with (h | h) | h
      · split at h
        · exact .inr (.inl (mem_spaces h))
        · cases h
      · split at h
        · exact .inr (.inr (by simpa using h))
        · exact .inl (by simp_all)
      · exact htail h

theorem mem_literalLines {n : Nat} {b : Bool} (h : d ∈ literalLines n b cs) : d ∈ cs ∨ d = ' ' := by
  induction cs generalizing b with
  | nil => cases h
  | cons c cs ih =>
    have htail {b : Bool} (h : d ∈ c :: literalLines n b cs) : d ∈ c :: cs ∨ d = ' ' := by
      rcases List.mem_cons.1 h with rfl | h
      · exact .inl List.mem_cons_self
      · exact (ih h).imp_left (List.mem_cons_of_mem _)
    rw [literalLines] at h
    split at h
    · exact htail h
    · rcases List.mem_append.1 h with h | h
      · split at h
        · exact .inr (mem_spaces h)
        · cases h
      · exact htail h

/-- All that is written of a text may stand in a document. -/
theorem isAllowed_writeText {n : Nat} : ∀ d ∈ writeText n s, isAllowed d = true := by
  have hchars (h : formOf s ≠ .double) : ∀ d ∈ s.toList, isAllowed d = true :=
    fun d hd => isAllowed_of_isPrintable (isPrintable_of_form h hd)
  unfold writeText
  split
  · exact hchars (by simp_all)
  · have hs := hchars (by simp_all)
    refine List.forall_mem_append.2 ⟨List.forall_mem_cons.2 ⟨rfl, fun d hd => ?_⟩, by decide⟩
    rcases mem_singleLines hd with hd | rfl | rfl
    exacts [hs d hd, rfl, rfl]
  · refine List.forall_mem_append.2 ⟨List.forall_mem_cons.2 ⟨rfl, fun d hd => ?_⟩, by decide⟩
    obtain ⟨c, -, hd⟩ := List.mem_flatMap.1 hd
    exact isAllowed_escapeChar c d hd
  · have hs := hchars (by simp_all)
    have hhint : ∀ d ∈ indentHint s.toList, isAllowed d = true := by
      rcases indentHint_cases s.toList with h | h <;> rw [h] <;> decide
    have hmark : ∀ d ∈ chompingMark s.toList, isAllowed d = true := by
      rcases chompingMark_cases s.toList with h | h | h <;> rw [h] <;> decide
    refine List.forall_mem_append.2 ⟨List.forall_mem_append.2 ⟨List.forall_mem_cons.2 ⟨rfl, hhint⟩,
      hmark⟩, List.forall_mem_cons.2 ⟨rfl, fun d hd => ?_⟩⟩
    rcases mem_literalLines hd with hd | rfl
    exacts [hs d hd, rfl]

/-! ## Keys -/

theorem length_le_utf8ByteSize (s : String) : s.toList.length ≤ s.utf8ByteSize := by
  have hlist (cs : List Char) : cs.length ≤ (String.ofList cs).utf8ByteSize := by
    induction cs with
    | nil => exact Nat.zero_le _
    | cons c cs ih =>
      have hc := c.utf8Size_pos
      have hcons : String.ofList (c :: cs) = String.singleton c ++ String.ofList cs := by
        rw [String.singleton_eq_ofList, ← String.ofList_append]
        rfl
      rw [hcons, String.utf8ByteSize_append, String.utf8ByteSize_singleton, List.length_cons]
      omega
  simpa using hlist s.toList

theorem length_escapeChar (c : Char) : (escapeChar c).length ≤ 6 := by
  unfold escapeChar
  split
  case h_15 =>
    split
    · simp
    · rename_i hp
      split
      · simp [Text.length_hexPadded (w := 2) (by decide) (by omega : c.toNat < 16 ^ 2)]
      · split
        · simp [Text.length_hexPadded (w := 4) (by decide) (by omega : c.toNat < 16 ^ 4)]
        · -- No character beyond the first plane is without a form of its own.
          simp [Traits.isPrintable] at hp
          omega
  all_goals decide

theorem flatMap_length_le {f : Char → List Char} {b : Nat} (h : ∀ c, (f c).length ≤ b)
    (cs : List Char) :
    (cs.flatMap f).length ≤ cs.length * b := by
  induction cs with
  | nil => simp
  | cons c cs ih =>
    have hc := h c
    rw [List.flatMap_cons, List.length_append, List.length_cons, Nat.add_mul]
    omega

theorem singleLines_flat (n : Nat) (h : ∀ c ∈ cs, isBreak c = false) :
    (∀ d ∈ singleLines n false cs, isBreak d = false) ∧
      (singleLines n false cs).length ≤ cs.length * 2 := by
  have hlines : singleLines n false cs = cs.flatMap singleChar := by
    rw [singleLines_eq]
    exact quotedLines_flat fun c hc => by simp [h c hc]
  have hlen (c : Char) : (singleChar c).length ≤ 2 := by
    unfold singleChar
    split <;> simp
  rw [hlines]
  refine ⟨fun d hd => ?_, flatMap_length_le hlen cs⟩
  obtain ⟨c, hc, hd⟩ := List.mem_flatMap.1 hd
  have hflat : breaks singleChar c = false := by simp [h c hc]
  simpa using List.any_eq_false.1 hflat d hd

/-- A simple key stands on one line, and its colon is near enough. -/
theorem writeText_simpleKey {n : Nat} (h : isSimpleKey s = true) : formOf s ≠ .literal ∧
    (∀ d ∈ writeText n s, isBreak d = false) ∧ (writeText n s).length ≤ 1024 := by
  rw [isSimpleKey, Bool.and_eq_true, decide_eq_true_eq, Bool.not_eq_true'] at h
  obtain ⟨hsize, hlines⟩ := h
  have hlen := length_le_utf8ByteSize s
  have hflat : ∀ d ∈ s.toList, isBreak d = false := by
    cases hs : s.toList with
    | nil => nofun
    | cons c cs => simpa [Traits.ofChars, hs] using hlines
  have hform : formOf s ≠ .literal := by
    intro hform
    have hline : s.toList.contains '\n' = true := by
      simp only [formOf] at hform
      split at hform
      · assumption
      · split at hform
        · cases hform
        · split at hform <;> cases hform
    exact absurd (hflat '\n' (by simpa using hline)) (by decide)
  refine ⟨hform, ?_⟩
  unfold writeText
  split
  · exact ⟨hflat, by omega⟩
  · obtain ⟨hsingle, hbound⟩ := singleLines_flat n hflat
    rw [singleQuoted]
    exact ⟨List.forall_mem_append.2 ⟨List.forall_mem_cons.2 ⟨rfl, hsingle⟩, by decide⟩,
      by simp; omega⟩
  · have hbound := flatMap_length_le length_escapeChar s.toList
    rw [doubleQuoted]
    refine ⟨List.forall_mem_append.2 ⟨List.forall_mem_cons.2 ⟨rfl, fun d hd => ?_⟩, by decide⟩, ?_⟩
    · obtain ⟨c, -, hd⟩ := List.mem_flatMap.1 hd
      exact (solid_escapeChar c).flat d hd
    · rw [List.length_append, List.length_cons, List.length_singleton]
      omega
  · exact absurd ‹_› hform

end

end Runbook.Yaml

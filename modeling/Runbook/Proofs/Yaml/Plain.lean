import Runbook.Proofs.Yaml.Scan

/-!
# Plain scalars

A plain scalar is read word by word. A text that is written plain (`PlainText`) is read back up to a
colon or the end of its line, and so is a single word inside of brackets.
-/

namespace Runbook.Yaml.Scanner

variable {flow fuel n : Nat} {indent : Int} {acc u v cs tail : List Char} {c : Char} {p q : Cursor}
  {w : Space}

/-! ## Words -/

theorem readWord_char (hp : p.rest = c :: cs) (hg : isGap c = false) (hb : isBreak c = false)
    (hc : badColon flow (c :: cs) = false) (he : plainEnds flow (c :: cs) = false) :
    readWord flow (n + 1) u p = readWord flow n (c :: u) p.skip := by
  rw [readWord, hp]
  simp [hg, hb, hc, he]

theorem readWord_end (hc : badColon flow p.rest = false)
    (he : atGap p.rest = true ∨ plainEnds flow p.rest = true) :
    readWord flow (n + 1) u p = .ok (u, p) := by
  rw [readWord]
  split
  · rfl
  · rename_i c cs hp
    rw [hp] at he hc ⊢
    rcases he with he | he
    · simp only [atGap] at he
      rw [if_pos he]
    · simp [hc, he]

/-- What is read extends what has been read. -/
theorem readWord_suffix (h : readWord flow n u p = .ok (v, q)) : u <:+ v := by
  induction n generalizing u p with
  | zero =>
    cases h
    exact List.suffix_rfl
  | succ n ih =>
    rw [readWord] at h
    split at h
    · cases h
      exact List.suffix_rfl
    · split at h
      · cases h
        exact List.suffix_rfl
      · split at h
        · cases h
        · split at h
          · cases h
            exact List.suffix_rfl
          · exact (List.suffix_cons _ _).trans (ih h)

/-! ## Words and the white space between them -/

/-- Reads on in a plain scalar after a word, and the white space after it that begins in `w`. -/
def readPlainSpaced (flow : Nat) (indent : Int) (fuel : Nat) (acc : List Char) (w : Space)
    (p : Cursor) : Except Fault ((String × Bool) × Cursor) := do
  let (v, r) ← spaceAt (some indent) w p
  if v.blanks.isEmpty && !v.broken then .ok ((String.ofList acc.reverse, false), r)
  else if flow == 0 && (r.column : Int) < indent then
    .ok ((String.ofList acc.reverse, v.broken), r)
  else readPlain flow indent fuel acc v r

/-- Reads on in a word of a plain scalar that begins with `u`, in reverse. -/
def readPlainWord (flow : Nat) (indent : Int) (fuel : Nat) (acc u : List Char) (p : Cursor) :
    Except Fault ((String × Bool) × Cursor) := do
  let (word, q) ← readWord flow (p.rest.length + 1) u p
  readPlainSpaced flow indent fuel (word ++ acc) {} q

/-- A plain scalar goes on with a word. -/
theorem readPlain_word (hm : p.atDocumentMark = false) (hp : p.rest = c :: cs) (hh : c ≠ '#')
    (hg : isGap c = false) (hb : isBreak c = false) (hc : badColon flow (c :: cs) = false)
    (he : plainEnds flow (c :: cs) = false) : readPlain flow indent (fuel + 1) acc w p =
      readPlainWord flow indent fuel (w.folded.reverse ++ acc) [c] p.skip := by
  have hs : p.skip.rest = cs := by rw [Cursor.skip, hp]; rfl
  have hword :
      readWord flow (p.rest.length + 1) [] p = readWord flow (cs.length + 1) [c] p.skip := by
    rw [hp, List.length_cons]
    exact readWord_char hp hg hb hc he
  rw [readPlain, hm, hword, readPlainWord, hs]
  simp only [hp, List.head?_cons, Bool.false_or]
  rw [if_neg (by simpa using hh)]
  cases hr : readWord flow (cs.length + 1) [c] p.skip with
  | error e => rfl
  | ok r =>
    obtain ⟨word, q⟩ := r
    have hne : word.isEmpty = false := by
      obtain ⟨v, rfl⟩ := readWord_suffix hr
      simp
    simp only [bind, Except.bind, hne, readPlainSpaced, List.append_assoc]
    rfl

theorem readPlainWord_char (hp : p.rest = c :: cs) (hg : isGap c = false) (hb : isBreak c = false)
    (hc : badColon flow (c :: cs) = false) (he : plainEnds flow (c :: cs) = false) :
    readPlainWord flow indent fuel acc u p =
      readPlainWord flow indent fuel acc (c :: u) p.skip := by
  have hs : p.skip.rest = cs := by rw [Cursor.skip, hp]; rfl
  rw [readPlainWord, readPlainWord, hs, hp, List.length_cons, readWord_char hp hg hb hc he]

theorem readPlainWord_end (hc : badColon flow p.rest = false)
    (he : atGap p.rest = true ∨ plainEnds flow p.rest = true) :
    readPlainWord flow indent fuel acc u p =
      readPlainSpaced flow indent fuel (u ++ acc) {} p := by
  rw [readPlainWord, readWord_end hc he]
  rfl

/-! ## Ends -/

/-- What follows a plain scalar: the scalar ends there, and `extra` is passed over with it. -/
structure PlainEnd (flow : Nat) (indent : Int) (tail extra : List Char) (broken : Bool) : Prop where
  colon : badColon flow tail = false
  stops : atGap tail = true ∨ plainEnds flow tail = true
  reads : ∀ fuel acc q, q.rest = tail → ∃ r, q.Passed extra r ∧
    readPlainSpaced flow indent (fuel + 1) acc {} q = .ok ((String.ofList acc.reverse, broken), r)

/-- A colon after a key. -/
theorem PlainEnd.key (h : atGap cs = true) : PlainEnd 0 indent (':' :: cs) [] false where
  colon := by cases cs <;> rfl
  stops := .inr h
  reads fuel acc q hq := by
    refine ⟨q, .refl q, ?_⟩
    rw [readPlainSpaced, spaceAt_stop hq rfl rfl]
    rfl

/-- The end of a line before one that is indented less. -/
theorem PlainEnd.line (h : atToken cs = true) (hn : n < indent) :
    PlainEnd 0 indent ('\n' :: (spaces n ++ cs)) ('\n' :: spaces n) true where
  colon := rfl
  stops := .inl rfl
  reads fuel acc q hq := by
    obtain ⟨r, hr, hread⟩ := spaceAt_line (some indent) hq h
    have hcol : r.column = n := hr.column.trans (Cursor.columnAfter_line _ n)
    refine ⟨r, hr, ?_⟩
    rw [readPlainSpaced, hread]
    simp [bind, Except.bind, hcol, hn]

/-- A comma in brackets. -/
theorem PlainEnd.comma : PlainEnd (flow + 1) indent (',' :: cs) [] false where
  colon := rfl
  stops := .inr rfl
  reads fuel acc q hq := by
    refine ⟨q, .refl q, ?_⟩
    rw [readPlainSpaced, spaceAt_stop hq rfl rfl]
    rfl

/-- The end of a line before a closing bracket. -/
theorem PlainEnd.close (hc : c = ']' ∨ c = '\x7d') :
    PlainEnd (flow + 1) indent ('\n' :: (spaces n ++ c :: cs)) ('\n' :: spaces n) true where
  colon := rfl
  stops := .inl rfl
  reads fuel acc q hq := by
    have htoken : atToken (c :: cs) = true := by rcases hc with rfl | rfl <;> rfl
    obtain ⟨r, hr, hread⟩ := spaceAt_line (some indent) hq htoken
    have hrest : r.rest = c :: cs := hr.rest_eq (by simpa using hq)
    have hmark : r.atDocumentMark = false := by
      rcases hc with rfl | rfl <;> simp [Cursor.atDocumentMark, hrest]
    have hword : readWord (flow + 1) (r.rest.length + 1) [] r = .ok ([], r) := by
      refine readWord_end ?_ (.inr ?_) <;> rw [hrest] <;> rcases hc with rfl | rfl <;> rfl
    refine ⟨r, hr, ?_⟩
    rw [readPlainSpaced, hread]
    simp only [bind, Except.bind]
    rw [if_neg (by simp), if_neg (by simp), readPlain, hmark, hword, hrest]
    rcases hc with rfl | rfl <;> simp [bind, Except.bind]

/-! ## Texts -/

/-- What a text has to be to be written plain outside of brackets. -/
structure PlainText (cs : List Char) : Prop where
  flat : ∀ c ∈ cs, isBreak c = false ∧ c ≠ '\t'
  first : ∃ c ds, cs = c :: ds ∧ c ≠ ' '
  start : Traits.badStart cs = false
  inside : Traits.badInside false cs = false
  last : ∀ c ∈ cs.getLast?, c ≠ ' '
  mark : Traits.startsLikeMark cs = false

theorem plainEnds_inside {b : Bool} (h : Traits.badInside b (c :: cs) = false) :
    plainEnds 0 (c :: (cs ++ tail)) = false := by
  by_cases hc : c = ':'
  · subst hc
    cases cs with
    | nil => simp [Traits.badInside, atGap] at h
    | cons d cs =>
      simp only [Traits.badInside, Bool.or_eq_false_iff] at h
      exact h.1.1
  · unfold plainEnds
    split <;> simp_all

theorem badColon_zero (cs : List Char) : badColon 0 cs = false := by
  unfold badColon
  split <;> rfl

/-- A plain text is read back up to its end: from within a word, and after spaces. -/
theorem readPlain_text_aux {extra : List Char} {broken : Bool}
    (hend : PlainEnd 0 indent tail extra broken) (hflat : ∀ c ∈ cs, isBreak c = false ∧ c ≠ '\t')
    (hlast : ∀ c ∈ cs.getLast?, c ≠ ' ') :
    (∀ fuel acc u p, Traits.badInside false cs = false → p.rest = cs ++ tail →
      indent ≤ p.column → p.column ≠ 0 → cs.length < fuel →
      ∃ q, p.Passed (cs ++ extra) q ∧ readPlainWord 0 indent fuel acc u p =
        .ok ((String.ofList (acc.reverse ++ u.reverse ++ cs), broken), q)) ∧
    ∀ fuel acc w p, cs ≠ [] → Traits.badInside true cs = false → p.rest = cs ++ tail →
      indent ≤ p.column → p.column ≠ 0 → cs.length < fuel → w.broken = false → w.blanks ≠ [] →
      ∃ q, p.Passed (cs ++ extra) q ∧ readPlainSpaced 0 indent fuel acc w p =
        .ok ((String.ofList (acc.reverse ++ w.blanks ++ cs), broken), q) := by
  induction cs with
  | nil =>
    refine ⟨fun fuel acc u p _ hp _ _ hf => ?_, fun _ _ _ _ h => absurd rfl h⟩
    obtain ⟨fuel, rfl⟩ := Nat.exists_eq_add_one_of_ne_zero (Nat.ne_of_gt hf)
    rw [List.nil_append] at hp
    obtain ⟨q, hq, hread⟩ := hend.reads fuel (u ++ acc) p hp
    refine ⟨q, hq, ?_⟩
    rw [readPlainWord_end (hp ▸ hend.colon) (hp ▸ hend.stops), hread]
    simp
  | cons c cs ih =>
    obtain ⟨hb, ht⟩ := hflat c List.mem_cons_self
    have hlast' : cs ≠ [] → ∀ d ∈ cs.getLast?, d ≠ ' ' := by
      intro hne d hd
      refine hlast d ?_
      rwa [List.getLast?_cons_of_ne_nil hne]
    by_cases hsp : c = ' '
    · subst hsp
      have hne : cs ≠ [] := by
        rintro rfl
        exact hlast ' ' rfl rfl
      obtain ⟨-, hs⟩ := ih (fun d hd => hflat d (List.mem_cons_of_mem _ hd)) (hlast' hne)
      -- White space goes on with what follows the space.
      have hafter : ∀ fuel acc w p, Traits.badInside true cs = false →
          p.rest = ' ' :: (cs ++ tail) → indent ≤ p.column → p.column ≠ 0 → cs.length < fuel →
          w.broken = false → ∃ q, p.Passed ([' '] ++ (cs ++ extra)) q ∧
            readPlainSpaced 0 indent fuel acc w p =
              .ok ((String.ofList (acc.reverse ++ w.blanks ++ ' ' :: cs), broken), q) := by
        intro fuel acc w p hi hp hcol hm hf hw
        have hpass := Cursor.Passed.skip hp rfl
        obtain ⟨q, hq, hread⟩ := hs fuel acc { w with blanks := w.blanks ++ [' '] } p.skip hne hi
          (hpass.rest_eq hp) (by simp [Cursor.skip]; omega) (Nat.succ_ne_zero _) hf hw (by simp)
        refine ⟨q, hpass.trans hq, ?_⟩
        rw [readPlainSpaced, spaceAt_space hp hw, ← readPlainSpaced, hread]
        simp
      refine ⟨fun fuel acc u p hi hp hcol hm hf => ?_, fun fuel acc w p _ hi hp hcol hm hf hw _ =>
        hafter fuel acc w p hi hp hcol hm (Nat.lt_of_succ_lt hf) hw⟩
      obtain ⟨q, hq, hread⟩ := hafter fuel (u ++ acc) {} p hi hp hcol hm (Nat.lt_of_succ_lt hf) rfl
      refine ⟨q, hq, ?_⟩
      rw [readPlainWord_end (badColon_zero _) (.inl (hp ▸ rfl)), hread]
      simp
    · have hg : isGap c = false := by simp [isGap, hsp, ht]
      have hnil : ∀ d ∈ cs.getLast?, d ≠ ' ' := by
        intro d hd
        cases cs with
        | nil => cases hd
        | cons e cs => exact hlast' (List.cons_ne_nil _ _) d hd
      obtain ⟨hw, -⟩ := ih (fun d hd => hflat d (List.mem_cons_of_mem _ hd)) hnil
      have htail {b : Bool} (hi : Traits.badInside b (c :: cs) = false) :
          Traits.badInside false cs = false := by
        simp only [Traits.badInside, Bool.or_eq_false_iff, hg, hb] at hi
        exact hi.2
      have hpass {p : Cursor} (hp : p.rest = c :: (cs ++ tail)) := Cursor.Passed.skip hp hb
      refine ⟨fun fuel acc u p hi hp hcol hm hf => ?_,
        fun fuel acc w p _ hi hp hcol hm hf hbr hbl => ?_⟩
      · obtain ⟨q, hq, hread⟩ := hw fuel acc (c :: u) p.skip (htail hi) ((hpass hp).rest_eq hp)
          (by simp [Cursor.skip]; omega) (Nat.succ_ne_zero _) (Nat.lt_of_succ_lt hf)
        refine ⟨q, (hpass hp).trans hq, ?_⟩
        rw [readPlainWord_char hp hg hb (badColon_zero _) (plainEnds_inside hi), hread]
        simp
      · obtain ⟨fuel, rfl⟩ := Nat.exists_eq_add_one_of_ne_zero (Nat.ne_of_gt (Nat.zero_lt_of_lt hf))
        obtain ⟨q, hq, hread⟩ := hw fuel (w.blanks.reverse ++ acc) [c] p.skip (htail hi)
          ((hpass hp).rest_eq hp) (by simp [Cursor.skip]; omega) (Nat.succ_ne_zero _)
          (Nat.lt_of_succ_lt_succ hf)
        have hhash : c ≠ '#' := by
          rintro rfl
          simp [Traits.badInside] at hi
        refine ⟨q, (hpass hp).trans hq, ?_⟩
        rw [readPlainSpaced, spaceAt_stop hp hg hb]
        simp only [bind, Except.bind]
        rw [if_neg (by simp [hbl]), if_neg (by simpa using hcol), readPlain_word
          (atDocumentMark_column hm) hp hhash hg hb (badColon_zero _) (plainEnds_inside hi),
          Space.folded, hbr]
        simpa using hread

theorem eq_of_atDocumentMark (h : p.atDocumentMark = true) :
    ∃ c r, (c = '-' ∨ c = '.') ∧ p.rest = c :: c :: c :: r := by
  rw [Cursor.atDocumentMark, Bool.and_eq_true] at h
  obtain ⟨-, h⟩ := h
  split at h
  · exact ⟨_, _, .inl rfl, ‹_›⟩
  · exact ⟨_, _, .inr rfl, ‹_›⟩
  · cases h

/-- No mark between documents stands where a plain text begins. -/
theorem PlainText.atDocumentMark (h : PlainText cs) (ht : ∀ c ∈ tail.head?, c ≠ '-' ∧ c ≠ '.')
    (hp : p.rest = cs ++ tail) : p.atDocumentMark = false := by
  refine Bool.eq_false_iff.2 fun hm => ?_
  obtain ⟨c, r, hc, hr⟩ := eq_of_atDocumentMark hm
  rw [hp] at hr
  have htail (ds : List Char) (hd : tail = c :: ds) : False := by
    obtain ⟨h1, h2⟩ := ht c (by rw [hd]; rfl)
    exact hc.elim h1 h2
  obtain ⟨d, ds, rfl, -⟩ := h.first
  match ds with
  | [] => exact htail _ (List.cons.inj hr).2
  | [_] => exact htail _ (List.cons.inj (List.cons.inj hr).2).2
  | _ :: _ :: _ =>
    have hmark := h.mark
    cases hr
    rcases hc with rfl | rfl <;> cases hmark

/-- **A plain text** is read back up to its end. -/
theorem readPlain_text {extra : List Char} {broken : Bool} (h : PlainText cs)
    (hend : PlainEnd 0 indent tail extra broken) (hm : p.atDocumentMark = false)
    (hp : p.rest = cs ++ tail) (hcol : indent ≤ p.column + 1) :
    ∃ q, p.Passed (cs ++ extra) q ∧ readPlain 0 indent (p.rest.length + 1) [] {} p =
      .ok ((String.ofList cs, broken), q) := by
  obtain ⟨c, cs, rfl, hsp⟩ := h.first
  obtain ⟨hb, ht⟩ := h.flat c List.mem_cons_self
  have hg : isGap c = false := by simp [isGap, hsp, ht]
  have hi := h.inside
  have hhash : c ≠ '#' := by
    rintro rfl
    exact absurd h.start (by simp [Traits.badStart])
  have htail : Traits.badInside false cs = false := by
    simp only [Traits.badInside, Bool.or_eq_false_iff, hg, hb] at hi
    exact hi.2
  have hlast : ∀ d ∈ cs.getLast?, d ≠ ' ' := by
    intro d hd
    cases cs with
    | nil => cases hd
    | cons e cs => exact h.last d (by rwa [List.getLast?_cons_cons])
  have hpass := Cursor.Passed.skip hp hb
  have hflat : ∀ d ∈ cs, isBreak d = false ∧ d ≠ '\t' :=
    fun d hd => h.flat d (List.mem_cons_of_mem _ hd)
  obtain ⟨q, hq, hread⟩ := (readPlain_text_aux hend hflat hlast).1 p.rest.length [] [c] p.skip
    htail (hpass.rest_eq hp) (by simp [Cursor.skip]; omega)
    (Nat.succ_ne_zero _) (by simp only [hp, List.length_cons, List.length_append]; omega)
  refine ⟨q, hpass.trans hq, ?_⟩
  rw [readPlain_word hm hp hhash hg hb (badColon_zero _) (plainEnds_inside hi)]
  simpa [Space.folded] using hread

/-- A word of letters, digits and dashes. -/
def isWordChar (c : Char) : Bool := c.isAlphanum || c == '-'

theorem isSolid_of_isWordChar (h : isWordChar c = true) (flow : Nat) (cs : List Char) :
    isGap c = false ∧ isBreak c = false ∧ c ≠ '#' ∧ badColon flow (c :: cs) = false ∧
      plainEnds flow (c :: cs) = false := by
  have hne (d : Char) (hd : isWordChar d = false) : c ≠ d := by
    rintro rfl
    rw [h] at hd
    cases hd
  have h1 : isGap c = false := by simp [isGap, hne ' ' (by decide), hne '\t' (by decide)]
  have h2 : isBreak c = false := by
    simp [isBreak, hne '\n' (by decide), hne '\r' (by decide), hne '\u0085' (by decide),
      hne '\u2028' (by decide), hne '\u2029' (by decide)]
  refine ⟨h1, h2, hne '#' (by decide), ?_, ?_⟩
  · unfold badColon
    split
    · rename_i heq
      exact absurd (List.cons.inj heq).1 (hne ':' (by decide))
    · rfl
  · unfold plainEnds
    split
    · rename_i heq
      cases heq
    · rename_i heq
      exact absurd (List.cons.inj heq).1 (hne ':' (by decide))
    · rename_i heq
      cases heq
      simp [hne ',' (by decide), hne '[' (by decide), hne ']' (by decide),
        hne '\x7b' (by decide), hne '\x7d' (by decide)]

/-- **A single word** is read back up to its end, also inside of brackets. -/
theorem readPlain_single {extra : List Char} {broken : Bool} (h : ∀ c ∈ cs, isWordChar c = true)
    (hne : cs ≠ []) (hend : PlainEnd flow indent tail extra broken) (hm : p.column ≠ 0)
    (hp : p.rest = cs ++ tail) : ∃ q, p.Passed (cs ++ extra) q ∧
      readPlain flow indent (p.rest.length + 1) [] {} p = .ok ((String.ofList cs, broken), q) := by
  have hword : ∀ (cs : List Char) (u : List Char) (fuel : Nat) (p : Cursor),
      (∀ c ∈ cs, isWordChar c = true) → p.rest = cs ++ tail →
      ∃ q, p.Passed (cs ++ extra) q ∧ readPlainWord flow indent (fuel + 1) [] u p =
        .ok ((String.ofList (u.reverse ++ cs), broken), q) := by
    intro cs
    induction cs with
    | nil =>
      intro u fuel p _ hp
      obtain ⟨q, hq, hread⟩ := hend.reads fuel (u ++ []) p hp
      refine ⟨q, hq, ?_⟩
      rw [readPlainWord_end (hp ▸ hend.colon) (hp ▸ hend.stops), hread]
      simp
    | cons c cs ih =>
      intro u fuel p h hp
      obtain ⟨hg, hb, -, hc, he⟩ := isSolid_of_isWordChar (h c List.mem_cons_self) _ _
      have hpass := Cursor.Passed.skip hp hb
      obtain ⟨q, hq, hread⟩ := ih (c :: u) fuel p.skip (fun d hd => h d (List.mem_cons_of_mem _ hd))
        (hpass.rest_eq hp)
      refine ⟨q, hpass.trans hq, ?_⟩
      rw [readPlainWord_char hp hg hb hc he, hread]
      simp
  cases cs with
  | nil => exact absurd rfl hne
  | cons c cs =>
    obtain ⟨hg, hb, hh, hc, he⟩ := isSolid_of_isWordChar (h c List.mem_cons_self) _ _
    have hpass := Cursor.Passed.skip hp hb
    obtain ⟨q, hq, hread⟩ := hword cs [c] (cs ++ tail).length p.skip
      (fun d hd => h d (List.mem_cons_of_mem _ hd)) (hpass.rest_eq hp)
    refine ⟨q, hpass.trans hq, ?_⟩
    rw [readPlain_word (atDocumentMark_column hm) hp hh hg hb hc he, hp]
    simpa [Space.folded] using hread

end Runbook.Yaml.Scanner

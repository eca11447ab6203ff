import Runbook.Pattern.Parser
import Runbook.Proofs.Pattern.Matches

/-!
# Patterns of whole lines

With the flag for several lines, `^` and `$` stand at the edges of lines. So the pattern made of
`^`, a text of plain characters and `$` (`parseWith_line`) describes the lines that are this text
and nothing else: it is found in a text exactly when one of its lines is the text (`occursIn_line`).
-/

namespace Runbook.Pattern

/-- A character that stands for itself in a pattern and ends no line. -/
def isPlain (c : Char) : Bool := !"\n)|*+?\x7b([.^$\\".toList.contains c

/-- The pattern of the lines that are these characters. -/
def line (w : List Char) : Pattern :=
  .seq (w.foldl (fun p c => .seq p (.one (.single c))) (.place (.lineStart false)))
    (.place (.lineEnd false))

variable {fuel i j k : Nat} {st : State} {ps : Pieces} {p : Pattern} {c d : Char}
  {cs w rest : List Char} {s : String}

/-! ## Reading -/

theorem skip_plain (cs : List Char) : skip false cs = cs := by
  cases cs <;> simp [skip]

theorem readGroup_plain (hv : st.flags.verbose = false) (hc : isPlain c = true) :
    readGroup (fuel + 1) st ps (c :: cs) =
      readGroup fuel st (ps.push (ofAtom st.flags (.char c))) cs := by
  rw [readGroup]
  simp only [hv, skip_plain]
  split
  all_goals rename_i heq
  all_goals cases heq
  all_goals first | rfl | exact absurd hc (by decide)

theorem readGroup_literal (hv : st.flags.verbose = false) (hw : ∀ c ∈ w, isPlain c = true) :
    readGroup (w.length + fuel) st ps (w ++ rest) =
      readGroup fuel st (w.foldl (fun ps c => ps.push (ofAtom st.flags (.char c))) ps) rest := by
  induction w generalizing ps with
  | nil => simp
  | cons c w ih =>
    obtain ⟨hc, hw⟩ := List.forall_mem_cons.1 hw
    rw [List.length_cons, Nat.add_right_comm, List.cons_append, readGroup_plain hv hc, ih hw]
    rfl

/-- With the flag for several lines, a caret stands at the start of a line. -/
theorem readGroup_caret (names : List (List Char)) :
    readGroup (fuel + 1) ⟨{ multiLine := true }, names⟩ ps ('^' :: cs) =
      readGroup fuel ⟨{ multiLine := true }, names⟩ (ps.push (.place (.lineStart false))) cs := by
  rw [readGroup]
  simp only [skip_plain]
  rfl

theorem readGroup_dollar (names : List (List Char)) :
    readGroup (fuel + 1) ⟨{ multiLine := true }, names⟩ ps ('$' :: cs) =
      readGroup fuel ⟨{ multiLine := true }, names⟩ (ps.push (.place (.lineEnd false))) cs := by
  rw [readGroup]
  simp only [skip_plain]
  rfl

theorem readGroup_nil (hv : st.flags.verbose = false) :
    readGroup (fuel + 1) st ps [] = .ok ((ps.whole, st), []) := by
  rw [readGroup]
  simp only [hv, skip_plain]

namespace Pieces

/-- One more piece stands behind the pattern of the branch so far. -/
theorem branch_push {q : Pattern} (h : ps.last.isSome = true) :
    (ps.push q).branch = .seq ps.branch q ∧ (ps.push q).branches = ps.branches ∧
      (ps.push q).last.isSome = true := by
  obtain ⟨r, hr⟩ := Option.isSome_iff_exists.1 h
  simp [push, branch, after, hr]

theorem branch_pushes (ps : Pieces) {f : Char → Pattern} (h : ps.last.isSome = true) :
    (w.foldl (fun ps c => ps.push (f c)) ps).branch = w.foldl (fun p c => .seq p (f c)) ps.branch ∧
      (w.foldl (fun ps c => ps.push (f c)) ps).branches = ps.branches ∧
      (w.foldl (fun ps c => ps.push (f c)) ps).last.isSome = true := by
  induction w generalizing ps with
  | nil => exact ⟨rfl, rfl, h⟩
  | cons c w ih =>
    obtain ⟨hb, hn, hl⟩ := branch_push (q := f c) h
    obtain ⟨hb', hn', hl'⟩ := ih _ hl
    exact ⟨by rw [List.foldl_cons, List.foldl_cons, hb', hb], hn'.trans hn, hl'⟩

end Pieces

/-- **The pattern of a line** is written with its anchors. -/
theorem parseWith_line (hw : ∀ c ∈ w, isPlain c = true) :
    parseWith { multiLine := true } ("^" ++ String.ofList w ++ "$") = .ok (line w) := by
  let start : Pieces := { last := some (.place (.lineStart false)) }
  let f (c : Char) : Pattern := .one (.single c)
  obtain ⟨hb, hn, hl⟩ := Pieces.branch_pushes start (w := w) (f := f) rfl
  obtain ⟨hb', hn', -⟩ := Pieces.branch_push (q := .place (.lineEnd false)) hl
  have hchars : ("^" ++ String.ofList w ++ "$").toList = '^' :: (w ++ ['$']) := by simp
  have hlen : ("^" ++ String.ofList w ++ "$").length + 1 = (w.length + 2) + 1 := by
    rw [← String.length_toList, hchars]
    simp
  have hwhole : ((w.foldl (fun ps c => ps.push (f c)) start).push
      (.place (.lineEnd false))).whole = line w := by
    rw [Pieces.whole, hn', hn]
    exact hb'.trans (congrArg (fun p => Pattern.seq p _) hb)
  have hread : readGroup ((w.length + 2) + 1) ⟨{ multiLine := true }, []⟩ {} ('^' :: (w ++ ['$'])) =
      .ok ((line w, ⟨{ multiLine := true }, []⟩), []) := by
    rw [readGroup_caret, readGroup_literal rfl hw, readGroup_dollar, readGroup_nil rfl]
    exact congrArg (fun p => Except.ok ((p, _), [])) hwhole
  rw [parseWith, hlen, hchars, hread]

/-! ## Lines -/

/-- The characters `w` are the line of the text that begins at place `i`. -/
structure LineAt (cs : List Char) (i : Nat) (w : List Char) : Prop where
  start : i = 0 ∨ cs[i - 1]? = some '\n'
  chars : w <+: cs.drop i
  whole : '\n' ∉ w
  ending : ∀ c, cs[i + w.length]? = some c → c = '\n'

theorem lineAt_nil_zero : LineAt [] 0 w ↔ w = [] := by
  constructor
  · intro h
    simpa using h.chars
  · rintro rfl
    exact ⟨.inl rfl, List.nil_prefix, by simp, by simp⟩

theorem lineAt_feed_zero : LineAt ('\n' :: cs) 0 w ↔ w = [] := by
  constructor
  · intro h
    cases w with
    | nil => rfl
    | cons c w =>
      obtain ⟨rfl, -⟩ := List.cons_prefix_cons.1 h.chars
      exact absurd List.mem_cons_self h.whole
  · rintro rfl
    exact ⟨.inl rfl, List.nil_prefix, by simp, by simp⟩

/-- After the first character, a line begins where it did, unless it was the first. -/
theorem lineAt_cons_succ (hc : i ≠ 0 ∨ c = '\n') : LineAt (c :: cs) (i + 1) w ↔ LineAt cs i w := by
  have hstart : (i + 1 = 0 ∨ (c :: cs)[i + 1 - 1]? = some '\n') ↔
      (i = 0 ∨ cs[i - 1]? = some '\n') := by
    cases i with
    | zero => simp [hc.resolve_left (· rfl)]
    | succ i => simp
  have hending : (c :: cs)[i + 1 + w.length]? = cs[i + w.length]? := by
    rw [Nat.add_right_comm, List.getElem?_cons_succ]
  constructor
  · exact fun h => ⟨hstart.1 h.start, h.chars, h.whole, hending ▸ h.ending⟩
  · exact fun h => ⟨hstart.2 h.start, h.chars, h.whole, hending ▸ h.ending⟩

theorem not_lineAt_cons_one (hc : c ≠ '\n') : ¬LineAt (c :: cs) 1 w := by
  intro h
  have := h.start
  simp [hc] at this

/-- A character that is no line feed stands before the rest of the first line. -/
theorem lineAt_cons_zero (hc : c ≠ '\n') :
    LineAt (c :: cs) 0 w ↔ ∃ v, w = c :: v ∧ LineAt cs 0 v := by
  constructor
  · intro h
    cases w with
    | nil => exact absurd (h.ending c rfl) hc
    | cons d v =>
      obtain ⟨rfl, hv⟩ := List.cons_prefix_cons.1 h.chars
      have hwhole := h.whole
      rw [List.mem_cons, not_or] at hwhole
      refine ⟨v, rfl, .inl rfl, hv, hwhole.2, fun c hc => h.ending c ?_⟩
      simpa using hc
  · rintro ⟨v, rfl, h⟩
    refine ⟨.inl rfl, List.cons_prefix_cons.2 ⟨rfl, h.chars⟩, ?_, fun d hd => h.ending d ?_⟩
    · simp [h.whole, hc.symm]
    · simpa using hd

/-- The first of the lines begins with the text, the others behind a line feed. -/
theorem splitLineFeeds_lines (cs : List Char) : ∃ l ls, Text.splitLineFeeds cs = l :: ls ∧
    (∀ w, LineAt cs 0 w ↔ w = l) ∧ ∀ w, (∃ i, LineAt cs (i + 1) w) ↔ w ∈ ls := by
  induction cs with
  | nil =>
    refine ⟨[], [], rfl, fun w => lineAt_nil_zero, fun w => ?_⟩
    simp only [List.not_mem_nil, iff_false, not_exists]
    intro i h
    simpa using h.start
  | cons c cs ih =>
    obtain ⟨l, ls, hsplit, hfirst, hrest⟩ := ih
    rw [Text.splitLineFeeds, hsplit]
    by_cases hc : c = '\n'
    · subst hc
      refine ⟨[], l :: ls, rfl, fun w => lineAt_feed_zero, fun w => ?_⟩
      simp only [lineAt_cons_succ (.inr rfl), List.mem_cons, ← hfirst, ← hrest]
      constructor
      · rintro ⟨_ | i, h⟩
        · exact .inl h
        · exact .inr ⟨i, h⟩
      · rintro (h | ⟨i, h⟩)
        · exact ⟨0, h⟩
        · exact ⟨i + 1, h⟩
    · rw [if_neg (by simpa using hc)]
      refine ⟨c :: l, ls, rfl, fun w => ?_, fun w => ?_⟩
      · simp only [lineAt_cons_zero hc, hfirst, exists_eq_right]
      · rw [← hrest]
        constructor
        · rintro ⟨_ | i, h⟩
          · exact absurd h (not_lineAt_cons_one hc)
          · exact ⟨i, (lineAt_cons_succ (.inl (Nat.succ_ne_zero i))).1 h⟩
        · rintro ⟨i, h⟩
          exact ⟨i + 1, (lineAt_cons_succ (.inl (Nat.succ_ne_zero i))).2 h⟩

/-- The lines of a text are the pieces between its line feeds. -/
theorem mem_splitLineFeeds : w ∈ Text.splitLineFeeds cs ↔ ∃ i, LineAt cs i w := by
  obtain ⟨l, ls, hsplit, hfirst, hrest⟩ := splitLineFeeds_lines cs
  rw [hsplit, List.mem_cons, ← hfirst, ← hrest]
  constructor
  · rintro (h | ⟨i, h⟩)
    · exact ⟨0, h⟩
    · exact ⟨i + 1, h⟩
  · rintro ⟨_ | i, h⟩
    · exact .inl h
    · exact .inr ⟨i, h⟩

/-! ## What the pattern describes -/

theorem mem_single : (CharSet.single c).mem d = true ↔ d = c := by
  rw [CharSet.single, CharSet.mem, Bool.and_eq_true, decide_eq_true_iff, decide_eq_true_iff]
  exact ⟨fun h => Char.le_antisymm h.2 h.1, fun h => h ▸ ⟨Char.le_refl _, Char.le_refl _⟩⟩

theorem matches_seq {q : Pattern} :
    Matches cs (.seq p q) i k ↔ ∃ j, Matches cs p i j ∧ Matches cs q j k := by
  constructor
  · rintro (_ | _)
    exact ⟨_, ‹_›, ‹_›⟩
  · exact fun ⟨j, hp, hq⟩ => .seq hp hq

/-- The characters one after another. -/
theorem matches_chars : Matches cs (w.foldl (fun p c => .seq p (.one (.single c))) p) i k ↔
    ∃ j, Matches cs p i j ∧ w <+: cs.drop j ∧ k = j + w.length := by
  induction w generalizing p with
  | nil => simp
  | cons c w ih =>
    simp only [List.foldl_cons, ih, matches_seq, matches_one, mem_single]
    constructor
    · rintro ⟨_, ⟨j, hp, rfl, c, hc, rfl⟩, hw, rfl⟩
      refine ⟨j, hp, ?_, by rw [List.length_cons]; omega⟩
      obtain ⟨hj, rfl⟩ := List.getElem?_eq_some_iff.1 hc
      rw [List.drop_eq_getElem_cons hj]
      exact List.cons_prefix_cons.2 ⟨rfl, hw⟩
    · rintro ⟨j, hp, hw, rfl⟩
      have hj : j < cs.length := by
        have := hw.length_le
        simp at this
        omega
      rw [List.drop_eq_getElem_cons hj, List.cons_prefix_cons] at hw
      exact ⟨j + 1, ⟨j, hp, rfl, c, by rw [List.getElem?_eq_getElem hj, hw.1], rfl⟩, hw.2,
        by rw [List.length_cons]; omega⟩

/-- **A text holds the pattern of a line** exactly when it has the line. -/
theorem occursIn_line (hw : ∀ c ∈ w, isPlain c = true) :
    (line w).occursIn s = true ↔ w ∈ Text.splitLineFeeds s.toList := by
  have hwhole : '\n' ∉ w := fun h => absurd (hw _ h) (by decide)
  rw [occursIn_iff, mem_splitLineFeeds]
  generalize s.toList = cs
  simp only [line, matches_seq, matches_chars, matches_place]
  constructor
  · rintro ⟨i, k, j, ⟨_, ⟨rfl, hi, hstart⟩, hchars, rfl⟩, rfl, hk, hend⟩
    refine ⟨i, ?_, hchars, hwhole, fun c hc => ?_⟩
    · cases i with
      | zero => exact .inl rfl
      | succ i =>
        have hi : i < cs.length := hi
        simpa [Anchor.holds, hi] using hstart
    · simpa [Anchor.holds, hc] using hend
  · rintro ⟨i, h⟩
    have hi : i ≤ cs.length := by
      rcases h.start with rfl | hfeed
      · exact Nat.zero_le _
      · have := (List.getElem?_eq_some_iff.1 hfeed).1
        omega
    have hk : i + w.length ≤ cs.length := by
      have := h.chars.length_le
      rw [List.length_drop] at this
      omega
    refine ⟨i, _, _, ⟨i, ⟨rfl, hi, ?_⟩, h.chars, rfl⟩, rfl, hk, ?_⟩
    · rcases h.start with rfl | hfeed
      · rfl
      · by_cases hzero : i = 0 <;> simp [Anchor.holds, hzero, hfeed]
    · cases hend : cs[i + w.length]? with
      | none => simp [Anchor.holds]
      | some c => simp [Anchor.holds, h.ending c hend]

end Runbook.Pattern

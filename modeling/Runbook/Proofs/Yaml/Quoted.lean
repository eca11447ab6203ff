import Runbook.Proofs.Yaml.Scan

/-!
# Scalars in quotes

Between quotes a character stands for itself or has a form that is read as it (`Stands`), spaces are
kept, and so is a break that counts as itself; what follows a break is indented, and the indentation
is no part of the text. A text of such characters is read back (`readQuoted_text`) unless a space
stands next to a break, or a line without indentation begins like a mark between documents
(`Quotable`).
-/

namespace Runbook.Yaml.Scanner

variable {single : Bool} {n fuel : Nat} {acc cs tail : List Char} {c d : Char} {p q : Cursor}
  {w : Space} {esc : Char → List Char}

/-! ## Places -/

/-- Whether a line begins with a mark between documents. -/
def startsMark : List Char → Bool
  | a :: b :: c :: r => (c == '-' || c == '.') && a == c && b == c && atGap r
  | _ => false

theorem atDocumentMark_starts (h : startsMark p.rest = false) : p.atDocumentMark = false := by
  unfold Cursor.atDocumentMark
  split
  · rename_i r hp
    rw [hp] at h
    exact Bool.and_eq_false_iff.2 (.inr h)
  · rename_i r hp
    rw [hp] at h
    exact Bool.and_eq_false_iff.2 (.inr h)
  · rw [Bool.and_false]

/-! ## White space -/

/-- Reads on in quotes, after the white space that begins in `w`. -/
def readSpaced (single : Bool) (fuel : Nat) (acc : List Char) (w : Space) (p : Cursor) :
    Except Fault (String × Cursor) := do
  let (w, p) ← spaceAt none w p
  readQuoted single fuel (w.folded.reverse ++ acc) p

theorem readSpaced_stop (hp : p.rest = c :: cs) (hg : isGap c = false) (hb : isBreak c = false) :
    readSpaced single fuel acc w p = readQuoted single fuel (w.folded.reverse ++ acc) p := by
  rw [readSpaced, spaceAt_stop hp hg hb]
  rfl

/-! ## Characters -/

/-- White space is read as a whole. -/
theorem readQuoted_space (hm : p.atDocumentMark = false) (hp : p.rest = c :: cs)
    (hc : isGap c = true ∨ isBreak c = true) :
    readQuoted single (fuel + 1) acc p = readSpaced single fuel acc {} p := by
  have hne : c ≠ '\'' ∧ c ≠ '"' ∧ c ≠ '\\' := by
    refine ⟨?_, ?_, ?_⟩ <;> rintro rfl <;> rcases hc with hc | hc <;> exact absurd hc (by decide)
  rw [readQuoted, hm, if_neg Bool.false_ne_true, hp]
  split <;> simp_all [readSpaced, spaceAt]
  intro hg hb
  simp [hg, hb] at hc

/-- Any other character stands for itself, but for the marks of the scalar. -/
theorem readQuoted_char (hm : p.atDocumentMark = false) (hp : p.rest = c :: cs)
    (hg : isGap c = false) (hb : isBreak c = false)
    (hc : if single then c ≠ '\'' else c ≠ '"' ∧ c ≠ '\\') :
    readQuoted single (fuel + 1) acc p = readQuoted single fuel (c :: acc) p.skip := by
  rw [readQuoted, hm, if_neg Bool.false_ne_true, hp]
  split <;> simp_all

/-- In quotes, `text` is read as the character: it begins with no white space, and has no breaks. -/
structure Stands (single : Bool) (c : Char) (text : List Char) : Prop where
  head : ∃ d ds, text = d :: ds ∧ isGap d = false ∧ isBreak d = false
  flat : ∀ d ∈ text, isBreak d = false
  read : ∀ (fuel : Nat) (acc : List Char) {rest : List Char} {p : Cursor},
    p.atDocumentMark = false → p.rest = text ++ rest → ∃ q, p.Passed text q ∧ q.column ≠ 0 ∧
      readQuoted single (fuel + 1) acc p = readQuoted single fuel (c :: acc) q

theorem stands_self (hg : isGap c = false) (hb : isBreak c = false)
    (hc : if single then c ≠ '\'' else c ≠ '"' ∧ c ≠ '\\') : Stands single c [c] where
  head := ⟨c, [], rfl, hg, hb⟩
  flat := by simpa using hb
  read _ _ _ _ hm hp := ⟨_, .skip hp hb, Nat.succ_ne_zero _, readQuoted_char hm hp hg hb hc⟩

/-- Between single quotes, two of them stand for one. -/
theorem stands_quote : Stands true '\'' ['\'', '\''] where
  head := ⟨_, _, rfl, rfl, rfl⟩
  flat := by decide
  read _ _ _ _ hm hp := by
    refine ⟨_, .skipMany hp (by decide), by simp [Cursor.skipMany], ?_⟩
    rw [readQuoted, hm, if_neg Bool.false_ne_true, hp]
    rfl

/-- Between double quotes, an escape stands for what it is read as. -/
theorem stands_escape {r : List Char} (hb : ∀ d ∈ r, isBreak d = false) (hr : r ≠ [])
    (hread : ∀ t, readEscape (r ++ t) = .ok (c, r.length)) : Stands false c ('\\' :: r) where
  head := ⟨_, _, rfl, rfl, rfl⟩
  flat := List.forall_mem_cons.2 ⟨rfl, hb⟩
  read _ _ rest _ hm hp := by
    have hhead : ((r.head?.or rest.head?).map isBreak).getD false = false := by
      cases r with
      | nil => exact absurd rfl hr
      | cons d r => exact hb d List.mem_cons_self
    refine ⟨_, .skipMany hp (List.forall_mem_cons.2 ⟨rfl, hb⟩), by simp [Cursor.skipMany], ?_⟩
    rw [readQuoted, hm, if_neg Bool.false_ne_true, hp]
    simp [hhead, hread, bind, Except.bind]

/-! ## Lines -/

/-- Whether a character is written as a break. -/
def breaks (esc : Char → List Char) (c : Char) : Bool := (esc c).any isBreak

/-- A character that is no break where it is written: a space, or what something stands for. -/
inductive Solid (single : Bool) (esc : Char → List Char) (c : Char) : Prop
  | space (h : c = ' ') (he : esc c = [c])
  | stands (h : Stands single c (esc c))

theorem Solid.flat (h : Solid single esc c) : ∀ d ∈ esc c, isBreak d = false := by
  cases h with
  | space h he =>
    rw [he, h]
    decide
  | stands h => exact h.flat

theorem Solid.breaks (h : Solid single esc c) : breaks esc c = false :=
  List.any_eq_false.2 fun d hd => by simp [h.flat d hd]

/-- How a character is written that is read back, other than as a line feed. -/
inductive Written (single : Bool) (esc : Char → List Char) (c : Char) : Prop
  | solid (h : Solid single esc c)
  | own (h : Cursor.IsOwnBreak c) (hn : c ≠ '\n') (he : esc c = [c])

/-- The lines of a text in quotes. What follows a break is indented, and `broken` tells whether one
came last. -/
def quotedLines (esc : Char → List Char) (n : Nat) (broken : Bool) : List Char → List Char
  | [] => if broken then spaces n else []
  | c :: cs =>
    if breaks esc c then esc c ++ quotedLines esc n true cs
    else (if broken then spaces n else []) ++ (esc c ++ quotedLines esc n false cs)

theorem quotedLines_break (h : breaks esc c = true) (broken : Bool) :
    quotedLines esc n broken (c :: cs) = esc c ++ quotedLines esc n true cs := if_pos h

theorem quotedLines_false (h : breaks esc c = false) :
    quotedLines esc n false (c :: cs) = esc c ++ quotedLines esc n false cs := by
  simp [quotedLines, h]

/-- The first line after a break begins behind its indentation. -/
theorem quotedLines_true (h : ∀ d ∈ cs.head?, breaks esc d = false) :
    quotedLines esc n true cs = spaces n ++ quotedLines esc n false cs := by
  cases cs with
  | nil => simp [quotedLines]
  | cons c cs => simp [quotedLines, h c rfl]

/-- Lines without indentation are what their characters are written as. -/
theorem quotedLines_zero (broken : Bool) : quotedLines esc 0 broken cs = cs.flatMap esc := by
  induction cs generalizing broken with
  | nil => cases broken <;> rfl
  | cons c cs ih => simp [quotedLines, ih, spaces]

/-- A text without breaks has one line. -/
theorem quotedLines_flat (h : ∀ c ∈ cs, breaks esc c = false) :
    quotedLines esc n false cs = cs.flatMap esc := by
  induction cs with
  | nil => rfl
  | cons c cs ih =>
    rw [quotedLines_false (h c List.mem_cons_self), ih fun d hd => h d (List.mem_cons_of_mem _ hd),
      List.flatMap_cons]

theorem length_quotedLines (n : Nat) (broken : Bool) (h : ∀ c ∈ cs, Written single esc c) :
    cs.length ≤ (quotedLines esc n broken cs).length := by
  induction cs generalizing broken with
  | nil => exact Nat.zero_le _
  | cons c cs ih =>
    have htrue := ih true fun d hd => h d (List.mem_cons_of_mem _ hd)
    have hfalse := ih false fun d hd => h d (List.mem_cons_of_mem _ hd)
    have hpos : 0 < (esc c).length := by
      cases h c List.mem_cons_self with
      | solid h =>
        cases h with
        | space _ he => simp [he]
        | stands h =>
          obtain ⟨d, ds, he, -⟩ := h.head
          simp [he]
      | own _ _ he => simp [he]
    rw [quotedLines]
    split <;> simp <;> omega

/-- The mark that a scalar in quotes ends with. -/
def quoteMark (single : Bool) : Char := if single then '\'' else '"'

/-- A text is read back: from a place between two characters, after spaces, and after breaks. -/
structure ReadsLines (single : Bool) (esc : Char → List Char) (n : Nat) (tail cs : List Char) :
    Prop where
  chars : ∀ (fuel : Nat) (acc : List Char) (p : Cursor),
    p.rest = quotedLines esc n false cs ++ quoteMark single :: tail → p.atDocumentMark = false →
    cs.length < fuel → ∃ q, p.Passed (quotedLines esc n false cs ++ [quoteMark single]) q ∧
      readQuoted single fuel acc p = .ok (String.ofList (acc.reverse ++ cs), q)
  spaced : ∀ (fuel : Nat) (acc : List Char) (w : Space) (p : Cursor),
    (∀ d ∈ cs.head?, breaks esc d = false) →
    p.rest = quotedLines esc n false cs ++ quoteMark single :: tail → p.atDocumentMark = false →
    cs.length < fuel → w.broken = false →
    ∃ q, p.Passed (quotedLines esc n false cs ++ [quoteMark single]) q ∧
      readSpaced single fuel acc w p = .ok (String.ofList (acc.reverse ++ w.blanks ++ cs), q)
  broken : ∀ (fuel : Nat) (acc : List Char) (w : Space) (p : Cursor), (∀ d ∈ cs.head?, d ≠ ' ') →
    p.rest = quotedLines esc n true cs ++ quoteMark single :: tail →
    (n ≠ 0 ∨ startsMark (quotedLines esc n false cs ++ quoteMark single :: tail) = false) →
    cs.length < fuel → w.broken = true → w.first ≠ ['\n'] →
    ∃ q, p.Passed (quotedLines esc n true cs ++ [quoteMark single]) q ∧
      readSpaced single fuel acc w p =
        .ok (String.ofList (acc.reverse ++ w.first ++ w.more ++ cs), q)

/-- After white space that is followed by something else, the text is read as from there. -/
theorem ReadsLines.ofChars
    (hchars : ∀ (fuel : Nat) (acc : List Char) (p : Cursor),
      p.rest = quotedLines esc n false cs ++ quoteMark single :: tail → p.atDocumentMark = false →
      cs.length < fuel → ∃ q, p.Passed (quotedLines esc n false cs ++ [quoteMark single]) q ∧
        readQuoted single fuel acc p = .ok (String.ofList (acc.reverse ++ cs), q))
    (hhead : ∃ d ds, quotedLines esc n false cs ++ quoteMark single :: tail = d :: ds ∧
      isGap d = false ∧ isBreak d = false)
    (hbreaks : ∀ d ∈ cs.head?, breaks esc d = false) : ReadsLines single esc n tail cs := by
  obtain ⟨d, ds, hd, hg, hb⟩ := hhead
  refine ⟨hchars, fun fuel acc w p _ hp hm hf hw => ?_, fun fuel acc w p _ hp hmark hf hw hne => ?_⟩
  · obtain ⟨q, hq, hread⟩ := hchars fuel (w.blanks.reverse ++ acc) p hp hm hf
    rw [hd] at hp
    exact ⟨q, hq, by rw [readSpaced_stop hp hg hb, Space.folded, hw]; simpa using hread⟩
  · -- The indentation of the line is passed over.
    rw [quotedLines_true hbreaks, List.append_assoc] at hp ⊢
    have hpass := Cursor.Passed.skipMany hp spaces_flat
    have hrest := hpass.rest_eq hp
    rw [length_spaces] at hpass hrest
    have hm : (p.skipMany n).atDocumentMark = false := by
      rcases hmark with hn | hmark
      · exact atDocumentMark_column (by simp [Cursor.skipMany, hn])
      · exact atDocumentMark_starts (hrest ▸ hmark)
    obtain ⟨q, hq, hread⟩ := hchars fuel ((w.first ++ w.more).reverse ++ acc) _ hrest hm hf
    rw [hd] at hrest
    refine ⟨q, hpass.trans hq, ?_⟩
    rw [readSpaced, spaceAt_spaces hp hw, ← readSpaced, readSpaced_stop hrest hg hb, Space.folded,
      hw]
    simpa [hne] using hread

theorem readsLines_nil (ht : single = true → ∀ d ∈ tail.head?, d ≠ '\'') :
    ReadsLines single esc n tail [] := by
  refine ReadsLines.ofChars (fun fuel acc p hp hm hf => ⟨p.skip, ?_, ?_⟩) ?_ nofun
  · cases single <;> exact .skip hp rfl
  · obtain ⟨fuel, rfl⟩ := Nat.exists_eq_add_one_of_ne_zero (Nat.ne_of_gt hf)
    have hp : p.rest = quoteMark single :: tail := hp
    rw [readQuoted, hm, if_neg Bool.false_ne_true, hp, List.append_nil]
    cases single with
    | false => rfl
    | true =>
      cases tail with
      | nil => rfl
      | cons d tail => simp [quoteMark, ht rfl d rfl]
  · cases single <;> exact ⟨_, _, rfl, rfl, rfl⟩

theorem ReadsLines.stands (h : ReadsLines single esc n tail cs) (hc : Stands single c (esc c)) :
    ReadsLines single esc n tail (c :: cs) := by
  have hbreaks : breaks esc c = false := (Solid.stands hc).breaks
  refine ReadsLines.ofChars (fun fuel acc p hp hm hf => ?_) ?_ fun d hd => by
    cases hd
    exact hbreaks
  · obtain ⟨fuel, rfl⟩ := Nat.exists_eq_add_one_of_ne_zero (Nat.ne_of_gt (Nat.zero_lt_of_lt hf))
    rw [quotedLines_false hbreaks, List.append_assoc] at hp ⊢
    obtain ⟨q, hpass, hqm, hstep⟩ := hc.read fuel acc hm hp
    obtain ⟨r, hr, hread⟩ := h.chars fuel (c :: acc) q (hpass.rest_eq hp)
      (atDocumentMark_column hqm) (Nat.lt_of_succ_lt_succ hf)
    exact ⟨r, hpass.trans hr, by simp [hstep, hread]⟩
  · obtain ⟨d, ds, hd, hg, hb⟩ := hc.head
    exact ⟨d, _, by rw [quotedLines_false hbreaks, hd]; rfl, hg, hb⟩

theorem ReadsLines.space (h : ReadsLines single esc n tail cs) (he : esc ' ' = [' '])
    (hnext : ∀ d ∈ cs.head?, breaks esc d = false) : ReadsLines single esc n tail (' ' :: cs) := by
  have hbreaks : breaks esc ' ' = false := (show Solid single esc ' ' from .space rfl he).breaks
  -- White space goes on with what follows the space.
  have hafter (fuel : Nat) (acc : List Char) (w : Space) (p : Cursor)
      (hp : p.rest = ' ' :: (quotedLines esc n false cs ++ quoteMark single :: tail))
      (hf : cs.length < fuel) (hw : w.broken = false) :
      ∃ q, p.Passed ([' '] ++ (quotedLines esc n false cs ++ [quoteMark single])) q ∧
        readSpaced single fuel acc w p =
          .ok (String.ofList (acc.reverse ++ w.blanks ++ ' ' :: cs), q) := by
    have hpass := Cursor.Passed.skip hp rfl
    have hm : p.skip.atDocumentMark = false := atDocumentMark_column (Nat.succ_ne_zero _)
    obtain ⟨q, hq, hread⟩ := h.spaced fuel acc { w with blanks := w.blanks ++ [' '] } p.skip hnext
      (hpass.rest_eq hp) hm hf hw
    exact ⟨q, hpass.trans hq, by rw [readSpaced, spaceAt_space hp hw, ← readSpaced, hread]; simp⟩
  have hshape : quotedLines esc n false (' ' :: cs) = [' '] ++ quotedLines esc n false cs := by
    rw [quotedLines_false hbreaks, he]
  refine ⟨fun fuel acc p hp hm hf => ?_, fun fuel acc w p _ hp _ hf hw => ?_,
    fun _ _ _ _ hhead => absurd rfl (hhead ' ' rfl)⟩
  · obtain ⟨fuel, rfl⟩ := Nat.exists_eq_add_one_of_ne_zero (Nat.ne_of_gt (Nat.zero_lt_of_lt hf))
    rw [hshape, List.append_assoc] at hp ⊢
    obtain ⟨q, hq, hread⟩ := hafter fuel acc {} p hp (Nat.lt_of_succ_lt_succ hf) rfl
    exact ⟨q, hq, by rw [readQuoted_space hm hp (.inl rfl), hread, List.append_nil]⟩
  · rw [hshape, List.append_assoc] at hp ⊢
    exact hafter fuel acc w p hp (Nat.lt_of_succ_lt hf) hw

theorem ReadsLines.own (h : ReadsLines single esc n tail cs) (hown : Cursor.IsOwnBreak c)
    (hn : c ≠ '\n') (he : esc c = [c]) (hnext : ∀ d ∈ cs.head?, d ≠ ' ')
    (hmark : n ≠ 0 ∨ startsMark (quotedLines esc n false cs ++ quoteMark single :: tail) = false) :
    ReadsLines single esc n tail (c :: cs) := by
  have hbreaks : breaks esc c = true := by simp [breaks, he, hown.isBreak]
  have hshape (broken : Bool) :
      quotedLines esc n broken (c :: cs) = c :: quotedLines esc n true cs := by
    rw [quotedLines_break hbreaks, he]
    rfl
  let more := quotedLines esc n true cs ++ quoteMark single :: tail
  refine ⟨fun fuel acc p hp hm hf => ?_,
    fun _ _ _ _ hhead => absurd (hhead c rfl) (by simp [hbreaks]),
    fun fuel acc w p _ hp _ hf hw hfirst => ?_⟩
  · obtain ⟨fuel, rfl⟩ := Nat.exists_eq_add_one_of_ne_zero (Nat.ne_of_gt (Nat.zero_lt_of_lt hf))
    rw [hshape, List.cons_append] at hp ⊢
    obtain ⟨q, hq, hread⟩ := h.broken fuel acc { first := [c], broken := true }
      (p.afterBreak more) hnext rfl hmark (Nat.lt_of_succ_lt_succ hf) rfl (by simpa using hn)
    refine ⟨q, (Cursor.Passed.afterBreak hp hown).trans hq, ?_⟩
    rw [readQuoted_space hm hp (.inr hown.isBreak), readSpaced, spaceAt_first hp hown rfl,
      ← readSpaced, hread]
    simp
  · rw [hshape, List.cons_append] at hp ⊢
    obtain ⟨q, hq, hread⟩ := h.broken fuel acc { w with more := w.more ++ [c] }
      (p.afterBreak more) hnext rfl hmark (Nat.lt_of_succ_lt hf) hw hfirst
    refine ⟨q, (Cursor.Passed.afterBreak hp hown).trans hq, ?_⟩
    rw [readSpaced, spaceAt_more hp hown hw, ← readSpaced, hread]
    simp

/-! ## Texts -/

/-- What a text has to be for quotes: no space stands next to a break, and no line begins like a
mark between documents, unless it is indented. -/
structure Quotable (single : Bool) (esc : Char → List Char) (n : Nat) (cs : List Char) : Prop where
  chars : ∀ c ∈ cs, Written single esc c
  apart : cs.IsChain fun c d => (c = ' ' → breaks esc d = false) ∧ (breaks esc c = true → d ≠ ' ')
  marks : ∀ c ds, c :: ds <:+ cs → breaks esc c = true →
    n ≠ 0 ∨ startsMark (quotedLines esc n false ds ++ [quoteMark single]) = false

theorem quotable_nil : Quotable single esc n [] :=
  ⟨nofun, .nil, fun c ds hs => absurd (List.eq_nil_of_suffix_nil hs) (List.cons_ne_nil c ds)⟩

theorem Quotable.cons (hc : Written single esc c) (h : Quotable single esc n cs)
    (hnext : ∀ d ∈ cs.head?, (c = ' ' → breaks esc d = false) ∧ (breaks esc c = true → d ≠ ' '))
    (hmark : breaks esc c = true →
      n ≠ 0 ∨ startsMark (quotedLines esc n false cs ++ [quoteMark single]) = false) :
    Quotable single esc n (c :: cs) where
  chars := List.forall_mem_cons.2 ⟨hc, h.chars⟩
  apart := by
    cases cs with
    | nil => exact .singleton c
    | cons d cs => exact .cons_cons (hnext d rfl) h.apart
  marks d ds hs hb := by
    rcases List.suffix_cons_iff.1 hs with heq | hs
    · cases heq
      exact hmark hb
    · exact h.marks d ds hs hb

theorem Quotable.of_cons (h : Quotable single esc n (c :: cs)) : Quotable single esc n cs :=
  ⟨fun d hd => h.chars d (List.mem_cons_of_mem _ hd), h.apart.tail,
    fun d ds hs => h.marks d ds (hs.trans (List.suffix_cons c cs))⟩

/-- Without breaks, nothing else is asked of a text. -/
theorem Quotable.of_solid (h : ∀ c ∈ cs, Solid single esc c) : Quotable single esc n cs where
  chars c hc := .solid (h c hc)
  apart := (List.pairwise_of_forall_mem_list fun c hc d hd =>
    ⟨fun _ => (h d hd).breaks, fun hb => by simp [(h c hc).breaks] at hb⟩).isChain
  marks c ds hs hb := by
    have hc : c ∈ cs := hs.subset List.mem_cons_self
    simp [(h c hc).breaks] at hb

theorem Quotable.next (h : Quotable single esc n (c :: cs)) (hd : d ∈ cs.head?) :
    (c = ' ' → breaks esc d = false) ∧ (breaks esc c = true → d ≠ ' ') := by
  obtain ⟨ds, rfl⟩ : ∃ ds, cs = d :: ds := by
    cases cs with
    | nil => cases hd
    | cons e cs => cases hd; exact ⟨cs, rfl⟩
  exact (List.isChain_cons_cons.1 h.apart).1

/-- No mark between documents holds a quote. -/
theorem startsMark_of_quote {a b c : Char} {r : List Char}
    (h : a = quoteMark single ∨ b = quoteMark single ∨ c = quoteMark single) :
    startsMark (a :: b :: c :: r) = false := by
  have hq : quoteMark single ≠ '-' ∧ quoteMark single ≠ '.' := by cases single <;> decide
  rw [← Bool.not_eq_true, startsMark]
  simp only [Bool.and_eq_true, Bool.or_eq_true, beq_iff_eq]
  rintro ⟨⟨⟨hc, rfl⟩, rfl⟩, -⟩
  rcases h with rfl | rfl | rfl <;> exact hc.elim hq.1 hq.2

/-- Nor does what follows the quote matter. -/
theorem startsMark_quote (text : List Char) :
    startsMark (text ++ quoteMark single :: tail) = startsMark (text ++ [quoteMark single]) := by
  match text with
  | [] =>
    match tail with
    | [] => rfl
    | [_] => rfl
    | _ :: _ :: _ => exact startsMark_of_quote (.inl rfl)
  | [_] =>
    match tail with
    | [] => rfl
    | _ :: _ => exact startsMark_of_quote (.inr (.inl rfl))
  | [_, _] =>
    exact (startsMark_of_quote (.inr (.inr rfl))).trans
      (startsMark_of_quote (.inr (.inr rfl))).symm
  | _ :: _ :: _ :: [] => rfl
  | _ :: _ :: _ :: _ :: _ => rfl

theorem readsLines (h : Quotable single esc n cs)
    (ht : single = true → ∀ d ∈ tail.head?, d ≠ '\'') : ReadsLines single esc n tail cs := by
  induction cs with
  | nil => exact readsLines_nil ht
  | cons c cs ih =>
    have hcs := ih h.of_cons
    cases h.chars c List.mem_cons_self with
    | solid hsolid =>
      cases hsolid with
      | space hsp he =>
        subst hsp
        exact hcs.space he fun d hd => (h.next hd).1 rfl
      | stands hc => exact hcs.stands hc
    | own hown hn he =>
      have hbreaks : breaks esc c = true := by simp [breaks, he, hown.isBreak]
      refine hcs.own hown hn he (fun d hd => (h.next hd).2 hbreaks) ?_
      rw [startsMark_quote]
      exact h.marks c cs (List.suffix_refl _) hbreaks

/-- **A text in quotes** is read back from its opening quote. -/
theorem readQuoted_text (h : Quotable single esc n cs)
    (ht : single = true → ∀ d ∈ tail.head?, d ≠ '\'')
    (hp : p.rest = quoteMark single :: (quotedLines esc n false cs ++ quoteMark single :: tail)) :
    ∃ q, p.Passed (quoteMark single :: (quotedLines esc n false cs ++ [quoteMark single])) q ∧
      readQuoted single (p.rest.length + 1) [] p.skip = .ok (String.ofList cs, q) := by
  have hquote : isBreak (quoteMark single) = false := by cases single <;> rfl
  have hpass := Cursor.Passed.skip hp hquote
  have hlen := length_quotedLines n false h.chars
  have hm : p.skip.atDocumentMark = false := atDocumentMark_column (Nat.succ_ne_zero _)
  obtain ⟨q, hq, hread⟩ := (readsLines h ht).chars (p.rest.length + 1) [] p.skip
    (hpass.rest_eq hp) hm (by rw [hp, List.length_cons, List.length_append]; omega)
  exact ⟨q, hpass.trans hq, hread⟩

/-! ## Single quotes -/

/-- How a character is written between single quotes. -/
def singleChar (c : Char) : List Char := if c == '\'' then ['\'', '\''] else [c]

theorem singleChar_break (hb : isBreak c = true) : singleChar c = [c] := by
  refine if_neg ?_
  rintro h
  rw [beq_iff_eq.1 h] at hb
  cases hb

@[simp] theorem breaks_singleChar : breaks singleChar c = isBreak c := by
  by_cases hc : c = '\''
  · subst hc
    rfl
  · simp [breaks, singleChar, hc]

theorem singleLines_eq (n : Nat) (broken : Bool) (cs : List Char) :
    singleLines n broken cs = quotedLines singleChar n broken cs := by
  induction cs generalizing broken with
  | nil => rfl
  | cons c cs ih =>
    rw [singleLines, quotedLines, breaks_singleChar, ih, ih]
    cases hb : isBreak c with
    | true => simp [singleChar_break hb]
    | false => simp [singleChar]

/-- What a text has to be for single quotes: of its breaks each counts as itself and none is a line
feed, and no space stands next to one. -/
structure SingleText (cs : List Char) : Prop where
  chars : ∀ c ∈ cs, c ≠ '\t' ∧ (isBreak c = true → Cursor.IsOwnBreak c ∧ c ≠ '\n')
  apart : cs.IsChain fun c d => (c = ' ' → isBreak d = false) ∧ (isBreak c = true → d ≠ ' ')

theorem written_singleChar (ht : c ≠ '\t')
    (hb : isBreak c = true → Cursor.IsOwnBreak c ∧ c ≠ '\n') : Written true singleChar c := by
  cases hbreak : isBreak c with
  | true => exact .own (hb hbreak).1 (hb hbreak).2 (singleChar_break hbreak)
  | false =>
    by_cases hsp : c = ' '
    · exact .solid (.space hsp (by rw [hsp]; rfl))
    · by_cases hq : c = '\''
      · subst hq
        exact .solid (.stands stands_quote)
      · have he : singleChar c = [c] := by simp [singleChar, hq]
        have hself : Stands true c [c] :=
          stands_self (by simp [isGap, hsp, ht]) hbreak (by simpa using hq)
        exact .solid (.stands (he ▸ hself))

theorem SingleText.quotable (hn : n ≠ 0) (h : SingleText cs) : Quotable true singleChar n cs where
  chars c hc := written_singleChar (h.chars c hc).1 (h.chars c hc).2
  apart := by simpa using h.apart
  marks _ _ _ _ := .inl hn

end Runbook.Yaml.Scanner

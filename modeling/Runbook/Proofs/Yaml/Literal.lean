import Runbook.Proofs.Yaml.Scan

/-!
# Literal blocks

A literal block is read line by line; the breaks at its end are kept or dropped as its header says.
A text without tabs, all of whose breaks count as themselves, is read back from the block that is
written for it (`readBlock_literal`).
-/

namespace Runbook.Yaml.Scanner

open Cursor (IsOwnBreak)

/-- What a text has to be for a literal block. -/
def LiteralText (cs : List Char) : Prop := ∀ c ∈ cs, c ≠ '\t' ∧ (isBreak c = true → IsOwnBreak c)

variable {fuel indent m n widest : Nat} {acc lead more cs ds l b y tail : List Char} {c : Char}
  {blank : Bool} {p q : Cursor}

/-! ## Breaks -/

theorem columnAfter_breaks (h : ∀ c ∈ b, isBreak c = true) :
    Cursor.columnAfter 0 (b ++ spaces m) = m := by
  induction b with
  | nil =>
    rw [List.nil_append, Cursor.columnAfter_flat spaces_flat, length_spaces, Nat.zero_add]
  | cons c b ih =>
    change Cursor.columnAfter (if isBreak c then 0 else 0 + 1) (b ++ spaces m) = m
    rw [h c List.mem_cons_self, if_pos rfl]
    exact ih fun d hd => h d (List.mem_cons_of_mem _ hd)

/-- The place where the next line of a block begins: behind its indentation, or where a line is
indented less. -/
structure LineStart (indent m : Nat) (y : List Char) : Prop where
  le : m ≤ indent
  blank : m = indent ∨ ∀ c ∈ y.head?, c ≠ ' '
  solid : ∀ c ∈ y.head?, c ≠ '\t' ∧ isBreak c = false

theorem LineStart.takeWhile (h : LineStart indent m y) :
    min ((spaces m ++ y).takeWhile (· == ' ')).length (indent - 0) = m := by
  have htake : ((spaces m ++ y).takeWhile (· == ' ')).length =
      m + (y.takeWhile (· == ' ')).length := by
    rw [List.takeWhile_append_of_pos fun c hc => by rw [mem_spaces hc]; rfl, List.length_append,
      length_spaces]
  have hle := h.le
  rcases h.blank with rfl | hy
  · omega
  · have : y.takeWhile (· == ' ') = [] := by
      cases y with
      | nil => rfl
      | cons c y => exact List.takeWhile_cons_of_neg (by simpa using hy c rfl)
    rw [htake, this, List.length_nil]
    omega

/-- After a block, a token that is indented less begins a line. -/
theorem lineStart_token (hm : m ≤ indent) (hy : atToken y = true) : LineStart indent m y := by
  refine ⟨hm, .inr fun d hd => ?_, fun d hd => ?_⟩ <;>
  · cases y with
    | nil => cases hd
    | cons e y =>
      cases hd
      simp only [atToken, Bool.not_eq_true', Bool.or_eq_false_iff, isGap, beq_eq_false_iff_ne] at hy
      simp [hy.1.1.1, hy.1.1.2, hy.1.2]

theorem readBreaks_lines (hi : indent ≠ 0) (hb : ∀ c ∈ b, IsOwnBreak c) (h : LineStart indent m y)
    (fuel widest : Nat) (acc : List Char) (p : Cursor) (hcol : p.column = 0)
    (hp : p.rest = b ++ (spaces m ++ y)) (hf : b.length < fuel) :
    ∃ q w, p.Passed (b ++ spaces m) q ∧
      readBreaks indent fuel widest acc p = .ok ((acc ++ b, w), q) := by
  obtain ⟨fuel, rfl⟩ := Nat.exists_eq_add_one_of_ne_zero (Nat.ne_of_gt (Nat.zero_lt_of_lt hf))
  induction b generalizing fuel widest acc p with
  | nil =>
    rw [List.nil_append] at hp
    have hpass := Cursor.Passed.skipMany hp spaces_flat
    have hrest := hpass.rest_eq hp
    rw [length_spaces] at hpass hrest
    refine ⟨_, max widest m, hpass, ?_⟩
    have hwide : (p.skipMany m).column = m := by simp [Cursor.skipMany, hcol]
    rw [readBreaks, hp, hcol, h.takeWhile]
    simp only [beq_eq_false_iff_ne.2 hi, Bool.false_eq_true, if_false, hwide, hrest,
      List.append_nil]
    cases y with
    | nil => rfl
    | cons d y =>
      obtain ⟨ht, hbr⟩ := h.solid d rfl
      simp [ht, hbr]
  | cons c b ih =>
    have hc := hb c List.mem_cons_self
    have hne : c ≠ ' ' ∧ c ≠ '\t' := by
      rcases hc with rfl | rfl | rfl <;> exact ⟨by decide, by decide⟩
    have hpos := Nat.zero_lt_of_lt (Nat.lt_of_succ_lt_succ hf)
    obtain ⟨fuel, rfl⟩ := Nat.exists_eq_add_one_of_ne_zero (Nat.ne_of_gt hpos)
    obtain ⟨q, w, hq, hread⟩ := ih (fun d hd => hb d (List.mem_cons_of_mem _ hd))
      (max widest 0) (acc ++ [c]) (p.afterBreak (b ++ (spaces m ++ y))) rfl rfl fuel
      (Nat.lt_of_succ_lt_succ hf)
    refine ⟨q, w, (Cursor.Passed.afterBreak hp hc).trans hq, ?_⟩
    have hstay : p.skipMany 0 = p := rfl
    rw [readBreaks, hp, List.cons_append, List.takeWhile_cons_of_neg (by simpa using hne.1)]
    simp only [beq_eq_false_iff_ne.2 hi, Bool.false_eq_true, if_false, List.length_nil,
      Nat.zero_min, hstay, hcol]
    rw [hp]
    simp only [List.cons_append, hc.isBreak, if_true, Cursor.takeBreak_eq hp hc]
    rw [if_neg (by simp [hne.2])]
    simpa using hread

/-! ## Lines -/

/-- One line of a literal block, with the breaks after it. -/
theorem readLines_line (hi : indent ≠ 0) (hl : ∀ d ∈ l, isBreak d = false) (hne : l ≠ [])
    (hc : IsOwnBreak c) (hb : ∀ d ∈ b, IsOwnBreak d) (h : LineStart indent m y)
    (hcol : p.column = indent) (hp : p.rest = l ++ c :: (b ++ (spaces m ++ y)))
    (fuel : Nat) (acc lead more : List Char) (blank : Bool) :
    ∃ q starts, p.Passed (l ++ c :: (b ++ spaces m)) q ∧
      readLines true indent (fuel + 1) acc lead more blank p =
        readLines true indent fuel (acc ++ (lead ++ more) ++ l) [c] b starts q := by
  have hpass := Cursor.Passed.skipMany hp hl
  have hrest := hpass.rest_eq hp
  obtain ⟨q, w, hq, hread⟩ := readBreaks_lines hi hb h
    (((p.skipMany l.length).afterBreak (b ++ (spaces m ++ y))).rest.length + 1) 0 []
    ((p.skipMany l.length).afterBreak (b ++ (spaces m ++ y))) rfl rfl
    (by simp only [Cursor.afterBreak, List.length_append]; omega)
  refine ⟨q, (p.rest.head?.map isGap).getD false,
    hpass.trans ((Cursor.Passed.afterBreak hrest hc).trans hq), ?_⟩
  have hempty : p.rest.isEmpty = false := by
    rw [hp]
    cases l with
    | nil => exact absurd rfl hne
    | cons d l => rfl
  have hline : p.rest.takeWhile (fun c => !isBreak c) = l := by
    rw [hp]
    refine Text.takeWhile_stop (fun d hd => by simp [hl d hd]) fun d hd => ?_
    cases hd
    simp [hc.isBreak]
  rw [readLines, hline, hempty, hcol]
  dsimp only
  rw [Cursor.takeBreak_eq hrest hc]
  dsimp only
  rw [hread]
  simp [bind, Except.bind]

/-- A text whose lines are read: each begins with a character and ends with a break. -/
inductive Lines : List Char → Prop
  | last {l b : List Char} {c : Char} (hl : ∀ d ∈ l, isBreak d = false) (hne : l ≠ [])
    (hc : isBreak c = true) (hb : ∀ d ∈ b, isBreak d = true) : Lines (l ++ c :: b)
  | more {l b cs : List Char} {c : Char} (hl : ∀ d ∈ l, isBreak d = false) (hne : l ≠ [])
    (hc : isBreak c = true) (hb : ∀ d ∈ b, isBreak d = true) (h : Lines cs) :
    Lines (l ++ c :: (b ++ cs))

theorem Lines.head (h : Lines cs) : ∃ d ds, cs = d :: ds ∧ isBreak d = false := by
  cases h with
  | @last l b c hl hne _ _ | @more l b cs c hl hne _ _ _ =>
    cases l with
    | nil => exact absurd rfl hne
    | cons d l => exact ⟨d, _, rfl, hl d List.mem_cons_self⟩

theorem Lines.cons (h : Lines cs) (hd : isBreak c = false) : Lines (c :: cs) := by
  have hcons {l : List Char} (hl : ∀ d ∈ l, isBreak d = false) : ∀ d ∈ c :: l, isBreak d = false :=
    List.forall_mem_cons.2 ⟨hd, hl⟩
  cases h with
  | last hl _ hc hb => exact .last (hcons hl) (List.cons_ne_nil _ _) hc hb
  | more hl _ hc hb h => exact .more (hcons hl) (List.cons_ne_nil _ _) hc hb h

/-- A text that ends with a break is made of breaks and lines. -/
theorem exists_lines (hlast : ∀ c ∈ cs.getLast?, isBreak c = true) :
    ∃ b ds, cs = b ++ ds ∧ (∀ c ∈ b, isBreak c = true) ∧ (ds = [] ∨ Lines ds) := by
  induction cs with
  | nil => exact ⟨[], [], rfl, nofun, .inl rfl⟩
  | cons c cs ih =>
    cases cs with
    | nil => exact ⟨[c], [], rfl, by simpa using hlast c rfl, .inl rfl⟩
    | cons e cs =>
      obtain ⟨b, ds, hcs, hb, hds⟩ := ih fun d hd => hlast d (by rwa [List.getLast?_cons_cons])
      rw [hcs]
      cases hc : isBreak c with
      | true => exact ⟨c :: b, ds, rfl, List.forall_mem_cons.2 ⟨hc, hb⟩, hds⟩
      | false =>
        refine ⟨[], c :: (b ++ ds), rfl, nofun, .inr ?_⟩
        have hl : ∀ d ∈ [c], isBreak d = false := by simpa using hc
        cases b with
        | nil =>
          rcases hds with rfl | h
          · cases hcs
          · exact h.cons hc
        | cons d b =>
          obtain ⟨hd, hb⟩ := List.forall_mem_cons.1 hb
          rcases hds with rfl | h
          · simpa using Lines.last hl (List.cons_ne_nil _ _) hd hb
          · exact Lines.more hl (List.cons_ne_nil _ _) hd hb h

/-! ## What is written -/

theorem literalLines_flat (hl : ∀ d ∈ l, isBreak d = false) :
    literalLines n false (l ++ cs) = l ++ literalLines n false cs := by
  induction l with
  | nil => rfl
  | cons d l ih =>
    simp [literalLines, hl d List.mem_cons_self, ih fun e he => hl e (List.mem_cons_of_mem _ he)]

theorem length_literalLines (n : Nat) (cs : List Char) (fresh : Bool) :
    cs.length ≤ (literalLines n fresh cs).length := by
  induction cs generalizing fresh with
  | nil => exact Nat.le_refl _
  | cons c cs ih =>
    have := ih true
    have := ih false
    rw [literalLines]
    split <;> simp <;> omega

theorem literalLines_break (hc : isBreak c = true) (fresh : Bool) :
    literalLines n fresh (c :: cs) = c :: literalLines n true cs := if_pos hc

theorem literalLines_breaks (hb : ∀ d ∈ b, isBreak d = true) :
    literalLines n true (b ++ cs) = b ++ literalLines n true cs := by
  induction b with
  | nil => rfl
  | cons d b ih =>
    rw [List.cons_append, literalLines_break (hb d List.mem_cons_self),
      ih fun e he => hb e (List.mem_cons_of_mem _ he), List.cons_append]

theorem literalLines_onlyBreaks (hb : ∀ d ∈ b, isBreak d = true) : literalLines n true b = b := by
  have h : literalLines n true (b ++ []) = b ++ literalLines n true [] := literalLines_breaks hb
  rwa [literalLines, List.append_nil] at h

theorem literalLines_lines (h : Lines cs) :
    literalLines n true cs = spaces n ++ literalLines n false cs := by
  obtain ⟨d, ds, rfl, hd⟩ := h.head
  simp [literalLines, hd]

/-- The first line after some breaks begins behind its indentation. -/
theorem lineStart_lines (h : Lines cs) (ht : LiteralText cs) :
    LineStart n n (literalLines n false cs ++ tail) := by
  refine ⟨Nat.le_refl _, .inl rfl, fun d hd => ?_⟩
  obtain ⟨e, es, rfl, he⟩ := h.head
  rw [literalLines, if_neg (by simp [he])] at hd
  cases hd
  exact ⟨(ht d (by simp)).1, he⟩

theorem readLines_stop (h : p.column ≠ indent) :
    readLines true indent fuel acc lead more blank p = .ok ((acc, lead, more), p) := by
  cases fuel with
  | zero => rfl
  | succ fuel =>
    rw [readLines, if_pos (by simp [h])]

theorem column_line (hc : isBreak c = true) (hb : ∀ d ∈ b, isBreak d = true)
    (h : p.Passed (l ++ c :: (b ++ spaces m)) q) : q.column = m := by
  rw [h.column, Cursor.columnAfter_append]
  change Cursor.columnAfter (if isBreak c then 0 else _) (b ++ spaces m) = m
  rw [hc, if_pos rfl, columnAfter_breaks hb]

/-- The lines of a text are read; the breaks after its last character are kept apart. -/
theorem readLines_lines (hi : indent ≠ 0) (h : Lines cs) (ht : LiteralText cs)
    (hm : m < indent) (hy : atToken y = true) (fuel : Nat) (acc lead more : List Char)
    (blank : Bool) (p : Cursor) (hcol : p.column = indent)
    (hp : p.rest = literalLines indent false cs ++ (spaces m ++ y)) (hf : cs.length < fuel) :
    ∃ q text c b, p.Passed (literalLines indent false cs ++ spaces m) q ∧
      readLines true indent fuel acc lead more blank p =
        .ok ((acc ++ lead ++ more ++ text, [c], b), q) ∧
      cs = text ++ c :: b ∧ (∃ d ∈ text.getLast?, isBreak d = false) ∧
      ∀ d ∈ c :: b, isBreak d = true := by
  obtain ⟨fuel, rfl⟩ := Nat.exists_eq_add_one_of_ne_zero (Nat.ne_of_gt (Nat.zero_lt_of_lt hf))
  induction h generalizing fuel acc lead more blank p with
  | @last l b c hl hne hc hb =>
    have hown := (ht c (by simp)).2 hc
    have hbown : ∀ d ∈ b, IsOwnBreak d := fun d hd => (ht d (by simp [hd])).2 (hb d hd)
    have hwritten : literalLines indent false (l ++ c :: b) = l ++ c :: b := by
      rw [literalLines_flat hl, literalLines_break hc, literalLines_onlyBreaks hb]
    rw [hwritten, List.append_assoc, List.cons_append] at hp ⊢
    obtain ⟨q, starts, hq, hread⟩ :=
      readLines_line hi hl hne hown hbown (lineStart_token (Nat.le_of_lt hm) hy) hcol hp fuel acc
        lead more blank
    refine ⟨q, l, c, b, hq, ?_, rfl, ?_, ?_⟩
    · rw [hread, readLines_stop (by rw [column_line hc hb hq]; exact Nat.ne_of_lt hm)]
      simp
    · exact ⟨_, List.getLast?_eq_some_getLast hne, hl _ (List.getLast_mem hne)⟩
    · exact List.forall_mem_cons.2 ⟨hc, hb⟩
  | @more l b cs c hl hne hc hb h ih =>
    have hown := (ht c (by simp)).2 hc
    have hbown : ∀ d ∈ b, IsOwnBreak d := fun d hd => (ht d (by simp [hd])).2 (hb d hd)
    have htail : LiteralText cs := fun d hd => ht d (by simp [hd])
    have hwritten : literalLines indent false (l ++ c :: (b ++ cs)) =
        l ++ c :: (b ++ (spaces indent ++ literalLines indent false cs)) := by
      rw [literalLines_flat hl, literalLines_break hc, literalLines_breaks hb, literalLines_lines h]
    rw [hwritten] at hp ⊢
    simp only [List.append_assoc, List.cons_append] at hp ⊢
    obtain ⟨q, starts, hq, hread⟩ :=
      readLines_line hi hl hne hown hbown (lineStart_lines h htail) hcol hp fuel acc lead more blank
    obtain ⟨fuel, rfl⟩ : ∃ n, fuel = n + 1 := ⟨fuel - 1, by simp at hf; omega⟩
    have hrest : q.rest = literalLines indent false cs ++ (spaces m ++ y) :=
      hq.rest_eq (by simpa using hp)
    obtain ⟨r, text, d, e, hr, hread', hcs, htext, hbreaks⟩ :=
      ih htail (acc ++ (lead ++ more) ++ l) [c] b starts q (column_line hc hb hq) hrest fuel
        (by simp at hf; omega)
    refine ⟨r, l ++ c :: (b ++ text), d, e, ?_, ?_, ?_, ?_, hbreaks⟩
    · simpa using hq.trans hr
    · rw [hread, hread']
      simp
    · rw [hcs]
      simp
    · obtain ⟨x, hx, hxb⟩ := htext
      exact ⟨x, by simp [List.getLast?_append, List.getLast?_cons, Option.mem_def.1 hx], hxb⟩

/-! ## The end of the text -/

theorem getLast?_literalLines (fresh : Bool) :
    (literalLines n fresh cs).getLast? = cs.getLast? := by
  induction cs generalizing fresh with
  | nil => rfl
  | cons c cs ih =>
    have hcons (f : Bool) : (c :: literalLines n f cs).getLast? = (c :: cs).getLast? := by
      rw [List.getLast?_cons, List.getLast?_cons, ih]
    rw [literalLines]
    split
    · exact hcons true
    · rw [List.getLast?_append, hcons, List.getLast?_cons]
      rfl

theorem literalLines_append_break (fresh : Bool) :
    literalLines n fresh (cs ++ ['\n']) = literalLines n fresh cs ++ ['\n'] := by
  induction cs generalizing fresh with
  | nil => rfl
  | cons c cs ih =>
    rw [List.cons_append, literalLines, literalLines]
    split <;> rw [ih] <;> simp

/-- The last line of a block is ended like the last line of its text. -/
theorem ended_literalLines (head : List Char) (hne : cs ≠ []) :
    ended (head ++ literalLines n true cs) = head ++ literalLines n true (ended cs) := by
  unfold ended
  rw [List.getLast?_append, getLast?_literalLines, List.getLast?_eq_some_getLast hne,
    Option.some_or]
  split
  · rfl
  · rw [literalLines_append_break, List.append_assoc]

theorem chompingMark_break (hc : isBreak c = true) (ht : ∃ d ∈ cs.getLast?, isBreak d = false) :
    chompingMark (cs ++ [c]) = [] := by
  obtain ⟨d, hd, hb⟩ := ht
  obtain ⟨ds, rfl⟩ := List.getLast?_eq_some_iff.1 hd
  simp [chompingMark, hc, hb]

theorem chompingMark_breaks (hb : ∀ d ∈ b, isBreak d = true) (hc : isBreak c = true)
    (h : cs = [] ∨ b ≠ []) : chompingMark (cs ++ c :: b) = ['+'] := by
  rcases List.eq_nil_or_concat b with rfl | ⟨b, e, rfl⟩
  · obtain rfl : cs = [] := h.resolve_right (fun h => h rfl)
    simp [chompingMark, hc]
  · have he : isBreak e = true := hb e (by simp)
    rcases List.eq_nil_or_concat b with rfl | ⟨b, f, rfl⟩
    · simp [chompingMark, he, hc]
    · have hf : isBreak f = true := hb f (by simp)
      simp [chompingMark, he, hf]

theorem chompingMark_text (ht : ∃ d ∈ cs.getLast?, isBreak d = false) :
    chompingMark cs = ['-'] := by
  obtain ⟨d, hd, hb⟩ := ht
  obtain ⟨ds, rfl⟩ := List.getLast?_eq_some_iff.1 hd
  simp [chompingMark, hb]

theorem indentHint_cases (cs : List Char) : indentHint cs = ['2'] ∨ indentHint cs = [] := by
  unfold indentHint
  split
  · exact .inr rfl
  · split
    · exact .inl rfl
    · exact .inr rfl

theorem chompingMark_cases (cs : List Char) :
    chompingMark cs = ['-'] ∨ chompingMark cs = ['+'] ∨ chompingMark cs = [] := by
  unfold chompingMark
  split
  · exact .inl rfl
  · split
    · exact .inl rfl
    · split
      · exact .inr (.inl rfl)
      · split
        · exact .inr (.inl rfl)
        · exact .inr (.inr rfl)

/-! ## Blocks -/

/-- What becomes of the breaks at the end, by the mark for it. -/
def chompingOf (mark : List Char) : Chomping :=
  if mark = ['-'] then .strip else if mark = ['+'] then .keep else .clip

theorem readHeader_written {hint mark : List Char} (hhint : hint = ['2'] ∨ hint = [])
    (hmark : mark = ['-'] ∨ mark = ['+'] ∨ mark = []) (hp : p.rest = hint ++ mark ++ '\n' :: tail) :
    ∃ q, p.Passed (hint ++ mark ++ ['\n']) q ∧ q.column = 0 ∧
      readHeader p = .ok ((chompingOf mark, if hint = [] then 0 else 2), q) := by
  obtain ⟨_, i, l, k⟩ := p
  subst hp
  rcases hhint with rfl | rfl <;> rcases hmark with rfl | rfl | rfl <;>
    exact ⟨_, ⟨rfl, rfl, rfl, rfl⟩, rfl, rfl⟩

/-- The indentation of a block whose first line shows it. -/
theorem readBreaks_indent (hg : isGap c = false) (hb : isBreak c = false) (hcol : p.column = 0)
    (hp : p.rest = spaces n ++ c :: cs) :
    readBreaks 0 (fuel + 1) 0 [] p = .ok (([], n), p.skipMany n) := by
  have htake : (spaces n ++ c :: cs).takeWhile (· == ' ') = spaces n := by
    refine Text.takeWhile_stop (fun d hd => by rw [mem_spaces hd]; rfl) fun d hd => ?_
    cases hd
    simp only [isGap, Bool.or_eq_false_iff] at hg
    exact hg.1
  have hrest : (p.skipMany n).rest = c :: cs := by
    simp [Cursor.skipMany, hp, List.drop_left' (length_spaces n)]
  have hwide : (p.skipMany n).column = n := by simp [Cursor.skipMany, hcol]
  have ht : (c == '\t') = false := by
    simp only [isGap, Bool.or_eq_false_iff] at hg
    exact hg.2
  rw [readBreaks, hp, htake, length_spaces]
  simp [hrest, hwide, ht, hb]

/-- The last line of a text is ended. -/
theorem ended_last (hne : cs ≠ []) : ∀ c ∈ (ended cs).getLast?, isBreak c = true := by
  intro c hc
  rw [ended, List.getLast?_eq_some_getLast hne] at hc
  simp only [Option.map_some, Option.getD_some] at hc
  split at hc
  · rename_i h
    rw [List.getLast?_eq_some_getLast hne] at hc
    cases hc
    exact h
  · rw [List.getLast?_concat] at hc
    cases hc
    rfl

theorem ended_literal (h : LiteralText cs) : LiteralText (ended cs) := by
  unfold ended
  split
  · exact h
  · intro c hc
    rcases List.mem_append.1 hc with hc | hc
    · exact h c hc
    · obtain rfl := List.mem_singleton.1 hc
      exact ⟨by decide, fun _ => .inl rfl⟩

/-- What is read of a block: its text up to the last character that is no break, the break after it,
and any further breaks. -/
inductive BlockEnds : List Char → List Char → List Char → Prop
  | breaks {more : List Char} (hb : ∀ d ∈ more, isBreak d = true) : BlockEnds [] [] more
  | line {text more : List Char} {c : Char} (ht : ∃ d ∈ text.getLast?, isBreak d = false)
    (hb : ∀ d ∈ c :: more, isBreak d = true) : BlockEnds text [c] more

/-- The breaks at the end of a block come to what the text ends with. -/
theorem BlockEnds.chomp {text : List Char} (hne : cs ≠ []) (h : BlockEnds text lead more)
    (hcs : ended cs = text ++ lead ++ more) :
    text ++ (match chompingOf (chompingMark cs) with
      | .strip => []
      | .clip => lead
      | .keep => lead ++ more) = cs := by
  by_cases hlast : isBreak (cs.getLast hne) = true
  · -- The text ends with a break.
    obtain rfl : cs = text ++ lead ++ more := by
      rw [← hcs, ended, List.getLast?_eq_some_getLast hne]
      simp [hlast]
    cases h with
    | breaks hb =>
      cases more with
      | nil => exact absurd rfl hne
      | cons c more =>
        obtain ⟨hc, hb⟩ := List.forall_mem_cons.1 hb
        have hmark : chompingMark ([] ++ c :: more) = ['+'] := chompingMark_breaks hb hc (.inl rfl)
        rw [List.append_nil, hmark]
        rfl
    | @line _ _ c ht hb =>
      obtain ⟨hc, hb⟩ := List.forall_mem_cons.1 hb
      cases more with
      | nil =>
        rw [List.append_nil, chompingMark_break hc ht]
        rfl
      | cons d more =>
        rw [List.append_assoc, List.singleton_append, chompingMark_breaks hb hc (.inr nofun)]
        rfl
  · -- A break has been added.
    rw [Bool.not_eq_true] at hlast
    have hmark : chompingMark cs = ['-'] :=
      chompingMark_text ⟨_, List.getLast?_eq_some_getLast hne, hlast⟩
    rw [ended, List.getLast?_eq_some_getLast hne] at hcs
    simp only [Option.map_some, hlast, Option.getD_some, Bool.false_eq_true, if_false] at hcs
    have hnone (hb : ∀ d ∈ lead ++ more, isBreak d = true) : cs.getLast hne ∉ lead ++ more := by
      intro hin
      rw [hb _ hin] at hlast
      cases hlast
    rw [hmark]
    cases h with
    | breaks hb =>
      refine absurd ?_ (hnone hb)
      rw [List.nil_append] at hcs
      exact hcs ▸ List.mem_append_left _ (List.getLast_mem hne)
    | line ht hb =>
      rcases List.eq_nil_or_concat more with rfl | ⟨b, e, rfl⟩
      · rw [List.append_nil] at hcs
        exact (List.append_nil text).trans (List.append_inj_left' hcs rfl).symm
      · refine absurd ?_ (hnone hb)
        rw [List.concat_eq_append, ← List.append_assoc] at hcs
        have htext := List.append_inj_left' hcs rfl
        simp only [htext, List.append_assoc]
        rw [List.getLast_append_of_ne_nil _ (by simp), List.concat_eq_append, ← List.append_assoc]
        exact List.mem_append_left _ (List.getLast_mem _)

/-- The first line of a block is found, be its indentation given or to be seen. -/
theorem readBreaks_written {k given : Nat} (hfull : ∀ c ∈ cs.getLast?, isBreak c = true)
    (ht : LiteralText cs) (hm : m < k + 2) (hy : atToken y = true) (hcol : p.column = 0)
    (hp : p.rest = literalLines (k + 2) true cs ++ (spaces m ++ y))
    (hg : given = k + 2 ∨ given = 0 ∧ ∃ c ∈ cs.head?, isGap c = false ∧ isBreak c = false) :
    ∃ b ds w q, cs = b ++ ds ∧ (∀ c ∈ b, isBreak c = true) ∧
      readBreaks given (p.rest.length + 1) 0 [] p = .ok ((b, w), q) ∧
      (given = 0 → w = k + 2) ∧
      (ds = [] ∧ p.Passed (literalLines (k + 2) true cs ++ spaces m) q ∨
        Lines ds ∧ p.Passed (b ++ spaces (k + 2)) q) := by
  obtain ⟨b, ds, rfl, hb, hds⟩ := exists_lines hfull
  have hown : ∀ c ∈ b, IsOwnBreak c := fun c hc => (ht c (by simp [hc])).2 (hb c hc)
  rw [literalLines_breaks hb] at hp ⊢
  rcases hds with rfl | hds
  · rcases hg with rfl | ⟨-, c, hc, -, hcb⟩
    · simp only [literalLines, List.append_nil] at hp ⊢
      obtain ⟨q, w, hq, hread⟩ := readBreaks_lines (Nat.succ_ne_zero _) hown
        (lineStart_token (Nat.le_of_lt hm) hy) (p.rest.length + 1) 0 [] p hcol hp
        (by simp only [hp, List.length_append]; omega)
      exact ⟨b, [], w, q, by simp, hb, by simpa using hread, nofun, .inl ⟨rfl, hq⟩⟩
    · rw [List.append_nil] at hc
      have := hb c (List.mem_of_mem_head? hc)
      rw [hcb] at this
      cases this
  · have htail : LiteralText ds := fun c hc => ht c (by simp [hc])
    rw [literalLines_lines hds] at hp ⊢
    rcases hg with rfl | ⟨rfl, c, hc, hcg, hcb⟩
    · have hstart : LineStart (k + 2) (k + 2) (literalLines (k + 2) false ds ++ (spaces m ++ y)) :=
        lineStart_lines hds htail
      obtain ⟨q, w, hq, hread⟩ := readBreaks_lines (Nat.succ_ne_zero _) hown hstart
        (p.rest.length + 1) 0 [] p hcol
        (by simpa using hp)
        (by simp only [hp, List.length_append]; omega)
      exact ⟨b, ds, w, q, rfl, hb, by simpa using hread, nofun, .inr ⟨hds, hq⟩⟩
    · obtain rfl : b = [] := by
        cases b with
        | nil => rfl
        | cons d b =>
          cases hc
          rw [hb c List.mem_cons_self] at hcb
          cases hcb
      obtain ⟨d, ds, rfl, hd⟩ := hds.head
      cases hc
      have hflat : ∀ d ∈ spaces (k + 2), isBreak d = false := spaces_flat
      simp only [List.nil_append, List.append_assoc] at hp ⊢
      have hpass := Cursor.Passed.skipMany hp hflat
      rw [length_spaces] at hpass
      refine ⟨[], c :: ds, k + 2, _, rfl, nofun, ?_, fun _ => rfl, .inr ⟨hds, hpass⟩⟩
      rw [literalLines, if_neg (by simp [hcb])] at hp
      exact readBreaks_indent hcg hcb hcol hp

/-- The lines of a block are read, be its indentation given or to be seen. -/
theorem readLines_written {k given : Nat} (hfull : ∀ c ∈ cs.getLast?, isBreak c = true)
    (ht : LiteralText cs) (hm : m < k + 2) (hy : atToken y = true) (hcol : p.column = 0)
    (hp : p.rest = literalLines (k + 2) true cs ++ (spaces m ++ y))
    (hg : given = k + 2 ∨ given = 0 ∧ ∃ c ∈ cs.head?, isGap c = false ∧ isBreak c = false) :
    ∃ b w q text lead more r, p.Passed (literalLines (k + 2) true cs ++ spaces m) r ∧
      readBreaks given (p.rest.length + 1) 0 [] p = .ok ((b, w), q) ∧ (given = 0 → w = k + 2) ∧
      readLines true (k + 2) (q.rest.length + 1) [] [] b false q = .ok ((text, lead, more), r) ∧
      cs = text ++ lead ++ more ∧ BlockEnds text lead more := by
  obtain ⟨b, ds, w, q, rfl, hb, hbreaks, hw, ⟨rfl, hq⟩ | ⟨hds, hq⟩⟩ :=
    readBreaks_written hfull ht hm hy hcol hp hg
  · rw [List.append_nil] at hq hp ⊢
    refine ⟨b, w, q, [], [], b, q, hq, hbreaks, hw, readLines_stop ?_, rfl, .breaks hb⟩
    rw [literalLines_onlyBreaks hb] at hq
    rw [hq.column, hcol, columnAfter_breaks hb]
    exact Nat.ne_of_lt hm
  · have htail : LiteralText ds := fun c hc => ht c (by simp [hc])
    have hwritten : literalLines (k + 2) true (b ++ ds) =
        b ++ spaces (k + 2) ++ literalLines (k + 2) false ds := by
      rw [literalLines_breaks hb, literalLines_lines hds, List.append_assoc]
    rw [hwritten, List.append_assoc] at hp
    have hrest := hq.rest_eq hp
    obtain ⟨r, text, c, more, hr, hread, rfl, htext, hbs⟩ := readLines_lines
      (Nat.succ_ne_zero _) hds htail hm hy (q.rest.length + 1) [] [] b false q
      (by rw [hq.column, hcol, columnAfter_breaks hb]) hrest
      (by have := length_literalLines (k + 2) ds false; simp [hrest]; omega)
    refine ⟨b, w, q, _, _, _, r, ?_, hbreaks, hw, hread, by simp, .line ?_ hbs⟩
    · rw [hwritten, List.append_assoc]
      exact hq.trans hr
    · obtain ⟨d, hd, hdb⟩ := htext
      exact ⟨d, by simp [List.getLast?_append, Option.mem_def.1 hd], hdb⟩

/-- **A literal block** is read back. -/
theorem readBlock_literal {k : Nat} (ht : LiteralText cs) (hne : cs ≠ []) (hm : m < k + 2)
    (hy : atToken y = true)
    (hp : p.rest = indentHint cs ++ chompingMark cs ++
      '\n' :: literalLines (k + 2) true (ended cs) ++ (spaces m ++ y)) :
    ∃ q, p.Passed (indentHint cs ++ chompingMark cs ++
        '\n' :: literalLines (k + 2) true (ended cs) ++ spaces m) q ∧ q.column = m ∧
      readBlock true k p = .ok (String.ofList cs, q) := by
  have hhint := indentHint_cases cs
  obtain ⟨p', hp', hcol, hheader⟩ :=
    readHeader_written hhint (chompingMark_cases cs) (by rw [hp, List.append_assoc]; rfl)
  have hrest : p'.rest = literalLines (k + 2) true (ended cs) ++ (spaces m ++ y) :=
    hp'.rest_eq (by simpa using hp)
  have hgiven : (if indentHint cs = [] then 0 else k + 2) = k + 2 ∨
      (if indentHint cs = [] then 0 else k + 2) = 0 ∧
        ∃ c ∈ (ended cs).head?, isGap c = false ∧ isBreak c = false := by
    rcases hhint with h | h
    · exact .inl (by simp [h])
    · refine .inr ⟨by simp [h], ?_⟩
      obtain ⟨c, ds, rfl⟩ := List.exists_cons_of_ne_nil hne
      have hc : c ≠ ' ' ∧ isBreak c = false := by
        rw [indentHint] at h
        simpa using h
      have hhead : (ended (c :: ds)).head? = some c := by
        unfold ended
        split <;> rfl
      exact ⟨c, hhead, by simp [isGap, hc.1, (ht c List.mem_cons_self).1], hc.2⟩
  obtain ⟨b, w, q, text, lead, more, r, hr, hbreaks, hw, hlines, hcs, hends⟩ :=
    readLines_written (ended_last hne) (ended_literal ht) hm hy hcol hrest hgiven
  have hlast : ∃ c ∈ (literalLines (k + 2) true (ended cs)).getLast?, isBreak c = true := by
    have hne' : ended cs ≠ [] := by
      unfold ended
      split <;> simp [hne]
    refine ⟨_, ?_, ended_last hne _ (List.getLast?_eq_some_getLast hne')⟩
    rw [getLast?_literalLines]
    exact List.getLast?_eq_some_getLast hne'
  refine ⟨r, by simpa using hp'.trans hr, hr.column.trans (Cursor.columnAfter_spaces _ hlast), ?_⟩
  have hresult := congrArg String.ofList (hends.chomp hne hcs)
  rw [String.ofList_append] at hresult
  rw [readBlock, hheader]
  rcases hhint with h | h
  · simp only [h, List.cons_ne_nil, if_false] at hbreaks hw ⊢
    simp only [bind, Except.bind, Nat.reduceBEq, Bool.false_eq_true, ↓reduceIte, ge_iff_le,
      Int.natCast_nonneg, Int.toNat_natCast, hbreaks, Nat.reduceBeqDiff, hlines,
      String.ofList_append]
    exact congrArg (fun s => Except.ok (s, r)) hresult
  · simp only [h, if_true] at hbreaks hw ⊢
    simp only [bind, Except.bind, BEq.rfl, ↓reduceIte, hbreaks, hw, Int.toNat_natCast_add_one,
      Nat.add_le_add_iff_right, Nat.le_add_right, Nat.max_eq_left, Nat.le_add_left, hlines,
      String.ofList_append]
    exact congrArg (fun s => Except.ok (s, r)) hresult

end Runbook.Yaml.Scanner

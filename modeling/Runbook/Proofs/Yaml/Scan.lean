import Mathlib
import Runbook.Proofs.Text.Trim
import Runbook.Yaml.Writer

/-!
# Runs of the scanner

What is left of a text leads the scanner from state to state: `Scanner.Reaches s Q` says that the
tokens of `s` are those of a state in `Q` that has no more of the text left, and the runs of the
parts of a text compose (`Reaches.bind`). Outside of brackets a state is given by the tokens so far,
the indentations around its place and what is left there (`Scanner.AtBlock`); white space before a
token, breaks and the ends of collections lead from one such state to another, and so do the marks
of items and of long keys.
-/

namespace Runbook.Yaml

/-- A property of all characters of a list is decided character by character, not by going through
all characters that there are. -/
scoped instance (priority := high) decidableForallMem {P : Char → Prop} [DecidablePred P]
    (cs : List Char) : Decidable (∀ c ∈ cs, P c) := List.decidableBAll P cs

/-! ## Places -/

theorem mem_spaces {n : Nat} {c : Char} (h : c ∈ spaces n) : c = ' ' := List.eq_of_mem_replicate h

theorem spaces_flat {n : Nat} : ∀ c ∈ spaces n, isBreak c = false :=
  fun c hc => by rw [mem_spaces hc]; rfl

@[simp] theorem length_spaces (n : Nat) : (spaces n).length = n := List.length_replicate

/-- Whether the text goes on with a token, or ends. -/
def atToken : List Char → Bool
  | [] => true
  | c :: _ => !(isGap c || isBreak c || c == '#')

namespace Cursor

/-- The column after some text. -/
def columnAfter (k : Nat) (text : List Char) : Nat :=
  text.foldl (fun k c => if isBreak c then 0 else k + 1) k

theorem columnAfter_append (k : Nat) (text more : List Char) :
    columnAfter k (text ++ more) = columnAfter (columnAfter k text) more := List.foldl_append

theorem columnAfter_flat {k : Nat} {text : List Char} (h : ∀ c ∈ text, isBreak c = false) :
    columnAfter k text = k + text.length := by
  induction text generalizing k with
  | nil => rfl
  | cons c text ih =>
    change columnAfter (if isBreak c then 0 else k + 1) text = _
    rw [h c List.mem_cons_self, if_neg Bool.false_ne_true,
      ih fun d hd => h d (List.mem_cons_of_mem _ hd), List.length_cons]
    omega

theorem columnAfter_line (k n : Nat) : columnAfter k ('\n' :: spaces n) = n := by
  change columnAfter 0 (spaces n) = n
  rw [columnAfter_flat spaces_flat, length_spaces, Nat.zero_add]

/-- The column after spaces at the beginning of a line. -/
theorem columnAfter_spaces (k : Nat) {text : List Char} {n : Nat}
    (h : ∃ c ∈ text.getLast?, isBreak c = true) : columnAfter k (text ++ spaces n) = n := by
  obtain ⟨c, hc, hb⟩ := h
  obtain ⟨ds, rfl⟩ := List.getLast?_eq_some_iff.1 hc
  rw [columnAfter_append, columnAfter_append]
  change columnAfter (if isBreak c then 0 else _) (spaces n) = n
  rw [hb, if_pos rfl, columnAfter_flat spaces_flat, length_spaces, Nat.zero_add]

/-- From one place to another over some text. -/
structure Passed (p : Cursor) (text : List Char) (q : Cursor) : Prop where
  rest : p.rest = text ++ q.rest
  index : q.index = p.index + text.length
  line : q.line = p.line + text.countP isBreak
  column : q.column = columnAfter p.column text

namespace Passed

variable {p q r : Cursor} {text more tail : List Char} {c : Char}

theorem rest_eq (h : p.Passed text q) (hp : p.rest = text ++ tail) : q.rest = tail :=
  List.append_cancel_left (h.rest.symm.trans hp)

theorem refl (p : Cursor) : p.Passed [] p := ⟨rfl, rfl, rfl, rfl⟩

theorem trans (h : p.Passed text q) (k : q.Passed more r) : p.Passed (text ++ more) r where
  rest := by rw [h.rest, k.rest, List.append_assoc]
  index := by rw [k.index, h.index, List.length_append, Nat.add_assoc]
  line := by rw [k.line, h.line, List.countP_append, Nat.add_assoc]
  column := by rw [k.column, h.column, columnAfter_append]

/-- Text without breaks stays on its line. -/
theorem flat (h : p.Passed text q) (ht : ∀ c ∈ text, isBreak c = false) :
    q.line = p.line ∧ q.column = p.column + text.length := by
  refine ⟨?_, h.column.trans (columnAfter_flat ht)⟩
  rw [h.line, List.countP_eq_zero.2 fun c hc => by simp [ht c hc], Nat.add_zero]

theorem skipMany (hp : p.rest = text ++ tail) (ht : ∀ c ∈ text, isBreak c = false) :
    p.Passed text (p.skipMany text.length) where
  rest := by simp [Cursor.skipMany, hp]
  index := rfl
  line := by rw [List.countP_eq_zero.2 fun c hc => by simp [ht c hc]]; rfl
  column := (columnAfter_flat ht).symm

theorem skip (hp : p.rest = c :: tail) (hc : isBreak c = false) : p.Passed [c] p.skip :=
  ⟨by simp [Cursor.skip, hp], rfl, by simp [Cursor.skip, hc],
    by simp [Cursor.skip, columnAfter, hc]⟩

end Passed

/-- The place after a break that counts as itself. -/
def afterBreak (p : Cursor) (rest : List Char) : Cursor := ⟨rest, p.index + 1, p.line + 1, 0⟩

/-- A break that counts as itself in a scalar. -/
def IsOwnBreak (c : Char) : Prop := c = '\n' ∨ c = '\u2028' ∨ c = '\u2029'

theorem IsOwnBreak.isBreak {c : Char} (h : IsOwnBreak c) : isBreak c = true := by
  rcases h with rfl | rfl | rfl <;> rfl

theorem takeBreak_eq {p : Cursor} {c : Char} {cs : List Char} (hp : p.rest = c :: cs)
    (hc : IsOwnBreak c) : p.takeBreak = ([c], p.afterBreak cs) := by
  rw [takeBreak, hp]
  rcases hc with rfl | rfl | rfl <;> rfl

theorem Passed.afterBreak {p : Cursor} {c : Char} {cs : List Char} (hp : p.rest = c :: cs)
    (hc : IsOwnBreak c) : p.Passed [c] (p.afterBreak cs) :=
  ⟨hp, rfl, by simp [Cursor.afterBreak, hc.isBreak],
    by simp [Cursor.afterBreak, columnAfter, hc.isBreak]⟩

end Cursor

namespace Scanner

/-! ## Runs -/

/-- The tokens of the text are those of some state in `Q`, which has no more of it left. -/
def Reaches (s : Scanner) (Q : Scanner → Prop) : Prop :=
  ∃ n s', Q s' ∧ n + s'.at_.rest.length ≤ s.at_.rest.length ∧ ∀ fuel, all (fuel + n) s = all fuel s'

namespace Reaches

variable {s t : Scanner} {Q R : Scanner → Prop}

theorem here (h : Q s) : Reaches s Q := ⟨0, s, h, by omega, fun _ => rfl⟩

theorem bind (h : Reaches s Q) (k : ∀ t, Q t → Reaches t R) : Reaches s R := by
  obtain ⟨n, u, hu, hn, hall⟩ := h
  obtain ⟨m, v, hv, hm, hall'⟩ := k u hu
  refine ⟨m + n, v, hv, by omega, fun fuel => ?_⟩
  rw [← Nat.add_assoc, hall, hall']

theorem mono (h : Reaches s Q) (k : ∀ t, Q t → R t) : Reaches s R :=
  h.bind fun t ht => here (k t ht)

/-- States that settle alike have the same tokens. -/
theorem of_settle (h : s.settle = t.settle) (hn : t.at_.rest.length ≤ s.at_.rest.length)
    (hq : Q t) : Reaches s Q := by
  refine ⟨0, t, hq, by omega, fun fuel => ?_⟩
  cases fuel with
  | zero => rfl
  | succ fuel => rw [Nat.add_zero, all, all, next, next, h]

/-- A token is scanned where the scanner has settled. -/
theorem of_token (h : s.settle = .ok s) (ht : s.token = .ok (t, true))
    (hn : t.at_.rest.length < s.at_.rest.length) (hq : Q t) : Reaches s Q := by
  refine ⟨1, t, hq, by omega, fun fuel => ?_⟩
  have hnext : s.next = .ok (t, true) := by rw [next, h]; exact ht
  rw [all, hnext]

/-- The tokens of a text, from those of the state that its end is reached with. -/
theorem all_eq {ts : List Token} (h : Reaches s Q)
    (hq : ∀ t, Q t → ∀ fuel, all (fuel + 1) t = .ok ts) {fuel : Nat}
    (hf : s.at_.rest.length + 1 ≤ fuel) : all fuel s = .ok ts := by
  obtain ⟨n, u, hu, hn, hall⟩ := h
  obtain ⟨m, rfl⟩ : ∃ m, fuel = (m + 1) + n := ⟨fuel - 1 - n, by omega⟩
  rw [hall, hq u hu]

end Reaches

/-! ## Space between tokens -/

theorem skipWhile_before {f : Char → Bool} {part tail : List Char} {i l k : Nat}
    (h : ∀ c ∈ part, f c = true) (ht : ∀ c ∈ tail.head?, f c = false) :
    (⟨part ++ tail, i, l, k⟩ : Cursor).skipWhile f =
      ⟨tail, i + part.length, l, k + part.length⟩ := by
  simp only [Cursor.skipWhile, Cursor.skipMany, Text.takeWhile_stop h ht, List.drop_left]

variable {flow fuel : Nat} {a : Bool} {cs : List Char} {i l k n : Nat}

theorem toNext_spaces (h : atToken cs = true) :
    toNext flow (fuel + 1) a ⟨spaces n ++ cs, i, l, k⟩ = (a, ⟨cs, i + n, l, k + n⟩) := by
  rw [toNext, skipWhile_before (fun c hc => by rw [mem_spaces hc]; rfl), length_spaces]
  · cases cs with
    | nil => rfl
    | cons c cs =>
      simp only [atToken, Bool.not_eq_true', Bool.or_eq_false_iff, beq_eq_false_iff_ne] at h
      have hc : (⟨c :: cs, i + n, l, k + n⟩ : Cursor).skipComment = ⟨c :: cs, i + n, l, k + n⟩ := by
        unfold Cursor.skipComment
        split
        · rename_i heq
          exact absurd (List.cons.inj heq).1 h.2
        · rfl
      rw [hc]
      simp [h.1.2]
  · intro c hc
    cases cs with
    | nil => cases hc
    | cons d cs =>
      cases hc
      simp only [atToken, isGap, Bool.not_eq_true', Bool.or_eq_false_iff] at h
      simp [h.1.1]

theorem toNext_token (h : atToken cs = true) :
    toNext flow (fuel + 1) a ⟨cs, i, l, k⟩ = (a, ⟨cs, i, l, k⟩) := toNext_spaces (n := 0) h

theorem toNext_break : toNext flow (fuel + 1) a ⟨'\n' :: cs, i, l, k⟩ =
    toNext flow fuel (a || flow == 0) ⟨cs, i + 1, l + 1, 0⟩ := rfl

/-- To the first token of the next line. -/
theorem toNext_line (h : atToken cs = true) :
    toNext flow (fuel + 2) a ⟨'\n' :: (spaces n ++ cs), i, l, k⟩ =
      (a || flow == 0, ⟨cs, i + 1 + n, l + 1, n⟩) := by
  rw [toNext_break, toNext_spaces h, Nat.zero_add]

/-- What the scanner does at a token does not depend on the space it passed to get there. -/
theorem settle_eq {s : Scanner} {p : Cursor}
    (h : toNext s.flow (s.at_.rest.length + 1) s.keyAllowed s.at_ = (a, p))
    (hp : atToken p.rest = true) :
    s.settle = ({ s with at_ := p, keyAllowed := a } : Scanner).settle := by
  rw [settle, settle, h]
  dsimp only
  rw [show p = ⟨p.rest, p.index, p.line, p.column⟩ from rfl, toNext_token hp]

/-! ## Outside of brackets -/

/-- A state outside of brackets: the tokens so far, the indentation and those around it, whether a
key may begin, and the place. -/
def blockState (ts : List Token) (i : Int) (is : List Int) (a : Bool) (p : Cursor) : Scanner :=
  { at_ := p, tokens := ts.toArray, indent := i, indents := is, keyAllowed := a }

/-- Such a state with this left of the text, of which the first character is in column `k`. -/
def AtBlock (ts : List Token) (i : Int) (is : List Int) (a : Bool) (cs : List Char) (k : Nat)
    (s : Scanner) : Prop :=
  ∃ index line, s = blockState ts i is a ⟨cs, index, line, k⟩

variable {ts us : List Token} {t : Token} {x : Nat} {i j : Int} {is : List Int} {p : Cursor}

theorem flow_blockState : ¬ (blockState ts i is a p).flow > 0 := Nat.lt_irrefl 0

theorem unroll_le {s : Scanner} {j : Int} (h : s.indent ≤ j) : s.unroll j = s := by
  have hi : ¬ s.indent > j := Int.not_lt.2 h
  rw [unroll, unrollTo, if_neg hi]
  split <;> rfl

/-- The scanner stays where a token begins that is not outside of its collection. -/
theorem settled {s : Scanner} (h : atToken s.at_.rest = true) (hd : s.dropStale = .ok s)
    (hi : s.indent ≤ s.at_.column) : s.settle = .ok s := by
  rw [settle, show s.at_ = ⟨s.at_.rest, s.at_.index, s.at_.line, s.at_.column⟩ from rfl,
    toNext_token h]
  change (s.dropStale >>= _) = _
  rw [hd]
  exact congrArg Except.ok (unroll_le hi)

theorem push_blockState : (blockState ts i is a p).push t = blockState (ts ++ [t]) i is a p := by
  simp [push, blockState]

theorem unroll_pop {c : Int} (h : c < i) : (blockState ts i (j :: is) a p).unroll c =
    (blockState (ts ++ [.blockEnd]) j is a p).unroll c := by
  have hi : (blockState ts i (j :: is) a p).indent > c := h
  rw [unroll, unrollTo, if_neg flow_blockState, if_pos hi, push_blockState]
  rfl

theorem settle_blockState (h : atToken p.rest = true) :
    (blockState ts i is a p).settle = .ok ((blockState ts i is a p).unroll p.column) := by
  rw [settle, show (blockState ts i is a p).at_ = ⟨p.rest, p.index, p.line, p.column⟩ from rfl,
    toNext_token h]
  rfl

/-- The state after a token that may be a key, with the candidate for it. -/
def keyState (ts : List Token) (i : Int) (is : List Int) (a : Bool) (c : Option Candidate)
    (p : Cursor) : Scanner :=
  { blockState ts i is a p with candidates := [c] }

/-- A candidate of an earlier line that does not have to be a key is forgotten. -/
theorem settle_keyState {c : Option Candidate} (h : atToken p.rest = true)
    (hc : ∀ d ∈ c, d.required = false ∧ d.line < p.line) :
    (keyState ts i is a c p).settle = (blockState ts i is a p).settle := by
  have hdrop : (keyState ts i is a c p).dropStale = .ok (blockState ts i is a p) := by
    cases c with
    | none => rfl
    | some d =>
      obtain ⟨hr, hl⟩ := hc d rfl
      simp [dropStale, isStale, keyState, blockState, hr, hl]
  rw [settle_blockState h, settle, show (keyState ts i is a c p).at_ =
    ⟨p.rest, p.index, p.line, p.column⟩ from rfl, toNext_token h]
  change ((keyState ts i is a c p).dropStale >>= _) = _
  rw [hdrop]
  rfl

namespace Reaches

variable {Q : Scanner → Prop}

/-- Over the spaces before a token. -/
theorem blanks (h : atToken cs = true) :
    Reaches (blockState ts i is a ⟨spaces n ++ cs, x, l, k⟩) (AtBlock ts i is a cs (k + n)) :=
  of_settle (settle_eq (toNext_spaces h) h)
    (by simp [blockState]) ⟨x + n, l, rfl⟩

/-- To a token of a later line, with a candidate that does not have to be a key. -/
theorem ofKeyState {c : Option Candidate} (h : atToken p.rest = true)
    (hc : ∀ d ∈ c, d.required = false ∧ d.line < p.line) (hq : Q (blockState ts i is a p)) :
    Reaches (keyState ts i is a c p) Q :=
  of_settle (settle_keyState h hc) (Nat.le_refl _) hq

/-- Over the end of a line and the indentation of the next one, with a candidate that does not have
to be a key. -/
theorem line {c : Option Candidate} (h : atToken cs = true)
    (hc : ∀ d ∈ c, d.required = false ∧ d.line ≤ l) :
    Reaches (keyState ts i is a c ⟨'\n' :: (spaces n ++ cs), x, l, k⟩)
      (AtBlock ts i is true cs n) := by
  have hto : toNext 0 (('\n' :: (spaces n ++ cs)).length + 1) a
      ⟨'\n' :: (spaces n ++ cs), x, l, k⟩ = (true, ⟨cs, x + 1 + n, l + 1, n⟩) := by
    rw [List.length_cons, toNext_line h]
    simp
  let p : Cursor := ⟨cs, x + 1 + n, l + 1, n⟩
  have hs : (keyState ts i is a c ⟨'\n' :: (spaces n ++ cs), x, l, k⟩).settle =
      (keyState ts i is true c p).settle :=
    settle_eq (s := keyState ts i is a c ⟨'\n' :: (spaces n ++ cs), x, l, k⟩) (p := p) hto h
  refine of_settle (t := blockState ts i is true p) (hs.trans (settle_keyState h fun d hd => ?_))
    (by simp [p, keyState, blockState]; omega) ⟨_, _, rfl⟩
  exact ⟨(hc d hd).1, Nat.lt_succ_of_le (hc d hd).2⟩

/-- A collection ends before a line that is indented less. -/
theorem blockEnd (h : atToken p.rest = true) (hk : p.column < i)
    (hq : Q (blockState (ts ++ [.blockEnd]) j is a p)) :
    Reaches (blockState ts i (j :: is) a p) Q :=
  of_settle (t := blockState (ts ++ [.blockEnd]) j is a p)
    (by rw [settle_blockState h, settle_blockState h, unroll_pop hk]) (Nat.le_refl _) hq

end Reaches

/-! ## Marks -/

/-- The start token of a collection at a column, unless it stands there already. -/
def opens (i : Int) (k : Nat) (t : Token) : List Token := if i < k then [t] else []

/-- The indentations around a collection at a column. -/
def around (i : Int) (k : Nat) (is : List Int) : List Int := if i < k then i :: is else is

@[simp] theorem opens_self (t : Token) : opens k k t = [] := if_neg (Int.lt_irrefl _)

@[simp] theorem around_self : around k k is = is := if_neg (Int.lt_irrefl _)

theorem insertIdx_length (t : Token) : (ts ++ us).insertIdx ts.length t = ts ++ t :: us := by
  induction ts with
  | nil => rfl
  | cons u ts ih => simp [List.insertIdx_succ_cons, ih]

theorem roll_insert (h : i ≤ k) : (blockState (ts ++ us) i is a p).roll k ts.length t =
    blockState (ts ++ opens i k t ++ us) k (around i k is) a p := by
  unfold roll
  by_cases hi : i < k
  · rw [if_neg (by simpa [blockState] using hi)]
    simp [blockState, opens, around, hi, insertIdx_length]
  · obtain rfl : i = k := Int.le_antisymm h (Int.not_lt.1 hi)
    rw [if_pos (by simp [blockState])]
    simp [opens, around]

theorem roll_blockState (h : i ≤ k) : (blockState ts i is a p).roll k ts.length t =
    blockState (ts ++ opens i k t) k (around i k is) a p := by
  have h' : (blockState (ts ++ []) i is a p).roll k ts.length t = _ := roll_insert h
  simpa using h'

theorem atDocumentMark_column (h : p.column ≠ 0) : p.atDocumentMark = false := by
  simp [Cursor.atDocumentMark, h]

theorem atDocumentMark_gap {c : Char} (h : atGap cs = true) :
    (⟨c :: cs, x, l, k⟩ : Cursor).atDocumentMark = false := by
  cases cs with
  | nil => simp [Cursor.atDocumentMark]
  | cons d cs =>
    have hd : d ≠ '-' ∧ d ≠ '.' := by
      constructor <;> rintro rfl <;> simp [atGap, isGap, isBreak] at h
    unfold Cursor.atDocumentMark
    split <;> simp_all

theorem mark_blockState {c : Char} {b : Bool} :
    (blockState ts i is a ⟨c :: cs, x, l, k⟩).mark t b =
      .ok (blockState (ts ++ [t]) i is b ⟨cs, x + 1, l, k + 1⟩) := by
  change Except.ok { ((blockState ts i is a ⟨c :: cs, x, l, k⟩).push t).moved _ with
    keyAllowed := b } = _
  rw [push_blockState]
  rfl

/-- A mark that begins a block collection, unless it stands in one. -/
theorem blockMark_blockState {c : Char} {start : Token} {b : Bool} (hi : i ≤ k) :
    (blockState ts i is true ⟨c :: cs, x, l, k⟩).blockMark start t b =
      .ok (blockState (ts ++ opens i k start ++ [t]) k (around i k is) b
        ⟨cs, x + 1, l, k + 1⟩) := by
  change ((blockState ts i is true ⟨c :: cs, x, l, k⟩).roll k ts.length start).mark t b = _
  rw [roll_blockState hi, mark_blockState]

theorem token_eq {s t : Scanner} {c : Char} (h : s.at_.rest = c :: cs)
    (hc : c = '%' → s.at_.column ≠ 0) (hm : s.at_.atDocumentMark = false)
    (ht : s.tokenFrom c cs = .ok t) : s.token = .ok (t, true) := by
  have hd : (s.at_.column == 0 && c == '%') = false := by
    by_cases hp : c = '%'
    · simp [hc hp]
    · simp [hp]
  rw [token, h]
  dsimp only
  rw [hd, hm, ht]
  rfl

namespace Reaches

/-- A dash begins an item. -/
theorem dash (h : atGap cs = true) (hi : i ≤ k) :
    Reaches (blockState ts i is true ⟨'-' :: cs, x, l, k⟩)
      (AtBlock (ts ++ opens i k .blockSequence ++ [.entry]) k (around i k is) true cs (k + 1)) := by
  have ht : (blockState ts i is true ⟨'-' :: cs, x, l, k⟩).tokenFrom '-' cs = .ok _ :=
    (if_pos h).trans (blockMark_blockState hi)
  exact of_token (settled rfl rfl hi) (token_eq rfl nofun (atDocumentMark_gap h) ht)
    (by simp [blockState]) ⟨_, _, rfl⟩

/-- A question mark begins a key. -/
theorem question (h : atGap cs = true) (hi : i ≤ k) :
    Reaches (blockState ts i is true ⟨'?' :: cs, x, l, k⟩)
      (AtBlock (ts ++ opens i k .blockMapping ++ [.key]) k (around i k is) true cs (k + 1)) := by
  have ht : (blockState ts i is true ⟨'?' :: cs, x, l, k⟩).tokenFrom '?' cs = .ok _ :=
    (if_pos h).trans (blockMark_blockState hi)
  exact of_token (settled rfl rfl hi) (token_eq rfl nofun (atDocumentMark_gap h) ht)
    (by simp [blockState]) ⟨_, _, rfl⟩

/-- A colon begins the value of a key after a question mark. -/
theorem colon (h : atGap cs = true) :
    Reaches (blockState ts k is true ⟨':' :: cs, x, l, k⟩)
      (AtBlock (ts ++ [.value]) k is true cs (k + 1)) := by
  have hroll : (blockState ts k is true ⟨':' :: cs, x, l, k⟩).roll k ts.length .blockMapping =
      blockState ts k is true ⟨':' :: cs, x, l, k⟩ := by
    rw [roll_blockState (Int.le_refl k)]
    simp [opens, around]
  have hc : (blockState ts k is true ⟨':' :: cs, x, l, k⟩).colon =
      .ok (blockState (ts ++ [.value]) k is true ⟨cs, x + 1, l, k + 1⟩) := by
    change (let s := (blockState ts k is true ⟨':' :: cs, x, l, k⟩).roll k ts.length .blockMapping
      Except.ok { (s.push .value).moved s.at_.skip with keyAllowed := s.flow == 0 }) = _
    rw [hroll]
    dsimp only
    rw [push_blockState]
    rfl
  have ht : (blockState ts k is true ⟨':' :: cs, x, l, k⟩).tokenFrom ':' cs = .ok _ :=
    (if_pos h).trans hc
  exact of_token (settled rfl rfl (Int.le_refl k)) (token_eq rfl nofun (atDocumentMark_gap h) ht)
    (by simp [blockState]) ⟨_, _, rfl⟩

end Reaches

/-! ## Keys before their colon -/

/-- The candidate that begins at a place. -/
def candidateAt (ts : List Token) (i : Int) (p : Cursor) : Candidate :=
  ⟨i == p.column, ts.length, p.index, p.line, p.column⟩

/-- The candidate for a token, if a key may begin there. -/
def candidate? (ts : List Token) (i : Int) (a : Bool) (p : Cursor) : Option Candidate :=
  if a then some (candidateAt ts i p) else none

theorem saveCandidate_blockState : (blockState ts i is a p).saveCandidate =
    .ok (keyState ts i is a (candidate? ts i a p) p) := by
  cases a <;> rfl

theorem part_blockState {read : Cursor → Except Fault (Token × Cursor)} {q : Cursor}
    (h : read p = .ok (t, q)) : (blockState ts i is a p).part read =
      .ok (keyState (ts ++ [t]) i is false (candidate? ts i a p) q) := by
  rw [part, saveCandidate_blockState]
  change (read p >>= fun r => .ok { ((keyState ts i is a _ p).push r.1).moved r.2 with
    keyAllowed := false }) = _
  rw [h]
  simp [keyState, blockState, push, moved, bind, Except.bind]

theorem plain_blockState {text : String} {broken : Bool} {q : Cursor}
    (h : readPlain 0 (i + 1) (p.rest.length + 1) [] {} p = .ok ((text, broken), q)) :
    (blockState ts i is a p).plain =
      .ok (keyState (ts ++ [.scalar text .plain]) i is broken (candidate? ts i a p) q) := by
  rw [plain, saveCandidate_blockState]
  change (readPlain 0 (i + 1) (p.rest.length + 1) [] {} p >>= fun r =>
    .ok { ((keyState ts i is a _ p).push (.scalar r.1.1 .plain)).moved r.2 with
      keyAllowed := r.1.2 }) = _
  rw [h]
  simp [keyState, blockState, push, moved, bind, Except.bind]

theorem block_blockState {text : String} {q : Cursor}
    (h : readBlock true i p.skip = .ok (text, q)) :
    (blockState ts i is a p).block true =
      .ok (blockState (ts ++ [.scalar text .literal]) i is true q) := by
  change (readBlock true i p.skip >>= fun r =>
    .ok { ((blockState ts i is a p).push (.scalar r.1 .literal)).moved r.2 with
      keyAllowed := true }) = _
  rw [h]
  change Except.ok { ((blockState ts i is a p).push (.scalar text .literal)).moved q with
    keyAllowed := true } = _
  rw [push_blockState]
  rfl

/-- The colon after a token that may be a key makes it one. -/
theorem Reaches.keyColon {q : Cursor} (h : atGap cs = true) (hi : i ≤ p.column)
    (hl : q.line = p.line) (hx : q.index ≤ p.index + 1024) (hk : p.column < q.column)
    (hq : q.rest = ':' :: cs) :
    Reaches (keyState (ts ++ us) i is a (some (candidateAt ts i p)) q)
      (AtBlock (ts ++ opens i p.column .blockMapping ++ .key :: us ++ [.value]) p.column
        (around i p.column is) false cs (q.column + 1)) := by
  obtain ⟨_, x, l, m⟩ := q
  subst hq
  let s := keyState (ts ++ us) i is a (some (candidateAt ts i p)) ⟨':' :: cs, x, l, m⟩
  have hdrop : s.dropStale = .ok s := by
    have hstale : isStale ⟨':' :: cs, x, l, m⟩ (candidateAt ts i p) = false := by
      have hl : ¬ p.line < l := Nat.not_lt.2 (Nat.le_of_eq hl)
      have hx : ¬ p.index + 1024 < x := Nat.not_lt.2 hx
      exact (Bool.or_eq_false_iff.2 ⟨decide_eq_false hl, decide_eq_false hx⟩)
    simp [s, dropStale, keyState, blockState, hstale]
  have hc : s.colon = .ok (blockState (ts ++ opens i p.column .blockMapping ++ .key :: us ++
      [.value]) p.column (around i p.column is) false ⟨cs, x + 1, l, m + 1⟩) := by
    have hkey : { s with
        tokens := s.tokens.insertIdxIfInBounds (candidateAt ts i p).number .key
        candidates := [none]
        keyAllowed := false } =
          blockState (ts ++ .key :: us) i is false ⟨':' :: cs, x, l, m⟩ := by
      simp [s, keyState, blockState, candidateAt, insertIdx_length]
    change (let t := Scanner.roll { s with
        tokens := s.tokens.insertIdxIfInBounds (candidateAt ts i p).number .key
        candidates := [none]
        keyAllowed := false } p.column ts.length .blockMapping
      Except.ok ((t.push .value).moved t.at_.skip)) = _
    rw [hkey, roll_insert hi]
    dsimp only
    rw [push_blockState]
    rfl
  have ht : s.tokenFrom ':' cs = .ok _ := (if_pos h).trans hc
  refine of_token (settled rfl hdrop ?_) (token_eq rfl nofun (atDocumentMark_gap h) ht)
    (by simp [keyState, blockState]) ⟨_, _, rfl⟩
  exact Int.le_trans hi (Int.ofNat_le.2 (Nat.le_of_lt hk))

/-! ## White space in scalars -/

/-- The white space at a place, of which `w` has been read. -/
def spaceAt (indent : Option Int) (w : Space) (p : Cursor) : Except Fault (Space × Cursor) :=
  readSpace indent (p.rest.length + 1) w p

section
variable {indent : Option Int} {w : Space} {c : Char}

theorem spaceAt_end (hp : atToken p.rest = true) : spaceAt indent w p = .ok (w, p) := by
  rw [spaceAt, readSpace]
  split
  · rfl
  · rename_i c cs hc
    rw [hc] at hp
    simp only [atToken, Bool.not_eq_true', Bool.or_eq_false_iff] at hp
    simp [hp.1.1, hp.1.2]

theorem spaceAt_stop (hp : p.rest = c :: cs) (hg : isGap c = false) (hb : isBreak c = false) :
    spaceAt indent w p = .ok (w, p) := by
  rw [spaceAt, readSpace, hp]
  simp [hg, hb]

/-- A space on the first line. -/
theorem spaceAt_space (hp : p.rest = ' ' :: cs) (hw : w.broken = false) :
    spaceAt indent w p = spaceAt indent { w with blanks := w.blanks ++ [' '] } p.skip := by
  have hs : p.skip.rest = cs := by rw [Cursor.skip, hp]; rfl
  rw [spaceAt, spaceAt, hs, hp, List.length_cons]
  conv => lhs; rw [readSpace, hp]
  simp [isGap, hw]

/-- A space on a later line. -/
theorem spaceAt_indent (hp : p.rest = ' ' :: cs) (hw : w.broken = true) :
    spaceAt indent w p = spaceAt indent w p.skip := by
  have hs : p.skip.rest = cs := by rw [Cursor.skip, hp]; rfl
  rw [spaceAt, spaceAt, hs, hp, List.length_cons]
  conv => lhs; rw [readSpace, hp]
  simp [isGap, hw]

theorem spaceAt_spaces (hp : p.rest = spaces n ++ cs) (hw : w.broken = true) :
    spaceAt indent w p = spaceAt indent w (p.skipMany n) := by
  induction n generalizing p with
  | zero => rfl
  | succ n ih =>
    have hs : p.skip.rest = spaces n ++ cs := by rw [Cursor.skip, hp]; rfl
    rw [spaceAt_indent hp hw, ih hs]
    simp [Cursor.skipMany, Cursor.skip, List.drop_tail, Nat.add_assoc, Nat.add_comm 1 n]

/-- The first break. -/
theorem spaceAt_first (hp : p.rest = c :: cs) (hc : Cursor.IsOwnBreak c) (hw : w.broken = false) :
    spaceAt indent w p =
      spaceAt indent { w with first := [c], broken := true } (p.afterBreak cs) := by
  have hg : isGap c = false := by rcases hc with rfl | rfl | rfl <;> rfl
  rw [spaceAt, spaceAt, hp, List.length_cons]
  conv => lhs; rw [readSpace, hp]
  simp [hg, hc.isBreak, hw, Cursor.takeBreak_eq hp hc, Cursor.afterBreak]

/-- A further break. -/
theorem spaceAt_more (hp : p.rest = c :: cs) (hc : Cursor.IsOwnBreak c) (hw : w.broken = true) :
    spaceAt indent w p = spaceAt indent { w with more := w.more ++ [c] } (p.afterBreak cs) := by
  have hg : isGap c = false := by rcases hc with rfl | rfl | rfl <;> rfl
  rw [spaceAt, spaceAt, hp, List.length_cons]
  conv => lhs; rw [readSpace, hp]
  simp [hg, hc.isBreak, hw, Cursor.takeBreak_eq hp hc, Cursor.afterBreak]

/-- To the first token of the next line. -/
theorem spaceAt_line (indent : Option Int) (hp : p.rest = '\n' :: (spaces n ++ cs))
    (h : atToken cs = true) :
    ∃ q, p.Passed ('\n' :: spaces n) q ∧
      spaceAt indent {} p = .ok ({ first := ['\n'], broken := true }, q) := by
  have hown : Cursor.IsOwnBreak '\n' := .inl rfl
  have hpass : (p.afterBreak (spaces n ++ cs)).Passed (spaces n) _ :=
    Cursor.Passed.skipMany rfl spaces_flat
  refine ⟨_, (Cursor.Passed.afterBreak hp hown).trans hpass, ?_⟩
  rw [length_spaces, spaceAt_first hp hown rfl, spaceAt_spaces rfl rfl, spaceAt_end]
  simpa [Cursor.skipMany, Cursor.afterBreak] using h

end

/-! ## The end of the text -/

/-- At the end, the outermost collection ends. -/
theorem all_finish : all (fuel + 1) (blockState ts 0 [-1] a ⟨[], x, l, 0⟩) =
    .ok (ts ++ [.blockEnd, .finish]) := by
  have hs : (blockState ts 0 [-1] a ⟨[], x, l, 0⟩).settle =
      .ok (blockState ts 0 [-1] a ⟨[], x, l, 0⟩) := settled rfl rfl (Int.le_refl 0)
  have hu : (blockState ts 0 [-1] a ⟨[], x, l, 0⟩).unroll (-1) =
      blockState (ts ++ [.blockEnd]) (-1) [] a ⟨[], x, l, 0⟩ :=
    (unroll_pop (by decide)).trans (unroll_le (Int.le_refl _))
  have hn : (blockState ts 0 [-1] a ⟨[], x, l, 0⟩).next =
      .ok (blockState (ts ++ [.blockEnd, .finish]) (-1) [] a ⟨[], x, l, 0⟩, false) := by
    rw [next, hs]
    change (((blockState ts 0 [-1] a ⟨[], x, l, 0⟩).unroll (-1)).dropCandidate >>= fun s =>
      .ok (s.push .finish, false)) = _
    rw [hu]
    change Except.ok ((blockState (ts ++ [.blockEnd]) (-1) [] a ⟨[], x, l, 0⟩).push .finish, false)
      = _
    rw [push_blockState, List.append_assoc]
    rfl
  rw [all, hn]
  rfl

end Scanner
end Runbook.Yaml

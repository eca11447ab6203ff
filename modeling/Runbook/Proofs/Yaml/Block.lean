import Runbook.Proofs.Json.Integral
import Runbook.Proofs.Yaml.Word

/-!
# Documents outside of brackets

The scanner reads back what is written of a value. One lemma says of each part of a line which state
it leads to: a text (`Reaches.textValue`), a word (`Reaches.wordValue`), an empty collection
(`Reaches.emptyValue`), a key with its colon (`Reaches.key`). A value is read from its key or dash
to the next line that is indented no more (`ReadsOn`), items and fields one after the other, and so
the tokens of a document are those of its object (`tokens_write`).
-/

namespace Runbook.Yaml

namespace Scanner

open Cursor (Passed)

variable {ts us : List Token} {i : Int} {is : List Int} {a : Bool} {j k x l n : Nat}
  {c : Char} {cs ds text rest : List Char} {p q : Cursor} {s : Scanner}

/-! ## Plain scalars -/

/-- A character that begins a plain scalar. -/
theorem tokenFrom_plain (hc : "#,[]\x7b\x7d&*!|>'\"%@\x60".toList.contains c = false)
    (hg : isGap c = false) (hb : isBreak c = false)
    (hm : [':', '?', '-'].contains c = true → atGap rest = false)
    (hf : c = ':' ∨ c = '?' → s.flow = 0) : s.tokenFrom c rest = s.plain := by
  have hgap : [':', '?', '-'].contains c = true → (rest.head?.map isGap).getD false = false := by
    intro h
    have := hm h
    cases rest with
    | nil => rfl
    | cons d rest => exact (Bool.or_eq_false_iff.1 this).1
  simp only [String.reduceToList, List.contains_eq_mem, List.mem_cons, List.not_mem_nil, or_false,
    Bool.decide_or, Bool.or_eq_false_iff, decide_eq_false_iff_not, Bool.or_eq_true,
    decide_eq_true_eq] at hc hm hgap
  rw [tokenFrom]
  by_cases h1 : c = ':'
  · subst h1
    simp [hm, hf]
  · by_cases h2 : c = '?'
    · subst h2
      simp [hm, hf]
    · by_cases h3 : c = '-'
      · subst h3
        simp [hm, hgap]
      · simp_all [startsPlain]

theorem tokenFrom_word (h : IsWord (c :: ds)) (text : List Char) :
    s.tokenFrom c (ds ++ text) = s.plain := by
  obtain ⟨hw, d, es, hcs, hsign⟩ := h
  cases hcs
  have hne (es : String) (hes : ∀ e ∈ es.toList, isWordChar e = false) : c ∉ es.toList :=
    fun hc => absurd (hw c List.mem_cons_self) (by simp [hes c hc])
  obtain ⟨hg, hb, -⟩ :=
    isSolid_of_isWordChar (hw c List.mem_cons_self) 0 []
  have hcolon : c ≠ ':' ∧ c ≠ '?' := by simpa using hne ":?" (by decide)
  have hmark : c ∉ "#,[]\x7b\x7d&*!|>'\"%@\x60".toList := hne _ (by decide)
  refine tokenFrom_plain (by simpa using hmark) hg hb (fun hm => ?_)
    fun h => absurd h (not_or.2 hcolon)
  obtain ⟨e, es, rfl⟩ := List.exists_cons_of_ne_nil (hsign (by simpa [hcolon] using hm))
  obtain ⟨heg, heb, -⟩ := isSolid_of_isWordChar (hw e (by simp)) 0 []
  simp [atGap, heg, heb]

theorem tokenFrom_plainText (h : PlainText (c :: ds)) (hf : s.flow = 0) (text : List Char) :
    s.tokenFrom c (ds ++ text) = s.plain := by
  obtain ⟨hb, ht⟩ := h.flat c List.mem_cons_self
  obtain ⟨d, es, hcs, hs⟩ := h.first
  cases hcs
  have hstart := h.start
  rw [Traits.badStart, Bool.or_eq_false_iff] at hstart
  refine tokenFrom_plain hstart.1 (by simp [isGap, hs, ht]) hb (fun hm => ?_) fun _ => hf
  have hgap : atGap ds = false := by simpa only [hm, Bool.true_and] using hstart.2
  cases ds with
  | nil => cases hgap
  | cons e ds => exact hgap

/-- A plain text begins with a token that is no directive. -/
theorem PlainText.head (h : PlainText (c :: cs)) (rest : List Char) :
    atToken (c :: rest) = true ∧ c ≠ '%' := by
  obtain ⟨hb, ht⟩ := h.flat c List.mem_cons_self
  obtain ⟨d, es, hcs, hs⟩ := h.first
  cases hcs
  have hstart := h.start
  rw [Traits.badStart, Bool.or_eq_false_iff] at hstart
  have hmark : c ≠ '#' ∧ c ≠ '%' := by
    constructor <;> rintro rfl <;> exact absurd hstart.1 (by decide)
  exact ⟨by simp [atToken, isGap, hs, hb, ht, hmark.1], hmark.2⟩

/-! ## Tokens that may be keys -/

/-- A token at its place. -/
theorem Reaches.tokenHere {Q : Scanner → Prop} (hi : i ≤ p.column) (hp : p.rest = c :: rest)
    (hc : atToken (c :: rest) = true) (hpercent : c ≠ '%') (hm : p.atDocumentMark = false)
    (ht : (blockState ts i is a p).tokenFrom c rest = .ok s)
    (hlt : s.at_.rest.length < p.rest.length) (hq : Q s) : Reaches (blockState ts i is a p) Q :=
  of_token (settled (hp ▸ hc) rfl hi) (token_eq hp (fun h => absurd h hpercent) hm ht) hlt hq

theorem length_lt_of_passed (hq : p.Passed text q) (hne : text ≠ []) :
    q.rest.length < p.rest.length := by
  rw [hq.rest, List.length_append]
  have := List.length_pos_of_ne_nil hne
  omega

/-- A plain scalar. -/
theorem Reaches.plain {t : String} {broken : Bool} (hi : i ≤ p.column) (hp : p.rest = c :: rest)
    (hc : atToken (c :: rest) = true) (hpercent : c ≠ '%') (hm : p.atDocumentMark = false)
    (htoken : ∀ s : Scanner, s.flow = 0 → s.tokenFrom c rest = s.plain) (hq : p.Passed text q)
    (hne : text ≠ [])
    (hread : readPlain 0 (i + 1) (p.rest.length + 1) [] {} p = .ok ((t, broken), q)) :
    Reaches (blockState ts i is a p)
      (· = keyState (ts ++ [.scalar t .plain]) i is broken (candidate? ts i a p) q) :=
  tokenHere hi hp hc hpercent hm ((htoken _ rfl).trans (plain_blockState hread))
    (length_lt_of_passed hq hne) rfl

/-- A scalar in quotes. -/
theorem Reaches.quoted (ts : List Token) (is : List Int) (a : Bool) {single : Bool}
    {esc : Char → List Char} {tail : List Char} (hi : i ≤ p.column) (h : Quotable single esc n cs)
    (ht : single = true → ∀ d ∈ tail.head?, d ≠ '\'')
    (hp : p.rest = quoteMark single :: (quotedLines esc n false cs ++ quoteMark single :: tail)) :
    ∃ q, p.Passed (quoteMark single :: (quotedLines esc n false cs ++ [quoteMark single])) q ∧
      Reaches (blockState ts i is a p)
        (· = keyState (ts ++ [.scalar (String.ofList cs) .quoted]) i is false
          (candidate? ts i a p) q) := by
  obtain ⟨q, hq, hread⟩ := readQuoted_text h ht hp
  have hmark : p.atDocumentMark = false := by
    cases single <;> simp [Cursor.atDocumentMark, hp, quoteMark]
  have htoken (rest : List Char) : (blockState ts i is a p).tokenFrom (quoteMark single) rest =
      (blockState ts i is a p).part fun p =>
        (readQuoted single (p.rest.length + 1) [] p.skip).map fun x =>
          (.scalar x.1 .quoted, x.2) := by
    cases single <;> rfl
  refine ⟨q, hq, tokenHere hi hp (by cases single <;> rfl) (by cases single <;> decide) hmark
    ((htoken _).trans (part_blockState (q := q) ?_))
    (length_lt_of_passed hq (List.cons_ne_nil _ _)) rfl⟩
  rw [hread]
  rfl

/-- A literal block. -/
theorem Reaches.literal {t : String} (hi : i ≤ p.column) (hp : p.rest = '|' :: rest)
    (hq : p.Passed text q) (hne : text ≠ []) (hread : readBlock true i p.skip = .ok (t, q)) :
    Reaches (blockState ts i is a p)
      (· = blockState (ts ++ [.scalar t .literal]) i is true q) :=
  tokenHere hi hp rfl (by decide) (by simp [Cursor.atDocumentMark, hp]) (block_blockState hread)
    (length_lt_of_passed hq hne) rfl

/-! ## Texts -/

/-- The style that a text is read in. -/
def styleOf : Form → Style
  | .plain => .plain
  | .literal => .literal
  | _ => .quoted

/-- The token of a text. -/
def textToken (s : String) : Token := .scalar s (styleOf (formOf s))

/-- A text in another form than a literal block, at its place. A plain text may pass over what ends
it. -/
theorem Reaches.textHere (ts : List Token) (is : List Int) (a : Bool) (p : Cursor) {t : String}
    {extra tail : List Char} {broken : Bool} (hform : formOf t ≠ .literal) (hn : n ≠ 0)
    (hi : i ≤ p.column) (hp : p.rest = writeText n t ++ tail)
    (hend : PlainEnd 0 (i + 1) tail extra broken)
    (ht : ∀ d ∈ tail.head?, d ≠ '-' ∧ d ≠ '.' ∧ d ≠ '\'') :
    ∃ q e b, p.Passed (writeText n t ++ e) q ∧ (e = extra ∧ b = broken ∨ e = [] ∧ b = false) ∧
      Reaches (blockState ts i is a p)
        (· = keyState (ts ++ [textToken t]) i is b (candidate? ts i a p) q) := by
  unfold textToken
  rw [writeText] at hp ⊢
  cases hcase : formOf t with
  | plain =>
    obtain ⟨htext, -⟩ := plainText_of_form hcase
    simp only [hcase] at hp ⊢
    have hm := htext.atDocumentMark (fun d hd => ⟨(ht d hd).1, (ht d hd).2.1⟩) hp
    obtain ⟨q, hq, hread⟩ := readPlain_text htext hend hm hp (by omega)
    obtain ⟨c, cs, hcs, hs⟩ := htext.first
    rw [hcs] at htext
    have hrest : p.rest = c :: (cs ++ tail) := by rw [hp, hcs, List.cons_append]
    obtain ⟨hfirst, hpercent⟩ := htext.head (cs ++ tail)
    refine ⟨q, extra, broken, hq, .inl ⟨rfl, rfl⟩, ?_⟩
    have hplain : Reaches (blockState ts i is a p) _ := Reaches.plain hi hrest hfirst hpercent hm
      (fun s hf => tokenFrom_plainText htext hf tail) hq (by simp [hcs]) hread
    rwa [String.ofList_toList] at hplain
  | single =>
    simp only [hcase, singleQuoted] at hp ⊢
    rw [singleLines_eq] at hp ⊢
    have hp : p.rest = '\'' :: (quotedLines singleChar n false t.toList ++ '\'' :: tail) := by
      simpa using hp
    obtain ⟨q, hq, hquoted⟩ := Reaches.quoted ts is a hi ((singleText_of_form hcase).quotable hn)
      (fun _ d hd => (ht d hd).2.2) hp
    rw [String.ofList_toList] at hquoted
    exact ⟨q, [], false, by simpa [quoteMark] using hq, .inr ⟨rfl, rfl⟩, hquoted⟩
  | double =>
    simp only [hcase, doubleQuoted] at hp ⊢
    rw [← quotedLines_zero false] at hp ⊢
    have hp : p.rest = '"' :: (quotedLines escapeChar 0 false t.toList ++ '"' :: tail) := by
      simpa using hp
    obtain ⟨q, hq, hquoted⟩ := Reaches.quoted ts is a hi
      (.of_solid fun c _ => solid_escapeChar c) (fun h => absurd h Bool.false_ne_true) hp
    rw [String.ofList_toList] at hquoted
    exact ⟨q, [], false, by simpa [quoteMark] using hq, .inr ⟨rfl, rfl⟩, hquoted⟩
  | literal => exact absurd hcase hform

/-- To the next line after a token that may be a key but is none. -/
theorem Reaches.afterLine {ts us : List Token} (hk : i < p.column) (hds : atToken ds = true)
    (hq : p.Passed text q) (hrest : q.rest = '\n' :: (spaces j ++ ds)) :
    Reaches (keyState ts i is false (candidate? us i a p) q) (AtBlock ts i is true ds j) := by
  obtain ⟨r, y, m, h⟩ := q
  subst hrest
  refine Reaches.line hds fun d hd => ?_
  unfold candidate? at hd
  split at hd
  · cases hd
    refine ⟨beq_eq_false_iff_ne.2 (Int.ne_of_lt hk), ?_⟩
    have hl : m = p.line + text.countP isBreak := hq.line
    exact hl ▸ Nat.le_add_right _ _
  · cases hd

/-- To the next line after a plain token that has passed over its end. -/
theorem Reaches.afterBreak {ts us : List Token} (hk : i < p.column) (hds : atToken ds = true)
    (hq : p.Passed (text ++ '\n' :: spaces j) q) (hrest : q.rest = ds) :
    Reaches (keyState ts i is true (candidate? us i a p) q) (AtBlock ts i is true ds j) := by
  obtain ⟨r, y, m, h⟩ := q
  subst hrest
  have hcol : h = j := by
    have : h = _ := hq.column
    rw [this, Cursor.columnAfter_append, Cursor.columnAfter_line]
  have hline : p.line < m := by
    have : m = _ := hq.line
    rw [this, List.countP_append, List.countP_cons_of_pos (by rfl)]
    omega
  subst hcol
  refine Reaches.ofKeyState hds (fun d hd => ?_) ⟨_, _, rfl⟩
  unfold candidate? at hd
  split at hd
  · cases hd
    exact ⟨beq_eq_false_iff_ne.2 (Int.ne_of_lt hk), hline⟩
  · cases hd

theorem ended_writeText {t : String} (hform : formOf t ≠ .literal) :
    ended (writeText n t) = writeText n t ++ ['\n'] := by
  have hended {cs : List Char} (h : ∀ c ∈ cs.getLast?, isBreak c = false) :
      ended cs = cs ++ ['\n'] := by
    rw [ended]
    cases hlast : cs.getLast? with
    | none => rfl
    | some c => simp [h c hlast]
  refine hended fun c hc => ?_
  unfold writeText at hc
  split at hc
  · exact ((plainText_of_form ‹_›).1.flat c (List.mem_of_getLast? hc)).1
  · rw [singleQuoted, List.getLast?_concat] at hc
    cases hc
    rfl
  · rw [doubleQuoted, List.getLast?_concat] at hc
    cases hc
    rfl
  · exact absurd ‹_› hform

/-- A text as a value, to the next line. -/
theorem Reaches.textValue {t : String} (hk : n < k) (hj : j ≤ n) (hds : atToken ds = true) :
    Reaches (blockState ts n is a ⟨ended (writeText (n + 2) t) ++ (spaces j ++ ds), x, l, k⟩)
      (AtBlock (ts ++ [textToken t]) n is true ds j) := by
  have hki : (n : Int) < k := by omega
  by_cases hform : formOf t = .literal
  · obtain ⟨ht, hne⟩ := literalText_of_form hform
    have hwritten : ended (writeText (n + 2) t) = '|' :: (indentHint t.toList ++
        chompingMark t.toList ++ '\n' :: literalLines (n + 2) true (ended t.toList)) := by
      have hblock := ended_literalLines (n := n + 2)
        ('|' :: (indentHint t.toList ++ chompingMark t.toList) ++ ['\n']) hne
      simpa [writeText, hform, literalBlock] using hblock
    rw [hwritten]
    let p : Cursor := ⟨'|' :: (indentHint t.toList ++ chompingMark t.toList ++
      '\n' :: literalLines (n + 2) true (ended t.toList)) ++ (spaces j ++ ds), x, l, k⟩
    have hp : p.rest = '|' :: (indentHint t.toList ++ chompingMark t.toList ++
        '\n' :: literalLines (n + 2) true (ended t.toList) ++ (spaces j ++ ds)) := List.cons_append
    have hpass := Passed.skip hp rfl
    obtain ⟨q, hq, hcol, hread⟩ := readBlock_literal ht hne (by omega) hds (hpass.rest_eq hp)
    rw [String.ofList_toList] at hread
    refine (Reaches.literal (p := p) (Int.le_of_lt hki) hp (hpass.trans hq) (by simp) hread).mono ?_
    rintro _ rfl
    have hrest : q.rest = ds :=
      hq.rest_eq (by rw [hpass.rest_eq hp]; exact (List.append_assoc _ _ _).symm)
    obtain ⟨_, y, m, h⟩ := q
    subst hrest hcol
    refine ⟨y, m, ?_⟩
    rw [textToken, hform]
    rfl
  · rw [ended_writeText hform, List.append_assoc, List.singleton_append]
    obtain ⟨q, e, b, hq, hcase, hreach⟩ := Reaches.textHere ts is a
      ⟨writeText (n + 2) t ++ '\n' :: (spaces j ++ ds), x, l, k⟩ hform (Nat.succ_ne_zero _)
      (Int.le_of_lt hki) rfl (PlainEnd.line hds (by omega)) (by simp)
    refine hreach.bind ?_
    rintro _ rfl
    rcases hcase with ⟨rfl, rfl⟩ | ⟨rfl, rfl⟩
    · exact Reaches.afterBreak hki hds hq (hq.rest_eq (by simp))
    · exact Reaches.afterLine hki hds hq (hq.rest_eq (by simp))

theorem atToken_word (h : IsWord cs) (rest : List Char) : atToken (cs ++ rest) = true := by
  obtain ⟨c, cs, rfl, -⟩ := h.first
  obtain ⟨hg, hb, hhash, -⟩ :=
    isSolid_of_isWordChar (h.chars c List.mem_cons_self) 0 []
  simp [atToken, hg, hb, hhash]

/-- A single word as a value, to the next line. -/
theorem Reaches.wordValue {w : String} (h : IsWord w.toList) (hk : n < k) (hj : j ≤ n)
    (hds : atToken ds = true) :
    Reaches (blockState ts n is a ⟨w.toList ++ '\n' :: (spaces j ++ ds), x, l, k⟩)
      (AtBlock (ts ++ [.scalar w .plain]) n is true ds j) := by
  have hki : (n : Int) < k := by omega
  have hcol : k ≠ 0 := by omega
  let p : Cursor := ⟨w.toList ++ '\n' :: (spaces j ++ ds), x, l, k⟩
  have hend : PlainEnd 0 ((n : Int) + 1) ('\n' :: (spaces j ++ ds)) ('\n' :: spaces j) true :=
    .line hds (by omega)
  obtain ⟨c, cs, hcs, -⟩ := h.first
  obtain ⟨q, hq, hread⟩ := readPlain_single (p := p) h.chars (by simp [hcs]) hend hcol rfl
  rw [String.ofList_toList] at hread
  have hp : p.rest = c :: (cs ++ '\n' :: (spaces j ++ ds)) := by simp [p, hcs]
  have hpercent : c ≠ '%' := by
    rintro rfl
    exact absurd (h.chars '%' (by simp [hcs])) (by decide)
  have htoken := atToken_word h ('\n' :: (spaces j ++ ds))
  rw [hcs] at h htoken
  refine (Reaches.plain (p := p) (Int.le_of_lt hki) hp htoken hpercent (atDocumentMark_column hcol)
    (fun s _ => tokenFrom_word h _) hq (by simp) hread).bind ?_
  rintro _ rfl
  exact Reaches.afterBreak hki hds hq (hq.rest_eq (by simp [p]))

/-- A state within one pair of brackets, with the candidate from before it. -/
def bracketState (ts : List Token) (i : Int) (is : List Int) (c : Option Candidate) (p : Cursor) :
    Scanner :=
  { keyState ts i is true c p with flow := 1, candidates := [none, c] }

theorem openFlow_blockState {t : Token} : (blockState ts i is a ⟨c :: cs, x, l, k⟩).openFlow t =
    .ok (bracketState (ts ++ [t]) i is (candidate? ts i a ⟨c :: cs, x, l, k⟩)
      ⟨cs, x + 1, l, k + 1⟩) := by
  rw [openFlow, saveCandidate_blockState]
  change Except.ok _ = _
  simp [bracketState, keyState, blockState, push, moved, Cursor.skip]

theorem closeFlow_bracketState {t : Token} {d : Option Candidate} :
    (bracketState ts i is d ⟨c :: cs, x, l, k⟩).closeFlow t =
      .ok (keyState (ts ++ [t]) i is false d ⟨cs, x + 1, l, k + 1⟩) := by
  change Except.ok _ = _
  simp [bracketState, keyState, blockState, push, moved, Cursor.skip]

/-- The two characters of an empty collection, with their tokens. -/
inductive EmptyBrackets : Char → Char → Token → Token → Prop
  | sequence : EmptyBrackets '[' ']' .openSequence .closeSequence
  | mapping : EmptyBrackets '\x7b' '\x7d' .openMapping .closeMapping

/-- An empty collection as a value, to the next line. -/
theorem Reaches.emptyValue {o c : Char} {t u : Token} (h : EmptyBrackets o c t u) (hk : n < k)
    (hds : atToken ds = true) :
    Reaches (blockState ts n is a ⟨o :: c :: '\n' :: (spaces j ++ ds), x, l, k⟩)
      (AtBlock (ts ++ [t, u]) n is true ds j) := by
  have hki : (n : Int) < k := by omega
  let p : Cursor := ⟨o :: c :: '\n' :: (spaces j ++ ds), x, l, k⟩
  let q : Cursor := ⟨c :: '\n' :: (spaces j ++ ds), x + 1, l, k + 1⟩
  let r : Cursor := ⟨'\n' :: (spaces j ++ ds), x + 2, l, k + 2⟩
  let s := bracketState (ts ++ [t]) n is (candidate? ts n a p) q
  have hopen : (blockState ts n is a p).tokenFrom o q.rest = .ok s := by
    cases h <;> exact openFlow_blockState
  have hclose : s.tokenFrom c r.rest =
      .ok (keyState (ts ++ [t] ++ [u]) n is false (candidate? ts n a p) r) := by
    cases h <;> exact closeFlow_bracketState
  have hstale : s.dropStale = .ok s := by
    cases a <;> simp [s, p, q, bracketState, keyState, blockState, dropStale, candidate?,
      candidateAt, isStale]
  have hfirst : Reaches (blockState ts n is a p) (· = s) := by
    refine tokenHere (Int.le_of_lt hki) rfl ?_ ?_ ?_ hopen (Nat.lt_succ_self _) rfl
    all_goals cases h
    all_goals first | rfl | decide | simp [p, Cursor.atDocumentMark]
  have hsecond : Reaches s
      (· = keyState (ts ++ [t] ++ [u]) n is false (candidate? ts n a p) r) := by
    refine of_token (settled ?_ hstale ?_) (token_eq rfl ?_ ?_ hclose) (Nat.lt_succ_self _) rfl
    · cases h <;> rfl
    · exact Int.le_trans (Int.le_of_lt hki) (Int.ofNat_le.2 (Nat.le_succ k))
    · intro hpercent
      cases h <;> cases hpercent
    · cases h <;> simp [s, q, bracketState, keyState, blockState, Cursor.atDocumentMark]
  refine hfirst.bind ?_
  rintro _ rfl
  refine hsecond.bind ?_
  rintro _ rfl
  have hpassed : p.Passed [o, c] r := by cases h <;> exact ⟨rfl, rfl, rfl, rfl⟩
  rw [List.append_assoc]
  exact afterLine hki hds hpassed rfl

/-! ## Scalars -/

theorem writeText_ne_nil (t : String) : writeText n t ≠ [] := by
  unfold writeText
  split
  · obtain ⟨c, cs, hcs, -⟩ := (plainText_of_form ‹_›).1.first
    simp [hcs]
  all_goals exact List.cons_ne_nil _ _

theorem atToken_writeText (t : String) (rest : List Char) :
    atToken (writeText n t ++ rest) = true := by
  unfold writeText
  split
  · obtain ⟨htext, -⟩ := plainText_of_form ‹_›
    obtain ⟨c, cs, hcs, -⟩ := htext.first
    rw [hcs] at htext ⊢
    exact (htext.head _).1
  all_goals rfl

theorem exists_ended (cs : List Char) : ∃ e, ended cs = cs ++ e := by
  unfold ended
  split
  · exact ⟨[], (List.append_nil cs).symm⟩
  · exact ⟨['\n'], rfl⟩

theorem ended_word (h : IsWord cs) : ended cs = cs ++ ['\n'] := by
  obtain ⟨c, ds, hcs, -⟩ := h.first
  have hne : cs ≠ [] := by simp [hcs]
  have hlast := (isSolid_of_isWordChar (h.chars _ (List.getLast_mem hne)) 0 []).2.1
  rw [ended, List.getLast?_eq_some_getLast hne]
  simp [hlast]

end Scanner

open Scanner

/-! ## Tokens of documents -/

mutual
/-- The tokens of a value. Those of a sequence that begins below its key have no start and end of
their own. -/
def blockTokens (below : Bool) : Json → List Token
  | .arr [] => [.openSequence, .closeSequence]
  | .obj [] => [.openMapping, .closeMapping]
  | .arr (x :: xs) =>
    if below then itemTokens (x :: xs) else .blockSequence :: itemTokens (x :: xs) ++ [.blockEnd]
  | .obj (e :: es) => .blockMapping :: fieldTokens (e :: es) ++ [.blockEnd]
  | .str s => [textToken s]
  | v => [.scalar ((word? v).getD "") .plain]

/-- The tokens of items. -/
def itemTokens : List Json → List Token
  | [] => []
  | x :: xs => .entry :: blockTokens false x ++ itemTokens xs

/-- The tokens of fields. -/
def fieldTokens : List (String × Json) → List Token
  | [] => []
  | (k, v) :: es =>
    .key :: textToken k :: .value :: blockTokens (isSimpleKey k) v ++ fieldTokens es
end

namespace Scanner

variable {ts us : List Token} {i : Int} {is : List Int} {a : Bool} {j k x l n : Nat}
  {c : Char} {cs ds text rest : List Char} {p q : Cursor} {s : Scanner}

/-- A value that is written without lines of other values, with its tokens. -/
inductive Inline : Json → List Token → Prop
  | word {v : Json} {w : String} (h : word? v = some w) : Inline v [.scalar w .plain]
  | text (t : String) : Inline (.str t) [textToken t]
  | sequence : Inline (.arr []) [.openSequence, .closeSequence]
  | mapping : Inline (.obj []) [.openMapping, .closeMapping]

/-- Such a value, after the space behind its key or dash. -/
theorem Reaches.inlineValue {v : Json} (h : Inline v us) (hk : n ≤ k) (hj : j ≤ n)
    (hds : atToken ds = true) :
    Reaches (blockState ts n is a
        ⟨' ' :: ended (writeScalar (n + 2) v) ++ (spaces j ++ ds), x, l, k⟩)
      (AtBlock (ts ++ us) n is true ds j) := by
  have hblank {cs : List Char} (hcs : atToken cs = true) :
      Reaches (blockState ts n is a ⟨' ' :: cs, x, l, k⟩) (AtBlock ts n is a cs (k + 1)) :=
    blanks (n := 1) hcs
  have hk' : n < k + 1 := Nat.lt_succ_of_le hk
  rw [List.cons_append]
  cases h with
  | @word v w hw =>
    have hword := isWord_of_word? hw
    rw [writeScalar_word hw, ended_word hword, List.append_assoc, List.singleton_append]
    refine (hblank (atToken_word hword _)).bind ?_
    rintro _ ⟨y, m, rfl⟩
    exact wordValue hword hk' hj hds
  | text t =>
    obtain ⟨e, he⟩ := exists_ended (writeText (n + 2) t)
    refine (hblank ?_).bind ?_
    · rw [writeScalar, he, List.append_assoc]
      exact atToken_writeText t _
    · rintro _ ⟨y, m, rfl⟩
      exact textValue hk' hj hds
  | sequence =>
    refine (hblank rfl).bind ?_
    rintro _ ⟨y, m, rfl⟩
    exact emptyValue .sequence hk' hds
  | mapping =>
    refine (hblank rfl).bind ?_
    rintro _ ⟨y, m, rfl⟩
    exact emptyValue .mapping hk' hds

/-! ## Keys -/

/-- A key with its colon. A long key leaves its value in the column behind the colon, where a
collection may begin. -/
theorem Reaches.key {key : String} {value : Bool → List Char} (hi : i ≤ n)
    (hv : ∀ b, atGap (value b ++ rest) = true) :
    Reaches (blockState ts i is true ⟨writeField n key value ++ rest, x, l, n⟩) fun s =>
      ∃ k, n < k ∧ (isSimpleKey key = false → k = n + 1) ∧
        AtBlock (ts ++ opens i n .blockMapping ++ [.key, textToken key, .value]) n (around i n is)
          (!isSimpleKey key) (value (isSimpleKey key) ++ rest) k s := by
  unfold writeField
  cases hkey : isSimpleKey key with
  | true =>
    obtain ⟨hform, hflat, hlen⟩ := writeText_simpleKey (n := n + 2) hkey
    let p : Cursor := ⟨writeText (n + 2) key ++ ':' :: (value true ++ rest), x, l, n⟩
    obtain ⟨q, e, b, hq, hcase, hreach⟩ := Reaches.textHere ts is true p (n := n + 2) hform
      (Nat.succ_ne_zero _) hi rfl (PlainEnd.key (hv true)) (by simp)
    obtain ⟨rfl, rfl⟩ : e = [] ∧ b = false := by
      rcases hcase with h | h <;> exact h
    rw [List.append_nil] at hq
    obtain ⟨hline, hcolumn⟩ := hq.flat hflat
    have hpos := List.length_pos_of_ne_nil (writeText_ne_nil (n := n + 2) key)
    have hafter : p.column < q.column := by omega
    have hnear : q.index ≤ p.index + 1024 := by
      rw [hq.index]
      omega
    rw [if_pos rfl, List.append_assoc, List.cons_append]
    refine hreach.bind ?_
    rintro _ rfl
    refine (Reaches.keyColon (p := p) (hv true) hi hline hnear hafter (hq.rest_eq rfl)).mono
      fun s hs => ⟨q.column + 1, Nat.lt_succ_of_lt hafter, nofun, ?_⟩
    simpa using hs
  | false =>
    let mark : List Char := '?' :: ' ' :: (ended (writeText (n + 2) key) ++
      (spaces n ++ ':' :: (value false ++ rest)))
    rw [if_neg Bool.false_ne_true]
    have hshape : ('?' :: ' ' :: ended (writeText (n + 2) key) ++ spaces n ++ ':' :: value false) ++
        rest = mark := by simp [mark]
    rw [hshape]
    refine (Reaches.question rfl hi).bind ?_
    rintro _ ⟨y, m, rfl⟩
    have htoken : atToken (ended (writeText (n + 2) key) ++
        (spaces n ++ ':' :: (value false ++ rest))) = true := by
      obtain ⟨e, he⟩ := exists_ended (writeText (n + 2) key)
      rw [he, List.append_assoc]
      exact atToken_writeText key _
    refine (Reaches.blanks (n := 1) htoken).bind ?_
    rintro _ ⟨y, m, rfl⟩
    refine (Reaches.textValue (Nat.lt_succ_of_lt (Nat.lt_succ_self n)) (Nat.le_refl n) rfl).bind ?_
    rintro _ ⟨y, m, rfl⟩
    refine (Reaches.colon (hv false)).mono fun s hs => ⟨n + 1, Nat.lt_succ_self n, fun _ => rfl, ?_⟩
    simpa using hs

/-! ## Values -/

theorem atGap_writeValue (below : Bool) (v : Json) (rest : List Char) :
    atGap (writeValue n below v ++ rest) = true := by
  unfold writeValue
  split
  · split <;> rfl
  · split <;> rfl
  · rfl

/-- A value on the line of its key or dash. -/
theorem Reaches.inline {v : Json} {below : Bool} (h : Inline v us) (hk : n ≤ k) (hj : j ≤ n)
    (hds : atToken ds = true) :
    Reaches (blockState ts n is a ⟨writeValue n below v ++ (spaces j ++ ds), x, l, k⟩)
      (AtBlock (ts ++ blockTokens below v) n is true ds j) := by
  have hshape : writeValue n below v = ' ' :: ended (writeScalar (n + 2) v) ∧
      blockTokens below v = us := by
    cases h with
    | @word v w hw => cases v <;> cases hw <;> exact ⟨rfl, rfl⟩
    | _ => exact ⟨rfl, rfl⟩
  rw [hshape.1, hshape.2]
  exact inlineValue h hk hj hds

theorem atToken_writeField {key : String} {value : Bool → List Char} (rest : List Char) :
    atToken (writeField n key value ++ rest) = true := by
  unfold writeField
  split
  · rw [List.append_assoc]
    exact atToken_writeText key _
  · rfl

/-- Behind its key or dash, a value is read to the next line that is indented no more than the
collection around it. Where it begins below its key, it may be a sequence in the same column. -/
def ReadsOn (v : Json) : Prop :=
  ∀ {n j k x l : Nat} {below a : Bool} {ts : List Token} {is : List Int} {ds : List Char}, n < k →
    (below = false → k = n + 1 ∧ a = true) → j ≤ n → atToken ds = true →
    Reaches (blockState ts n is a ⟨writeValue n below v ++ (spaces j ++ ds), x, l, k⟩)
      (AtBlock (ts ++ blockTokens below v) n is true ds j)

/-- The items of a sequence, from its first dash. -/
theorem Reaches.items {v : Json} {vs : List Json} (hv : ∀ w ∈ v :: vs, ReadsOn w) (hi : i ≤ n)
    (hj : j ≤ n) (hds : atToken ds = true) :
    Reaches (blockState ts i is true
        ⟨'-' :: (writeValue n false v ++ (writeItems n vs ++ (spaces j ++ ds))), x, l, n⟩)
      (AtBlock (ts ++ opens i n .blockSequence ++ itemTokens (v :: vs)) n (around i n is) true ds
        j) := by
  rw [itemTokens, List.cons_append, List.append_cons]
  induction vs generalizing v ts i is x l with
  | nil =>
    refine (Reaches.dash (atGap_writeValue false v _) hi).bind ?_
    rintro _ ⟨y, m, rfl⟩
    rw [itemTokens, List.append_nil]
    exact hv v List.mem_cons_self (Nat.lt_succ_self n) (fun _ => ⟨rfl, rfl⟩) hj hds
  | cons w vs ih =>
    refine (Reaches.dash (atGap_writeValue false v _) hi).bind ?_
    rintro _ ⟨y, m, rfl⟩
    have hlines : writeItems n (w :: vs) ++ (spaces j ++ ds) = spaces n ++
        '-' :: (writeValue n false w ++ (writeItems n vs ++ (spaces j ++ ds))) := by
      simp [writeItems]
    rw [hlines]
    refine Reaches.bind (hv v List.mem_cons_self (Nat.lt_succ_self n) (fun _ => ⟨rfl, rfl⟩)
      (Nat.le_refl n) rfl) ?_
    rintro _ ⟨y, m, rfl⟩
    refine Reaches.mono (ih (fun u hu => hv u (List.mem_cons_of_mem _ hu)) (Int.le_refl n)) ?_
    intro s hs
    simpa [itemTokens] using hs

/-- The fields of a mapping, from its first key. -/
theorem Reaches.fields {key : String} {v : Json} {es : List (String × Json)}
    (hv : ∀ k w, (k, w) ∈ (key, v) :: es → ReadsOn w) (hi : i ≤ n) (hj : j ≤ n)
    (hds : atToken ds = true) :
    Reaches (blockState ts i is true
        ⟨writeField n key (fun b => writeValue n b v) ++ (writeFields n es ++ (spaces j ++ ds)),
          x, l, n⟩)
      (AtBlock (ts ++ opens i n .blockMapping ++ fieldTokens ((key, v) :: es)) n (around i n is)
        true ds j) := by
  have htokens (k : String) (w : Json) (es : List (String × Json)) : fieldTokens ((k, w) :: es) =
      [.key, textToken k, .value] ++ (blockTokens (isSimpleKey k) w ++ fieldTokens es) := rfl
  induction es generalizing key v ts i is x l with
  | nil =>
    refine (Reaches.key hi fun b => atGap_writeValue b v _).bind ?_
    rintro _ ⟨k, hk, hlong, y, m, rfl⟩
    refine Reaches.mono
      (hv key v List.mem_cons_self hk (fun h => ⟨hlong h, by rw [h]; rfl⟩) hj hds) ?_
    intro s hs
    simpa [htokens, fieldTokens] using hs
  | cons e es ih =>
    obtain ⟨key', w⟩ := e
    refine (Reaches.key hi fun b => atGap_writeValue b v _).bind ?_
    rintro _ ⟨k, hk, hlong, y, m, rfl⟩
    have hlines : writeFields n ((key', w) :: es) ++ (spaces j ++ ds) = spaces n ++
        (writeField n key' (fun b => writeValue n b w) ++
          (writeFields n es ++ (spaces j ++ ds))) := by
      simp [writeFields]
    rw [hlines]
    refine Reaches.bind (hv key v List.mem_cons_self hk (fun h => ⟨hlong h, by rw [h]; rfl⟩)
      (Nat.le_refl n) (atToken_writeField _)) ?_
    rintro _ ⟨y, m, rfl⟩
    refine Reaches.mono (ih (fun k u hu => hv k u (List.mem_cons_of_mem _ hu)) (Int.le_refl n)) ?_
    intro s hs
    simpa [htokens] using hs

/-- A collection that is indented more than the one around it ends before a line that is not. -/
theorem Reaches.ofNested {Q : Scanner → Prop} {t : Token} {us : List Token}
    (h : Reaches s (AtBlock (ts ++ opens n (n + 2 : Nat) t ++ us) (n + 2 : Nat)
      (around n (n + 2 : Nat) is) true ds j))
    (hj : j ≤ n) (hds : atToken ds = true)
    (hq : ∀ s, AtBlock (ts ++ (t :: us ++ [.blockEnd])) n is true ds j s → Q s) : Reaches s Q := by
  have hless : (n : Int) < (n + 2 : Nat) := by omega
  rw [opens, around, if_pos hless, if_pos hless] at h
  refine h.bind ?_
  rintro _ ⟨y, m, rfl⟩
  have hcolumn : (j : Int) < (n + 2 : Nat) := by omega
  refine Reaches.blockEnd hds hcolumn (hq _ ⟨y, m, ?_⟩)
  simp

/-- **A value without doubles** is read behind its key or dash. -/
theorem readsOn (v : Json) (hv : v.isIntegral = true) : ReadsOn v := by
  induction v using Json.induction with
  | null => exact fun hk _ hj hds => .inline (.word rfl) (Nat.le_of_lt hk) hj hds
  | bool b => exact fun hk _ hj hds => .inline (.word rfl) (Nat.le_of_lt hk) hj hds
  | int i => exact fun hk _ hj hds => .inline (.word rfl) (Nat.le_of_lt hk) hj hds
  | double x => cases hv
  | str t => exact fun hk _ hj hds => .inline (.text t) (Nat.le_of_lt hk) hj hds
  | arr vs ih =>
    rw [Json.isIntegral, Json.areIntegral_iff] at hv
    cases vs with
    | nil => exact fun hk _ hj hds => .inline .sequence (Nat.le_of_lt hk) hj hds
    | cons v vs =>
      have hitems : ∀ w ∈ v :: vs, ReadsOn w := fun w hw => ih w hw (hv w hw)
      intro n j k x l below a ts is ds hk hbelow hj hds
      cases below with
      | true =>
        have hlines : writeValue n true (.arr (v :: vs)) ++ (spaces j ++ ds) = '\n' :: (spaces n ++
            '-' :: (writeValue n false v ++ (writeItems n vs ++ (spaces j ++ ds)))) := by
          simp [writeValue, writeItems]
        rw [hlines]
        refine (Reaches.line (c := none) rfl nofun).bind ?_
        rintro _ ⟨y, m, rfl⟩
        refine (Reaches.items hitems (Int.le_refl n) hj hds).mono fun s hs => ?_
        simpa [blockTokens] using hs
      | false =>
        obtain ⟨rfl, rfl⟩ := hbelow rfl
        have hline : writeValue n false (.arr (v :: vs)) ++ (spaces j ++ ds) = spaces 1 ++
            '-' :: (writeValue (n + 2) false v ++ (writeItems (n + 2) vs ++ (spaces j ++ ds))) := by
          simp [writeValue, spaces]
        rw [hline]
        refine (Reaches.blanks rfl).bind ?_
        rintro _ ⟨y, m, rfl⟩
        exact Reaches.ofNested (Reaches.items hitems (by omega) (by omega) hds) hj hds
          fun s hs => hs
  | obj es ih =>
    rw [Json.isIntegral, Json.haveIntegral_iff] at hv
    cases es with
    | nil => exact fun hk _ hj hds => .inline .mapping (Nat.le_of_lt hk) hj hds
    | cons e es =>
      obtain ⟨key, v⟩ := e
      have hfields : ∀ k w, (k, w) ∈ (key, v) :: es → ReadsOn w :=
        fun k w hw => ih k w hw (hv k w hw)
      intro n j k x l below a ts is ds hk hbelow hj hds
      -- On either way, the first key stands two columns behind that of the collection around.
      have hfrom {y m : Nat} : Reaches (blockState ts n is true
          ⟨writeField (n + 2) key (fun b => writeValue (n + 2) b v) ++ (writeFields (n + 2) es ++
            (spaces j ++ ds)), y, m, n + 2⟩)
          (AtBlock (ts ++ blockTokens below (.obj ((key, v) :: es))) n is true ds j) :=
        Reaches.ofNested (Reaches.fields hfields (by omega) (by omega) hds) hj hds fun s hs => hs
      cases below with
      | true =>
        have hlines : writeValue n true (.obj ((key, v) :: es)) ++ (spaces j ++ ds) =
            '\n' :: (spaces (n + 2) ++ (writeField (n + 2) key (fun b => writeValue (n + 2) b v) ++
              (writeFields (n + 2) es ++ (spaces j ++ ds)))) := by
          simp [writeValue, writeFields]
        rw [hlines]
        refine (Reaches.line (c := none) (atToken_writeField _) nofun).bind ?_
        rintro _ ⟨y, m, rfl⟩
        exact hfrom
      | false =>
        obtain ⟨rfl, rfl⟩ := hbelow rfl
        have hline : writeValue n false (.obj ((key, v) :: es)) ++ (spaces j ++ ds) =
            spaces 1 ++ (writeField (n + 2) key (fun b => writeValue (n + 2) b v) ++
              (writeFields (n + 2) es ++ (spaces j ++ ds))) := by
          simp [writeValue, spaces]
        rw [hline]
        refine (Reaches.blanks (atToken_writeField _)).bind ?_
        rintro _ ⟨y, m, rfl⟩
        exact hfrom

end Scanner

/-! ## Documents -/

section
variable {n : Nat} {cs : List Char} {v : Json}

theorem isAllowed_ended (h : ∀ d ∈ cs, isAllowed d = true) :
    ∀ d ∈ ended cs, isAllowed d = true := by
  unfold ended
  split
  · exact h
  · exact List.forall_mem_append.2 ⟨h, by decide⟩

theorem isAllowed_spaces : ∀ d ∈ spaces n, isAllowed d = true := fun d hd => by
  rw [mem_spaces hd]
  rfl

theorem isAllowed_of_isWordChar {c : Char} (h : isWordChar c = true) : isAllowed c = true := by
  have hn : 45 ≤ c.toNat ∧ c.toNat ≤ 122 := by
    simp only [isWordChar, Char.isAlphanum, Char.isAlpha, Char.isUpper, Char.isLower, Char.isDigit,
      Bool.or_eq_true, Bool.and_eq_true, decide_eq_true_eq, beq_iff_eq] at h
    rcases h with ((h | h) | h) | rfl
    · have h1 : 65 ≤ c.toNat := h.1
      have h2 : c.toNat ≤ 90 := h.2
      omega
    · have h1 : 97 ≤ c.toNat := h.1
      have h2 : c.toNat ≤ 122 := h.2
      omega
    · have h1 : 48 ≤ c.toNat := h.1
      have h2 : c.toNat ≤ 57 := h.2
      omega
    · decide
  simp only [isAllowed, Bool.or_eq_true, Bool.and_eq_true, beq_iff_eq, decide_eq_true_eq]
  omega

theorem isAllowed_word {w : String} (h : word? v = some w) :
    ∀ d ∈ writeScalar n v, isAllowed d = true := by
  rw [writeScalar_word h]
  exact fun d hd => isAllowed_of_isWordChar ((isWord_of_word? h).chars d hd)

theorem isAllowed_writeField {key : String} {value : Bool → List Char}
    (h : ∀ b, ∀ d ∈ value b, isAllowed d = true) :
    ∀ d ∈ writeField n key value, isAllowed d = true := by
  unfold writeField
  split
  · exact List.forall_mem_append.2 ⟨isAllowed_writeText, List.forall_mem_cons.2 ⟨rfl, h true⟩⟩
  · refine List.forall_mem_append.2 ⟨List.forall_mem_append.2 ⟨?_, isAllowed_spaces⟩,
      List.forall_mem_cons.2 ⟨rfl, h false⟩⟩
    exact List.forall_mem_cons.2 ⟨rfl, List.forall_mem_cons.2 ⟨rfl,
      isAllowed_ended isAllowed_writeText⟩⟩

theorem isAllowed_writeFields {es : List (String × Json)}
    (h : ∀ k v, (k, v) ∈ es → ∀ n below, ∀ d ∈ writeValue n below v, isAllowed d = true) :
    ∀ d ∈ writeFields n es, isAllowed d = true := by
  induction es with
  | nil => nofun
  | cons e es ih =>
    obtain ⟨k, v⟩ := e
    rw [writeFields]
    refine List.forall_mem_append.2 ⟨List.forall_mem_append.2 ⟨isAllowed_spaces,
      isAllowed_writeField fun b => h k v List.mem_cons_self n b⟩, ih fun k w hw => ?_⟩
    exact h k w (List.mem_cons_of_mem _ hw)

theorem isAllowed_writeItems {vs : List Json}
    (h : ∀ v ∈ vs, ∀ n below, ∀ d ∈ writeValue n below v, isAllowed d = true) :
    ∀ d ∈ writeItems n vs, isAllowed d = true := by
  induction vs with
  | nil => nofun
  | cons v vs ih =>
    rw [writeItems]
    refine List.forall_mem_append.2 ⟨List.forall_mem_append.2 ⟨isAllowed_spaces,
      List.forall_mem_cons.2 ⟨rfl, h v List.mem_cons_self n false⟩⟩, ih fun w hw => ?_⟩
    exact h w (List.mem_cons_of_mem _ hw)

/-- All that is written of a value may stand in a document. -/
theorem isAllowed_writeValue (hv : v.isIntegral = true) :
    ∀ n below, ∀ d ∈ writeValue n below v, isAllowed d = true := by
  have hscalar {cs : List Char} (h : ∀ d ∈ cs, isAllowed d = true) :
      ∀ d ∈ ' ' :: ended cs, isAllowed d = true :=
    List.forall_mem_cons.2 ⟨rfl, isAllowed_ended h⟩
  induction v using Json.induction with
  | null => exact fun n below => hscalar (isAllowed_word rfl)
  | bool b => exact fun n below => hscalar (isAllowed_word rfl)
  | int i => exact fun n below => hscalar (isAllowed_word rfl)
  | double x => cases hv
  | str t => exact fun n below => hscalar isAllowed_writeText
  | arr vs ih =>
    rw [Json.isIntegral, Json.areIntegral_iff] at hv
    intro n below
    cases vs with
    | nil => exact hscalar (show ∀ d ∈ ['[', ']'], isAllowed d = true by decide)
    | cons v vs =>
      have hall : ∀ w ∈ v :: vs, ∀ n below, ∀ d ∈ writeValue n below w, isAllowed d = true :=
        fun w hw => ih w hw (hv w hw)
      rw [writeValue]
      split
      · exact List.forall_mem_cons.2 ⟨rfl, isAllowed_writeItems hall⟩
      · refine List.forall_mem_append.2 ⟨?_, isAllowed_writeItems fun w hw =>
          hall w (List.mem_cons_of_mem _ hw)⟩
        exact List.forall_mem_cons.2 ⟨rfl, List.forall_mem_cons.2 ⟨rfl,
          hall v List.mem_cons_self _ false⟩⟩
  | obj es ih =>
    rw [Json.isIntegral, Json.haveIntegral_iff] at hv
    intro n below
    cases es with
    | nil => exact hscalar (show ∀ d ∈ ['\x7b', '\x7d'], isAllowed d = true by decide)
    | cons e es =>
      obtain ⟨k, v⟩ := e
      have hall : ∀ l w, (l, w) ∈ (k, v) :: es → ∀ n below, ∀ d ∈ writeValue n below w,
          isAllowed d = true := fun l w hw => ih l w hw (hv l w hw)
      rw [writeValue]
      split
      · exact List.forall_mem_cons.2 ⟨rfl, isAllowed_writeFields hall⟩
      · refine List.forall_mem_append.2 ⟨List.forall_mem_cons.2 ⟨rfl, isAllowed_writeField fun b =>
          hall k v List.mem_cons_self _ b⟩, isAllowed_writeFields fun l w hw =>
          hall l w (List.mem_cons_of_mem _ hw)⟩

/-- No document that is written begins with the mark of its encoding. -/
theorem dropByteOrderMark_writeField {key : String} {value : Bool → List Char} (rest : List Char) :
    dropByteOrderMark (writeField n key value ++ rest) = writeField n key value ++ rest := by
  have hdrop {cs : List Char} (h : ∀ c ∈ cs.head?, c ≠ '\ufeff') : dropByteOrderMark cs = cs := by
    unfold dropByteOrderMark
    split
    · exact absurd rfl (h _ rfl)
    · rfl
  refine hdrop fun c hc => ?_
  unfold writeField at hc
  split at hc
  · rw [List.append_assoc, List.head?_append_of_ne_nil _ (writeText_ne_nil key)] at hc
    unfold writeText at hc
    split at hc
    · rintro rfl
      have hp := isPrintable_of_form (by simp_all) (List.mem_of_head? hc)
      exact absurd hp (by decide)
    all_goals cases hc; decide
  · cases hc
    decide

/-- **The tokens of a document** are those of its value. -/
theorem tokens_write {k : String} {es : List (String × Json)}
    (hv : Json.isIntegral (.obj ((k, v) :: es)) = true) :
    Token.ofText (write (.obj ((k, v) :: es))) =
      .ok (.blockMapping :: fieldTokens ((k, v) :: es) ++ [.blockEnd, .finish]) := by
  rw [Json.isIntegral, Json.haveIntegral_iff] at hv
  let text := writeField 0 k (fun b => writeValue 0 b v) ++ (writeFields 0 es ++ (spaces 0 ++ []))
  have htext : (write (.obj ((k, v) :: es))).toList = text := by
    simp [write, writeFields, text, spaces]
  have hallowed : text.all isAllowed = true := by
    have hfields : ∀ d ∈ writeFields 0 ((k, v) :: es), isAllowed d = true :=
      isAllowed_writeFields fun l w hw => isAllowed_writeValue (hv l w hw)
    rw [List.all_eq_true]
    simpa [writeFields, text, spaces] using hfields
  have hreach : Reaches (blockState [] (-1) [] true ⟨text, 0, 0, 0⟩)
      (AtBlock (.blockMapping :: fieldTokens ((k, v) :: es)) 0 [-1] true [] 0) :=
    Reaches.fields (fun l w hw => readsOn w (hv l w hw)) (by decide) (Nat.le_refl 0) rfl
  rw [Token.ofText, htext, dropByteOrderMark_writeField, if_pos hallowed]
  refine hreach.all_eq ?_ (Nat.le_succ _)
  rintro _ ⟨y, m, rfl⟩ fuel
  exact all_finish

end

end Runbook.Yaml

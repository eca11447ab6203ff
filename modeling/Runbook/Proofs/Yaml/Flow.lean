import Runbook.Proofs.Yaml.Block

/-!
# Documents in brackets

The form that a value has in JSON is a document in brackets. One lemma says of each mark and each
scalar which state it leads to; a value is read up to the comma or the bracket behind it
(`ReadsFlow`), and the tokens of an object are those of its fields (`tokens_pretty`). JSON escapes
less than a document asks for, so this holds of values that are the same in both (`isCommon`): their
texts hold no character that a document refuses, reads as a line feed or folds with the blanks
beside it, and their keys fit on one line near their colons.
-/

namespace Runbook.Yaml

/-! ## Tokens -/

mutual
/-- The tokens of a value in the form of JSON. -/
def flowTokens : Json → List Token
  | .arr xs => .openSequence :: flowItemTokens xs ++ [.closeSequence]
  | .obj es => .openMapping :: flowFieldTokens es ++ [.closeMapping]
  | .str s => [.scalar s .quoted]
  | v => [.scalar ((word? v).getD "") .plain]

/-- The tokens of items. -/
def flowItemTokens : List Json → List Token
  | [] => []
  | [x] => flowTokens x
  | x :: xs => flowTokens x ++ .comma :: flowItemTokens xs

/-- The tokens of fields. -/
def flowFieldTokens : List (String × Json) → List Token
  | [] => []
  | [(k, v)] => .key :: .scalar k .quoted :: .value :: flowTokens v
  | (k, v) :: es =>
    .key :: .scalar k .quoted :: .value :: flowTokens v ++ .comma :: flowFieldTokens es
end

namespace Scanner

open Cursor (Passed)

variable {ts us : List Token} {t : Token} {f n k : Nat} {a : Bool} {c : Char}
  {cs ds ws text rest : List Char} {p q : Cursor} {s : Scanner}
  {cands : List (Option Candidate)}

/-! ## States in brackets -/

/-- A state in `f` brackets, none of which stands in a block collection. -/
def flowState (ts : List Token) (f : Nat) (cands : List (Option Candidate)) (a : Bool)
    (p : Cursor) : Scanner :=
  { at_ := p, tokens := ts.toArray, flow := f, candidates := cands, keyAllowed := a }

/-- None of the candidates has to be a key. -/
def Lenient (cands : List (Option Candidate)) : Prop := ∀ c ∈ cands, ∀ d ∈ c, d.required = false

theorem Lenient.cons {c : Option Candidate} (h : Lenient cands) (hc : ∀ d ∈ c, d.required = false) :
    Lenient (c :: cands) := List.forall_mem_cons.2 ⟨hc, h⟩

theorem Lenient.tail (h : Lenient cands) : Lenient cands.tail :=
  fun c hc => h c (List.mem_of_mem_tail hc)

/-- The candidates that are left at a place. -/
def kept (p : Cursor) (cands : List (Option Candidate)) : List (Option Candidate) :=
  cands.map fun c => if (c.map (isStale p)).getD false then none else c

theorem Lenient.kept (h : Lenient cands) : Lenient (kept p cands) := by
  intro c hc
  obtain ⟨e, he, rfl⟩ := List.mem_map.1 hc
  split
  · exact nofun
  · exact h e he

theorem dropStale_flowState (h : Lenient cands) :
    (flowState ts f cands a p).dropStale = .ok (flowState ts f (kept p cands) a p) := by
  have hany : (cands.any fun c => (c.map (isStale p)).getD false &&
      (c.map (·.required)).getD false) = false := by
    rw [List.any_eq_false]
    intro c hc
    cases c with
    | none => simp
    | some d => simp [h _ hc d rfl]
  rw [dropStale]
  dsimp only
  rw [show (flowState ts f cands a p).candidates = cands from rfl,
    show (flowState ts f cands a p).at_ = p from rfl, hany]
  rfl

theorem dropCandidate_flowState (ts : List Token) (f : Nat) (a : Bool) (p : Cursor)
    (h : Lenient cands) :
    ∃ cands', (flowState ts f cands a p).dropCandidate = .ok (flowState ts f cands' a p) ∧
      Lenient cands' := by
  cases cands with
  | nil => exact ⟨[], rfl, h⟩
  | cons c cands =>
    cases c with
    | none => exact ⟨none :: cands, rfl, h⟩
    | some d =>
      have hd : d.required = false := h _ List.mem_cons_self d rfl
      refine ⟨none :: cands, ?_, Lenient.cons h.tail nofun⟩
      change (if d.required then _ else _) = _
      rw [hd]
      rfl

/-! ## Between tokens -/

/-- White space between tokens: on one line, or to the indentation of the next. -/
def IsBlank (ws : List Char) : Prop := ∃ n, ws = spaces n ∨ ws = '\n' :: spaces n

theorem IsBlank.none : IsBlank [] := ⟨0, .inl rfl⟩

theorem IsBlank.space : IsBlank [' '] := ⟨1, .inl rfl⟩

theorem toNext_blank (h : IsBlank ws) (hp : p.rest = ws ++ cs) (ht : atToken cs = true) :
    ∃ q, p.Passed ws q ∧ toNext (f + 1) (p.rest.length + 1) a p = (a, q) := by
  obtain ⟨r, x, l, k⟩ := p
  subst hp
  obtain ⟨n, rfl | rfl⟩ := h
  · refine ⟨_, ?_, toNext_spaces ht⟩
    have hpass := Passed.skipMany (p := ⟨spaces n ++ cs, x, l, k⟩) rfl spaces_flat
    rw [length_spaces] at hpass
    simpa [Cursor.skipMany, List.drop_left' (length_spaces n)] using hpass
  · refine ⟨⟨cs, x + 1 + n, l + 1, n⟩, ⟨rfl, ?_, ?_, ?_⟩, ?_⟩
    · rw [List.length_cons, length_spaces]
      dsimp only
      omega
    · have hcount : (spaces n).countP isBreak = 0 :=
        List.countP_eq_zero.2 fun c hc => by simp [spaces_flat c hc]
      rw [List.countP_cons_of_pos (by rfl), hcount]
    · exact (Cursor.columnAfter_line k n).symm
    · rw [List.cons_append, List.length_cons, toNext_line ht]
      simp

/-- A token in brackets, after white space. -/
theorem Reaches.flowToken {Q : Scanner → Prop} (hws : IsBlank ws) (hp : p.rest = ws ++ c :: cs)
    (hl : Lenient cands) (hc : c ≠ '%') (ht : atToken (c :: cs) = true)
    (hm : ∀ q, p.Passed ws q → q.atDocumentMark = false)
    (hstep : ∀ q, p.Passed ws q → q.rest = c :: cs →
      ∃ s, (flowState ts (f + 1) (kept q cands) a q).tokenFrom c cs = .ok s ∧
        s.at_.rest.length ≤ cs.length ∧ Q s) :
    Reaches (flowState ts (f + 1) cands a p) Q := by
  obtain ⟨q, hq, hto⟩ := toNext_blank (f := f) (a := a) hws hp ht
  have hrest := hq.rest_eq hp
  obtain ⟨s, htoken, hlen, hQ⟩ := hstep q hq hrest
  have hsettle : (flowState ts (f + 1) cands a p).settle =
      .ok (flowState ts (f + 1) (kept q cands) a q) := by
    let s := flowState ts (f + 1) cands a p
    have hto' : toNext s.flow (s.at_.rest.length + 1) s.keyAllowed s.at_ = (a, q) := hto
    rw [settle, hto']
    change ((flowState ts (f + 1) cands a q).dropStale >>= _) = _
    rw [dropStale_flowState hl]
    rfl
  have hnext : (flowState ts (f + 1) cands a p).next = .ok (s, true) := by
    rw [next, hsettle]
    exact token_eq hrest (fun h => absurd h hc) (hm q hq) htoken
  refine ⟨1, s, hQ, ?_, fun fuel => by rw [all, hnext]⟩
  change 1 + s.at_.rest.length ≤ p.rest.length
  rw [hp, List.length_append, List.length_cons]
  omega

/-! ## Marks -/

/-- The next token begins with a character, after white space that may have been passed over. -/
def Before (ts : List Token) (f : Nat) (ws : List Char) (c : Char) (cs : List Char) (s : Scanner) :
    Prop :=
  ∃ cands a p ws', s = flowState ts f cands a p ∧ Lenient cands ∧ p.rest = ws' ++ c :: cs ∧
    (ws' = ws ∨ ws' = [])

/-- In brackets, with this left of the text. -/
def InFlow (ts : List Token) (f : Nat) (a : Bool) (cs : List Char) (s : Scanner) : Prop :=
  ∃ cands p, s = flowState ts f cands a p ∧ Lenient cands ∧ p.rest = cs

theorem atDocumentMark_of_ne (hp : p.rest = c :: cs) (hc : c ≠ '-' ∧ c ≠ '.') :
    p.atDocumentMark = false := by
  rw [← Bool.not_eq_true]
  intro h
  obtain ⟨d, r, hd, hr⟩ := eq_of_atDocumentMark h
  rw [hp] at hr
  obtain ⟨rfl, -⟩ := List.cons.inj hr
  exact hd.elim hc.1 hc.2

/-- A comma, after which a key may begin. -/
theorem Reaches.comma (hws : IsBlank ws) (h : Reaches s (Before ts (f + 1) ws ',' cs)) :
    Reaches s (InFlow (ts ++ [.comma]) (f + 1) true cs) := by
  refine h.bind ?_
  rintro _ ⟨cands, a, p, ws', rfl, hl, hp, hws'⟩
  have hblank : IsBlank ws' := by
    rcases hws' with rfl | rfl
    · exact hws
    · exact .none
  refine flowToken hblank hp hl (by decide) rfl (fun q hq => ?_) fun q hq hrest => ?_
  · exact atDocumentMark_of_ne (hq.rest_eq hp) (by decide)
  · obtain ⟨cands', hdrop, hl'⟩ := dropCandidate_flowState ts (f + 1) a q hl.kept
    refine ⟨flowState (ts ++ [.comma]) (f + 1) cands' true q.skip, ?_,
      by simp [flowState, Cursor.skip, hrest], cands', q.skip, rfl, hl',
      by simp [Cursor.skip, hrest]⟩
    change (flowState ts (f + 1) (kept q cands) a q).mark .comma true = _
    rw [mark, hdrop]
    change Except.ok _ = _
    simp [flowState, push, moved]

/-- Which brackets a character opens. -/
inductive Opens : Char → Token → Prop
  | sequence : Opens '[' .openSequence
  | mapping : Opens '\x7b' .openMapping

/-- Which brackets a character closes. -/
inductive Closes : Char → Token → Prop
  | sequence : Closes ']' .closeSequence
  | mapping : Closes '\x7d' .closeMapping

theorem Opens.char (h : Opens c t) :
    c ≠ '%' ∧ (∀ cs, atToken (c :: cs) = true) ∧ c ≠ '-' ∧ c ≠ '.' := by
  cases h <;> exact ⟨by decide, fun _ => rfl, by decide⟩

theorem Closes.char (h : Closes c t) :
    c ≠ '%' ∧ (∀ cs, atToken (c :: cs) = true) ∧ c ≠ '-' ∧ c ≠ '.' := by
  cases h <;> exact ⟨by decide, fun _ => rfl, by decide⟩

theorem Opens.tokenFrom (h : Opens c t) (cs : List Char) : s.tokenFrom c cs = s.openFlow t := by
  cases h <;> rfl

theorem Closes.tokenFrom (h : Closes c t) (cs : List Char) : s.tokenFrom c cs = s.closeFlow t := by
  cases h <;> rfl

/-- The candidate for a key in brackets. -/
def flowCandidate (ts : List Token) (p : Cursor) : Candidate :=
  ⟨false, ts.length, p.index, p.line, p.column⟩

theorem saveCandidate_key (ts : List Token) (f : Nat) (p : Cursor) (h : Lenient cands) :
    ∃ cands', Lenient cands' ∧
    (flowState ts (f + 1) cands true p).saveCandidate =
      .ok (flowState ts (f + 1) (some (flowCandidate ts p) :: cands') true p) := by
  obtain ⟨cands', hdrop, hl⟩ := dropCandidate_flowState ts (f + 1) true p h
  refine ⟨cands'.tail, hl.tail, ?_⟩
  rw [saveCandidate]
  change ((flowState ts (f + 1) cands true p).dropCandidate >>= _) = _
  rw [hdrop]
  rfl

theorem saveCandidate_flowState (ts : List Token) (f : Nat) (a : Bool) (p : Cursor)
    (h : Lenient cands) : ∃ cands', Lenient cands' ∧
    (flowState ts (f + 1) cands a p).saveCandidate = .ok (flowState ts (f + 1) cands' a p) := by
  cases a with
  | false => exact ⟨cands, h, rfl⟩
  | true =>
    obtain ⟨cands', hl, hsave⟩ := saveCandidate_key ts f p h
    exact ⟨_, hl.cons fun d hd => by cases hd; rfl, hsave⟩

/-- A bracket opens a collection. -/
theorem Reaches.opens (h : Opens c t) (hws : IsBlank ws) (hp : p.rest = ws ++ c :: cs)
    (hl : Lenient cands) :
    Reaches (flowState ts (f + 1) cands a p) (InFlow (ts ++ [t]) (f + 2) true cs) := by
  obtain ⟨hc, ht, hm⟩ := h.char
  refine flowToken hws hp hl hc (ht cs) (fun q hq => ?_) fun q hq hrest => ?_
  · exact atDocumentMark_of_ne (hq.rest_eq hp) hm
  · obtain ⟨cands', hl', hsave⟩ := saveCandidate_flowState ts f a q hl.kept
    refine ⟨flowState (ts ++ [t]) (f + 2) (none :: cands') true q.skip, ?_,
      by simp [flowState, Cursor.skip, hrest], _, q.skip, rfl, Lenient.cons hl' nofun,
      by simp [Cursor.skip, hrest]⟩
    rw [h.tokenFrom, openFlow, hsave]
    change Except.ok _ = _
    simp [flowState, push, moved]

/-- A bracket closes a collection. -/
theorem Reaches.closes (hc : Closes c t) (hws : IsBlank ws)
    (h : Reaches s (Before ts (f + 1) ws c cs)) : Reaches s (InFlow (ts ++ [t]) f false cs) := by
  refine h.bind ?_
  rintro _ ⟨cands, a, p, ws', rfl, hl, hp, hws'⟩
  have hblank : IsBlank ws' := by
    rcases hws' with rfl | rfl
    · exact hws
    · exact .none
  obtain ⟨hpercent, ht, hm⟩ := hc.char
  refine flowToken hblank hp hl hpercent (ht cs) (fun q hq => ?_) fun q hq hrest => ?_
  · exact atDocumentMark_of_ne (hq.rest_eq hp) hm
  · obtain ⟨cands', hdrop, hl'⟩ := dropCandidate_flowState ts (f + 1) a q hl.kept
    refine ⟨flowState (ts ++ [t]) f cands'.tail false q.skip, ?_,
      by simp [flowState, Cursor.skip, hrest], _, q.skip, rfl, hl'.tail,
      by simp [Cursor.skip, hrest]⟩
    rw [hc.tokenFrom, closeFlow, hdrop]
    change Except.ok _ = _
    simp [flowState, push, moved]

/-! ## Texts -/

theorem part_flowState {read : Cursor → Except Fault (Token × Cursor)}
    {cands' : List (Option Candidate)}
    (hsave : (flowState ts (f + 1) cands a p).saveCandidate = .ok (flowState ts (f + 1) cands' a p))
    (hread : read p = .ok (t, q)) :
    (flowState ts (f + 1) cands a p).part read =
      .ok (flowState (ts ++ [t]) (f + 1) cands' false q) := by
  rw [part, hsave]
  change (read p >>= fun r => .ok { ((flowState ts (f + 1) cands' a p).push r.1).moved r.2 with
    keyAllowed := false }) = _
  rw [hread]
  change Except.ok _ = _
  simp [flowState, push, moved]

/-- Whether a text is read back from the quotes of JSON. -/
def IsReadable (s : String) : Prop := Quotable false Json.escapeChar 0 s.toList

theorem escaped_toList (t : String) :
    (Json.escaped t).toList = '"' :: (t.toList.flatMap Json.escapeChar ++ ['"']) := by
  simp [Json.escaped]

/-- A text in the quotes of JSON is read back. -/
theorem readQuoted_json {t : String} {tail : List Char} (h : IsReadable t)
    (hp : p.rest = (Json.escaped t).toList ++ tail) :
    ∃ q, p.Passed (Json.escaped t).toList q ∧
      readQuoted false (p.rest.length + 1) [] p.skip = .ok (t, q) := by
  rw [escaped_toList, ← quotedLines_zero false] at hp ⊢
  obtain ⟨q, hq, hread⟩ := readQuoted_text h nofun (by simpa [quoteMark] using hp)
  rw [String.ofList_toList] at hread
  exact ⟨q, by simpa [quoteMark] using hq, hread⟩

theorem tokenFrom_quote : s.tokenFrom '"' cs = s.part fun p =>
    (readQuoted false (p.rest.length + 1) [] p.skip).map fun (t, p) => (.scalar t .quoted, p) := rfl

/-- A text at its place, where `R` says which candidates are saved there. -/
theorem Reaches.flowTextHere {t : String} {tail : List Char}
    {R : Cursor → List (Option Candidate) → Prop} (h : IsReadable t) (hws : IsBlank ws)
    (hp : p.rest = ws ++ ((Json.escaped t).toList ++ tail)) (hl : Lenient cands)
    (hsave : ∀ q, ∃ cands', R q cands' ∧ (flowState ts (f + 1) (kept q cands) a q).saveCandidate =
      .ok (flowState ts (f + 1) cands' a q)) :
    Reaches (flowState ts (f + 1) cands a p) fun s => ∃ q r cands', R q cands' ∧
      q.Passed (Json.escaped t).toList r ∧ r.rest = tail ∧
      s = flowState (ts ++ [.scalar t .quoted]) (f + 1) cands' false r := by
  obtain ⟨cs, hcs⟩ : ∃ cs, (Json.escaped t).toList = '"' :: cs := ⟨_, escaped_toList t⟩
  have hp' : p.rest = ws ++ '"' :: (cs ++ tail) := by rw [hp, hcs, List.cons_append]
  refine flowToken hws hp' hl (by decide) rfl (fun q hq => ?_) fun q hq hrest => ?_
  · exact atDocumentMark_of_ne (hq.rest_eq hp') (by decide)
  · obtain ⟨cands', hR, hsave⟩ := hsave q
    have hrest' : q.rest = (Json.escaped t).toList ++ tail := by rw [hrest, hcs, List.cons_append]
    obtain ⟨r, hr, hread⟩ := readQuoted_json h hrest'
    have hend := hr.rest_eq hrest'
    refine ⟨_, tokenFrom_quote.trans (part_flowState hsave (by rw [hread]; rfl)), ?_, q, r, cands',
      hR, hr, hend, rfl⟩
    change r.rest.length ≤ _
    rw [hend, List.length_append]
    omega

/-- A text as a value. -/
theorem Reaches.flowText {t : String} {tail : List Char} (h : IsReadable t) (hws : IsBlank ws)
    (hp : p.rest = ws ++ ((Json.escaped t).toList ++ tail)) (hl : Lenient cands) :
    Reaches (flowState ts (f + 1) cands a p)
      (InFlow (ts ++ [.scalar t .quoted]) (f + 1) false tail) := by
  refine (flowTextHere (R := fun _ => Lenient) h hws hp hl fun q =>
    saveCandidate_flowState ts f a q hl.kept).mono ?_
  rintro _ ⟨q, r, cands', hl', -, hrest, rfl⟩
  exact ⟨cands', r, rfl, hl', hrest⟩

/-- The colon after a key that is near enough. -/
theorem Reaches.flowColon (hl : Lenient cands) (hline : q.line = p.line)
    (hnear : q.index ≤ p.index + 1024) (hq : q.rest = ':' :: cs) :
    Reaches (flowState (ts ++ us) (f + 1) (some (flowCandidate ts p) :: cands) false q)
      (InFlow (ts ++ .key :: us ++ [.value]) (f + 1) false cs) := by
  have hl' : Lenient (some (flowCandidate ts p) :: cands) := hl.cons fun d hd => by cases hd; rfl
  refine flowToken (.none) hq hl' (by decide) rfl (fun r hr => ?_) fun r hr hrest => ?_
  · exact atDocumentMark_of_ne (hr.rest_eq hq) (by decide)
  · have hstale : isStale r (flowCandidate ts p) = false := by
      have hl : ¬ p.line < r.line := by simp [hr.line, hline]
      have hx : ¬ p.index + 1024 < r.index := by simpa [hr.index] using hnear
      exact Bool.or_eq_false_iff.2 ⟨decide_eq_false hl, decide_eq_false hx⟩
    have hkept : kept r (some (flowCandidate ts p) :: cands) =
        some (flowCandidate ts p) :: kept r cands := by simp [kept, hstale]
    refine ⟨flowState (ts ++ .key :: us ++ [.value]) (f + 1) (none :: kept r cands) false r.skip,
      ?_, by simp [flowState, Cursor.skip, hrest], _, r.skip, rfl, hl.kept.cons nofun,
      by simp [Cursor.skip, hrest]⟩
    have htoken {cands : List (Option Candidate)} :
        (flowState (ts ++ us) (f + 1) cands false r).tokenFrom ':' cs =
          (flowState (ts ++ us) (f + 1) cands false r).colon := by simp [tokenFrom, flowState]
    rw [hkept, htoken]
    change Except.ok _ = _
    simp [flowState, flowCandidate, roll, push, moved, insertIdx_length]

/-- A text as a key, with its colon. -/
theorem Reaches.flowKey {t : String} (h : IsReadable t)
    (hflat : ∀ d ∈ (Json.escaped t).toList, isBreak d = false)
    (hlen : (Json.escaped t).toList.length ≤ 1024) (hws : IsBlank ws)
    (hp : p.rest = ws ++ ((Json.escaped t).toList ++ ':' :: cs)) (hl : Lenient cands) :
    Reaches (flowState ts (f + 1) cands true p)
      (InFlow (ts ++ [.key, .scalar t .quoted, .value]) (f + 1) false cs) := by
  refine (flowTextHere (R := fun q c => ∃ c', c = some (flowCandidate ts q) :: c' ∧ Lenient c')
    h hws hp hl fun q => ?_).bind ?_
  · obtain ⟨cands', hl', hsave⟩ := saveCandidate_key ts f q hl.kept
    exact ⟨_, ⟨cands', rfl, hl'⟩, hsave⟩
  · rintro _ ⟨q, r, _, ⟨cands', rfl, hl'⟩, hr, hrest, rfl⟩
    refine (flowColon hl' (hr.flat hflat).1 (by rw [hr.index]; omega) hrest).mono fun s hs => ?_
    simpa using hs

/-! ## Words -/

/-- What follows a value in brackets: a comma, or a line with the closing bracket. -/
inductive FlowEnd : List Char → Char → Prop
  | comma : FlowEnd [] ','
  | close {c : Char} {t : Token} (n : Nat) (h : Closes c t) : FlowEnd ('\n' :: spaces n) c

theorem FlowEnd.blank (h : FlowEnd ws c) : IsBlank ws := by
  cases h with
  | comma => exact .none
  | close n _ => exact ⟨n, .inr rfl⟩

theorem FlowEnd.plain (h : FlowEnd ws c) (indent : Int) (cs : List Char) :
    ∃ broken, PlainEnd (f + 1) indent (ws ++ c :: cs) ws broken := by
  cases h with
  | comma => exact ⟨false, .comma⟩
  | close n h => exact ⟨true, .close (by cases h <;> simp)⟩

theorem InFlow.before {ws' : List Char} (h : InFlow ts f a (ws' ++ c :: cs) s)
    (hws' : ws' = ws ∨ ws' = []) : Before ts f ws c cs s := by
  obtain ⟨cands, p, rfl, hl, hp⟩ := h
  exact ⟨cands, a, p, ws', rfl, hl, hp, hws'⟩

theorem plain_flowState {t : String} {broken : Bool} (ts : List Token) (a : Bool)
    (h : Lenient cands)
    (hread : readPlain (f + 1) 0 (p.rest.length + 1) [] {} p = .ok ((t, broken), q)) :
    ∃ cands', Lenient cands' ∧ (flowState ts (f + 1) cands a p).plain =
      .ok (flowState (ts ++ [.scalar t .plain]) (f + 1) cands' broken q) := by
  obtain ⟨cands', hl, hsave⟩ := saveCandidate_flowState ts f a p h
  refine ⟨cands', hl, ?_⟩
  rw [plain, hsave]
  change (readPlain (f + 1) 0 (p.rest.length + 1) [] {} p >>= fun r =>
    .ok { ((flowState ts (f + 1) cands' a p).push (.scalar r.1.1 .plain)).moved r.2 with
      keyAllowed := r.1.2 }) = _
  rw [hread]
  change Except.ok _ = _
  simp [flowState, push, moved]

/-- A word as a value. -/
theorem Reaches.flowWord {w : String} {ws' : List Char} (h : IsWord w.toList) (hws : IsBlank ws)
    (hp : p.rest = ws ++ (w.toList ++ (ws' ++ c :: cs))) (hl : Lenient cands)
    (hcol : ∀ q, p.Passed ws q → q.column ≠ 0) (hend : FlowEnd ws' c) :
    Reaches (flowState ts (f + 1) cands a p)
      (Before (ts ++ [.scalar w .plain]) (f + 1) ws' c cs) := by
  obtain ⟨broken, hplain⟩ := hend.plain (f := f) 0 cs
  obtain ⟨d, ds, hcs, -⟩ := h.first
  have hp' : p.rest = ws ++ d :: (ds ++ (ws' ++ c :: cs)) := by rw [hp, hcs, List.cons_append]
  have htoken := atToken_word h (ws' ++ c :: cs)
  rw [hcs, List.cons_append] at htoken
  have hpercent : d ≠ '%' := by
    rintro rfl
    exact absurd (h.chars '%' (by simp [hcs])) (by decide)
  refine flowToken hws hp' hl hpercent htoken (fun q hq => atDocumentMark_column (hcol q hq))
    fun q hq hrest => ?_
  have hrest' : q.rest = w.toList ++ (ws' ++ c :: cs) := by rw [hrest, hcs, List.cons_append]
  obtain ⟨r, hr, hread⟩ := readPlain_single h.chars (by simp [hcs]) hplain (hcol q hq) hrest'
  rw [String.ofList_toList] at hread
  have hend : r.rest = c :: cs := hr.rest_eq (by rw [hrest', List.append_assoc])
  obtain ⟨cands', hl', hsave⟩ := plain_flowState ts a hl.kept hread
  have hword : IsWord (d :: ds) := hcs ▸ h
  refine ⟨_, (tokenFrom_word hword _).trans hsave, ?_,
    InFlow.before ⟨cands', r, rfl, hl', hend⟩ (.inr rfl)⟩
  change r.rest.length ≤ _
  rw [hend, List.length_append, List.length_append]
  omega

/-! ## Values -/

theorem toList_newline (d : Nat) : (Json.newline d).toList = '\n' :: spaces (2 * d) := by
  simp [Json.newline, spaces]

/-- After white space, a value is read up to what follows it in its brackets. -/
def ReadsFlow (v : Json) : Prop :=
  ∀ {d f : Nat} {ts : List Token} {cands : List (Option Candidate)} {a : Bool} {p : Cursor}
    {ws ws' : List Char} {c : Char} {cs : List Char}, IsBlank ws →
    p.rest = ws ++ ((Json.prettyAt d v).toList ++ (ws' ++ c :: cs)) → Lenient cands →
    (∀ q, p.Passed ws q → q.column ≠ 0) → FlowEnd ws' c →
    Reaches (flowState ts (f + 1) cands a p) (Before (ts ++ flowTokens v) (f + 1) ws' c cs)

theorem prettyItems_cons (d : Nat) (v w : Json) (vs : List Json) :
    Json.prettyItems d (v :: w :: vs) =
      Json.newline d ++ Json.prettyAt d v ++ "," ++ Json.prettyItems d (w :: vs) := by
  rw [Json.prettyItems]
  nofun

theorem column_newline {d : Nat} (hd : d ≠ 0) (hq : p.Passed ('\n' :: spaces (2 * d)) q) :
    q.column ≠ 0 := by
  rw [hq.column, Cursor.columnAfter_line]
  omega

/-- The items of an array up to the line with its bracket. -/
theorem Reaches.flowItems {v : Json} {vs : List Json} {d : Nat} (hv : ∀ w ∈ v :: vs, ReadsFlow w)
    (hd : d ≠ 0) (hl : Lenient cands)
    (hp : p.rest = (Json.prettyItems d (v :: vs)).toList ++ ('\n' :: spaces n ++ ']' :: cs)) :
    Reaches (flowState ts (f + 1) cands a p)
      (Before (ts ++ flowItemTokens (v :: vs)) (f + 1) ('\n' :: spaces n) ']' cs) := by
  have hblank : IsBlank ('\n' :: spaces (2 * d)) := ⟨_, .inr rfl⟩
  induction vs generalizing v ts a p cands with
  | nil =>
    rw [flowItemTokens]
    refine hv v List.mem_cons_self (d := d) hblank ?_ hl (fun q => column_newline hd)
      (.close n .sequence)
    rw [hp, Json.prettyItems, String.toList_append, toList_newline, List.append_assoc]
  | cons w vs ih =>
    let rest := (Json.prettyItems d (w :: vs)).toList ++ ('\n' :: spaces n ++ ']' :: cs)
    have hshape : p.rest = '\n' :: spaces (2 * d) ++
        ((Json.prettyAt d v).toList ++ ([] ++ ',' :: rest)) := by
      rw [hp, prettyItems_cons]
      simp [toList_newline, rest]
    have hfirst : Reaches (flowState ts (f + 1) cands a p)
        (Before (ts ++ flowTokens v) (f + 1) [] ',' rest) :=
      hv v List.mem_cons_self hblank hshape hl (fun q => column_newline hd) .comma
    refine (Reaches.comma .none hfirst).bind ?_
    rintro _ ⟨cands', q, rfl, hl', hq⟩
    refine (ih (fun u hu => hv u (List.mem_cons_of_mem _ hu)) hl' hq).mono fun s hs => ?_
    have htokens : flowItemTokens (v :: w :: vs) =
        flowTokens v ++ .comma :: flowItemTokens (w :: vs) := by
      rw [flowItemTokens]
      nofun
    rw [htokens]
    simpa using hs

/-- A key in the form of JSON is read back, on one line and near its colon. -/
structure KeyFits (k : String) : Prop where
  readable : IsReadable k
  flat : ∀ d ∈ (Json.escaped k).toList, isBreak d = false
  near : (Json.escaped k).toList.length ≤ 1024

theorem prettyFields_cons (d : Nat) (k : String) (v : Json) (e : String × Json)
    (es : List (String × Json)) : Json.prettyFields d ((k, v) :: e :: es) =
      Json.newline d ++ Json.escaped k ++ ": " ++ Json.prettyAt d v ++ "," ++
        Json.prettyFields d (e :: es) := by
  rw [Json.prettyFields]
  nofun

/-- A field up to what follows it. -/
theorem Reaches.flowField {key : String} {v : Json} {d : Nat} {ws : List Char} (hkey : KeyFits key)
    (hv : ReadsFlow v) (hl : Lenient cands) (hend : FlowEnd ws c)
    (hp : p.rest = '\n' :: spaces (2 * d) ++ ((Json.escaped key).toList ++
      ':' :: ' ' :: ((Json.prettyAt d v).toList ++ (ws ++ c :: cs)))) :
    Reaches (flowState ts (f + 1) cands true p)
      (Before (ts ++ (.key :: .scalar key .quoted :: .value :: flowTokens v)) (f + 1) ws c cs) := by
  refine (Reaches.flowKey hkey.readable hkey.flat hkey.near ⟨_, .inr rfl⟩ hp hl).bind ?_
  rintro _ ⟨cands', q, rfl, hl', hq⟩
  refine (hv .space hq hl' (fun r hr => ?_) hend).mono fun s hs => ?_
  · rw [hr.column]
    exact Nat.succ_ne_zero _
  · simpa using hs

/-- The fields of an object up to the line with its bracket. -/
theorem Reaches.flowFields {key : String} {v : Json} {es : List (String × Json)} {d : Nat}
    (hv : ∀ k w, (k, w) ∈ (key, v) :: es → KeyFits k ∧ ReadsFlow w) (hl : Lenient cands)
    (hp : p.rest = (Json.prettyFields d ((key, v) :: es)).toList ++
      ('\n' :: spaces n ++ '\x7d' :: cs)) :
    Reaches (flowState ts (f + 1) cands true p)
      (Before (ts ++ flowFieldTokens ((key, v) :: es)) (f + 1) ('\n' :: spaces n) '\x7d' cs) := by
  induction es generalizing key v ts p cands with
  | nil =>
    obtain ⟨hkey, hvalue⟩ := hv key v List.mem_cons_self
    rw [flowFieldTokens]
    refine Reaches.flowField hkey hvalue hl (.close n .mapping) (d := d) ?_
    rw [hp, Json.prettyFields]
    simp [toList_newline]
  | cons e es ih =>
    obtain ⟨key', w⟩ := e
    obtain ⟨hkey, hvalue⟩ := hv key v List.mem_cons_self
    let rest := (Json.prettyFields d ((key', w) :: es)).toList ++ ('\n' :: spaces n ++ '\x7d' :: cs)
    have hshape : p.rest = '\n' :: spaces (2 * d) ++ ((Json.escaped key).toList ++
        ':' :: ' ' :: ((Json.prettyAt d v).toList ++ ([] ++ ',' :: rest))) := by
      rw [hp, prettyFields_cons]
      simp [toList_newline, rest]
    refine (Reaches.comma .none (Reaches.flowField hkey hvalue hl .comma hshape)).bind ?_
    rintro _ ⟨cands', q, rfl, hl', hq⟩
    refine (ih (fun k u hu => hv k u (List.mem_cons_of_mem _ hu)) hl' hq).mono fun s hs => ?_
    have htokens : flowFieldTokens ((key, v) :: (key', w) :: es) = .key :: .scalar key .quoted ::
        .value :: flowTokens v ++ .comma :: flowFieldTokens ((key', w) :: es) := by
      rw [flowFieldTokens]
      nofun
    rw [htokens]
    simpa using hs

end Scanner

/-! ## Values that documents and JSON have in common -/

/-- Whether a character is a break that has no escape in JSON. -/
def isRawBreak (c : Char) : Bool := !(c.toNat < 32) && isBreak c

/-- Whether some characters are the same in a document as in JSON: each is escaped, or allowed and
no break that a document takes for a line feed, no space stands next to a break, and no line begins
like a mark between documents. -/
def areCommonChars : List Char → Bool
  | [] => true
  | c :: cs =>
    (c.toNat < 32 || (isAllowed c && c != '\u0085')) &&
      !(c == ' ' && cs.head?.any isRawBreak) &&
      !(isRawBreak c && (cs.head? == some ' ' ||
        Scanner.startsMark (cs.flatMap Json.escapeChar ++ ['"']))) &&
      areCommonChars cs

/-- Whether a text is the same in a document as in JSON. -/
def isCommonText (s : String) : Bool := areCommonChars s.toList

/-- Whether a text is such a key: it stands on one line, and its colon is near enough. -/
def isCommonKey (s : String) : Bool :=
  isCommonText s && !s.toList.any isRawBreak && (Json.escaped s).toList.length ≤ 1024

mutual
/-- Whether all texts and keys of a value are such. -/
def isCommon : Json → Bool
  | .str s => isCommonText s
  | .arr xs => areCommon xs
  | .obj es => haveCommon es
  | _ => true

/-- Whether all texts and keys of some values are such. -/
def areCommon : List Json → Bool
  | [] => true
  | x :: xs => isCommon x && areCommon xs

/-- Whether some keys, and all texts and keys of the values under them, are such. -/
def haveCommon : List (String × Json) → Bool
  | [] => true
  | (k, v) :: es => isCommonKey k && isCommon v && haveCommon es
end

theorem isCommonText_of_key {s : String} (h : isCommonKey s = true) : isCommonText s = true := by
  simp only [isCommonKey, Bool.and_eq_true] at h
  exact h.1.1

theorem areCommon_iff {xs : List Json} : areCommon xs = true ↔ ∀ x ∈ xs, isCommon x = true := by
  induction xs with
  | nil => simp [areCommon]
  | cons x xs ih => simp [areCommon, ih]

theorem haveCommon_iff {es : List (String × Json)} : haveCommon es = true ↔
    ∀ k v, (k, v) ∈ es → isCommonKey k = true ∧ isCommon v = true := by
  induction es with
  | nil => simp [haveCommon]
  | cons e es ih =>
    obtain ⟨k, v⟩ := e
    rw [haveCommon, Bool.and_eq_true, Bool.and_eq_true, ih]
    constructor
    · rintro ⟨hv, hes⟩ l w hmem
      rcases List.mem_cons.1 hmem with heq | hmem
      · cases heq
        exact hv
      · exact hes l w hmem
    · exact fun h => ⟨h k v List.mem_cons_self, fun l w hmem => h l w (List.mem_cons_of_mem _ hmem)⟩

namespace Scanner

variable {ts us : List Token} {t : Token} {f n k : Nat} {a : Bool} {c : Char}
  {cs ds ws text rest : List Char} {p q : Cursor} {s : Scanner}
  {cands : List (Option Candidate)}

theorem flowTokens_word {v : Json} {w : String} (h : word? v = some w) :
    flowTokens v = [.scalar w .plain] := by
  cases v <;> cases h <;> simp [flowTokens, word?]

theorem breaks_jsonEscape : breaks Json.escapeChar c = isRawBreak c := by
  by_cases h : c.toNat < 32 ∨ isBreak c = false
  · rw [(solid_jsonEscape h).breaks]
    rcases h with h | h <;> simp [isRawBreak, h]
  · obtain ⟨hlarge, hb⟩ := not_or.1 h
    have hb : isBreak c = true := by simpa using hb
    simp [breaks, jsonEscape_break (Nat.not_lt.1 hlarge) hb, isRawBreak, hb, hlarge]

theorem quotable_of_common (h : areCommonChars cs = true) :
    Quotable false Json.escapeChar 0 cs := by
  induction cs with
  | nil => exact quotable_nil
  | cons c cs ih =>
    simp only [areCommonChars, Bool.and_eq_true, Bool.or_eq_true, decide_eq_true_eq,
      Bool.not_eq_true', Bool.and_eq_false_iff, Bool.or_eq_false_iff] at h
    obtain ⟨⟨⟨hc, hspace⟩, hbreak⟩, hcs⟩ := h
    refine Quotable.cons (written_jsonEscape (hc.imp_right fun h => by simpa using h.2)) (ih hcs)
      (fun d hd => ⟨fun hsp => ?_, fun hb => ?_⟩) fun hb => .inr ?_
    · rw [breaks_jsonEscape]
      have hd : cs.head? = some d := hd
      simpa [hsp, hd] using hspace
    · rw [breaks_jsonEscape] at hb
      have hd : cs.head? = some d := hd
      simpa [hb, hd] using (hbreak.resolve_left (by simp [hb])).1
    · rw [breaks_jsonEscape] at hb
      rw [quotedLines_zero]
      exact (hbreak.resolve_left (by simp [hb])).2

theorem isReadable_of_isCommonText {t : String} (h : isCommonText t = true) : IsReadable t :=
  quotable_of_common h

theorem keyFits_of_isCommonKey {t : String} (h : isCommonKey t = true) : KeyFits t := by
  simp only [isCommonKey, Bool.and_eq_true, decide_eq_true_eq, Bool.not_eq_true'] at h
  obtain ⟨⟨hcommon, hbreaks⟩, hnear⟩ := h
  refine ⟨isReadable_of_isCommonText hcommon, ?_, hnear⟩
  rw [escaped_toList]
  refine List.forall_mem_cons.2 ⟨rfl, List.forall_mem_append.2 ⟨fun d hd => ?_, by decide⟩⟩
  obtain ⟨c, hc, hd⟩ := List.mem_flatMap.1 hd
  have hraw : breaks Json.escapeChar c = false := by
    rw [breaks_jsonEscape]
    simpa using List.any_eq_false.1 hbreaks c hc
  simpa using List.any_eq_false.1 hraw d hd

theorem readsFlow_word {v : Json} {w : String} (h : word? v = some w) : ReadsFlow v := by
  intro d f ts cands a p ws ws' c cs hws hp hl hcol hend
  rw [prettyAt_word h] at hp
  rw [flowTokens_word h]
  exact Reaches.flowWord (isWord_of_word? h) hws hp hl hcol hend

theorem readsFlow_arr {vs : List Json} (hvs : ∀ v ∈ vs, ReadsFlow v) : ReadsFlow (.arr vs) := by
  intro d f ts cands a p ws ws' c cs hws hp hl hcol hend
  cases vs with
  | nil =>
    have hshape : (Json.prettyAt d (.arr [])).toList ++ (ws' ++ c :: cs) =
        '[' :: ([] ++ ']' :: (ws' ++ c :: cs)) := by rw [Json.prettyAt]; rfl
    rw [hshape] at hp
    refine (Reaches.closes .sequence .none ((Reaches.opens .sequence hws hp hl).mono fun s hs =>
      InFlow.before hs (.inl rfl))).mono fun s hs => ?_
    rw [flowTokens]
    exact InFlow.before (by simpa [flowItemTokens] using hs) (.inl rfl)
  | cons v vs =>
    have hshape : (Json.prettyAt d (.arr (v :: vs))).toList ++ (ws' ++ c :: cs) =
        '[' :: ((Json.prettyItems (d + 1) (v :: vs)).toList ++ ('\n' :: spaces (2 * d) ++ ']' ::
          (ws' ++ c :: cs))) := by
      rw [Json.prettyAt]
      · simp [toList_newline]
      · nofun
    rw [hshape] at hp
    refine (Reaches.opens .sequence hws hp hl).bind ?_
    rintro _ ⟨cands', q, rfl, hl', hq⟩
    refine (Reaches.closes .sequence ⟨_, .inr rfl⟩
      (Reaches.flowItems hvs (Nat.succ_ne_zero d) hl' hq)).mono fun s hs => ?_
    rw [flowTokens]
    exact InFlow.before (by simpa using hs) (.inl rfl)

theorem readsFlow_obj {es : List (String × Json)}
    (hes : ∀ k v, (k, v) ∈ es → KeyFits k ∧ ReadsFlow v) : ReadsFlow (.obj es) := by
  intro d f ts cands a p ws ws' c cs hws hp hl hcol hend
  cases es with
  | nil =>
    have hshape : (Json.prettyAt d (.obj [])).toList ++ (ws' ++ c :: cs) =
        '\x7b' :: ([] ++ '\x7d' :: (ws' ++ c :: cs)) := by rw [Json.prettyAt]; rfl
    rw [hshape] at hp
    refine (Reaches.closes .mapping .none ((Reaches.opens .mapping hws hp hl).mono fun s hs =>
      InFlow.before hs (.inl rfl))).mono fun s hs => ?_
    rw [flowTokens]
    exact InFlow.before (by simpa [flowFieldTokens] using hs) (.inl rfl)
  | cons e es =>
    have hshape : (Json.prettyAt d (.obj (e :: es))).toList ++ (ws' ++ c :: cs) =
        '\x7b' :: ((Json.prettyFields (d + 1) (e :: es)).toList ++ ('\n' :: spaces (2 * d) ++
          '\x7d' :: (ws' ++ c :: cs))) := by
      rw [Json.prettyAt]
      · simp [toList_newline]
      · nofun
    rw [hshape] at hp
    refine (Reaches.opens .mapping hws hp hl).bind ?_
    rintro _ ⟨cands', q, rfl, hl', hq⟩
    refine (Reaches.closes .mapping ⟨_, .inr rfl⟩ (Reaches.flowFields hes hl' hq)).mono
      fun s hs => ?_
    rw [flowTokens]
    exact InFlow.before (by simpa using hs) (.inl rfl)

/-- **A value in the form of JSON** is read in brackets. -/
theorem readsFlow (v : Json) (hint : v.isIntegral = true) (hv : isCommon v = true) :
    ReadsFlow v := by
  induction v using Json.induction with
  | null => exact readsFlow_word (w := "null") rfl
  | bool b => exact readsFlow_word (v := .bool b) rfl
  | int i => exact readsFlow_word (v := .int i) rfl
  | double x => cases hint
  | str t =>
    intro d f ts cands a p ws ws' c cs hws hp hl hcol hend
    exact (Reaches.flowText (isReadable_of_isCommonText hv) hws hp hl).mono fun s hs =>
      InFlow.before hs (.inl rfl)
  | arr vs ih =>
    rw [Json.isIntegral, Json.areIntegral_iff] at hint
    rw [isCommon, areCommon_iff] at hv
    exact readsFlow_arr fun w hw => ih w hw (hint w hw) (hv w hw)
  | obj es ih =>
    rw [Json.isIntegral, Json.haveIntegral_iff] at hint
    rw [isCommon, haveCommon_iff] at hv
    exact readsFlow_obj fun k w hw =>
      ⟨keyFits_of_isCommonKey (hv k w hw).1, ih k w hw (hint k w hw) (hv k w hw).2⟩

/-! ## Documents -/

theorem allowed_of_common (h : areCommonChars cs = true) :
    ∀ c ∈ cs, c.toNat < 32 ∨ isAllowed c = true := by
  induction cs with
  | nil => nofun
  | cons c cs ih =>
    simp only [areCommonChars, Bool.and_eq_true, Bool.or_eq_true, decide_eq_true_eq] at h
    exact List.forall_mem_cons.2 ⟨h.1.1.1.imp_right And.left, ih h.2⟩

theorem isAllowed_escaped {t : String} (h : isCommonText t = true) :
    ∀ d ∈ (Json.escaped t).toList, isAllowed d = true := by
  rw [escaped_toList]
  refine List.forall_mem_cons.2 ⟨rfl, List.forall_mem_append.2 ⟨fun d hd => ?_, by decide⟩⟩
  obtain ⟨c, hc, hd⟩ := List.mem_flatMap.1 hd
  exact isAllowed_jsonEscape (allowed_of_common h c hc) d hd

theorem isAllowed_newline : ∀ e ∈ (Json.newline n).toList, isAllowed e = true := by
  rw [toList_newline]
  exact List.forall_mem_cons.2 ⟨rfl, isAllowed_spaces⟩

theorem isAllowed_prettyItems {vs : List Json}
    (h : ∀ v ∈ vs, ∀ d, ∀ e ∈ (Json.prettyAt d v).toList, isAllowed e = true) :
    ∀ e ∈ (Json.prettyItems n vs).toList, isAllowed e = true := by
  induction vs with
  | nil => nofun
  | cons v vs ih =>
    have hv : ∀ e ∈ (Json.newline n ++ Json.prettyAt n v).toList, isAllowed e = true := by
      rw [String.toList_append]
      exact List.forall_mem_append.2 ⟨isAllowed_newline, h v List.mem_cons_self n⟩
    cases vs with
    | nil => exact hv
    | cons w vs =>
      rw [prettyItems_cons, String.toList_append, String.toList_append]
      exact List.forall_mem_append.2 ⟨List.forall_mem_append.2 ⟨hv, by decide⟩,
        ih fun u hu => h u (List.mem_cons_of_mem _ hu)⟩

theorem isAllowed_prettyFields {es : List (String × Json)}
    (h : ∀ k v, (k, v) ∈ es → isCommonText k = true ∧
      ∀ d, ∀ e ∈ (Json.prettyAt d v).toList, isAllowed e = true) :
    ∀ e ∈ (Json.prettyFields n es).toList, isAllowed e = true := by
  induction es with
  | nil => nofun
  | cons e es ih =>
    obtain ⟨k, v⟩ := e
    obtain ⟨hk, hv⟩ := h k v List.mem_cons_self
    have hfield : ∀ e ∈ (Json.newline n ++ Json.escaped k ++ ": " ++ Json.prettyAt n v).toList,
        isAllowed e = true := by
      simp only [String.toList_append]
      exact List.forall_mem_append.2 ⟨List.forall_mem_append.2 ⟨List.forall_mem_append.2
        ⟨isAllowed_newline, isAllowed_escaped hk⟩, by decide⟩, hv n⟩
    cases es with
    | nil => exact hfield
    | cons e es =>
      rw [prettyFields_cons, String.toList_append, String.toList_append]
      exact List.forall_mem_append.2 ⟨List.forall_mem_append.2 ⟨hfield, by decide⟩,
        ih fun l w hw => h l w (List.mem_cons_of_mem _ hw)⟩

/-- All of a common value in the form of JSON may stand in a document. -/
theorem isAllowed_prettyAt {v : Json} (hint : v.isIntegral = true) (hv : isCommon v = true) :
    ∀ d, ∀ e ∈ (Json.prettyAt d v).toList, isAllowed e = true := by
  have hword {v : Json} {w : String} (hw : word? v = some w) (d : Nat) :
      ∀ e ∈ (Json.prettyAt d v).toList, isAllowed e = true := by
    rw [prettyAt_word hw]
    exact fun e he => isAllowed_of_isWordChar ((isWord_of_word? hw).chars e he)
  induction v using Json.induction with
  | null => exact hword (w := "null") rfl
  | bool b => exact hword (v := .bool b) rfl
  | int i => exact hword (v := .int i) rfl
  | double x => cases hint
  | str t => exact fun d => isAllowed_escaped hv
  | arr vs ih =>
    rw [Json.isIntegral, Json.areIntegral_iff] at hint
    rw [isCommon, areCommon_iff] at hv
    intro d
    cases vs with
    | nil =>
      rw [Json.prettyAt]
      decide
    | cons v vs =>
      rw [Json.prettyAt]
      · simp only [String.toList_append]
        exact List.forall_mem_append.2 ⟨List.forall_mem_append.2 ⟨List.forall_mem_append.2
          ⟨by decide, isAllowed_prettyItems fun w hw => ih w hw (hint w hw) (hv w hw)⟩,
          isAllowed_newline⟩, by decide⟩
      · exact List.cons_ne_nil v vs
  | obj es ih =>
    rw [Json.isIntegral, Json.haveIntegral_iff] at hint
    rw [isCommon, haveCommon_iff] at hv
    intro d
    cases es with
    | nil =>
      rw [Json.prettyAt]
      decide
    | cons e es =>
      rw [Json.prettyAt]
      · simp only [String.toList_append]
        refine List.forall_mem_append.2 ⟨List.forall_mem_append.2 ⟨List.forall_mem_append.2
          ⟨by decide, isAllowed_prettyFields fun k w hw => ⟨?_, ?_⟩⟩, isAllowed_newline⟩, by decide⟩
        · exact isCommonText_of_key (hv k w hw).1
        · exact ih k w hw (hint k w hw) (hv k w hw).2
      · exact List.cons_ne_nil e es

/-- A brace opens a document. -/
theorem Reaches.opensDocument :
    Reaches (blockState [] (-1) [] true ⟨'\x7b' :: cs, 0, 0, 0⟩)
      (InFlow [.openMapping] 1 true cs) := by
  let p : Cursor := ⟨'\x7b' :: cs, 0, 0, 0⟩
  let cands : List (Option Candidate) := [none, some ⟨false, 0, 0, 0, 0⟩]
  have hopen : (blockState [] (-1) [] true p).tokenFrom '\x7b' cs =
      .ok (flowState [.openMapping] 1 cands true p.skip) := rfl
  have hlenient : Lenient cands := by
    intro c hc d hd
    obtain rfl | rfl : c = none ∨ c = some ⟨false, 0, 0, 0, 0⟩ := by simpa [cands] using hc
    · cases hd
    · cases hd
      rfl
  exact of_token (settled rfl rfl (show (-1 : Int) ≤ (0 : Nat) by decide))
    (token_eq rfl nofun rfl hopen) (by simp [flowState, blockState, p, Cursor.skip])
    ⟨cands, p.skip, rfl, hlenient, rfl⟩

/-- At the end of the text, no bracket is open. -/
theorem all_close (h : InFlow ts 0 a [] s) (fuel : Nat) :
    all (fuel + 1) s = .ok (ts ++ [.finish]) := by
  obtain ⟨cands, p, rfl, hl, hp⟩ := h
  obtain ⟨_, x, l, k⟩ := p
  subst hp
  let q : Cursor := ⟨[], x, l, k⟩
  obtain ⟨cands', hdrop, -⟩ := dropCandidate_flowState ts 0 a q hl.kept
  have hunroll {c : List (Option Candidate)} {j : Int} (hj : -1 ≤ j) :
      (flowState ts 0 c a q).unroll j = flowState ts 0 c a q := unroll_le hj
  have hsettle : (flowState ts 0 cands a q).settle = .ok (flowState ts 0 (kept q cands) a q) := by
    change ((flowState ts 0 cands a q).dropStale >>= fun s => .ok (s.unroll k)) = _
    rw [dropStale_flowState hl]
    exact congrArg Except.ok (hunroll (by omega))
  have hnext : (flowState ts 0 cands a q).next =
      .ok (flowState (ts ++ [.finish]) 0 cands' a q, false) := by
    rw [next, hsettle]
    change (((flowState ts 0 (kept q cands) a q).unroll (-1)).dropCandidate >>= fun s =>
      .ok (s.push .finish, false)) = _
    rw [hunroll (Int.le_refl _), hdrop]
    change Except.ok _ = _
    simp [flowState, push]
  rw [all, hnext]
  rfl

theorem toList_pretty (e : String × Json) (es : List (String × Json)) :
    (Json.pretty (.obj (e :: es))).toList =
      '\x7b' :: ((Json.prettyFields 1 (e :: es)).toList ++ ('\n' :: spaces 0 ++ ['\x7d'])) := by
  rw [Json.pretty, Json.prettyAt]
  · simp [toList_newline]
  · nofun

/-- **The tokens of an object in the form of JSON** are those of the object. -/
theorem tokens_pretty {e : String × Json} {es : List (String × Json)}
    (hint : Json.isIntegral (.obj (e :: es)) = true) (hv : isCommon (.obj (e :: es)) = true) :
    Token.ofText (Json.pretty (.obj (e :: es))) =
      .ok (flowTokens (.obj (e :: es)) ++ [.finish]) := by
  have hallowed := isAllowed_prettyAt hint hv 0
  let text := (Json.prettyFields 1 (e :: es)).toList ++ ('\n' :: spaces 0 ++ ['\x7d'])
  have htext : (Json.pretty (.obj (e :: es))).toList = '\x7b' :: text := toList_pretty e es
  have hfields (k : String) (w : Json) (hw : (k, w) ∈ e :: es) : KeyFits k ∧ ReadsFlow w := by
    rw [Json.isIntegral, Json.haveIntegral_iff] at hint
    rw [isCommon, haveCommon_iff] at hv
    exact ⟨keyFits_of_isCommonKey (hv k w hw).1, readsFlow w (hint k w hw) (hv k w hw).2⟩
  have hreach : Reaches (blockState [] (-1) [] true ⟨'\x7b' :: text, 0, 0, 0⟩)
      (InFlow (flowTokens (.obj (e :: es))) 0 false []) := by
    refine Reaches.opensDocument.bind ?_
    rintro _ ⟨cands, p, rfl, hl, hp⟩
    exact Reaches.closes .mapping ⟨0, .inr rfl⟩ (Reaches.flowFields hfields hl hp)
  have hall : ('\x7b' :: text).all isAllowed = true := by
    rw [List.all_eq_true, ← htext]
    exact hallowed
  rw [Token.ofText, htext]
  change (if ('\x7b' :: text).all isAllowed = true then _ else _) = _
  rw [if_pos hall]
  exact hreach.all_eq (fun s hs => all_close hs) (Nat.le_succ _)

end Scanner
end Runbook.Yaml

import Runbook.Proofs.Template.Braces
import Runbook.Proofs.Template.Path
import Runbook.Proofs.Template.Reading

/-!
# A single block as a value and as a text

A text that is a single block stands for the value of its expression; rendered as a template it
stands for the text of that value. The one way reads what stands between the braces on its own, the
other reads it up to the end of the block. Where neither the braces nor what is next to them can be
read in two ways (`IsBlock`), the tokens are the same (`Token.Inside.splitBefore`), and so is the
expression that is parsed (`IsBlock.parse_eq_ok`). What is left of a difference are values that
can be written and are no JSON values (`resolve_block`, `resolve_block_text_only`).
-/

namespace Runbook.Template

namespace Token

variable {n fuel more : Nat} {cs tail : List Char}

theorem scan_mark_brace {c : Char} (hc : c ∈ ['-', '+']) :
    scan (fuel + 2) (.output 0) [c, '\x7d'] = [.sign (String.ofList [c]), .sign "\x7d"] := by
  simp only [List.mem_cons, List.not_mem_nil, or_false] at hc
  rcases hc with rfl | rfl <;> rw [scan_token (by decide) (by decide)] <;>
    exact congrArg _ (scan_brace 0)

/-- A text that a tail follows inside a block, with enough steps to split it. There is no end of the
block in it, and none where it meets the tail: if the end of the block follows directly, the text
does not end in a mark, and a brace at its end closes one that it opened. -/
structure Inside (n fuel : Nat) (cs tail : List Char) : Prop where
  length : cs.length < fuel
  no_end : ¬['\x7d', '\x7d'] <:+: cs
  mark : tail.head? = some '\x7d' → ∀ c ∈ cs.getLast?, c ∉ ['-', '+']
  brace : tail.head? = some '\x7d' → ∀ ts, scan fuel (.output n) cs = ts ++ [.sign "\x7d"] →
    0 < openAfter n ts

namespace Inside

/-- A text on its own. -/
theorem alone (h : Inside n fuel cs tail) : Inside n fuel cs [] :=
  ⟨h.length, h.no_end, nofun, nofun⟩

/-- What is left of the text after some tokens. -/
theorem rest {used : Nat} {rest : List Char} {ts : List Token} (h : Inside n fuel cs tail)
    (hrest : rest <:+ cs) (hlength : rest.length < used)
    (hscan : scan fuel (.output n) cs = ts ++ scan used (.output (openAfter n ts)) rest) :
    Inside (openAfter n ts) used rest tail where
  length := hlength
  no_end hno := h.no_end (hno.trans hrest.isInfix)
  mark htail c hc := by
    obtain ⟨before, rfl⟩ := hrest
    refine h.mark htail c ?_
    rw [List.getLast?_append, Option.mem_def.1 hc]
    rfl
  brace htail us hus := by
    have hopen := h.brace htail (ts ++ us) (by rw [hscan, hus, List.append_assoc])
    rwa [openAfter_append] at hopen

theorem skip (h : Inside n fuel cs tail) : Inside n fuel (skipSpace cs) tail := by
  have hsuffix : skipSpace cs <:+ cs := List.dropWhile_suffix isSpace
  have hscan : scan fuel (.output n) cs =
      [] ++ scan fuel (.output (openAfter n [])) (skipSpace cs) := (scan_skipSpace cs).symm
  exact h.rest hsuffix (hsuffix.length_le.trans_lt h.length) hscan

/-- The block is not at its end before the text is. -/
theorem closing?_eq_none {c : Char} {r : List Char} (h : Inside n fuel (c :: r) tail) :
    closing? n (c :: r ++ tail) = none := by
  obtain ⟨fuel, rfl⟩ : ∃ f, fuel = f + 2 := ⟨fuel - 2, by have := h.length; simp at this; omega⟩
  have hmark (hc : c ∈ ['-', '+']) (hn : n = 0) {x : List Char}
      (hr : r ++ tail = '\x7d' :: '\x7d' :: x) : False := by
    subst hn
    match r, hr with
    | [], hr => exact h.mark (congrArg List.head? hr) c rfl hc
    | [_], hr =>
      cases hr
      have hlt := h.brace rfl [.sign (String.ofList [c])] (scan_mark_brace hc)
      simp only [List.mem_cons, List.not_mem_nil, or_false] at hc
      rcases hc with rfl | rfl <;> cases hlt
    | _ :: _ :: y, hr =>
      cases hr
      exact h.no_end ⟨[c], y, rfl⟩
  unfold closing?
  split
  · rename_i hcs
    obtain ⟨rfl, hr⟩ := List.cons.inj hcs
    exact (hmark (by decide) rfl hr).elim
  · rename_i hcs
    obtain ⟨rfl, hr⟩ := List.cons.inj hcs
    exact (hmark (by decide) rfl hr).elim
  · rename_i hcs
    obtain ⟨rfl, hr⟩ := List.cons.inj hcs
    match r, hr with
    | [], hr => exact absurd (h.brace (congrArg List.head? hr) [] (scan_brace 0)) (by decide)
    | _ :: y, hr =>
      obtain ⟨rfl, -⟩ := List.cons.inj hr
      exact absurd ⟨[], y, rfl⟩ h.no_end
  · rfl

/-- The first token of the text is the same before the tail, and the tail is left with what is left
of the text. -/
theorem scan_cons {c : Char} {r : List Char} (h : Inside n (fuel + 1) (c :: r) tail)
    (htail : IsTail tail) (hc : isSpace c = false) :
    (∃ e, scan (fuel + 1) (.output n) (c :: r) = [.fault e] ∧
      scan (more + 1) (.output n) (c :: r ++ tail) = [.fault e]) ∨
    ∃ t rest, t ≠ .outputEnd ∧ rest <:+ r ∧
      scan (fuel + 1) (.output n) (c :: r) = t :: scan fuel (.output (bracketChange t n)) rest ∧
      scan (more + 1) (.output n) (c :: r ++ tail) =
        t :: scan more (.output (bracketChange t n)) (rest ++ tail) := by
  obtain ⟨hsame, happend⟩ := next_append (List.cons_ne_nil c r) htail
  have hskip (x : List Char) : skipSpace (c :: x) = c :: x := skipSpace_cons hc
  have hne (x : List Char) : skipSpace (c :: x) ≠ [] := by simp [hskip]
  have hclose : closing? n (skipSpace (c :: r)) = none := by
    rw [hskip, ← List.append_nil (c :: r)]
    exact h.alone.closing?_eq_none
  have hclose' : closing? n (skipSpace (c :: (r ++ tail))) = none := by
    rw [hskip]
    exact h.closing?_eq_none
  rw [List.cons_append] at hsame happend ⊢
  cases hnext : next (c :: r) with
  | mk t rest =>
    rw [hnext] at hsame happend
    by_cases ht : ∃ e, t = .fault e
    · obtain ⟨e, rfl⟩ := ht
      exact .inl ⟨e, scan_fault (hne r) hclose (by rw [hskip, hnext]),
        scan_fault (hne _) hclose' (by rw [hskip, hsame])⟩
    · have hgood : ∀ e, t ≠ .fault e := fun e he => ht ⟨e, he⟩
      have hnext' : next (c :: (r ++ tail)) = (t, rest ++ tail) := Prod.ext hsame (happend hgood)
      have hend := next_ne_outputEnd (c :: r)
      have hrest := next_suffix c r
      rw [hnext] at hend hrest
      exact .inr ⟨t, rest, hend, hrest, scan_next (hne r) hclose (by rw [hskip, hnext]) hgood,
        scan_next (hne _) hclose' (by rw [hskip, hnext']) hgood⟩

end Inside

/-- A text is split before a tail as on its own, into tokens that do not end the block, and then the
tail is split, unless a fault ends the tokens before. -/
def SplitBefore (n fuel more : Nat) (cs tail : List Char) : Prop :=
  .outputEnd ∉ scan fuel (.output n) cs ∧
    ((∃ e, .fault e ∈ scan fuel (.output n) cs) ∧
        scan more (.output n) (cs ++ tail) = scan fuel (.output n) cs ∨
      ∃ rest, tail.length < rest ∧ scan more (.output n) (cs ++ tail) =
        scan fuel (.output n) cs ++
          scan rest (.output (openAfter n (scan fuel (.output n) cs))) tail)

namespace SplitBefore

theorem nil (hmore : tail.length < more) : SplitBefore n (fuel + 1) more [] tail := by
  rw [SplitBefore, scan_blank rfl]
  exact ⟨List.not_mem_nil, .inr ⟨more, hmore, rfl⟩⟩

theorem cons {t : Token} {rest : List Char} (ht : t ≠ .outputEnd)
    (hscan : scan (fuel + 1) (.output n) cs = t :: scan fuel (.output (bracketChange t n)) rest)
    (hscan' : scan (more + 1) (.output n) (cs ++ tail) =
      t :: scan more (.output (bracketChange t n)) (rest ++ tail))
    (h : SplitBefore (bracketChange t n) fuel more rest tail) :
    SplitBefore n (fuel + 1) (more + 1) cs tail := by
  obtain ⟨hend, hrest⟩ := h
  rw [SplitBefore, hscan, hscan']
  refine ⟨by simp [hend, Ne.symm ht], ?_⟩
  obtain ⟨⟨e, he⟩, hrest⟩ | ⟨left, hleft, hrest⟩ := hrest
  · exact .inl ⟨⟨e, List.mem_cons_of_mem t he⟩, by rw [hrest]⟩
  · exact .inr ⟨left, hleft, by rw [hrest]; rfl⟩

theorem of_skipSpace (h : SplitBefore n fuel more (skipSpace cs) tail) :
    SplitBefore n fuel more cs tail := by
  rwa [SplitBefore, scan_skipSpace, scan_skipSpace_append] at h

end SplitBefore

/-- **Up to a tail** a text inside a block is split as on its own. -/
theorem Inside.splitBefore (htail : IsTail tail) (h : Inside n fuel cs tail)
    (hmore : (cs ++ tail).length < more) : SplitBefore n fuel more cs tail := by
  induction fuel generalizing n more cs with
  | zero => exact absurd h.length (Nat.not_lt_zero _)
  | succ fuel ih =>
    obtain ⟨more, rfl⟩ : ∃ m, more = m + 1 := ⟨more - 1, by omega⟩
    refine .of_skipSpace ?_
    have hlength := h.length
    have hspace : (skipSpace cs).length ≤ cs.length := (List.dropWhile_suffix isSpace).length_le
    have h := h.skip
    cases hcs : skipSpace cs with
    | nil => exact .nil (by rw [List.length_append] at hmore; omega)
    | cons c r =>
      have hc : isSpace c = false := by
        have hhead := List.head?_dropWhile_not isSpace cs
        rwa [show cs.dropWhile isSpace = c :: r from hcs] at hhead
      rw [hcs] at h hspace
      obtain ⟨e, hfault, hfault'⟩ | ⟨t, rest, ht, hrest, hnext, hnext'⟩ :=
        @Inside.scan_cons n fuel more tail c r h htail hc
      · refine ⟨by simp [hfault], .inl ⟨⟨e, ?_⟩, hfault'.trans hfault.symm⟩⟩
        rw [hfault]
        exact List.mem_singleton_self _
      · have hshort := hrest.length_le
        simp only [List.length_cons, List.length_append] at hspace hmore
        have hinside : Inside (openAfter n [t]) fuel rest tail :=
          h.rest (hrest.trans (List.suffix_cons c r)) (by omega) hnext
        exact .cons ht hnext hnext' (ih hinside (by rw [List.length_append]; omega))

/-- The tokens of two closing braces where some brackets are open: they end the block when none
is. -/
def closers : Nat → List Token
  | 0 => [.outputEnd]
  | _ + 1 => [.sign "\x7d", .sign "\x7d"]

theorem scan_closers {trail : List Char} (h : ∀ c ∈ trail, isSpace c = true) (hfuel : 2 < fuel) :
    scan fuel (.output n) (trail ++ ['\x7d', '\x7d']) = closers n := by
  obtain ⟨fuel, rfl⟩ : ∃ f, fuel = f + 2 := ⟨fuel - 2, by omega⟩
  rw [scan_spaces h]
  cases n with
  | zero =>
    rw [scan_closing rfl]
    rfl
  | succ n =>
    rw [scan_token (by decide) rfl]
    exact congrArg _ (scan_brace n)

end Token

/-! ## Parsing up to the end of a block -/

namespace Parse

variable {ts rest : List Token} {e : Expr}

/-- An expression takes the same tokens before the end of its block as before the end of the
text. -/
theorem expr_outputEnd (hout : .outputEnd ∉ ts) :
    expr (fuelFor (ts ++ [.outputEnd])) maxNesting (ts ++ [.outputEnd]) =
        .ok (e, .outputEnd :: rest) ↔
      rest = [] ∧ expr (fuelFor ts) maxNesting ts = .ok (e, []) := by
  constructor
  · intro h
    obtain ⟨used, hts, -, hread⟩ := reads_expr h
    -- there is one end of a block among the tokens
    obtain ⟨rfl, -, rfl⟩ := (List.append_cons_inj_of_notMem hout List.not_mem_nil).1 hts
    have hexpr := hread (fuelFor ts) [] rfl (by rw [fuelFor]; omega)
    rw [List.append_nil] at hexpr
    exact ⟨rfl, hexpr⟩
  · rintro ⟨rfl, h⟩
    obtain ⟨used, hts, -, hread⟩ := reads_expr h
    rw [List.append_nil] at hts
    subst hts
    exact hread _ [.outputEnd] rfl (by rw [fuelFor, List.length_append]; omega)

theorem nodes_outputStart {fuel : Nat} {acc : List Node} {x : (List Node × String) × List Token}
    (h : nodes (fuel + 1) [] acc (.outputStart :: ts) = .ok x) :
    ∃ e rest, expr (fuelFor ts) maxNesting ts = .ok (e, .outputEnd :: rest) ∧
      nodes fuel [] (.output e :: acc) rest = .ok x := by
  rw [nodes] at h
  obtain ⟨⟨e, r⟩, hexpr, hnodes⟩ := bind_eq_ok.1 h
  dsimp only at hnodes
  split at hnodes
  · exact ⟨e, _, hexpr, hnodes⟩
  · exact absurd hnodes unexpected_ne_ok

end Parse

theorem Expr.parse_eq_ok {s : String} {e : Expr} : Expr.parse s = .ok e ↔
    Parse.expr (Parse.fuelFor (Token.ofExpression s)) Parse.maxNesting (Token.ofExpression s) =
      .ok (e, []) := by
  unfold Expr.parse
  dsimp only
  split
  iterate 2
    rename_i h
    simp [h]
  · rename_i hne h
    simp only [h, Parse.unexpected_ne_ok, Except.ok.injEq, Prod.mk.injEq, false_iff, not_and]
    exact fun _ => hne

/-! ## A block as an expression and as a template -/

/-- A text is a single block of an expression, and in it nothing of the expression can be taken for
a part of the block's delimiters: between the braces and the expression is white space of
templates, or the expression touches the braces with neither a sign nor an unpaired brace. -/
structure IsBlock (s expr : String) (lead trail : List Char) : Prop where
  single : singleExpression? s = some expr
  text : Text.trimChars s.toList =
    '\x7b' :: '\x7b' :: (lead ++ expr.toList ++ trail) ++ ['\x7d', '\x7d']
  isSpace_lead : ∀ c ∈ lead, Token.isSpace c = true
  isSpace_trail : ∀ c ∈ trail, Token.isSpace c = true
  start : lead = [] → ∀ c ∈ expr.toList.head?, c ∉ ['-', '+']
  stop : trail = [] → ∀ c ∈ expr.toList.getLast?, c ∉ ['-', '+']
  paired : trail = [] → ∀ ts, Token.ofExpression expr = ts ++ [.sign "\x7d"] →
    0 < Token.openAfter 0 ts

namespace IsBlock

variable {s expr : String} {lead trail : List Char}

section

variable (h : IsBlock s expr lead trail)
include h

/-- The expression is not blank at its ends and holds no end of a block. -/
theorem tight : Text.Tight expr.toList ∧ expr.toList ≠ [] ∧ ¬['\x7d', '\x7d'] <:+: expr.toList := by
  obtain ⟨inner, htext, hmarks, hne, hexpr⟩ := singleExpression?_eq_some_iff.1 h.single
  have hinner : expr.toList = Text.trimChars inner := by rw [hexpr, String.toList_ofList]
  obtain ⟨before, after, hbetween, -, -, htight⟩ := Text.exists_trimChars inner
  rw [hinner]
  refine ⟨htight, hne, fun hmark => hmarks "\x7d\x7d" (by decide) (hmark.trans ?_)⟩
  exact ⟨before, after, hbetween.symm⟩

theorem ofExpression_eq :
    Token.ofExpression expr = Token.scan (expr.toList.length + 1) (.output 0) expr.toList := by
  have hend : Token.dropLineEnd expr.toList = expr.toList :=
    Token.dropLineEnd_eq_self fun c hc => by
      have hblank := h.tight.1.2 c hc
      constructor <;> rintro rfl <;> cases hblank
  rw [Token.ofExpression, hend]

/-- Up to the expression the template is split as its opening. -/
theorem ofTemplate_opening : Token.ofTemplate (Text.trim s) = .outputStart ::
    Token.scan ((lead ++ (expr.toList ++ (trail ++ ['\x7d', '\x7d']))).length + 2) (.output 0)
      (expr.toList ++ (trail ++ ['\x7d', '\x7d'])) := by
  have htext : (Text.trim s).toList =
      '\x7b' :: '\x7b' :: (lead ++ (expr.toList ++ (trail ++ ['\x7d', '\x7d']))) := by
    rw [Text.trim, String.toList_ofList, h.text]
    simp
  have hend : Token.dropLineEnd (Text.trim s).toList = (Text.trim s).toList :=
    Token.dropLineEnd_eq_self fun c hc => by
      rw [Text.trim, String.toList_ofList, h.text, List.getLast?_append] at hc
      cases hc
      decide
  have hmark : Token.openMark (lead ++ (expr.toList ++ (trail ++ ['\x7d', '\x7d']))) =
      (false, lead ++ (expr.toList ++ (trail ++ ['\x7d', '\x7d']))) := by
    refine Token.openMark_eq_self fun c hc => ?_
    cases hlead : lead with
    | nil =>
      rw [hlead, List.nil_append, List.head?_append_of_ne_nil _ h.tight.2.1] at hc
      exact h.start hlead c hc
    | cons d r =>
      have hnot : ∀ d ∈ ['-', '+'], Token.isSpace d = false :=
        List.all_iff_forall_prop.1 (by decide)
      rw [hlead] at hc
      cases hc
      intro hm
      have hspace := h.isSpace_lead c (hlead ▸ List.mem_cons_self)
      rw [hnot c hm] at hspace
      cases hspace
  rw [Token.ofTemplate, hend, htext, Token.scan_opening (Token.splitText_opening _) hmark,
    Token.scan_spaces h.isSpace_lead]
  rfl

/-- **As a template** the block has the tokens of the expression between those of its delimiters,
unless these hold a fault, which ends them. -/
theorem ofTemplate_eq : .outputEnd ∉ Token.ofExpression expr ∧
    ((∃ e, .fault e ∈ Token.ofExpression expr) ∧
        Token.ofTemplate (Text.trim s) = .outputStart :: Token.ofExpression expr ∨
      Token.ofTemplate (Text.trim s) = .outputStart :: (Token.ofExpression expr ++
        Token.closers (Token.openAfter 0 (Token.ofExpression expr)))) := by
  obtain ⟨htight, hne, hno⟩ := h.tight
  have htail : Token.IsTail (trail ++ ['\x7d', '\x7d']) := by
    refine ⟨by simp, fun c hc => (List.mem_append.1 hc).elim
      (fun hc => Token.mem_tailChars_of_isSpace (h.isSpace_trail c hc)) fun hc => ?_⟩
    obtain rfl : c = '\x7d' := by simpa using hc
    decide
  have htrail : (trail ++ ['\x7d', '\x7d']).head? = some '\x7d' → trail = [] := fun hhead => by
    cases htrail : trail with
    | nil => rfl
    | cons c r =>
      rw [htrail] at hhead
      cases hhead
      cases h.isSpace_trail _ (htrail ▸ List.mem_cons_self)
  have hinside : Token.Inside 0 (expr.toList.length + 1) expr.toList (trail ++ ['\x7d', '\x7d']) :=
    ⟨Nat.lt_succ_self _, hno, fun hhead => h.stop (htrail hhead), fun hhead => by
      rw [← h.ofExpression_eq]
      exact h.paired (htrail hhead)⟩
  have hmore : (expr.toList ++ (trail ++ ['\x7d', '\x7d'])).length <
      (lead ++ (expr.toList ++ (trail ++ ['\x7d', '\x7d']))).length + 2 := by
    simp only [List.length_append]
    omega
  obtain ⟨hout, hscan⟩ := hinside.splitBefore htail hmore
  rw [← h.ofExpression_eq] at hout hscan
  rw [h.ofTemplate_opening]
  refine ⟨hout, ?_⟩
  obtain ⟨hfault, hscan⟩ | ⟨rest, hrest, hscan⟩ := hscan
  · exact .inl ⟨hfault, by rw [hscan]⟩
  · rw [List.length_append] at hrest
    exact .inr (by rw [hscan, Token.scan_closers h.isSpace_trail (by simp at hrest; omega)])

/-- **The template of a block** is the one output of its expression, and parses if the expression
does. -/
theorem parse_eq_ok {ns : List Node} : Node.parse (Text.trim s) = .ok ns ↔
    ∃ e, Expr.parse expr = .ok e ∧ ns = [.output e] := by
  obtain ⟨hout, htokens⟩ := h.ofTemplate_eq
  rw [Node.parse_eq_ok]
  simp only [Expr.parse_eq_ok]
  generalize Token.ofExpression expr = ts at hout htokens
  generalize Token.ofTemplate (Text.trim s) = all at htokens
  constructor
  · rintro ⟨stop, rest, hnodes⟩
    obtain ⟨r, rfl, hr⟩ : ∃ r, all = .outputStart :: r ∧
        (.outputEnd ∈ r → r = ts ++ [.outputEnd]) := by
      obtain ⟨-, rfl⟩ | rfl := htokens
      · exact ⟨ts, rfl, fun hm => absurd hm hout⟩
      · refine ⟨_, rfl, fun hm => ?_⟩
        cases hopen : Token.openAfter 0 ts with
        | zero => rfl
        | succ n => simp [hopen, hout, Token.closers] at hm
    obtain ⟨e, r', hexpr, hnodes⟩ := Parse.nodes_outputStart hnodes
    obtain ⟨used, hused, -, -⟩ := Parse.reads_expr hexpr
    rw [hr (hused ▸ List.mem_append_right _ List.mem_cons_self)] at hexpr
    obtain ⟨rfl, hend⟩ := (Parse.expr_outputEnd hout).1 hexpr
    cases hnodes
    exact ⟨e, hend, rfl⟩
  · rintro ⟨e, hexpr, rfl⟩
    obtain ⟨used, hused, htakes, -⟩ := Parse.reads_expr hexpr
    obtain rfl : ts = used := by simpa using hused
    have hopen : Token.openAfter 0 ts = 0 := htakes.brackets 0
    obtain ⟨⟨x, hx⟩, -⟩ | rfl := htokens
    · exact absurd hx (htakes.no_fault x)
    · have hend := (Parse.expr_outputEnd hout).2 ⟨rfl, hexpr⟩
      refine ⟨"", [], ?_⟩
      rw [hopen, Token.closers, List.length_cons, Nat.mul_succ, Parse.nodes, hend]
      rfl

end

end IsBlock

/-! ## The value and the text -/

theorem renderAll_output {env env' : Env} {e : Expr} {u : String} :
    renderAll 0 env "" [.output e] = .ok (env', u) ↔
      ∃ v, e.eval env = .ok v ∧ written v = .ok u ∧ env = env' := by
  rw [renderAll, Node.render]
  cases e.eval env with
  | error f => simp
  | ok v => cases hw : written v <;> simp [hw, renderAll, and_comm]

/-- The text of a block is that of the value of its expression. -/
theorem IsBlock.render_eq_ok_iff {s expr u : String} {lead trail : List Char} {context : Json}
    (h : IsBlock s expr lead trail) : render (Text.trim s) context = .ok u ↔
      ∃ e v, Expr.parse expr = .ok e ∧ e.eval (Env.ofContext context) = .ok v ∧
        written v = .ok u := by
  simp [Template.render_eq_ok_iff, h.parse_eq_ok, renderAll_output]

namespace Value

variable {v : Value} {u : String} {i : Int}

end Value

/-- A block with a blank next to either brace. -/
theorem IsBlock.spaced {s expr : String} (hs : singleExpression? s = some expr)
    (ht : Text.trimChars s.toList = "\x7b\x7b ".toList ++ expr.toList ++ " \x7d\x7d".toList) :
    IsBlock s expr [' '] [' '] where
  single := hs
  text := by rw [ht]; simp
  isSpace_lead := List.forall_mem_singleton.2 rfl
  isSpace_trail := List.forall_mem_singleton.2 rfl
  start := nofun
  stop := nofun
  paired := nofun

end Runbook.Template

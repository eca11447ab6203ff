import Runbook.Proofs.Template.Reference

/-!
# Placeholders in a text

A text with references between literal parts stands for the literal parts with the text of what
each reference finds between them (`resolve_inline`). A template loses one line end at its end, so
the literal parts are those of the text without it; and a reference with one more brace after it is
taken for a single block of something that does not parse (`resolve_reference_brace`). Both change
texts that no one would expect to change (`resolve_inline_altered`).
-/

namespace Runbook.Template

/-- The texts that begin a block. -/
def openings : List String := ["\x7b\x7b", "\x7b%", "\x7b#"]

/-- A text that begins no block, whatever follows it. -/
def Plain (s : List Char) : Prop :=
  (∀ mark ∈ openings, ¬mark.toList <:+: s) ∧ s.getLast? ≠ some '\x7b'

theorem Plain.tail {c : Char} {cs : List Char} (h : Plain (c :: cs)) : Plain cs := by
  refine ⟨fun mark hm hi => h.1 mark hm (hi.trans (List.suffix_cons c cs).isInfix), fun hl => ?_⟩
  cases cs with
  | nil => cases hl
  | cons d cs => exact h.2 (by rwa [List.getLast?_cons_cons])

/-- A part of a text with placeholders. -/
inductive Piece where
  | literal (s : String)
  | placeholder (p : Path)

namespace Piece

/-- The characters of a piece. -/
def chars : Piece → List Char
  | literal s => s.toList
  | placeholder p => p.reference.toList

/-- The text of a string or of an integer. -/
def textOf? : Json → Option String
  | .str s => some s
  | .int i => some (toString i)
  | _ => none

/-- What a piece stands for over a context. -/
def filled? (fs : Fields) : Piece → Option String
  | literal s => some s
  | placeholder p => (p.find? fs).bind textOf?

end Piece

/-- The characters of some pieces. -/
def source (ps : List Piece) : List Char := ps.flatMap Piece.chars

@[simp] theorem source_literal {s : String} {ps : List Piece} :
    source (.literal s :: ps) = s.toList ++ source ps := List.flatMap_cons

@[simp] theorem source_placeholder {p : Path} {ps : List Piece} :
    source (.placeholder p :: ps) = p.reference.toList ++ source ps := List.flatMap_cons

/-- What some pieces stand for over a context. -/
def filled? (fs : Fields) : List Piece → Option String
  | [] => some ""
  | x :: ps => (x.filled? fs).bind fun s => (filled? fs ps).map (s ++ ·)

/-! ## Tokens -/

namespace Token

/-- A text that is passed over as a whole on the way to the next block. -/
def Clear (cs : List Char) : Prop :=
  ∀ rest, splitText (cs ++ rest) = (cs ++ (splitText rest).1, (splitText rest).2)

theorem Clear.nil : Clear [] := fun _ => rfl

theorem Clear.append {cs ds : List Char} (hc : Clear cs) (hd : Clear ds) : Clear (cs ++ ds) := by
  intro rest
  rw [List.append_assoc, hc, hd, List.append_assoc]

theorem Clear.cons {c : Char} {cs : List Char} (hc : c ≠ '\x7b') (hcs : Clear cs) :
    Clear (c :: cs) := by
  intro rest
  rw [List.cons_append, splitText.eq_2 _ _ (by intro d r hd; exact absurd hd hc), hcs]
  rfl

theorem Clear.brace {c : Char} {cs : List Char} (hc : c ∉ ['\x7b', '%', '#'])
    (hcs : Clear (c :: cs)) : Clear ('\x7b' :: c :: cs) := by
  intro rest
  have hno : ¬(c == '\x7b' || c == '%' || c == '#') = true := by
    simp only [List.mem_cons, List.not_mem_nil, or_false, not_or] at hc
    simp [hc]
  rw [List.cons_append, List.cons_append, splitText, if_neg hno, ← List.cons_append, hcs]
  rfl

/-- A text that begins no block is passed over. -/
theorem Clear.of_plain {cs : List Char} (h : Plain cs) : Clear cs := by
  induction cs with
  | nil => exact .nil
  | cons c cs ih =>
    by_cases hc : c = '\x7b'
    · subst hc
      cases cs with
      | nil => exact absurd rfl h.2
      | cons d cs =>
        refine .brace (fun hd => ?_) (ih h.tail)
        have hopening : ∀ d ∈ ['\x7b', '%', '#'], ∃ mark ∈ openings, mark.toList = ['\x7b', d] :=
          List.all_iff_forall_prop.1 (by decide)
        obtain ⟨mark, hm, hmark⟩ := hopening d hd
        exact h.1 mark hm (by rw [hmark]; exact ⟨[], cs, rfl⟩)
    · exact .cons hc (ih h.tail)

/-- The tokens of some pieces after a literal part. -/
def ofPieces (lit : List Char) : List Piece → List Token
  | [] => ofText lit
  | .literal s :: ps => ofPieces (lit ++ s.toList) ps
  | .placeholder p :: ps => ofText lit ++ .outputStart :: p.tokens ++ .outputEnd :: ofPieces [] ps

/-- All literal parts begin no block. -/
def LiteralsPlain (ps : List Piece) : Prop := ∀ s, .literal s ∈ ps → Plain s.toList

theorem scan_reference {fuel : Nat} (p : Path) (rest : List Char) :
    scan (fuel + 1 + p.tokens.length) (.output 0)
        (' ' :: (p.chars ++ ' ' :: '\x7d' :: '\x7d' :: rest)) =
      p.tokens ++ .outputEnd :: scan fuel (.text false) rest := by
  rw [scan_space rfl, scan_path p (by rintro d ⟨⟩; decide), scan_space rfl, scan_closing rfl]

theorem scan_source {ps : List Piece} (hps : LiteralsPlain ps) :
    ∀ {lit : List Char}, Clear lit → ∀ {fuel : Nat}, (lit ++ source ps).length < fuel →
      scan fuel (.text false) (lit ++ source ps) = ofPieces lit ps := by
  induction ps with
  | nil =>
    intro lit hlit fuel hfuel
    have hsplit : splitText lit = (lit, []) := by simpa [splitText] using hlit []
    obtain ⟨fuel, rfl⟩ : ∃ f, fuel = f + 1 := ⟨fuel - 1, by omega⟩
    rw [source, List.flatMap_nil, List.append_nil, scan_text_end hsplit, ofPieces]
  | cons x ps ih =>
    intro lit hlit fuel hfuel
    have htail : LiteralsPlain ps := fun s hs => hps s (List.mem_cons_of_mem _ hs)
    cases x with
    | literal s =>
      have hs : Clear s.toList := .of_plain (hps s List.mem_cons_self)
      rw [source_literal, ← List.append_assoc] at hfuel ⊢
      exact ih htail (hlit.append hs) hfuel
    | placeholder p =>
      have hsource : lit ++ source (.placeholder p :: ps) = lit ++ '\x7b' :: '\x7b' :: ' ' ::
          (p.chars ++ ' ' :: '\x7d' :: '\x7d' :: source ps) := by
        rw [source_placeholder, p.toList_reference]
        simp
      have hsplit : splitText (lit ++ source (.placeholder p :: ps)) =
          (lit, '\x7b' :: '\x7b' :: ' ' ::
            (p.chars ++ ' ' :: '\x7d' :: '\x7d' :: source ps)) := by
        rw [hsource, hlit, splitText_opening, List.append_nil]
      -- one step opens the block, one for each token of the path follows, and one closes it
      obtain ⟨fuel, rfl⟩ : ∃ f, fuel = f + 1 + p.tokens.length + 1 :=
        ⟨fuel - (1 + p.tokens.length + 1), by
          have := p.length_tokens_le
          rw [hsource] at hfuel
          simp at hfuel
          omega⟩
      have hrest : ([] ++ source ps : List Char).length < fuel := by
        have := p.length_tokens_le
        rw [hsource] at hfuel
        simp at hfuel ⊢
        omega
      have hrec := ih htail .nil hrest
      rw [List.nil_append] at hrec
      rw [scan_opening hsplit rfl, scan_reference, hrec, ofPieces]
      simp

end Token

/-! ## Parts of the template -/

/-- The node of a literal part, none for an empty one. -/
def literalNodes (lit : List Char) : List Node :=
  match lit with
  | [] => []
  | _ => [.text (String.ofList lit)]

/-- The nodes of some pieces after a literal part. -/
def nodesOf (lit : List Char) : List Piece → List Node
  | [] => literalNodes lit
  | .literal s :: ps => nodesOf (lit ++ s.toList) ps
  | .placeholder p :: ps => literalNodes lit ++ .output p.expr :: nodesOf [] ps

theorem Parse.nodes_ofText {lit : List Char} {acc : List Node} {ts : List Token} {fuel : Nat}
    {r : Except SyntaxFault ((List Node × String) × List Token)}
    (h : nodes fuel [] ((literalNodes lit).reverse ++ acc) ts = r) :
    nodes (fuel + (Token.ofText lit).length) [] acc (Token.ofText lit ++ ts) = r := by
  cases lit with
  | nil => exact h
  | cons c lit =>
    show nodes (fuel + 1) [] acc (.text (String.ofList (c :: lit)) :: ts) = r
    rw [nodes]
    exact h

theorem Parse.nodes_ofPieces (ps : List Piece) : ∀ {lit : List Char} {acc : List Node} {fuel : Nat},
    (Token.ofPieces lit ps).length < fuel →
      nodes fuel [] acc (Token.ofPieces lit ps) =
        .ok ((acc.reverse ++ nodesOf lit ps, ""), []) := by
  induction ps with
  | nil =>
    intro lit acc fuel hfuel
    rw [Token.ofPieces] at hfuel ⊢
    obtain ⟨fuel, rfl⟩ : ∃ f, fuel = f + 1 + (Token.ofText lit).length :=
      ⟨fuel - (1 + (Token.ofText lit).length), by omega⟩
    have hend : nodes (fuel + 1) [] ((literalNodes lit).reverse ++ acc) [] =
        .ok ((acc.reverse ++ literalNodes lit, ""), []) := by
      rw [nodes, List.isEmpty_nil, if_pos rfl, List.reverse_append, List.reverse_reverse]
    have hall := nodes_ofText hend
    rwa [List.append_nil] at hall
  | cons x ps ih =>
    intro lit acc fuel hfuel
    cases x with
    | literal s => exact ih hfuel
    | placeholder p =>
      have htokens : Token.ofPieces lit (.placeholder p :: ps) = Token.ofText lit ++
          .outputStart :: (p.tokens ++ .outputEnd :: Token.ofPieces [] ps) := by
        simp [Token.ofPieces]
      have hfuel' : (Token.ofText lit).length + p.tokens.length +
          (Token.ofPieces [] ps).length + 2 < fuel := by
        simp [htokens] at hfuel
        omega
      obtain ⟨fuel, rfl⟩ : ∃ f, fuel = f + 1 + (Token.ofText lit).length :=
        ⟨fuel - (1 + (Token.ofText lit).length), by omega⟩
      rw [htokens]
      refine nodes_ofText ?_
      rw [nodes, expr_fuelFor p (.outputEnd _)]
      refine (ih (by omega)).trans ?_
      simp [nodesOf]

/-! ## The text -/

theorem render_reference {env : Env} {p : Path} {v : Json} {s : String}
    (h : p.expr.eval env = .ok (Value.ofJson v)) (hs : Piece.textOf? v = some s) :
    Node.render 0 env (.output p.expr) = .ok (env, s) := by
  rw [Node.render, h]
  cases v <;> cases hs <;> rfl

theorem renderAll_literal {env : Env} {out : String} {lit : List Char} {ns : List Node} :
    renderAll 0 env out (literalNodes lit ++ ns) =
      renderAll 0 env (out ++ String.ofList lit) ns := by
  cases lit with
  | nil => rw [literalNodes, List.nil_append, String.ofList_nil, String.append_empty]
  | cons c lit =>
    show renderAll 0 env out (.text (String.ofList (c :: lit)) :: ns) = _
    rw [renderAll, Node.render]

theorem renderAll_nodesOf {fs : Fields} (ps : List Piece) : ∀ {lit : List Char} {out s : String},
    filled? fs ps = some s →
      renderAll 0 (Env.ofContext (.obj fs)) out (nodesOf lit ps) =
        .ok (Env.ofContext (.obj fs), out ++ String.ofList lit ++ s) := by
  induction ps with
  | nil =>
    intro lit out s hs
    cases hs
    rw [nodesOf, ← List.append_nil (literalNodes lit), renderAll_literal, renderAll,
      String.append_empty]
  | cons x ps ih =>
    intro lit out s hs
    obtain ⟨t, ht, hrest⟩ := Option.bind_eq_some_iff.1 hs
    obtain ⟨u, hu, rfl⟩ := Option.map_eq_some_iff.1 hrest
    cases x with
    | literal l =>
      cases ht
      rw [nodesOf, ih hu, String.ofList_append, String.ofList_toList]
      simp [String.append_assoc]
    | placeholder p =>
      obtain ⟨v, hv, ht⟩ := Option.bind_eq_some_iff.1 ht
      have hexpr := p.eval_expr fs
      rw [hv] at hexpr
      rw [nodesOf, renderAll_literal, renderAll, render_reference hexpr ht]
      refine (ih hu).trans ?_
      simp [String.append_assoc]

/-! ## No single block -/

/-- A text with a placeholder has a first one, and what stands before it begins no block. -/
theorem exists_first {ps : List Piece} (hps : Token.LiteralsPlain ps)
    (hsome : ∃ p, .placeholder p ∈ ps) :
    ∃ (p : Path) (before after : List Char),
      source ps = before ++ p.reference.toList ++ after ∧ Token.Clear before := by
  induction ps with
  | nil =>
    obtain ⟨p, hp⟩ := hsome
    cases hp
  | cons x ps ih =>
    cases x with
    | placeholder p =>
      refine ⟨p, [], source ps, ?_, .nil⟩
      rw [source_placeholder, List.nil_append]
    | literal s =>
      have hsome : ∃ p, .placeholder p ∈ ps := hsome.imp fun p hp => by simpa using hp
      obtain ⟨p, before, after, hsource, hbefore⟩ :=
        ih (fun s hs => hps s (List.mem_cons_of_mem _ hs)) hsome
      have hs : Token.Clear s.toList := .of_plain (hps s List.mem_cons_self)
      refine ⟨p, s.toList ++ before, after, ?_, hs.append hbefore⟩
      rw [source_literal, hsource]
      simp

theorem Token.Clear.of_blank {cs : List Char} (h : ∀ c ∈ cs, Text.isBlank c = true) : Clear cs := by
  induction cs with
  | nil => exact .nil
  | cons c cs ih =>
    refine .cons ?_ (ih fun c hc => h c (List.mem_cons_of_mem _ hc))
    rintro rfl
    cases h _ List.mem_cons_self

/-- A text that begins with a reference is a single block only as this reference, or with one brace
more. -/
theorem singleExpression?_eq_none {s : String} {p : Path} {before after : List Char}
    (hs : s.toList = before ++ p.reference.toList ++ after) (hbefore : Token.Clear before)
    (hblock : Text.trimChars s.toList ≠ p.reference.toList)
    (hbrace : Text.trimChars s.toList ≠ p.reference.toList ++ ['\x7d']) :
    singleExpression? s = none := by
  rw [Option.eq_none_iff_forall_not_mem]
  intro e he
  obtain ⟨inner, htext, hmarks, -, -⟩ := singleExpression?_eq_some_iff.1 he
  obtain ⟨lead, trail, hcs, hlead, htrail, -⟩ := Text.exists_trimChars s.toList
  -- both say where the first block begins
  have hopen : Token.splitText s.toList =
      (lead, '\x7b' :: '\x7b' :: (inner ++ ('\x7d' :: '\x7d' :: trail))) := by
    have hsplit := Token.Clear.of_blank hlead
      ('\x7b' :: '\x7b' :: (inner ++ ('\x7d' :: '\x7d' :: trail)))
    rw [Token.splitText_opening, List.append_nil] at hsplit
    rw [← hsplit, hcs, htext]
    simp
  have hreference : Token.splitText s.toList =
      (before, '\x7b' :: '\x7b' :: (' ' :: (p.chars ++ [' ']) ++ ('\x7d' :: '\x7d' :: after))) := by
    have hsplit := hbefore
      ('\x7b' :: '\x7b' :: (' ' :: (p.chars ++ [' ']) ++ ('\x7d' :: '\x7d' :: after)))
    rw [Token.splitText_opening, List.append_nil] at hsplit
    rw [← hsplit, hs, p.toList_reference]
    simp
  rw [hopen] at hreference
  simp only [Prod.mk.injEq, List.cons.injEq, true_and] at hreference
  have hnobrace : '\x7d' ∉ ' ' :: (p.chars ++ [' ']) := by
    intro hm
    rcases List.mem_cons.1 hm with h | hm
    · cases h
    · rcases List.mem_append.1 hm with hm | hm
      · exact p.not_mem_chars (by decide) hm
      · cases List.mem_singleton.1 hm
  -- the text in the braces goes on after the path, by one brace at most
  obtain ⟨more, hmore, hrest⟩ : ∃ more, inner = ' ' :: (p.chars ++ [' ']) ++ more ∧
      '\x7d' :: '\x7d' :: after = more ++ '\x7d' :: '\x7d' :: trail := by
    rcases List.append_eq_append_iff.1 hreference.2 with ⟨short, hinner, hrest⟩ | h
    · cases short with
      | nil => exact ⟨[], by rw [hinner]; simp, by rw [hrest]; rfl⟩
      | cons d short =>
        obtain rfl : '\x7d' = d := (List.cons.inj hrest).1
        exact absurd (hinner ▸ List.mem_append_right _ List.mem_cons_self) hnobrace
    · exact h
  match more, hrest with
  | [], _ => exact hblock (by rw [htext, hmore, p.toList_reference, List.append_nil])
  | [_], hrest =>
    cases hrest
    exact hbrace (by rw [htext, hmore, p.toList_reference]; simp)
  | _ :: _ :: more, hrest =>
    cases hrest
    have hmark : "\x7d\x7d".toList <:+: inner :=
      ⟨' ' :: (p.chars ++ [' ']), more, by rw [hmore]; simp⟩
    exact hmarks _ (by decide) hmark

theorem render_source {fs : Fields} {ps : List Piece} {s filled : String}
    (hps : Token.LiteralsPlain ps) (hfilled : filled? fs ps = some filled)
    (hs : Token.dropLineEnd s.toList = source ps) : render s (.obj fs) = .ok filled := by
  have htokens : Token.ofTemplate s = Token.ofPieces [] ps := by
    rw [Token.ofTemplate, hs]
    exact Token.scan_source hps .nil (Nat.lt_succ_self _)
  have hparse : Node.parse s = .ok (nodesOf [] ps) := by
    rw [Node.parse_eq_ok, htokens]
    exact ⟨"", [], Parse.nodes_ofPieces ps (by omega)⟩
  have hall := @renderAll_nodesOf fs ps [] "" filled hfilled
  rw [String.ofList_nil, String.append_empty, String.empty_append] at hall
  exact render_eq_ok_iff.2 ⟨_, _, hparse, hall⟩

/-- **Placeholders in a text are filled in** and the literal parts around them stay as they are, all
but one line end at the end of the text. The text must not be a single block, nor a single block
with one brace more. -/
theorem resolve_inline {fs : Fields} {ps : List Piece} {s filled : String}
    (hps : Token.LiteralsPlain ps) (hsome : ∃ p, .placeholder p ∈ ps)
    (hfilled : filled? fs ps = some filled) (hs : Token.dropLineEnd s.toList = source ps)
    (hblock : ∀ p : Path, Text.trimChars s.toList ≠ p.reference.toList ∧
      Text.trimChars s.toList ≠ p.reference.toList ++ ['\x7d']) :
    resolve (.obj fs) (.str s) = .ok (.str filled) := by
  obtain ⟨lineEnd, hprefix⟩ : source ps <+: s.toList := hs ▸ Token.dropLineEnd_prefix s.toList
  obtain ⟨p, before, after, hsource, hbefore⟩ := exists_first hps hsome
  have hchars : s.toList = before ++ p.reference.toList ++ (after ++ lineEnd) := by
    rw [← hprefix, hsource, List.append_assoc]
  have htemplate : isTemplate s = true := by
    refine isTemplate_of_infix
      ⟨before, ' ' :: (p.chars ++ [' ']) ++ ['\x7d', '\x7d'] ++ (after ++ lineEnd), ?_⟩
    rw [hchars, p.toList_reference]
    simp
  have hsingle : singleExpression? s = none :=
    singleExpression?_eq_none hchars hbefore (hblock p).1 (hblock p).2
  rw [resolve, resolveText, if_pos htemplate, hsingle]
  dsimp only
  rw [render_source hps hfilled hs]
  rfl

/-- The text of a command with two placeholders. -/
def pingPieces : List Piece :=
  [.literal "ping -c ", .placeholder (.ofName "count" (by decide) (by decide)), .literal " ",
    .placeholder ⟨"peer", ["host"], by decide, by decide, by decide⟩, .literal " \x7d"]

/-- These parts as they are written, and a line end. -/
def pingText : String :=
  "ping -c \x7b\x7b count \x7d\x7d \x7b\x7b peer.host \x7d\x7d \x7d\r\n"

theorem resolve_inline_ping :
    resolve (.obj [("count", .int 3), ("peer", .obj [("host", .str "r1")])]) (.str pingText) =
      .ok (.str "ping -c 3 r1 \x7d") := by
  have hplain : Token.LiteralsPlain pingPieces := by
    rintro s hs
    simp only [pingPieces, List.mem_cons, Piece.literal.injEq, reduceCtorEq, List.not_mem_nil,
      or_false, false_or] at hs
    rcases hs with rfl | rfl | rfl <;> exact ⟨by decide, by decide⟩
  refine resolve_inline hplain ⟨_, List.mem_cons_of_mem _ List.mem_cons_self⟩ rfl (by decide) ?_
  intro p
  have hhead : (Text.trimChars pingText.toList).head? = some 'p' := by decide
  rw [p.toList_reference]
  constructor <;> intro h <;> rw [h] at hhead <;> cases hhead

/-! ## Texts that are not filled in as they stand -/

variable (p : Path) (context : Json)

theorem ofExpression_brace :
    Token.ofExpression (p.text ++ " \x7d") = p.tokens ++ [.sign "\x7d"] := by
  have hchars : (p.text ++ " \x7d").toList = p.chars ++ [' ', '\x7d'] := by
    rw [String.toList_append, Path.text, String.toList_ofList]
    rfl
  have hend : Token.dropLineEnd (p.chars ++ [' ', '\x7d']) = p.chars ++ [' ', '\x7d'] := by
    refine Token.dropLineEnd_eq_self fun c hc => ?_
    rw [List.getLast?_append] at hc
    cases hc
    decide
  obtain ⟨fuel, hfuel⟩ : ∃ fuel, (p.chars ++ [' ', '\x7d']).length + 1 =
      fuel + 1 + 1 + p.tokens.length :=
    ⟨(p.chars ++ [' ', '\x7d']).length - 1 - p.tokens.length, by
      have := p.length_tokens_le
      rw [List.length_append, List.length_cons, List.length_singleton]
      omega⟩
  have hbrace : Token.scan (fuel + 1 + 1) (.output 0) [' ', '\x7d'] = [.sign "\x7d"] := by
    rw [Token.scan_space rfl, Token.scan_brace]
  rw [Token.ofExpression, hchars, hend, hfuel, Token.scan_path p (by rintro d ⟨⟩; decide), hbrace]

theorem toList_brace : (p.reference ++ "\x7d").toList =
    '\x7b' :: '\x7b' :: (' ' :: (p.chars ++ [' ', '\x7d'])) ++ ['\x7d', '\x7d'] := by
  rw [String.toList_append, p.toList_reference]
  simp

theorem trimChars_brace :
    Text.trimChars (p.reference ++ "\x7d").toList = (p.reference ++ "\x7d").toList := by
  refine Text.trimChars_eq_self ?_
  rw [toList_brace]
  refine ⟨fun c hc => ?_, fun c hc => ?_⟩
  · cases hc
    decide
  · rw [List.getLast?_append] at hc
    cases hc
    decide

theorem trimChars_inner_brace :
    Text.trimChars (' ' :: (p.chars ++ [' ', '\x7d'])) = p.chars ++ [' ', '\x7d'] := by
  have hblank : ∀ c ∈ [' '], Text.isBlank c = true :=
    List.all_iff_forall_prop.1 (by decide)
  have htight : Text.Tight (p.chars ++ [' ', '\x7d']) := by
    refine ⟨fun c hc => ?_, fun c hc => ?_⟩
    · rw [List.head?_append_of_ne_nil _ p.chars_ne_nil] at hc
      exact p.isBlank_chars (List.mem_of_mem_head? hc)
    · rw [List.getLast?_append] at hc
      cases hc
      decide
  have htrim := Text.trimChars_between hblank (List.forall_mem_nil _) htight
  rwa [List.append_nil] at htrim

theorem singleExpression?_brace :
    singleExpression? (p.reference ++ "\x7d") = some (p.text ++ " \x7d") := by
  refine singleExpression?_eq_some_iff.2 ⟨' ' :: (p.chars ++ [' ', '\x7d']), ?_, ?_, ?_, ?_⟩
  · rw [trimChars_brace, toList_brace]
  · have hopen : '\x7b' ∉ p.chars := p.not_mem_chars (by decide)
    have hclose : '\x7d' ∉ p.chars := p.not_mem_chars (by decide)
    exact not_mark_infix (by simp [hopen]) (by simp [List.count_eq_zero.2 hclose])
  · rw [trimChars_inner_brace]
    simp
  · rw [trimChars_inner_brace, ← String.toList_inj]
    simp [Path.text]

theorem parse_brace : Expr.parse (p.text ++ " \x7d") = .error .malformed := by
  rw [Expr.parse, ofExpression_brace, Parse.expr_fuelFor p (.brace [])]
  rfl

/-- A reference with one brace more is taken for a single block, of an expression that is none. -/
theorem resolve_reference_brace :
    resolve context (.str (p.reference ++ "\x7d")) = .error (.resolution "syntax error") := by
  rw [resolve_eq_lookup (singleExpression?_brace p), lookup, parse_brace]
  rfl

/-- The path `a`. -/
def aPath : Path := .ofName "a" (by decide) (by decide)

/-- A line end after a placeholder is lost, and a brace after one makes the text a fault. -/
theorem resolve_inline_altered :
    let context : Fields := [("a", .str "1")]
    let line : List Piece := [.literal "x ", .placeholder aPath, .literal "\n"]
    let brace : List Piece := [.placeholder aPath, .literal "\x7d"]
    (Token.LiteralsPlain line ∧ source line = "x \x7b\x7b a \x7d\x7d\n".toList ∧
      filled? context line = some "x 1\n" ∧
      (∀ p : Path, Text.trimChars (source line) ≠ p.reference.toList) ∧
      resolve (.obj context) (.str "x \x7b\x7b a \x7d\x7d\n") = .ok (.str "x 1")) ∧
    (Token.LiteralsPlain brace ∧ source brace = "\x7b\x7b a \x7d\x7d\x7d".toList ∧
      filled? context brace = some "1\x7d" ∧
      (∀ p : Path, Text.trimChars (source brace) ≠ p.reference.toList) ∧
      resolve (.obj context) (.str "\x7b\x7b a \x7d\x7d\x7d") =
        .error (.resolution "syntax error")) := by
  intro context line brace
  refine ⟨⟨?_, rfl, rfl, fun p h => ?_, ?_⟩, ?_, rfl, rfl, fun p h => ?_, ?_⟩
  · rintro s hs
    simp only [line, List.mem_cons, Piece.literal.injEq, reduceCtorEq, List.not_mem_nil,
      or_false, false_or] at hs
    rcases hs with rfl | rfl <;> exact ⟨by decide, by decide⟩
  · have hhead : (Text.trimChars (source line)).head? = some 'x' := by decide
    rw [h, p.toList_reference] at hhead
    cases hhead
  · have hplain : Token.LiteralsPlain [.literal "x ", .placeholder aPath] := by
      rintro s hs
      obtain rfl : s = "x " := by simpa using hs
      exact ⟨by decide, by decide⟩
    have hrender : render "x \x7b\x7b a \x7d\x7d\n" (.obj context) = .ok "x 1" :=
      render_source hplain rfl (by decide)
    have htemplate : isTemplate "x \x7b\x7b a \x7d\x7d\n" = true := by decide +kernel
    have hsingle : singleExpression? "x \x7b\x7b a \x7d\x7d\n" = none := by
      decide +kernel
    rw [resolve, resolveText, if_pos htemplate, hsingle]
    dsimp only
    rw [hrender]
    rfl
  · rintro s hs
    obtain rfl : s = "\x7d" := by simpa [brace] using hs
    exact ⟨by decide, by decide⟩
  · have hlast : (Text.trimChars (source brace)).reverse[2]? = some '\x7d' := by decide
    rw [h, p.toList_reference] at hlast
    simp at hlast
  · exact resolve_reference_brace aPath (.obj context)

end Runbook.Template

import Runbook.Proofs.Text.Trim
import Runbook.Template.Resolver

/-!
# Texts that are one block

Between which braces a text that is a single block has its expression
(`singleExpression?_eq_some_iff`), and what it stands for: the value of that expression, when it has
one that is defined and that JSON can hold (`resolve_eq_lookup`, `lookup_eq_ok_iff`). Any other text
is rendered (`Node.parse_eq_ok`, `render_eq_ok_iff`).
-/

namespace Runbook.Template

/-- The marks that do not occur between the braces of a single block. -/
def marks : List String := ["\x7b\x7b", "\x7d\x7d", "\x7b%"]

/-- There is no mark in a text without opening braces and with one closing brace at most. -/
theorem not_mark_infix {cs : List Char} (hopen : '\x7b' ∉ cs) (hclose : cs.count '\x7d' ≤ 1) :
    ∀ mark ∈ marks, ¬mark.toList <:+: cs := by
  intro mark hm hmark
  simp only [marks, List.mem_cons, List.not_mem_nil, or_false] at hm
  rcases hm with rfl | rfl | rfl
  · exact hopen (hmark.subset List.mem_cons_self)
  · have hle := hmark.sublist.count_le '\x7d'
    exact absurd (hle.trans hclose) (by decide)
  · exact hopen (hmark.subset List.mem_cons_self)

/-- **A text is a single block** when, blanks at its ends aside, it is some text in double braces
that is not blank and holds no mark; the expression is that text without the blanks at its ends. -/
theorem singleExpression?_eq_some_iff {s e : String} :
    singleExpression? s = some e ↔
      ∃ inner, Text.trimChars s.toList = '\x7b' :: '\x7b' :: inner ++ ['\x7d', '\x7d'] ∧
        (∀ mark ∈ marks, ¬mark.toList <:+: inner) ∧ Text.trimChars inner ≠ [] ∧
        e = String.ofList (Text.trimChars inner) := by
  have hmark (inner : List Char) : (marks.any fun mark => Text.occursIn mark.toList inner) = true ↔
      ¬∀ mark ∈ marks, ¬mark.toList <:+: inner := by
    simp only [List.any_eq_true, Text.occursIn_iff, not_forall, not_not, exists_prop]
  unfold singleExpression?
  constructor
  · intro h
    split at h
    · cases h
    rename_i cs hopen
    split at h
    · cases h
    rename_i rev hclose
    dsimp only at h
    split at h
    · cases h
    rename_i hno
    split at h
    · cases h
    rename_i hempty
    cases h
    have hcs : cs = rev.reverse ++ ['\x7d', '\x7d'] := by
      rw [← List.reverse_reverse cs, Text.dropStart?_eq_some.1 hclose, List.reverse_append]
      rfl
    refine ⟨rev.reverse, ?_, not_not.1 fun hm => hno ((hmark _).2 hm), by simpa using hempty, rfl⟩
    rw [Text.dropStart?_eq_some.1 hopen, hcs]
    rfl
  · rintro ⟨inner, htext, hmarks, hne, rfl⟩
    have hopen : Text.dropStart? "\x7b\x7b".toList (Text.trimChars s.toList) =
        some (inner ++ ['\x7d', '\x7d']) := Text.dropStart?_eq_some.2 htext
    have hclose : Text.dropStart? "\x7d\x7d".toList (inner ++ ['\x7d', '\x7d']).reverse =
        some inner.reverse := Text.dropStart?_eq_some.2 (by rw [List.reverse_append]; rfl)
    rw [hopen]
    dsimp only
    rw [hclose]
    dsimp only
    rw [List.reverse_reverse]
    exact (if_neg fun hm => (hmark inner).1 hm hmarks).trans (if_neg (by simpa using hne))

/-- A text in double braces, with a space on either side. -/
theorem singleExpression?_spaced {cs : List Char} (hne : cs ≠ []) (htight : Text.Tight cs)
    (hopen : '\x7b' ∉ cs) (hclose : '\x7d' ∉ cs) :
    singleExpression? ("\x7b\x7b " ++ String.ofList cs ++ " \x7d\x7d") =
      some (String.ofList cs) := by
  have hchars : ("\x7b\x7b " ++ String.ofList cs ++ " \x7d\x7d").toList =
      '\x7b' :: '\x7b' :: (' ' :: (cs ++ [' '])) ++ ['\x7d', '\x7d'] := by
    rw [String.toList_append, String.toList_append, String.toList_ofList]
    simp
  have htrim : Text.trimChars (' ' :: (cs ++ [' '])) = cs := by
    have hspace : ∀ c ∈ [' '], Text.isBlank c = true := List.forall_mem_singleton.2 rfl
    exact Text.trimChars_between hspace hspace htight
  refine singleExpression?_eq_some_iff.2 ⟨' ' :: (cs ++ [' ']), ?_, ?_, ?_, ?_⟩
  · rw [hchars, Text.trimChars_eq_self]
    refine ⟨fun c hc => ?_, fun c hc => ?_⟩
    · cases hc
      decide
    · rw [List.getLast?_append] at hc
      cases hc
      decide
  · exact not_mark_infix (by simp [hopen]) (by simp [List.count_eq_zero.2 hclose])
  · rwa [htrim]
  · rw [htrim]

/-- A text with the opening of a block in it is a template. -/
theorem isTemplate_of_infix {s : String} (h : ['\x7b', '\x7b'] <:+: s.toList) :
    isTemplate s = true :=
  Bool.or_eq_true_iff.2 (.inl (Text.occursIn_iff.2 h))

theorem isTemplate_of_singleExpression? {s e : String} (h : singleExpression? s = some e) :
    isTemplate s = true := by
  obtain ⟨inner, htext, -⟩ := singleExpression?_eq_some_iff.1 h
  obtain ⟨lead, trail, hs, -⟩ := Text.exists_trimChars s.toList
  refine isTemplate_of_infix ⟨lead, inner ++ ['\x7d', '\x7d'] ++ trail, ?_⟩
  rw [hs, htext]
  simp

/-- A template parses if its tokens do, and these are then taken to their end. -/
theorem Node.parse_eq_ok {s : String} {ns : List Node} : Node.parse s = .ok ns ↔
    ∃ stop rest, Parse.nodes (2 * (Token.ofTemplate s).length + 2) [] [] (Token.ofTemplate s) =
      .ok ((ns, stop), rest) := by
  unfold Node.parse
  dsimp only
  split <;> rename_i h <;> simp [h]

/-- A template is rendered if it parses and all its parts are. -/
theorem render_eq_ok_iff {s u : String} {context : Json} : render s context = .ok u ↔
    ∃ ns env, Node.parse s = .ok ns ∧ renderAll 0 (Env.ofContext context) "" ns = .ok (env, u) := by
  unfold render
  cases Node.parse s with
  | error x => simp
  | ok ns => cases hr : renderAll 0 (Env.ofContext context) "" ns <;> simp [hr, Prod.ext_iff]

theorem lookup_eq_ok_iff {expr : String} {context j : Json} : lookup expr context = .ok j ↔
    ∃ e v, Expr.parse expr = .ok e ∧ e.eval (Env.ofContext context) = .ok v ∧
      v.isUndefined = false ∧ v.toJson = .ok j := by
  unfold lookup
  cases Expr.parse expr with
  | error x => simp
  | ok e =>
    dsimp only
    cases hv : e.eval (Env.ofContext context) with
    | error f => simp [hv]
    | ok v =>
      dsimp only
      cases hu : v.isUndefined with
      | true => simp [hv, hu]
      | false => cases hj : v.toJson <;> simp [hv, hu, hj]

/-- A single block stands for the value of its expression. -/
theorem resolve_eq_lookup {s e : String} {context : Json} (h : singleExpression? s = some e) :
    resolve context (.str s) = lookup e context := by
  rw [resolve, resolveText, if_pos (isTemplate_of_singleExpression? h), h]

end Runbook.Template

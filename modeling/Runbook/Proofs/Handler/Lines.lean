import Runbook.Proofs.Handler.Transcript
import Runbook.Proofs.Template.Numeric
import Runbook.Proofs.Text.Trim

/-!
# The lines of an output

A text lists some lines (`Text.Lists`) when they stand in it in this order, with nothing but blanks
around them and a line feed among the blanks between two of them. Every text lists one list of
lines, the one that it is split into (`Text.lists_iff`, by induction on its line feeds). Lines that
are joined by line feeds are listed by what they are joined to (`Text.lists_join`).

The output of commands is split into lines in two places: by a `command` step whose output is parsed
as lines, and by the filter `lines` of a template. Both give the list of lines that the text lists,
and give it again for what these lines are joined to (`lines_read_alike`).
-/

namespace Runbook.Text

variable {cs gap lead trail l a b : List Char} {ls : List (List Char)}

/-! ## Splitting at line feeds -/

/-- A text has no line feed, or goes on after the first one. -/
theorem lines_induction {P : List Char → Prop} (last : ∀ a, '\n' ∉ a → P a)
    (next : ∀ a b, '\n' ∉ a → P b → P (a ++ '\n' :: b)) (cs : List Char) : P cs := by
  generalize hn : cs.length = n
  induction n using Nat.strongRecOn generalizing cs with
  | ind n ih =>
    by_cases h : '\n' ∈ cs
    · obtain ⟨a, b, rfl, ha⟩ := List.eq_append_cons_of_mem h
      rw [List.length_append, List.length_cons] at hn
      exact next a b ha (ih b.length (by omega) b rfl)
    · exact last cs h

theorem splitLineFeeds_of_not_mem (ha : '\n' ∉ a) : splitLineFeeds a = [a] := by
  induction a with
  | nil => rfl
  | cons c a ih =>
    obtain ⟨hc, ha⟩ := not_or.1 (mt List.mem_cons.2 ha)
    rw [splitLineFeeds, if_neg (by simpa using Ne.symm hc), ih ha]

theorem splitLineFeeds_ne_nil (cs : List Char) : splitLineFeeds cs ≠ [] := by
  cases cs with
  | nil => exact List.cons_ne_nil [] []
  | cons c cs =>
    rw [splitLineFeeds]
    split
    · exact List.cons_ne_nil _ _
    · split <;> exact List.cons_ne_nil _ _

theorem splitLineFeeds_append (a b : List Char) :
    splitLineFeeds (a ++ '\n' :: b) = splitLineFeeds a ++ splitLineFeeds b := by
  induction a with
  | nil => rfl
  | cons c a ih =>
    rw [List.cons_append, splitLineFeeds, ih, splitLineFeeds]
    split
    · rfl
    · cases hsplit : splitLineFeeds a with
      | nil => exact absurd hsplit (splitLineFeeds_ne_nil a)
      | cons l ls => rfl

/-- What is left of a text without line feeds: the trimmed text, unless it is blank. -/
theorem nonBlankLineChars_of_not_mem (ha : '\n' ∉ a) :
    nonBlankLineChars a = if trimChars a = [] then [] else [trimChars a] := by
  rw [nonBlankLineChars, splitLineFeeds_of_not_mem ha]
  by_cases h : trimChars a = [] <;> simp [h]

/-- Each side of a line feed has its own lines. -/
theorem nonBlankLineChars_append (a b : List Char) :
    nonBlankLineChars (a ++ '\n' :: b) = nonBlankLineChars a ++ nonBlankLineChars b := by
  rw [nonBlankLineChars, splitLineFeeds_append, List.map_append, List.filter_append]
  rfl

/-! ## Blanks around lines -/

/-- All characters are blanks. -/
def Blanks (cs : List Char) : Prop := ∀ c ∈ cs, isBlank c = true

theorem Blanks.append (ha : Blanks a) (hb : Blanks b) : Blanks (a ++ b) :=
  List.forall_mem_append.2 ⟨ha, hb⟩

theorem Blanks.of_next (h : Blanks (a ++ '\n' :: b)) : Blanks a ∧ Blanks b :=
  ⟨fun c hc => h c (by simp [hc]), fun c hc => h c (by simp [hc])⟩

theorem Blanks.next (ha : Blanks a) (hb : Blanks b) : Blanks (a ++ '\n' :: b) :=
  ha.append (List.forall_mem_cons.2 ⟨rfl, hb⟩)

theorem trimChars_blank (h : Blanks a) : trimChars a = [] := by
  rw [trimChars, trimStartChars, List.dropWhile_eq_nil_iff.2 h]
  rfl

theorem trimChars_lead (h : Blanks lead) : trimChars (lead ++ cs) = trimChars cs := by
  rw [trimChars, trimStartChars_append h, trimChars]

theorem trimChars_trail (h : Blanks trail) : trimChars (cs ++ trail) = trimChars cs := by
  obtain ⟨lead, blanks, hcs, hlead, hblanks, htight⟩ := exists_trimChars cs
  have hsplit : cs ++ trail = lead ++ trimChars cs ++ (blanks ++ trail) := by
    rw [← List.append_assoc, ← hcs]
  rw [hsplit, trimChars_between hlead (Blanks.append hblanks h) htight]

theorem nonBlankLineChars_blank (h : Blanks gap) : nonBlankLineChars gap = [] := by
  induction gap using lines_induction with
  | last a ha => rw [nonBlankLineChars_of_not_mem ha, if_pos (trimChars_blank h)]
  | next a b ha ih =>
    rw [nonBlankLineChars_append, ih h.of_next.2, nonBlankLineChars_of_not_mem ha,
      if_pos (trimChars_blank h.of_next.1), List.append_nil]

theorem nonBlankLineChars_lead (h : Blanks lead) :
    nonBlankLineChars (lead ++ cs) = nonBlankLineChars cs := by
  induction lead using lines_induction with
  | next a b ha ih =>
    rw [List.append_assoc, List.cons_append, nonBlankLineChars_append, ih h.of_next.2,
      nonBlankLineChars_blank h.of_next.1, List.nil_append]
  | last lead hlead =>
    -- The blanks are on the first line of what follows.
    have hfirst (a : List Char) (ha : '\n' ∉ a) :
        nonBlankLineChars (lead ++ a) = nonBlankLineChars a := by
      rw [nonBlankLineChars_of_not_mem (by simp [hlead, ha]), trimChars_lead h,
        nonBlankLineChars_of_not_mem ha]
    induction cs using lines_induction with
    | last a ha => exact hfirst a ha
    | next a b ha _ =>
      rw [← List.append_assoc, nonBlankLineChars_append, hfirst a ha, nonBlankLineChars_append]

/-! ## Listed lines -/

/-- A line that is not blank and has no blanks at its ends. -/
structure IsLine (l : List Char) : Prop where
  ne_nil : l ≠ []
  feed : '\n' ∉ l
  tight : Tight l

/-- The text is made of these lines in this order, with blanks around each of them and a line feed
among those between two. -/
inductive Lists : List Char → List (List Char) → Prop
  | blank {gap : List Char} (h : Blanks gap) : Lists gap []
  | last {lead l trail : List Char} (hlead : Blanks lead) (hl : IsLine l) (htrail : Blanks trail) :
      Lists (lead ++ l ++ trail) [l]
  | next {lead l trail rest : List Char} {ls : List (List Char)} (hlead : Blanks lead)
      (hl : IsLine l) (htrail : Blanks trail) (hrest : Lists rest ls) :
      Lists (lead ++ l ++ trail ++ '\n' :: rest) (l :: ls)

theorem IsLine.nonBlankLineChars_eq (hl : IsLine l) (hlead : Blanks lead) (htrail : Blanks trail) :
    nonBlankLineChars (lead ++ l ++ trail) = [l] := by
  have hend (t : List Char) (ht : '\n' ∉ t) (hblank : Blanks t) :
      nonBlankLineChars (l ++ t) = [l] := by
    rw [nonBlankLineChars_of_not_mem (by simp [hl.feed, ht]), trimChars_trail hblank,
      trimChars_eq_self hl.tight, if_neg hl.ne_nil]
  rw [List.append_assoc, nonBlankLineChars_lead hlead]
  induction trail using lines_induction with
  | last t ht => exact hend t ht htrail
  | next t u ht _ =>
    rw [← List.append_assoc, nonBlankLineChars_append, hend t ht htrail.of_next.1,
      nonBlankLineChars_blank htrail.of_next.2, List.append_nil]

theorem Lists.eq (h : Lists cs ls) : nonBlankLineChars cs = ls := by
  induction h with
  | blank h => exact nonBlankLineChars_blank h
  | last hlead hl htrail => exact hl.nonBlankLineChars_eq hlead htrail
  | next hlead hl htrail _ ih =>
    rw [nonBlankLineChars_append, hl.nonBlankLineChars_eq hlead htrail, ih, List.singleton_append]

theorem Lists.after (h : Lists cs ls) (hgap : Blanks gap) : Lists (gap ++ cs) ls := by
  cases h with
  | blank h => exact .blank (hgap.append h)
  | last hlead hl htrail =>
    rw [← List.append_assoc, ← List.append_assoc]
    exact .last (hgap.append hlead) hl htrail
  | next hlead hl htrail hrest =>
    rw [← List.append_assoc, ← List.append_assoc, ← List.append_assoc]
    exact .next (hgap.append hlead) hl htrail hrest

theorem isLine_trimChars (ha : '\n' ∉ a) (h : trimChars a ≠ []) : IsLine (trimChars a) := by
  obtain ⟨lead, trail, hsplit, -, -, htight⟩ := exists_trimChars a
  refine ⟨h, fun hm => ha ?_, htight⟩
  rw [hsplit]
  simp [hm]

/-- **Every text lists** the lines that it is split into. -/
theorem lists_nonBlankLineChars (cs : List Char) : Lists cs (nonBlankLineChars cs) := by
  induction cs using lines_induction with
  | last a ha =>
    obtain ⟨lead, trail, hsplit, hlead, htrail, -⟩ := exists_trimChars a
    rw [nonBlankLineChars_of_not_mem ha]
    split
    · rename_i hnil
      rw [hsplit, hnil, List.append_nil]
      exact .blank (Blanks.append hlead htrail)
    · rename_i hne
      have hline := Lists.last hlead (isLine_trimChars ha hne) htrail
      rwa [← hsplit] at hline
  | next a b ha ih =>
    obtain ⟨lead, trail, hsplit, hlead, htrail, -⟩ := exists_trimChars a
    rw [nonBlankLineChars_append, nonBlankLineChars_of_not_mem ha]
    split
    · rename_i hnil
      have hblank : Blanks (a ++ ['\n']) := by
        rw [hsplit, hnil, List.append_nil]
        exact (Blanks.append hlead htrail).append (by simp [Blanks, isBlank])
      have hrest := ih.after hblank
      rwa [List.append_assoc] at hrest
    · rename_i hne
      have hline := Lists.next hlead (isLine_trimChars ha hne) htrail ih
      rwa [← hsplit] at hline

theorem lists_iff : Lists cs ls ↔ nonBlankLineChars cs = ls :=
  ⟨Lists.eq, fun h => h ▸ lists_nonBlankLineChars cs⟩

theorem Lists.isLine (h : Lists cs ls) : ∀ l ∈ ls, IsLine l := by
  induction h with
  | blank _ => nofun
  | last _ hl _ => simpa using hl
  | next _ hl _ _ ih => exact List.forall_mem_cons.2 ⟨hl, ih⟩

/-- **Joined lines** are listed by what they are joined to. -/
theorem lists_join (h : ∀ l ∈ ls, IsLine l) : Lists (['\n'].intercalate ls) ls := by
  have hnil : Blanks [] := nofun
  induction ls with
  | nil => exact .blank hnil
  | cons l ls ih =>
    obtain ⟨hl, hls⟩ := List.forall_mem_cons.1 h
    cases ls with
    | nil =>
      have hlast := Lists.last hnil hl hnil
      simpa using hlast
    | cons m ls =>
      have hnext := Lists.next hnil hl hnil (ih hls)
      simpa [List.intercalate_cons_cons] using hnext

/-! ## Lines as texts -/

variable {s : String} {ts : List String}

theorem nonBlankLines_iff : nonBlankLines s = ts ↔ Lists s.toList (ts.map String.toList) := by
  rw [lists_iff, nonBlankLines]
  constructor
  · rintro rfl
    simp
  · intro h
    simp [h]

theorem lists_nonBlankLines (s : String) : Lists s.toList ((nonBlankLines s).map String.toList) :=
  nonBlankLines_iff.1 rfl

/-- **Splitting** what the lines of a text are joined to gives these lines again. -/
theorem nonBlankLines_join (s : String) :
    nonBlankLines ("\n".intercalate (nonBlankLines s)) = nonBlankLines s := by
  rw [nonBlankLines_iff, String.toList_intercalate]
  exact lists_join (lists_nonBlankLines s).isLine

end Runbook.Text

namespace Runbook

/-! ## In a template -/

namespace Template

variable {s : String} {fs : Fields} {p : Path}

theorem Value.filter_lines (s : String) :
    (Value.str s).filter "lines" [] = .ok (.list ((Text.nonBlankLines s).map .str)) := rfl

theorem Value.toJsonItems_texts (ls : List String) :
    toJsonItems (ls.map .str) = .ok (ls.map Json.str) := by
  induction ls with
  | nil => rfl
  | cons l ls ih => rw [List.map_cons, toJsonItems, toJson, ih, List.map_cons]

/-- The filter gives the lines of the text that a path finds. -/
theorem resolve_lines (hp : p.find? fs = some (.str s)) :
    resolve (.obj fs) (.str (p.filtered "lines")) = .ok (.ofStrings (Text.nonBlankLines s)) := by
  refine resolve_filtered (by decide) hp (Value.filter_lines s) rfl ?_
  rw [Value.toJson, Value.toJsonItems_texts]
  rfl

end Template

/-! ## In a command step -/

namespace Handler.Command

/-- The data of a step has the lines of all outputs, whatever the patterns say of them. -/
theorem verdict_lines (device : String) (expect reject : Option (String × Pattern)) (a : Answers) :
    ∃ r, verdict device .lines expect reject a = .ok r ∧
      r.data.get? "parsed" = some (.ofStrings (Text.nonBlankLines a.stdout)) := by
  have hparse : parseOutput .lines a.stdout = .ok (.ofStrings (Text.nonBlankLines a.stdout)) := rfl
  obtain ⟨r, hr, -, hdata⟩ := verdict_of_parseOutput device expect reject hparse
  refine ⟨r, hr, ?_⟩
  rw [hdata, Json.ofFields, Json.get?, Table.get?_ofList (by simp [Answers.fields])]
  rfl

end Handler.Command

open Template Handler

/-- **A text is split into lines** in one way by a template and a `command` step: into the lines
that it lists, none of which is blank, has a line feed or has blanks at its ends. What these lines
are joined to is split into them again. -/
theorem lines_read_alike (s : String) : ∃ ls : List String,
    (∀ ms, Text.Lists s.toList (ms.map String.toList) ↔ ms = ls) ∧
    (∀ l ∈ ls, l ≠ "" ∧ '\n' ∉ l.toList ∧ Text.Tight l.toList) ∧
    ∀ t, t = s ∨ t = "\n".intercalate ls →
      (Value.str t).filter "lines" [] = .ok (.list (ls.map .str)) ∧
      Command.parseOutput .lines t = .ok (.ofStrings ls) ∧
      (∀ fs p, Path.find? p fs = some (.str t) →
        resolve (.obj fs) (.str (p.filtered "lines")) = .ok (.ofStrings ls)) ∧
      ∀ device expect reject a, Command.Answers.stdout a = t →
        ∃ r, Command.verdict device .lines expect reject a = .ok r ∧
          r.data.get? "parsed" = some (.ofStrings ls) := by
  refine ⟨Text.nonBlankLines s, fun ms => ?_, fun l hl => ?_, fun t ht => ?_⟩
  · rw [← Text.nonBlankLines_iff, eq_comm]
  · have hline := (Text.lists_nonBlankLines s).isLine _ (List.mem_map_of_mem hl)
    exact ⟨fun h => hline.ne_nil (by rw [h]; rfl), hline.feed, hline.tight⟩
  · have hlines : Text.nonBlankLines t = Text.nonBlankLines s := by
      rcases ht with rfl | rfl
      · rfl
      · exact Text.nonBlankLines_join s
    rw [← hlines]
    refine ⟨rfl, rfl, fun fs p hp => resolve_lines hp, ?_⟩
    rintro device expect reject a rfl
    exact Command.verdict_lines device expect reject a

/-- A carriage return ends no line, and an indented line loses its indentation. -/
theorem lines_read_alike_console :
    let s := "up\r\n\r\n \u2003down\rnow\u0085\n"
    ("up" ≠ "" ∧ '\n' ∉ "up".toList ∧ Text.Tight "up".toList) ∧
      Command.parseOutput .lines s = .ok (.ofStrings ["up", "down\rnow"]) ∧
      (Value.str "up\ndown\rnow").filter "lines" [] =
        .ok (.list [.str "up", .str "down\rnow"]) := by
  intro s
  obtain ⟨ls, hlists, hlines, hread⟩ := lines_read_alike s
  obtain rfl : ["up", "down\rnow"] = ls :=
    (hlists _).1 (Text.nonBlankLines_iff.1 (by decide +kernel))
  exact ⟨hlines "up" List.mem_cons_self, (hread s (.inl rfl)).2.1,
    (hread "up\ndown\rnow" (.inr (by decide))).1⟩

end Runbook

import Mathlib.Data.List.Forall2
import Mathlib.Data.List.TakeWhile
import Runbook.Proofs.Procedure.Valid

/-!
# The report of violations

What a definition is reported for, rule by rule and in order, without the loops that find it:
`ProcedureDefinition.Reported` for the whole definition, on top of `StepDefinition.Reported` for one
step. Each rule lists its violation exactly when it is broken (`Flagged`, `EdgeReported`,
`RepeatedAt`), so there is one report, and it is the list of violations (`reported_iff`). The main
statement (`violations_reported`) adds that no violation is listed twice unless two steps share an
identifier, and that the graphs are made of the definitions with an empty report.
-/

namespace Runbook

/-- The text is empty or has only white space. -/
def Text.Blank (s : String) : Prop := ∀ c ∈ s.toList, isBlank c = true

theorem Text.isEmpty_trim_iff {s : String} : (Text.trim s).isEmpty = true ↔ Text.Blank s := by
  rw [String.isEmpty_iff, trim, ← String.toList_eq_nil_iff, String.toList_ofList, trimChars,
    trimEndChars, List.reverse_eq_nil_iff, List.dropWhile_eq_nil_iff]
  refine ⟨fun h => ?_, fun h c hc => ?_⟩
  · have hnil : s.toList.dropWhile isBlank = [] := by
      -- The first character that is left is not blank.
      by_contra hne
      have hpos := List.length_pos_iff.2 hne
      refine List.dropWhile_get_zero_not isBlank s.toList hpos (h _ ?_)
      exact List.mem_reverse.2 (List.get_mem _ _)
    exact List.dropWhile_eq_nil_iff.1 hnil
  · rw [List.mem_reverse] at hc
    exact h c ((List.dropWhile_sublist _).subset hc)

instance (s : String) : Decidable (Text.Blank s) := decidable_of_iff _ Text.isEmpty_trim_iff

/-! ## The report of one rule -/

variable {p : ProcedureDefinition} {id edge : String} {s : StepDefinition} {v : Violation}
  {vs : List Violation}

/-- The violation `v` is listed if `c` holds, and nothing is otherwise. -/
inductive Flagged (c : Prop) (v : Violation) : List Violation → Prop
  | broken : c → Flagged c v [v]
  | kept : ¬c → Flagged c v []

/-- An edge of a step is listed if it leads to no step. -/
inductive EdgeReported (p : ProcedureDefinition) (id edge : String) :
    Option String → List Violation → Prop
  | absent : EdgeReported p id edge none []
  | declared {target : String} : target ∈ p.stepIds → EdgeReported p id edge (some target) []
  | dangling {target : String} : target ∉ p.stepIds →
      EdgeReported p id edge (some target) [.danglingTransition id edge target]

/-- What is listed of one step: a missing type, its edges that lead nowhere, that there is no device
for it, and the devices that it repeats. -/
inductive StepDefinition.Reported (p : ProcedureDefinition) (id : String) (s : StepDefinition) :
    List Violation → Prop
  | mk {type success failure devices : List Violation} {repeated : List String} :
      Flagged (Text.Blank s.stepType) (.missingStepType id) type →
      EdgeReported p id "on_success" s.onSuccess success →
      EdgeReported p id "on_failure" s.onFailure failure →
      Flagged (s.devices = none ∧ p.devices = []) (.noDevices id) devices →
      RepeatedAt 2 (s.devices.getD []) repeated →
      Reported p id s (type ++ success ++ failure ++ devices ++
        repeated.map (.duplicateDevice (some id)))

/-- What is listed of a definition: that it has no steps, the identifiers and the devices that it
repeats, and then what is listed of each step in order. -/
inductive ProcedureDefinition.Reported (p : ProcedureDefinition) : List Violation → Prop
  | mk {none : List Violation} {ids devices : List String} {steps : List (List Violation)} :
      Flagged (p.steps = []) .noSteps none →
      RepeatedAt 1 p.stepIds ids →
      RepeatedAt 2 p.devices devices →
      List.Forall₂ (fun x vs => StepDefinition.Reported p x.1 x.2 vs) p.identified steps →
      Reported p (none ++ ids.map .duplicateStepId ++ devices.map (.duplicateDevice .none) ++
        steps.flatten)

theorem flagged_iff {c : Prop} [Decidable c] : Flagged c v vs ↔ vs = if c then [v] else [] := by
  constructor
  · rintro (hc | hc) <;> simp [hc]
  · rintro rfl
    split
    · exact .broken ‹_›
    · exact .kept ‹_›

/-- What is listed of an edge. -/
def edgeViolations (p : ProcedureDefinition) (id edge : String) : Option String → List Violation
  | none => []
  | some target =>
    if target ∈ p.stepIds then [] else [.danglingTransition id edge target]

theorem edgeReported_iff {target : Option String} :
    EdgeReported p id edge target vs ↔ vs = edgeViolations p id edge target := by
  constructor
  · rintro (_ | hd | hd) <;> simp [edgeViolations, *]
  · rintro rfl
    cases target with
    | none => exact .absent
    | some target =>
      unfold edgeViolations
      by_cases ht : target ∈ p.stepIds
      · simpa [edgeViolations, ht] using EdgeReported.declared ht
      · simpa [edgeViolations, ht] using EdgeReported.dangling ht

/-! ## The report of a step -/

theorem danglingOf_eq : ProcedureDefinition.danglingOf p.stepIds id s =
    edgeViolations p id "on_success" s.onSuccess ++
      edgeViolations p id "on_failure" s.onFailure := by
  have htwo (f : String × Option String → Option Violation) (x y : String × Option String) :
      [x, y].filterMap f = (f x).toList ++ (f y).toList := by
    cases hx : f x <;> cases hy : f y <;> simp [hx, hy]
  rw [ProcedureDefinition.danglingOf, htwo]
  congr 1
  · cases s.onSuccess with
    | none => rfl
    | some t => by_cases ht : t ∈ p.stepIds <;> simp [edgeViolations, ht]
  · cases s.onFailure with
    | none => rfl
    | some t => by_cases ht : t ∈ p.stepIds <;> simp [edgeViolations, ht]

theorem deviceViolations_eq : ProcedureDefinition.deviceViolations p.devices id s =
    (if s.devices = none ∧ p.devices = [] then [.noDevices id] else []) ++
      (repetitions (s.devices.getD [])).map (.duplicateDevice (some id)) := by
  unfold ProcedureDefinition.deviceViolations
  cases s.devices with
  | none => simp [repetitions, repeatedFrom]
  | some ds => simp

theorem stepViolations_eq : p.stepViolations id s =
    (if Text.Blank s.stepType then [.missingStepType id] else []) ++
      edgeViolations p id "on_success" s.onSuccess ++
      edgeViolations p id "on_failure" s.onFailure ++
      (if s.devices = none ∧ p.devices = [] then [.noDevices id] else []) ++
      (repetitions (s.devices.getD [])).map (.duplicateDevice (some id)) := by
  simp only [ProcedureDefinition.stepViolations, danglingOf_eq, deviceViolations_eq,
    Text.isEmpty_trim_iff, List.append_assoc]

/-- **The report of a step** is the list of its violations. -/
theorem StepDefinition.reported_iff :
    StepDefinition.Reported p id s vs ↔ vs = p.stepViolations id s := by
  rw [stepViolations_eq]
  constructor
  · rintro ⟨ht, hs, hf, hd, hr⟩
    rw [flagged_iff] at ht hd
    rw [edgeReported_iff] at hs hf
    rw [repeatedAt_two_iff] at hr
    rw [ht, hs, hf, hd, hr]
  · intro h
    rw [h]
    exact ⟨flagged_iff.2 rfl, edgeReported_iff.2 rfl, edgeReported_iff.2 rfl, flagged_iff.2 rfl,
      repeatedAt_two⟩

/-! ## The report of a definition -/

namespace ProcedureDefinition

theorem violations_eq : p.violations =
    (if p.steps = [] then [.noSteps] else []) ++ (repeatedTexts p.stepIds).map .duplicateStepId ++
      (repetitions p.devices).map (.duplicateDevice none) ++
      (p.identified.map fun x => p.stepViolations x.1 x.2).flatten := by
  simp only [violations, List.isEmpty_iff, List.flatMap_def]

/-- **The report of a definition** is the list of its violations. -/
theorem reported_iff : p.Reported vs ↔ vs = p.violations := by
  rw [violations_eq]
  constructor
  · rintro ⟨hn, hi, hd, hs⟩
    rw [flagged_iff] at hn
    rw [repeatedAt_one_iff] at hi
    rw [repeatedAt_two_iff] at hd
    simp only [StepDefinition.reported_iff] at hs
    have hs := List.forall₂_map_left_iff.2 (hs.imp fun _ _ h => h.symm)
    rw [List.forall₂_eq_eq_eq] at hs
    rw [hn, hi, hd, ← hs]
  · rintro rfl
    refine ⟨flagged_iff.2 rfl, repeatedAt_one, repeatedAt_two, ?_⟩
    rw [List.forall₂_map_right_iff, List.forall₂_same]
    exact fun x _ => StepDefinition.reported_iff.2 rfl

end ProcedureDefinition

/-! ## Each violation once -/

/-- The step that a violation of a definition is about. -/
def Violation.step? : Violation → Option String
  | .noSteps | .duplicateStepId _ => none
  | .missingStepType step | .danglingTransition step _ _ | .noDevices step => some step
  | .duplicateDevice step _ => step
  | .unknownStepType step _ | .missingParams step _ => some step

theorem edgeViolations_cases {target : Option String} (h : v ∈ edgeViolations p id edge target) :
    ∃ t, v = .danglingTransition id edge t := by
  unfold edgeViolations at h
  split at h
  · cases h
  · split at h
    · cases h
    · exact ⟨_, List.mem_singleton.1 h⟩

theorem edgeViolations_nodup {target : Option String} :
    (edgeViolations p id edge target).Nodup := by
  unfold edgeViolations
  split
  · exact List.nodup_nil
  · split <;> simp

theorem step?_of_mem_stepViolations (h : v ∈ p.stepViolations id s) : v.step? = some id := by
  rw [stepViolations_eq] at h
  simp only [List.mem_append, List.mem_map] at h
  rcases h with (((h | h) | h) | h) | ⟨d, -, rfl⟩
  · split at h
    · rw [List.mem_singleton.1 h]
      rfl
    · cases h
  · obtain ⟨t, rfl⟩ := edgeViolations_cases h
    rfl
  · obtain ⟨t, rfl⟩ := edgeViolations_cases h
    rfl
  · split at h
    · rw [List.mem_singleton.1 h]
      rfl
    · cases h
  · rfl

/-- No violation of a step is listed twice. -/
theorem stepViolations_nodup : (p.stepViolations id s).Nodup := by
  have hsingle (c : Prop) [Decidable c] (v : Violation) : (if c then [v] else []).Nodup := by
    split <;> simp
  have hrepeated : ((repetitions (s.devices.getD [])).map
      (Violation.duplicateDevice (some id))).Nodup :=
    repeatedAt_two.nodup.map fun _ _ h => (Violation.duplicateDevice.inj h).2
  rw [stepViolations_eq]
  simp only [List.nodup_append', hsingle, edgeViolations_nodup, hrepeated, true_and,
    List.disjoint_left, List.mem_append, List.mem_map]
  -- The rules list violations of different kinds, and the two edges have different names.
  refine ⟨⟨⟨?_, ?_⟩, ?_⟩, ?_⟩ <;> grind [edgeViolations_cases]

/-- The violations of steps with distinct identifiers are distinct. -/
theorem steps_violations_nodup (h : p.stepIds.Nodup) :
    (p.identified.map fun x => p.stepViolations x.1 x.2).flatten.Nodup := by
  have hids : (p.identified.map Prod.fst).Nodup := by
    rwa [ProcedureDefinition.identified, List.map_fst_zip (by simp)]
  refine List.nodup_flatten.2 ⟨fun l hl => ?_, List.pairwise_map.2 ?_⟩
  · obtain ⟨x, -, rfl⟩ := List.mem_map.1 hl
    exact stepViolations_nodup
  · refine (List.pairwise_map.1 hids).imp fun {x y} hne => List.disjoint_left.2 ?_
    intro v hx hy
    refine hne ?_
    have hstep := (step?_of_mem_stepViolations hx).symm.trans (step?_of_mem_stepViolations hy)
    exact Option.some.inj hstep

/-- Nothing is listed twice of a definition whose steps have distinct identifiers. -/
theorem violations_nodup (h : p.stepIds.Nodup) : p.violations.Nodup := by
  have hids : ((repeatedTexts p.stepIds).map Violation.duplicateStepId).Nodup :=
    repeatedAt_one.nodup.map fun _ _ h => Violation.duplicateStepId.inj h
  have hdevices : ((repetitions p.devices).map (Violation.duplicateDevice none)).Nodup :=
    repeatedAt_two.nodup.map fun _ _ h => (Violation.duplicateDevice.inj h).2
  have hsteps {v : Violation}
      (hv : v ∈ (p.identified.map fun x => p.stepViolations x.1 x.2).flatten) : v.step? ≠ none := by
    obtain ⟨l, hl, hv⟩ := List.mem_flatten.1 hv
    obtain ⟨x, -, rfl⟩ := List.mem_map.1 hl
    simp [step?_of_mem_stepViolations hv]
  have hnone : (if p.steps = [] then [Violation.noSteps] else []).Nodup := by split <;> simp
  rw [ProcedureDefinition.violations_eq]
  simp only [List.nodup_append', hnone, hids, hdevices, steps_violations_nodup h, true_and,
    List.disjoint_left, List.mem_append, List.mem_map]
  -- Only what is listed of a step is about a step.
  refine ⟨⟨?_, ?_⟩, ?_⟩ <;> grind [Violation.step?]

/-! ## Acceptance -/

namespace ProcedureGraph

theorem ofDefinition_eq_ok {g : ProcedureGraph} : ofDefinition p = .ok g ↔ g.definition = p := by
  unfold ofDefinition
  split
  · rename_i h
    obtain ⟨q, hq⟩ := g
    simp [eq_comm]
  · rename_i h
    refine iff_of_false nofun fun he => h ?_
    exact he ▸ g.valid

theorem ofDefinition_eq_error :
    ofDefinition p = .error vs ↔ vs = p.violations ∧ vs ≠ [] := by
  unfold ofDefinition
  split
  · rename_i h
    refine iff_of_false nofun ?_
    rintro ⟨rfl, hne⟩
    exact hne h
  · rename_i h
    refine ⟨?_, ?_⟩
    · rintro ⟨⟩
      exact ⟨rfl, h⟩
    · rintro ⟨rfl, -⟩
      rfl

theorem exists_ofDefinition_eq_ok :
    (∃ g, ofDefinition p = .ok g) ↔ p.violations = [] := by
  simp only [ofDefinition_eq_ok]
  exact ⟨fun ⟨g, hg⟩ => hg ▸ g.valid, fun h => ⟨⟨p, h⟩, rfl⟩⟩

end ProcedureGraph

/-- **The violations of a definition** are the only report of it: each rule that it breaks is
listed, in order and once, and none that it keeps. The definition makes a graph exactly when this list is
empty, and is refused with this list otherwise. -/
theorem violations_reported (p : ProcedureDefinition) :
    (∀ vs, p.Reported vs ↔ vs = p.violations) ∧
      (p.stepIds.Nodup → p.violations.Nodup) ∧
      ((∃ g, ProcedureGraph.ofDefinition p = .ok g) ↔ p.violations = []) ∧
      (∀ g, ProcedureGraph.ofDefinition p = .ok g ↔ g.definition = p) ∧
      ∀ vs, ProcedureGraph.ofDefinition p = .error vs ↔ vs = p.violations ∧ vs ≠ [] :=
  ⟨fun _ => ProcedureDefinition.reported_iff, violations_nodup,
    ProcedureGraph.exists_ofDefinition_eq_ok, fun _ => ProcedureGraph.ofDefinition_eq_ok,
    fun _ => ProcedureGraph.ofDefinition_eq_error⟩

end Runbook

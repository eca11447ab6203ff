import Runbook.Proofs.Procedure.Report
import Runbook.Proofs.Run.Scheduling

/-!
# Identifiers resolve

In a graph the identifiers of the steps and their positions belong together, one by one
(`ProcedureGraph.Indexed`): the identifier at a position leads to the step there, and any other text
leads nowhere. So the entry and every target of an edge lead to a step, and since a run comes to
nothing else (`MayReach.declared`), it is never given up for a target that is unknown
(`accepted_resolves`).
-/

namespace Runbook

theorem ProcedureDefinition.getElem?_stepIds (p : ProcedureDefinition) (i : Nat) :
    p.stepIds[i]? = p.steps[i]?.map fun s => s.id.getD (toString i) := by
  simp [stepIds, Option.map_map, Function.comp_def]

namespace ProcedureGraph

variable {g : ProcedureGraph} {id next : String} {i : Nat} {s : StepDefinition}

theorem contains_iff : g.contains id = true ↔ id ∈ g.definition.stepIds := List.contains_iff_mem

/-- The step that an identifier leads to is the only one that has it. -/
theorem step?_eq_some_iff : g.step? id = some s ↔ (id, s) ∈ g.definition.identified := by
  refine ⟨Engine.step?_mem, fun h => ?_⟩
  obtain ⟨t, ht⟩ := step?_of_mem (List.of_mem_zip h).1
  have hn : (g.definition.identified.map Prod.fst).Nodup := by
    rw [ProcedureDefinition.identified, List.map_fst_zip (by simp)]
    exact g.stepIds_nodup
  have he : (id, t) = (id, s) := List.inj_on_of_nodup_map hn (Engine.step?_mem ht) h rfl
  rw [ht, (Prod.mk.inj he).2]

/-- The identifiers of the steps and their positions belong together, one by one. -/
structure Indexed (g : ProcedureGraph) (p : ProcedureDefinition) : Prop where
  /-- A position has the identifier that its step gives itself, or else its number. -/
  ids : ∀ i : Nat, p.stepIds[i]? = p.steps[i]?.map fun s => s.id.getD (toString i)
  /-- An identifier has one position. -/
  positions : ∀ id, g.contains id = true ↔ ∃! i : Nat, p.stepIds[i]? = some id
  /-- The identifier at a position leads to the step there. -/
  steps : ∀ (i : Nat) id, p.stepIds[i]? = some id → ∃ s, p.steps[i]? = some s ∧ g.step? id = some s
  /-- Any other text leads nowhere. -/
  others : ∀ id, g.contains id = false ↔ g.step? id = none

theorem indexed (g : ProcedureGraph) : g.Indexed g.definition where
  ids := g.definition.getElem?_stepIds
  positions id := by
    rw [contains_iff, List.mem_iff_getElem?]
    refine ⟨fun ⟨i, hi⟩ => ⟨i, hi, fun j hj => ?_⟩, fun ⟨i, hi, _⟩ => ⟨i, hi⟩⟩
    have hlt := (List.getElem?_eq_some_iff.1 hj).1
    exact (List.getElem?_inj hlt g.stepIds_nodup).1 (hj.trans hi.symm)
  steps i id hi := by
    rw [g.definition.getElem?_stepIds] at hi
    obtain ⟨s, hs, rfl⟩ := Option.map_eq_some_iff.1 hi
    refine ⟨s, hs, step?_eq_some_iff.2 (List.mem_iff_getElem?.2 ⟨i, ?_⟩)⟩
    rw [ProcedureDefinition.identified, List.getElem?_zip_eq_some]
    exact ⟨by rw [g.definition.getElem?_stepIds, hs]; rfl, hs⟩
  others id := by
    rw [← Bool.not_eq_true, contains_iff]
    refine ⟨fun h => ?_, fun h hm => ?_⟩
    · by_contra hs
      obtain ⟨s, hs⟩ := Option.ne_none_iff_exists'.1 hs
      exact h (Engine.step?_mem_stepIds hs)
    · obtain ⟨s, hs⟩ := step?_of_mem hm
      rw [h] at hs
      cases hs

/-- The entry leads to the first step. -/
theorem step?_entry (g : ProcedureGraph) :
    ∃ s, g.definition.steps[0]? = some s ∧ g.step? g.entry = some s := by
  have he : g.definition.stepIds[0]? = some g.entry := by
    obtain ⟨id, ids, h⟩ := List.exists_cons_of_ne_nil (List.ne_nil_of_mem g.entry_mem)
    simp [entry, h]
  exact g.indexed.steps 0 g.entry he

/-- The targets of the edges of a step lead to steps. -/
theorem step?_target (hs : s ∈ g.definition.steps)
    (he : s.onSuccess = some next ∨ s.onFailure = some next) : ∃ s', g.step? next = some s' := by
  obtain ⟨i, hi⟩ := List.mem_iff_getElem?.1 hs
  have hid : g.definition.stepIds[i]? = some (s.id.getD (toString i)) := by
    rw [g.definition.getElem?_stepIds, hi]
    rfl
  obtain ⟨t, ht, hstep⟩ := g.indexed.steps i _ hid
  obtain rfl : s = t := Option.some.inj (hi.symm.trans ht)
  exact step?_of_mem (edge_declared (step?_eq_some_iff.1 hstep) he)

end ProcedureGraph

/-! ## Runs -/

namespace Engine

variable {e : Engine} {p : ProcedureDefinition} {g : ProcedureGraph} {overrides : Fields}
  {cancelFrom : Option Nat} {id source target : String} {a b : Walk} {ending : Ending}

/-- A walk does not stop for an unknown target, because the step that is due is declared. -/
theorem MayReach.ne_unknownTarget (h : MayReach e g overrides cancelFrom id a)
    (ht : Turns e g cancelFrom id a (.stop ending b)) :
    ending ≠ .fault (.unknownTarget source target) := by
  rintro rfl
  rcases ht.stop_cases with ⟨hrefused, -⟩ | ⟨_, _, -, -, -, hx, -⟩
  · cases hrefused with
    | unknown _ _ hn =>
      obtain ⟨s, hs⟩ := h.declared
      rw [hs] at hn
      cases hn
  · cases hx

/-- **In the graph of a definition every identifier resolves**: those of the steps to their
positions, one by one, the entry to the first step, and the targets of all edges. So no run of the
graph is given up for an unknown target, whatever its schedule is. -/
theorem accepted_resolves (h : ProcedureGraph.ofDefinition p = .ok g) :
    g.Indexed p ∧
      (∃ s, p.steps[0]? = some s ∧ g.step? g.entry = some s) ∧
      (∀ s ∈ p.steps, ∀ next, s.onSuccess = some next ∨ s.onFailure = some next →
        ∃ s', g.step? next = some s') ∧
      ∀ e overrides cancelFrom,
        let start : Walk := { context := g.initialContext overrides }
        let o := e.outcome g overrides cancelFrom
        Walks e g cancelFrom g.entry start o.1 o.2 ∧
          ∀ ending b, Walks e g cancelFrom g.entry start ending b →
            ∀ source target, ending ≠ .fault (.unknownTarget source target) := by
  obtain rfl := ProcedureGraph.ofDefinition_eq_ok.1 h
  refine ⟨g.indexed, g.step?_entry, fun s hs next he => ProcedureGraph.step?_target hs he, ?_⟩
  intro e overrides cancelFrom start o
  refine ⟨walk_walks _ _ _ _ _, fun ending b hw source target => ?_⟩
  have hstart : MayReach e g overrides cancelFrom g.entry start := .start
  obtain ⟨id, a, hr, ht⟩ := hw.stops hstart
  exact hr.ne_unknownTarget ht

/-- A procedure whose steps go round, the first of them without an identifier of its own. -/
def roundTrip : ProcedureDefinition where
  name := "Round trip"
  devices := ["a"]
  steps :=
    [{ name := "There", stepType := "check", onSuccess := some "back" },
     { name := "Back", id := some "back", stepType := "check", onSuccess := some "0",
       onFailure := some "back" }]

def roundTripGraph : ProcedureGraph := ⟨roundTrip, by decide⟩

theorem accepted_resolves_roundTrip :
    ProcedureGraph.ofDefinition roundTrip = .ok roundTripGraph ∧
      (∃ s, roundTripGraph.step? "0" = some s ∧ s.name = "There") ∧
      ∀ source target, ((slowEngine 1).outcome roundTripGraph [] none).1 ≠
        .fault (.unknownTarget source target) := by
  have hg : ProcedureGraph.ofDefinition roundTrip = .ok roundTripGraph :=
    ProcedureGraph.ofDefinition_eq_ok.2 rfl
  obtain ⟨hindexed, -, -, hruns⟩ := accepted_resolves hg
  obtain ⟨s, hs, hstep⟩ := hindexed.steps 0 "0" (by decide)
  obtain ⟨hw, hne⟩ := hruns (slowEngine 1) [] none
  refine ⟨hg, ⟨s, hstep, ?_⟩, hne _ _ hw⟩
  cases hs
  rfl

end Engine
end Runbook

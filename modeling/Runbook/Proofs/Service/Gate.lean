import Runbook.Proofs.Procedure.Report
import Runbook.Proofs.Run.Handled
import Runbook.Proofs.Service.Simulation

/-!
# The gate of the service

The service looks for the handlers of all steps before it runs a graph. A graph that lacks some is
refused and leaves no trace: no task ever has it (`Task.Gated`, `Hub.Trace.gated`), so nothing is
done for it. A graph that lacks none is run, and what it logs comes from its handlers, whatever path
the run takes and whenever it is cancelled (`Hub.Trace.handles`). The main statement is that one of
the two is always the case (`Service.gate_complete`).
-/

namespace Runbook

/-- The handlers of a registry make the records of a log. -/
structure Registry.Handles (registry : Registry) (g : ProcedureGraph) (log : List StepRecord) :
    Prop where
  handled : ∀ r ∈ log, r.Handled registry g
  /-- If no handler says that a type of step is unknown, no record does. -/
  known : registry.KnowsTypes → ∀ r ∈ log, ¬r.result.SaysUnknownType
  /-- The built-in handlers do not, if nothing outside does. -/
  builtin : ∀ w, registry = .ofWorld w → w.KnowsTypes → ∀ r ∈ log, ¬r.result.SaysUnknownType

theorem Registry.handles {registry : Registry} {g : ProcedureGraph} {log : List StepRecord}
    (hg : g.handlerViolations registry = [])
    (hlog : ∀ r ∈ log, ∃ e : Engine, e.registry = registry ∧ e.MayRecord g r) :
    registry.Handles g log := by
  have hall : ∀ r ∈ log, r.Handled registry g := by
    intro r hr
    obtain ⟨e, rfl, hm⟩ := hlog r hr
    exact hm.handled hg
  have hknown : registry.KnowsTypes → ∀ r ∈ log, ¬r.result.SaysUnknownType :=
    fun hk r hr => (hall r hr).not_saysUnknownType hk
  exact ⟨hall, hknown, fun w hw hk => hknown (hw ▸ hk.registry)⟩

/-! ## Tasks -/

namespace Task

variable {engine : Instant → Engine} {t t' : Task} {registry : Registry} {id : Identifier}

/-- The log of a task's run, as far as the run has come. -/
def log (t : Task) : List StepRecord :=
  match t.stage with
  | .ready => []
  | .due _ _ w | .visiting _ _ _ w => w.log
  | .done => t.progress.execution.elim [] (·.log)

/-- The task has a graph that lacks no handler, and its log is what the visits of the graph's steps
leave. -/
structure Gated (registry : Registry) (engine : Instant → Engine) (t : Task) : Prop where
  served : t.graph.handlerViolations registry = []
  records : ∀ r ∈ t.log, ∃ start, (engine start).MayRecord t.graph r

theorem Gated.new {g : ProcedureGraph} (hg : g.handlerViolations registry = []) (overrides : Fields) :
    Gated registry engine { graph := g, overrides } := ⟨hg, nofun⟩

theorem Sound.log_eq {x : Execution} (h : t.Sound engine id) (hx : t.progress.execution = some x) :
    t.log = x.log := by
  rw [log, (h.execution hx).1, hx]
  rfl

theorem log_of_due {start : Instant} {step : String} {w : Walk} (h : t.stage = .due start step w) :
    t.log = w.log := by
  rw [log, h]

theorem log_of_visiting {start : Instant} {step : String} {s : StepDefinition} {w : Walk}
    (h : t.stage = .visiting start step s w) : t.log = w.log := by
  rw [log, h]

/-- When a visit is over, its records are those that it leaves. -/
theorem Gated.advance {start : Instant} {step : String} {s : StepDefinition} {v : StepVisit} {w : Walk}
    (h : t.Gated registry engine) (hsound : t.Sound engine id)
    (hs : t.stage = .visiting start step s w)
    (hv : (engine start).Admits t.graph step s w.context v) :
    ∀ r ∈ ((engine start).advance step v w).log, ∃ start, (engine start).MayRecord t.graph r := by
  have hstep : t.graph.step? step = some s := by
    cases hsound with
    | visiting hs' _ he =>
      cases hs.symm.trans hs'
      obtain ⟨c, he⟩ := he
      exact he.step
    | ready hs' | due hs' | done hs' => cases hs.symm.trans hs'
  intro r hr
  rcases List.mem_append.1 hr with hr | hr
  · exact h.records r (log_of_visiting hs ▸ hr)
  · have hid : r.step = step := (hv.logs hstep).steps r hr
    exact ⟨start, s, w.context, v, hid ▸ hstep, hid ▸ hv, hid ▸ hr⟩

/-- What a task goes on to has come through the gate as well. -/
theorem Gated.goes (h : t.Gated registry engine) (hsound : t.Sound engine id)
    (hg : t.Goes engine t') : t'.Gated registry engine := by
  cases hg with
  | begins start hs => exact ⟨h.served, nofun⟩
  | enters hs he => exact ⟨h.served, fun r hr => h.records r (log_of_due hs ▸ hr)⟩
  | stops hs he => exact ⟨h.served, fun r hr => h.records r (log_of_due hs ▸ hr)⟩
  | leaves hs hv hl =>
    obtain ⟨-, rfl⟩ := Engine.leave_next hl
    exact ⟨h.served, h.advance hsound hs hv⟩
  | ends hs hv hl =>
    obtain ⟨-, -, rfl⟩ := Engine.leave_stop hl
    exact ⟨h.served, h.advance hsound hs hv⟩

end Task

/-! ## Interleavings -/

namespace Hub

variable {f f' : Hub} {id : Identifier} {t t' : Task} {a : Action} {as : List Action}
  {registry : Registry} {config : Config}

/-- All tasks of a hub have come through its gate. -/
def Gated (f : Hub) : Prop := ∀ id t, f.tasks id = some t → t.Gated f.registry (f.engine id)

theorem Step.gated (h : Step f a f') (hsound : f.Sound) (hf : f.Gated) : f'.Gated := by
  intro id t' ht'
  rw [h.engine_eq, h.registry_eq]
  rcases h.tasks_cases ht' with ⟨t, ht, hm⟩ | ⟨g, overrides, -, rfl, rfl⟩
  · cases hm with
    | stays | cancelled => exact ⟨(hf id _ ht).served, (hf id _ ht).records⟩
    | goes hg => exact (hf id t ht).goes (hsound.tasks id t ht) hg
  · exact .new h.of_submit.1 overrides

/-- **Whatever happens**, all tasks have come through the gate. -/
theorem Trace.gated (h : Trace f as f') (hsound : f.Sound) (hf : f.Gated) : f'.Gated := by
  induction h with
  | nil => exact hf
  | cons hs _ ih => exact ih (hs.sound hsound) (hs.gated hsound hf)

/-- **What a task logs** comes from the handlers of its graph, none of which is missing. -/
theorem Trace.handles (h : Trace { registry, config } as f) (ht : f.tasks id = some t) :
    t.graph.handlerViolations registry = [] ∧ registry.Handles t.graph t.log := by
  have hgated := h.gated (.new _ _) (fun _ _ ht => by cases ht) id t ht
  have hregistry : f.registry = registry := h.registry_eq
  rw [hregistry] at hgated
  refine ⟨hgated.served, Registry.handles hgated.served fun r hr => ?_⟩
  obtain ⟨start, hm⟩ := hgated.records r hr
  exact ⟨_, hregistry, hm⟩

/-- So does the log of the execution that a caller is told when it waits for a run. -/
theorem Trace.handles_returned {g : ProcedureGraph} {overrides : Fields} {x : Execution}
    (h : Trace { registry, config } as f) (hs : .submit g overrides (.ok id) ∈ as)
    (hx : .returns id x ∈ as) : registry.Handles g x.log := by
  obtain ⟨t, ht, hx⟩ := h.exists_returned (.new _ _) hx
  have hsound : t.Sound (f.engine id) id := (h.sound (.new _ _)).tasks id t ht
  have hhandles := (h.handles ht).2
  rw [h.graph_of_submit hs ht, hsound.log_eq hx] at hhandles
  exact hhandles

end Hub

/-! ## The service -/

namespace Service

variable {s : Service} {p : ProcedureDefinition} {g : ProcedureGraph} {overrides : Fields}
  {vs : List Violation}

/-- The run that the service makes when it runs a graph at once: all that its recorder is told and all
its calls to the outside are in it. -/
def attempt (s : Service) (g : ProcedureGraph) (overrides : Fields) : Except ServiceFault Run := do
  s.accept g
  return (s.engine s.fresh s.clock).run g overrides none

/-- What the caller of `run` gets is the execution of this run. -/
theorem run_eq_attempt (s : Service) (g : ProcedureGraph) (overrides : Fields) :
    s.run g overrides = (s.attempt g overrides).map fun r =>
      (r.execution, { s.advance r.elapsed with count := s.count + 1 }) := by
  rw [run, attempt]
  cases s.accept g <;> rfl

/-- The service refuses a graph for its violations, and nothing else happens: no run is made, so no
recorder is told of one and nothing outside is called, and whatever callers and tasks do, no task ever
works on the graph. -/
structure Refuses (s : Service) (p : ProcedureDefinition) (g : ProcedureGraph) (overrides : Fields)
    (vs : List Violation) : Prop where
  submit : s.submit g overrides = .error (.invalid vs)
  run : s.run g overrides = .error (.invalid vs)
  runDefinition : s.runDefinition p overrides = .error (.invalid vs)
  attempt : s.attempt g overrides = .error (.invalid vs)
  /-- Whatever the service does afterwards, it does as if it had not been asked. -/
  submits : ∀ os, s.performs (.submit g overrides :: os) =
    ((s.performs os).1, .submit g overrides (.error (.invalid vs)) :: (s.performs os).2)
  runs : ∀ os, s.performs (.run g overrides :: os) = s.performs os
  background : ∀ config as f, Hub.Trace { registry := s.registry, config } as f →
    ∀ id t, f.tasks id = some t → t.graph ≠ g

/-- The service starts a run of a graph, and all that such a run ever logs comes from handlers: at
once, with any schedule and wherever it is cancelled, and in the background, whatever callers and
other tasks do. -/
structure Starts (s : Service) (p : ProcedureDefinition) (g : ProcedureGraph) (overrides : Fields) :
    Prop where
  submit : s.submit g overrides = .ok (s.fresh, { s with
    runs := (s.fresh, { graph := g, overrides, moment := s.clock }) :: s.runs
    count := s.count + 1 })
  attempt : s.attempt g overrides = .ok ((s.engine s.fresh s.clock).run g overrides none)
  run : ∃ x s', s.run g overrides = .ok (x, s') ∧ s.registry.Handles g x.log
  runDefinition : s.runDefinition p overrides = s.run g overrides
  logs : ∀ e : Engine, e.registry = s.registry → ∀ cancelFrom x,
    e.Schedules g overrides cancelFrom x → s.registry.Handles g x.log
  background : ∀ config as f, Hub.Trace { registry := s.registry, config } as f →
    ∀ id t, f.tasks id = some t → t.graph = g → s.registry.Handles g t.log
  waits : ∀ config as f, Hub.Trace { registry := s.registry, config } as f →
    ∀ id x, .submit g overrides (.ok id) ∈ as → .returns id x ∈ as → s.registry.Handles g x.log

theorem refuses (hp : ProcedureGraph.ofDefinition p = .ok g)
    (hvs : g.handlerViolations s.registry = vs) (hne : vs ≠ []) : s.Refuses p g overrides vs := by
  have haccept : s.accept g = .error (.invalid vs) := by
    rw [accept, hvs]
    cases vs with
    | nil => exact absurd rfl hne
    | cons _ _ => rfl
  have hattempt : s.attempt g overrides = .error (.invalid vs) := by
    rw [attempt, haccept]
    rfl
  have hrun : s.run g overrides = .error (.invalid vs) := by
    rw [run_eq_attempt, hattempt]
    rfl
  refine ⟨submit_error haccept, hrun, ?_, hattempt, ?_, ?_, ?_⟩
  · rw [runDefinition, hp]
    exact hrun
  · intro os
    rw [performs_cons, perform, submit_error haccept]
    rfl
  · intro os
    rw [performs_cons, perform, hrun]
    rfl
  · rintro config as f h id t ht rfl
    exact hne (hvs.symm.trans (h.handles ht).1)

theorem starts (hp : ProcedureGraph.ofDefinition p = .ok g)
    (hg : g.handlerViolations s.registry = []) : s.Starts p g overrides := by
  have haccept : s.accept g = .ok () := accept_eq_ok.2 hg
  have hlogs (e : Engine) (he : e.registry = s.registry) (cancelFrom : Option Nat) (x : Execution)
      (hx : e.Schedules g overrides cancelFrom x) : s.registry.Handles g x.log :=
    Registry.handles hg fun r hr => ⟨e, he, hx.mayRecord r hr⟩
  refine ⟨submit_ok haccept, ?_, ⟨_, _, run_ok haccept, ?_⟩, ?_, hlogs, ?_, ?_⟩
  · rw [attempt, haccept]
    rfl
  · exact hlogs _ rfl none _ (Engine.run_scheduled _ g overrides none)
  · rw [runDefinition, hp]
  · rintro config as f h id t ht rfl
    exact (h.handles ht).2
  · intro config as f h id x hs hx
    exact h.handles_returned hs hx

/-- **The gate is complete.** A definition that is not valid is refused for its violations. For the
graph of a valid one, the violations are what its steps lack, in their order, and nothing else. If
there are any, the graph is refused for them and nothing happens; if there are none, it is run, and no
record of a run is ever of a step without a handler. -/
theorem gate_complete (s : Service) (p : ProcedureDefinition) (overrides : Fields) :
    (∀ vs, ProcedureGraph.ofDefinition p = .error vs →
      s.runDefinition p overrides = .error (.invalid vs)) ∧
      ∀ g, ProcedureGraph.ofDefinition p = .ok g → ∃ vs, GateReport s.registry p.identified vs ∧
        (vs ≠ [] → s.Refuses p g overrides vs) ∧ (vs = [] → s.Starts p g overrides) := by
  refine ⟨fun vs hp => by rw [runDefinition, hp], fun g hp => ?_⟩
  have hreport : GateReport s.registry p.identified (g.handlerViolations s.registry) := by
    rw [ProcedureGraph.gateReport_iff, ← ProcedureGraph.ofDefinition_eq_ok.1 hp]
    rfl
  exact ⟨_, hreport, refuses hp rfl, starts hp⟩

/-- A procedure with a request to nobody. -/
def callNobody : ProcedureDefinition where
  name := "Call nobody"
  steps := [{ name := "Call", stepType := "webhook", devices := some [] }]

example : ProcedureGraph.handlerViolations ⟨callNobody, by decide⟩ (.ofWorld Engine.slowWorld) =
    [.missingParams "0" ["url"]] := by
  decide +kernel

end Service
end Runbook

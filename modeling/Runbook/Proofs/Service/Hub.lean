import Mathlib.Logic.Function.Basic
import Runbook.Proofs.Run.Fault
import Runbook.Service

/-!
# The service without its clock

A `Hub` is what the callers of the service and the runs in the background share: the table of the
runs that are tracked, and a `Task` for each run that was ever submitted. A caller tells a task that
its run is cancelled, and the task tells the callers of its `Progress`. What the callers do and what
the tasks do is interleaved in any way (`Hub.Step`, `Hub.Trace`). A task goes on when its run begins,
when a step is due and when the visit of a step is over (`Task.Goes`), and between two of these
anything else may happen.

`Hub.Sound` is what all of this keeps (`Trace.sound`): the progress of a task tells where it stands,
and its status and its execution become visible together (`Task.Sound`).
-/

namespace Runbook

instance : LawfulBEq Identifier where
  rfl {a} := by cases a; simp [BEq.beq, instBEqIdentifier.beq]
  eq_of_beq {a b} h := by cases a; cases b; simpa [BEq.beq, instBEqIdentifier.beq] using h

/-- How far a run with the status is. -/
def RunStatus.rank : RunStatus → Nat
  | .pending => 0
  | .running => 1
  | .success | .failed | .cancelled => 2

/-- A run with the status `a` may have the status `b` later on. -/
def RunStatus.MayBecome (a b : RunStatus) : Prop := a = b ∨ a.rank < b.rank

/-- What the callers can see of a run. -/
structure Progress where
  status : RunStatus
  execution : Option Execution := none

/-- Where the task of a run stands. -/
inductive Stage where
  /-- The run has not begun. -/
  | ready
  /-- The run began at `start`, and the step is due. -/
  | due (start : Instant) (step : String) (w : Walk)
  /-- The step is visited. -/
  | visiting (start : Instant) (step : String) (s : StepDefinition) (w : Walk)
  /-- The run is over. -/
  | done

/-- A run in the background. -/
structure Task where
  graph : ProcedureGraph
  overrides : Fields
  /-- Whether a caller has cancelled the run. -/
  cancelled : Bool := false
  progress : Progress := { status := .pending }
  stage : Stage := .ready

namespace Task

/-- A task looks whether it is cancelled when a step is due, whenever that is. -/
def cancelFrom (t : Task) : Option Nat := if t.cancelled then some 0 else none

/-- The task once its run has come to an execution, which callers then see. -/
def finished (t : Task) (x : Execution) : Task :=
  { t with progress := { status := x.status, execution := some x }, stage := .done }

/-- How a task goes on, over the engine that its run has if it begins at some moment. -/
inductive Goes (engine : Instant → Engine) (t : Task) : Task → Prop
  | begins (start : Instant) : t.stage = .ready →
      Goes engine t { t with
        progress := { status := .running }
        stage := .due start t.graph.entry { context := t.graph.initialContext t.overrides } }
  | enters {start : Instant} {step : String} {s : StepDefinition} {w : Walk} :
      t.stage = .due start step w → (engine start).enter t.graph t.cancelFrom step w = .ok s →
      Goes engine t { t with stage := .visiting start step s w }
  | stops {start : Instant} {step : String} {w : Walk} {ending : Ending} :
      t.stage = .due start step w →
      (engine start).enter t.graph t.cancelFrom step w = .error ending →
      Goes engine t (t.finished ((engine start).report t.graph ending w))
  | leaves {start : Instant} {step next : String} {s : StepDefinition} {v : StepVisit}
      {w w' : Walk} : t.stage = .visiting start step s w →
      (engine start).Admits t.graph step s w.context v →
      (engine start).leave step s v w = .next next w' →
      Goes engine t { t with stage := .due start next w' }
  | ends {start : Instant} {step : String} {s : StepDefinition} {v : StepVisit} {w w' : Walk}
      {ending : Ending} : t.stage = .visiting start step s w →
      (engine start).Admits t.graph step s w.context v →
      (engine start).leave step s v w = .stop ending w' →
      Goes engine t (t.finished ((engine start).report t.graph ending w'))

end Task

/-- What the callers and the tasks of a service share. -/
structure Hub where
  registry : Registry
  config : Config
  /-- The runs that were ever submitted. -/
  tasks : Identifier → Option Task := fun _ => none
  /-- The runs that a caller can ask for. -/
  tracked : List Identifier := []
  /-- The runs that callers wait for. -/
  waiting : List Identifier := []

/-- What can happen at a hub: a call and its answer, the end of a wait, or that a task goes on. -/
inductive Action where
  | submit (g : ProcedureGraph) (overrides : Fields) (answer : Except ServiceFault Identifier)
  | cancel (id : Identifier) (answer : Except ServiceFault Unit)
  | status (id : Identifier) (answer : Except ServiceFault RunStatus)
  | wait (id : Identifier) (answer : Except ServiceFault Unit)
  | returns (id : Identifier) (x : Execution)
  | forget (id : Identifier) (answer : Except ServiceFault Unit)
  | goes (id : Identifier)

namespace Action

/-- Whether a caller takes part in it. -/
def isVisible : Action → Bool
  | .goes _ => false
  | _ => true

/-- The calls about a run. -/
inductive Asks (id : Identifier) : Action → Prop
  | cancel (r : Except ServiceFault Unit) : Asks id (.cancel id r)
  | status (r : Except ServiceFault RunStatus) : Asks id (.status id r)
  | wait (r : Except ServiceFault Unit) : Asks id (.wait id r)
  | forget (r : Except ServiceFault Unit) : Asks id (.forget id r)

/-- The calls about a run that the same fault answers. -/
def refusals (id : Identifier) (x : ServiceFault) : List Action :=
  [.cancel id (.error x), .status id (.error x), .wait id (.error x), .forget id (.error x)]

end Action

namespace Hub

/-- The engine of a run that begins at some moment. -/
def engine (f : Hub) (id : Identifier) (start : Instant) : Engine :=
  { registry := f.registry, config := f.config, execution := id, startedAt := start }

/-- How often a run may enter a step. -/
def budget (f : Hub) : Nat := max 1 f.config.maxStepVisits

/-- The hub with a task of some identifier. -/
def put (f : Hub) (id : Identifier) (t : Task) : Hub :=
  { f with tasks := Function.update f.tasks id (some t) }

/-- The run that a caller asks for. -/
def find (f : Hub) (id : Identifier) : Except ServiceFault Task :=
  if id ∈ f.tracked then (f.tasks id).elim (.error (.notFound id)) .ok else .error (.notFound id)

/-- Refuses a graph for whose steps there are no handlers. -/
def accept (f : Hub) (g : ProcedureGraph) : Except ServiceFault Unit :=
  match g.handlerViolations f.registry with
  | [] => .ok ()
  | vs => .error (.invalid vs)

/-- What may happen next. -/
inductive Step (f : Hub) : Action → Hub → Prop
  | submit {g : ProcedureGraph} {overrides : Fields} {id : Identifier} :
      f.tasks id = none → f.accept g = .ok () →
      Step f (.submit g overrides (.ok id))
        { f.put id { graph := g, overrides } with tracked := id :: f.tracked }
  | reject {g : ProcedureGraph} {overrides : Fields} {x : ServiceFault} : f.accept g = .error x →
      Step f (.submit g overrides (.error x)) f
  | cancel {id : Identifier} {t : Task} : f.find id = .ok t →
      Step f (.cancel id (.ok ())) (f.put id { t with cancelled := true })
  | status {id : Identifier} {t : Task} : f.find id = .ok t →
      Step f (.status id (.ok t.progress.status)) f
  | wait {id : Identifier} {t : Task} : f.find id = .ok t →
      Step f (.wait id (.ok ())) { f with waiting := id :: f.waiting }
  | returns {id : Identifier} {t : Task} {x : Execution} : id ∈ f.waiting →
      f.tasks id = some t → t.progress.execution = some x →
      Step f (.returns id x) { f with waiting := f.waiting.erase id }
  | forget {id : Identifier} {t : Task} : f.find id = .ok t →
      t.progress.status.isTerminal = true →
      Step f (.forget id (.ok ())) { f with tracked := f.tracked.filter (· != id) }
  | keep {id : Identifier} {t : Task} : f.find id = .ok t →
      t.progress.status.isTerminal = false → Step f (.forget id (.ok ())) f
  | unknown {id : Identifier} {x : ServiceFault} {a : Action} : f.find id = .error x →
      a ∈ Action.refusals id x → Step f a f
  | goes {id : Identifier} {t t' : Task} : f.tasks id = some t → t.Goes (f.engine id) t' →
      Step f (.goes id) (f.put id t')

/-- What may happen from one moment to another. -/
inductive Trace : Hub → List Action → Hub → Prop
  | nil {f : Hub} : Trace f [] f
  | cons {f f' f'' : Hub} {a : Action} {as : List Action} : Step f a f' → Trace f' as f'' →
      Trace f (a :: as) f''

end Hub

/-! ## The progress of a task -/

theorem RunStatus.MayBecome.trans {a b c : RunStatus} (h : a.MayBecome b) (h' : b.MayBecome c) :
    a.MayBecome c := by
  rcases h with rfl | h
  · exact h'
  · rcases h' with rfl | h'
    · exact .inr h
    · exact .inr (h.trans h')

theorem RunStatus.rank_lt_of_isTerminal {a b : RunStatus} (ha : a.isTerminal = false)
    (hb : b.isTerminal = true) : a.rank < b.rank := by
  cases a <;> cases b <;> simp_all [isTerminal, rank]

/-- A status that is terminal never changes again. -/
theorem RunStatus.MayBecome.eq_of_isTerminal {a b : RunStatus} (h : a.MayBecome b)
    (ha : a.isTerminal = true) : b = a := by
  rcases h with rfl | h
  · rfl
  · cases a <;> cases b <;> simp_all [isTerminal, rank]

/-- The progress `q` may be seen after `p`. -/
structure Progress.Before (p q : Progress) : Prop where
  status : p.status.MayBecome q.status
  execution : ∀ x, p.execution = some x → q = p

theorem Progress.Before.refl (p : Progress) : p.Before p := ⟨.inl rfl, fun _ _ => rfl⟩

theorem Progress.Before.trans {p q r : Progress} (h : p.Before q) (h' : q.Before r) :
    p.Before r where
  status := h.status.trans h'.status
  execution x hx := by
    obtain rfl := h.execution x hx
    exact h'.execution x hx

theorem RunStatus.isTerminal_ofStep {s : Status} : (ofStep s).isTerminal = true := by
  cases s <;> rfl

theorem Engine.Refused.isTerminal {e : Engine} {g : ProcedureGraph} {cancelFrom : Option Nat}
    {step : String} {w : Walk} {ending : Ending} (h : e.Refused g cancelFrom step w ending) :
    ending.runStatus.isTerminal = true := by
  cases h <;> rfl

namespace Task

variable {engine : Instant → Engine} {id : Identifier} {t t' : Task}

/-- The progress of a task tells where it stands: its execution is there just when the run is over,
and so is a terminal status. -/
inductive Sound (engine : Instant → Engine) (id : Identifier) (t : Task) : Prop
  | ready : t.stage = .ready → t.progress = { status := .pending } → Sound engine id t
  | due {start : Instant} {step : String} {w : Walk} : t.stage = .due start step w →
      t.progress = { status := .running } → Sound engine id t
  | visiting {start : Instant} {step : String} {s : StepDefinition} {w : Walk} :
      t.stage = .visiting start step s w → t.progress = { status := .running } →
      (∃ c, (engine start).Enters t.graph c step w s) → Sound engine id t
  | done {x : Execution} : t.stage = .done →
      t.progress = { status := x.status, execution := some x } → x.id = id →
      x.status.isTerminal = true → Sound engine id t

theorem Sound.new (g : ProcedureGraph) (overrides : Fields) :
    Sound engine id { graph := g, overrides } := .ready rfl rfl

/-- Whether a task is cancelled does not show in its progress. -/
theorem Sound.cancel (h : Sound engine id t) (c : Bool) :
    Sound engine id { t with cancelled := c } := by
  cases h with
  | ready hs hp => exact .ready hs hp
  | due hs hp => exact .due hs hp
  | visiting hs hp he => exact .visiting hs hp he
  | done hs hp hx ht => exact .done hs hp hx ht

theorem Sound.pending_ready (h : Sound engine id t) (hs : t.stage = .ready) :
    t.progress = { status := .pending } := by
  cases h with
  | ready _ hp => exact hp
  | due hs' | visiting hs' | done hs' => cases hs.symm.trans hs'

theorem Sound.running_due {start : Instant} {step : String} {w : Walk} (h : Sound engine id t)
    (hs : t.stage = .due start step w) : t.progress = { status := .running } := by
  cases h with
  | due _ hp => exact hp
  | ready hs' | visiting hs' | done hs' => cases hs.symm.trans hs'

theorem Sound.running_visiting {start : Instant} {step : String} {s : StepDefinition} {w : Walk}
    (h : Sound engine id t) (hs : t.stage = .visiting start step s w) :
    t.progress = { status := .running } := by
  cases h with
  | visiting _ hp => exact hp
  | ready hs' | due hs' | done hs' => cases hs.symm.trans hs'

/-- The execution of a task is that of its run, whose status it shows. -/
theorem Sound.execution {x : Execution} (h : Sound engine id t)
    (hx : t.progress.execution = some x) :
    t.stage = .done ∧ t.progress.status = x.status ∧ x.id = id ∧ x.status.isTerminal = true := by
  cases h with
  | ready _ hp | due _ hp | visiting _ hp _ =>
    rw [hp] at hx
    cases hx
  | done hs hp hid ht =>
    rw [hp] at hx ⊢
    cases hx
    exact ⟨hs, rfl, hid, ht⟩

/-- A terminal status and an execution become visible together. -/
theorem Sound.exists_execution (h : Sound engine id t)
    (ht : t.progress.status.isTerminal = true) : ∃ x, t.progress.execution = some x := by
  cases h with
  | ready _ hp | due _ hp | visiting _ hp _ =>
    rw [hp] at ht
    cases ht
  | done _ hp _ _ => exact ⟨_, by rw [hp]⟩

/-- What a task goes on to. -/
theorem Sound.goes (h : Sound engine id t) (hid : ∀ start, (engine start).execution = id)
    (hg : t.Goes engine t') : Sound engine id t' := by
  cases hg with
  | begins start hs => exact .due rfl rfl
  | enters hs he => exact .visiting rfl (h.running_due hs) ⟨_, Engine.enter_eq_ok.1 he⟩
  | stops hs he => exact .done rfl rfl (hid _) (Engine.enter_error he).isTerminal
  | leaves hs hv hl => exact .due rfl (h.running_visiting hs)
  | ends hs hv hl =>
    obtain ⟨-, rfl, -⟩ := Engine.leave_stop hl
    exact .done rfl rfl (hid _) RunStatus.isTerminal_ofStep

/-- The callers see a task go forward. -/
theorem Sound.goes_before (h : Sound engine id t) (hg : t.Goes engine t') :
    t.progress.Before t'.progress := by
  have hnone {p : Progress} (hp : t.progress = p) (hx : p.execution = none) (x : Execution)
      (he : t.progress.execution = some x) : t'.progress = t.progress := by
    rw [hp, hx] at he
    cases he
  cases hg with
  | begins start hs =>
    have hp := h.pending_ready hs
    refine ⟨.inr ?_, hnone hp rfl⟩
    rw [hp]
    exact Nat.zero_lt_one
  | enters | leaves => exact .refl _
  | stops hs he =>
    have hp := h.running_due hs
    refine ⟨.inr ?_, hnone hp rfl⟩
    rw [hp]
    exact RunStatus.rank_lt_of_isTerminal rfl (Engine.enter_error he).isTerminal
  | ends hs hv hl =>
    have hp := h.running_visiting hs
    obtain ⟨-, rfl, -⟩ := Engine.leave_stop hl
    refine ⟨.inr ?_, hnone hp rfl⟩
    rw [hp]
    exact RunStatus.rank_lt_of_isTerminal rfl RunStatus.isTerminal_ofStep

/-- The task of a run that is over does not go on. -/
theorem not_goes_of_done (hs : t.stage = .done) : ¬t.Goes engine t' := by
  intro hg
  cases hg with
  | begins _ h | enters h | stops h | leaves h | ends h => cases hs.symm.trans h

end Task

/-! ## Hubs -/

namespace Hub

variable {f f' f'' : Hub} {id : Identifier} {t t' : Task} {a : Action} {as bs : List Action}
  {x : ServiceFault}

@[simp] theorem tasks_put_self : (f.put id t).tasks id = some t := Function.update_self _ _ _

theorem tasks_put_of_ne {k : Identifier} (h : k ≠ id) : (f.put id t).tasks k = f.tasks k :=
  Function.update_of_ne h _ _

theorem put_eq_self (h : f.tasks id = some t) : f.put id t = f := by
  rw [put, ← h, Function.update_eq_self]

theorem put_put : (f.put id t).put id t' = f.put id t' := by
  rw [put, put, Function.update_idem]
  rfl

theorem find_eq_ok : f.find id = .ok t ↔ id ∈ f.tracked ∧ f.tasks id = some t := by
  unfold find
  split
  · rename_i hm
    cases f.tasks id <;> simp [hm]
  · rename_i hm
    simp [hm]

theorem find_of_not_mem (h : id ∉ f.tracked) : f.find id = .error (.notFound id) := if_neg h

theorem find_eq_error (h : f.find id = .error x) : x = .notFound id := by
  unfold find at h
  split at h
  · cases ht : f.tasks id <;> rw [ht] at h <;> cases h
    rfl
  · cases h
    rfl

theorem accept_eq_ok {g : ProcedureGraph} :
    f.accept g = .ok () ↔ g.handlerViolations f.registry = [] := by
  unfold accept
  cases g.handlerViolations f.registry <;> simp

/-- What the table and the tasks of a hub always tell. -/
structure Sound (f : Hub) : Prop where
  tracked : ∀ id ∈ f.tracked, ∃ t, f.tasks id = some t
  tasks : ∀ id t, f.tasks id = some t → t.Sound (f.engine id) id

theorem Sound.new (registry : Registry) (config : Config) : Sound { registry, config } where
  tracked _ h := by cases h
  tasks _ _ h := by cases h

/-- A tracked run is found. -/
theorem Sound.find (h : f.Sound) (hm : id ∈ f.tracked) : ∃ t, f.find id = .ok t := by
  obtain ⟨t, ht⟩ := h.tracked id hm
  exact ⟨t, find_eq_ok.2 ⟨hm, ht⟩⟩

/-- What a step makes of the task of a run: it is cancelled, it goes on, or nothing at all. -/
inductive Moves (engine : Instant → Engine) (id : Identifier) (t : Task) : Action → Task → Prop
  | stays {a : Action} : a ≠ .goes id → Moves engine id t a t
  | cancelled : Moves engine id t (.cancel id (.ok ())) { t with cancelled := true }
  | goes {t' : Task} : t.Goes engine t' → Moves engine id t (.goes id) t'

/-- The tasks that a step leaves are those that it found and those that it adds. -/
theorem Step.tasks_cases (h : Step f a f') (ht : f'.tasks id = some t') :
    (∃ t, f.tasks id = some t ∧ Moves (f.engine id) id t a t') ∨
      ∃ g overrides, f.tasks id = none ∧ a = .submit g overrides (.ok id) ∧
        t' = { graph := g, overrides } := by
  cases h with
  | @submit g overrides k hk ha =>
    by_cases h : id = k
    · subst h
      cases tasks_put_self.symm.trans ht
      exact .inr ⟨g, overrides, hk, rfl, rfl⟩
    · exact .inl ⟨t', (tasks_put_of_ne h).symm.trans ht, .stays nofun⟩
  | @cancel k t hk =>
    by_cases h : id = k
    · subst h
      cases tasks_put_self.symm.trans ht
      exact .inl ⟨t, (find_eq_ok.1 hk).2, .cancelled⟩
    · exact .inl ⟨t', (tasks_put_of_ne h).symm.trans ht, .stays nofun⟩
  | @goes k t u hk hg =>
    by_cases h : id = k
    · subst h
      cases tasks_put_self.symm.trans ht
      exact .inl ⟨t, hk, .goes hg⟩
    · refine .inl ⟨t', (tasks_put_of_ne h).symm.trans ht, .stays fun he => ?_⟩
      cases he
      exact h rfl
  | unknown hx hm =>
    refine .inl ⟨t', ht, .stays fun he => ?_⟩
    subst he
    simp [Action.refusals] at hm
  | reject | status | wait | returns | forget | keep => exact .inl ⟨t', ht, .stays nofun⟩

/-- No task is ever lost. -/
theorem Step.exists_task (h : Step f a f') (ht : f.tasks id = some t) :
    ∃ t', f'.tasks id = some t' ∧ Moves (f.engine id) id t a t' := by
  have hsome : ∃ t', f'.tasks id = some t' := by
    cases h with
    | @submit _ _ k | @cancel k | @goes k =>
      by_cases h : id = k
      · subst h
        exact ⟨_, tasks_put_self⟩
      · exact ⟨t, (tasks_put_of_ne h).trans ht⟩
    | reject | status | wait | returns | forget | keep | unknown => exact ⟨t, ht⟩
  obtain ⟨t', ht'⟩ := hsome
  rcases h.tasks_cases ht' with ⟨u, hu, hm⟩ | ⟨_, _, hn, -⟩
  · cases hu.symm.trans ht
    exact ⟨t', ht', hm⟩
  · cases hn.symm.trans ht

theorem Step.engine_eq (h : Step f a f') : f'.engine = f.engine := by
  cases h <;> rfl

theorem Step.registry_eq (h : Step f a f') : f'.registry = f.registry := by
  cases h <;> rfl

theorem Step.budget_eq (h : Step f a f') : f'.budget = f.budget := by
  cases h <;> rfl

/-- A run that is submitted is that of a graph which the hub accepts. -/
theorem Step.of_submit {g : ProcedureGraph} {overrides : Fields}
    (h : Step f (.submit g overrides (.ok id)) f') :
    g.handlerViolations f.registry = [] ∧ f'.tasks id = some { graph := g, overrides } := by
  generalize ha : Action.submit g overrides (.ok id) = a at h
  cases h with
  | submit _ hacc =>
    cases ha
    exact ⟨accept_eq_ok.1 hacc, tasks_put_self⟩
  | unknown _ hm =>
    subst ha
    simp [Action.refusals] at hm
  | _ => cases ha

theorem Moves.graph_eq (hm : Moves (f.engine id) id t a t') : t'.graph = t.graph := by
  cases hm with
  | stays | cancelled => rfl
  | goes hg => cases hg <;> rfl

theorem Moves.sound (h : t.Sound (f.engine id) id) (hm : Moves (f.engine id) id t a t') :
    t'.Sound (f.engine id) id := by
  cases hm with
  | stays => exact h
  | cancelled => exact h.cancel true
  | goes hg => exact h.goes (fun _ => rfl) hg

theorem Moves.before (h : t.Sound (f.engine id) id) (hm : Moves (f.engine id) id t a t') :
    t.progress.Before t'.progress := by
  cases hm with
  | stays | cancelled => exact .refl _
  | goes hg => exact h.goes_before hg

/-- The table of a hub has only tasks. -/
theorem Step.tracked_subset (h : Step f a f') (hm : id ∈ f'.tracked) :
    id ∈ f.tracked ∨ ∃ t, f'.tasks id = some t := by
  cases h with
  | @submit _ _ k =>
    rcases List.mem_cons.1 hm with rfl | hm
    · exact .inr ⟨_, tasks_put_self⟩
    · exact .inl hm
  | forget => exact .inl (List.mem_filter.1 hm).1
  | reject | cancel | status | wait | returns | keep | unknown | goes => exact .inl hm

theorem Step.sound (h : Step f a f') (hf : f.Sound) : f'.Sound where
  tracked id hm := by
    rcases h.tracked_subset hm with hm | ht
    · obtain ⟨t, ht⟩ := hf.tracked id hm
      obtain ⟨t', ht', -⟩ := h.exists_task ht
      exact ⟨t', ht'⟩
    · exact ht
  tasks id t' ht' := by
    rw [h.engine_eq]
    rcases h.tasks_cases ht' with ⟨t, ht, hm⟩ | ⟨g, overrides, -, -, rfl⟩
    · exact hm.sound (hf.tasks id t ht)
    · exact .new g overrides

namespace Trace

theorem append (h : Trace f as f') (h' : Trace f' bs f'') : Trace f (as ++ bs) f'' := by
  induction h with
  | nil => exact h'
  | cons hs _ ih => exact .cons hs (ih h')

/-- What happens in a trace does so at some moment of it. -/
theorem exists_step (h : Trace f as f') (ha : a ∈ as) :
    ∃ bs cs g g', as = bs ++ a :: cs ∧ Trace f bs g ∧ Step g a g' ∧ Trace g' cs f' := by
  induction h with
  | nil => cases ha
  | @cons f g f' b as hs ht ih =>
    rcases List.mem_cons.1 ha with rfl | ha
    · exact ⟨[], as, f, g, rfl, .nil, hs, ht⟩
    · obtain ⟨bs, cs, u, u', rfl, hb, hu, hc⟩ := ih ha
      exact ⟨b :: bs, cs, u, u', rfl, .cons hs hb, hu, hc⟩

theorem engine_eq (h : Trace f as f') : f'.engine = f.engine := by
  induction h with
  | nil => rfl
  | cons hs _ ih => exact ih.trans hs.engine_eq

theorem registry_eq (h : Trace f as f') : f'.registry = f.registry := by
  induction h with
  | nil => rfl
  | cons hs _ ih => exact ih.trans hs.registry_eq

theorem budget_eq (h : Trace f as f') : f'.budget = f.budget := by
  induction h with
  | nil => rfl
  | cons hs _ ih => exact ih.trans hs.budget_eq

/-- **Whatever happens**, the progress of each task tells where it stands. -/
theorem sound (h : Trace f as f') (hf : f.Sound) : f'.Sound := by
  induction h with
  | nil => exact hf
  | cons hs _ ih => exact ih (hs.sound hf)

/-- Whatever happens, the callers see each task go forward. -/
theorem exists_task (h : Trace f as f') (hf : f.Sound) (ht : f.tasks id = some t) :
    ∃ t', f'.tasks id = some t' ∧ t.progress.Before t'.progress := by
  induction h generalizing t with
  | nil => exact ⟨t, ht, .refl _⟩
  | cons hs _ ih =>
    obtain ⟨u, hu, hm⟩ := hs.exists_task ht
    obtain ⟨t', ht', hb⟩ := ih (hs.sound hf) hu
    exact ⟨t', ht', (hm.before (hf.tasks _ t ht)).trans hb⟩

/-- What a caller was told of a run at the end of a wait is what its task shows from then on. -/
theorem exists_returned {x : Execution} (h : Trace f as f') (hf : f.Sound)
    (hx : .returns id x ∈ as) : ∃ t, f'.tasks id = some t ∧ t.progress.execution = some x := by
  obtain ⟨bs, cs, g, g', -, hb, hs, hc⟩ := h.exists_step hx
  have hsound := hs.sound (hb.sound hf)
  cases hs with
  | @returns _ t _ _ ht hx =>
    obtain ⟨t', ht', hbefore⟩ := hc.exists_task hsound ht
    exact ⟨t', ht', by rw [hbefore.execution x hx, hx]⟩
  | unknown _ hm => simp [Action.refusals] at hm

/-- A task keeps its graph. -/
theorem exists_task_graph (h : Trace f as f') (ht : f.tasks id = some t) :
    ∃ t', f'.tasks id = some t' ∧ t'.graph = t.graph := by
  induction h generalizing t with
  | nil => exact ⟨t, ht, rfl⟩
  | cons hs _ ih =>
    obtain ⟨u, hu, hm⟩ := hs.exists_task ht
    obtain ⟨t', ht', hg⟩ := ih hu
    exact ⟨t', ht', hg.trans hm.graph_eq⟩

/-- The task of a run that was submitted has its graph. -/
theorem graph_of_submit {g : ProcedureGraph} {overrides : Fields} (h : Trace f as f')
    (hs : .submit g overrides (.ok id) ∈ as) (ht : f'.tasks id = some t) : t.graph = g := by
  obtain ⟨bs, cs, u, u', -, -, hstep, hrest⟩ := h.exists_step hs
  obtain ⟨t', ht', hg⟩ := hrest.exists_task_graph hstep.of_submit.2
  cases ht.symm.trans ht'
  exact hg

end Trace
end Hub
end Runbook

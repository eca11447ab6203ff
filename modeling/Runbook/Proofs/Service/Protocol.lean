import Runbook.Proofs.Service.Simulation

/-!
# What callers can rely on

Whatever the callers of a hub and its tasks do, the callers see each run go forward to one terminal
status, and from then on every wait is answered with one execution (`Hub.Over`). A run that is over
does not notice that it is cancelled: hubs that differ in this alone go on alike
(`Hub.Alike.trace`). A run that is not over goes on, and it is over after a number of its steps
whatever happens in between, since each step of a task leaves less to do (`Task.Goes.remaining_lt`).
`Hub.Orderly` says all of this, and `Trace.orderly` that it holds at every moment.
-/

namespace Runbook

/-! ## What is left to do -/

namespace Task

variable {engine : Instant → Engine} {id : Identifier} {t t' : Task} {budget : Nat}

/-- How many steps a task still has to take at most, when a step may be entered so often. -/
def remaining (budget : Nat) (t : Task) : Nat :=
  let room visited := Engine.roomFor budget visited t.graph.definition.stepIds
  match t.stage with
  | .ready => 2 * room [] + 2
  | .due _ _ w => 2 * room w.visited + 1
  | .visiting _ _ _ w => 2 * room w.visited
  | .done => 0

theorem Goes.remaining_lt (h : t.Sound engine id) (hb : ∀ start, (engine start).budget = budget)
    (hg : t.Goes engine t') : t'.remaining budget < t.remaining budget := by
  have hroom {start : Instant} {step : String} {s : StepDefinition} {w : Walk}
      (hs : t.stage = .visiting start step s w) :
      Engine.roomFor budget (w.visited ++ [step]) t.graph.definition.stepIds <
        Engine.roomFor budget w.visited t.graph.definition.stepIds := by
    cases h with
    | visiting hs' _ he =>
      cases hs.symm.trans hs'
      obtain ⟨_, he⟩ := he
      exact Engine.roomFor_lt (hb start ▸ he.room) (Engine.step?_mem_stepIds he.step)
    | ready hs' | due hs' | done hs' => cases hs.symm.trans hs'
  cases hg with
  | begins start hs =>
    simp only [remaining, hs]
    exact Nat.lt_succ_self _
  | enters hs _ =>
    simp only [remaining, hs]
    exact Nat.lt_succ_self _
  | stops hs _ =>
    simp only [remaining, finished, hs]
    exact Nat.succ_pos _
  | leaves hs _ hl =>
    obtain ⟨-, rfl⟩ := Engine.leave_next hl
    have := hroom hs
    simp only [remaining, hs, Engine.advance]
    omega
  | ends hs _ _ =>
    have := hroom hs
    simp only [remaining, finished, hs]
    omega

/-- A task whose run is not over can go on. -/
theorem Sound.exists_goes (h : t.Sound engine id) (ht : t.progress.status.isTerminal = false) :
    ∃ t', t.Goes engine t' := by
  cases h with
  | ready hs _ => exact ⟨_, .begins default hs⟩
  | @due start step w hs _ =>
    cases he : (engine start).enter t.graph t.cancelFrom step w with
    | ok s => exact ⟨_, .enters hs he⟩
    | error ending => exact ⟨_, .stops hs he⟩
  | @visiting start step s w hs _ _ =>
    cases hl : (engine start).leave step s ((engine start).visit t.graph step s w.context) w with
    | next next w' => exact ⟨_, .leaves hs Engine.visit_admits hl⟩
    | stop ending w' => exact ⟨_, .ends hs Engine.visit_admits hl⟩
  | done _ hp _ hx =>
    rw [hp] at ht
    cases ht.symm.trans hx

/-- Two tasks that only differ in whether they are cancelled, and not even in this before their
runs are over. -/
inductive Alike : Task → Task → Prop
  | refl (t : Task) : Alike t t
  | done {t : Task} (c : Bool) : t.stage = .done → Alike t { t with cancelled := c }

namespace Alike

theorem symm (h : t.Alike t') : t'.Alike t := by
  cases h with
  | refl => exact .refl _
  | done c hs => exact .done (t := { t with cancelled := c }) t.cancelled hs

theorem progress_eq (h : t.Alike t') : t'.progress = t.progress := by
  cases h <;> rfl

theorem cancel (h : t.Alike t') : Alike { t with cancelled := true } { t' with cancelled := true } := by
  cases h <;> exact .refl _

theorem goes {u : Task} (h : t.Alike t') (hg : t.Goes engine u) : t'.Goes engine u := by
  cases h with
  | refl => exact hg
  | done c hs => exact absurd hg (not_goes_of_done hs)

end Alike
end Task

namespace Action

/-- The status that a caller has observed of a run. -/
def observed? (id : Identifier) : Action → Option RunStatus
  | .status k (.ok st) => if k = id then some st else none
  | _ => none

/-- Whether the task of a run goes on. -/
def isStepOf (id : Identifier) : Action → Bool
  | .goes k => k == id
  | _ => false

theorem eq_of_asks {id k : Identifier} {a : Action} {x : ServiceFault} (h : a.Asks id)
    (hm : a ∈ refusals k x) : k = id := by
  cases h <;> simp [refusals] at hm <;> exact hm.1.symm

theorem observed?_eq_some {id : Identifier} {a : Action} {st : RunStatus} :
    a.observed? id = some st ↔ a = .status id (.ok st) := by
  unfold observed?
  split
  · simp only [Option.ite_none_right_eq_some, Option.some.injEq, status.injEq, Except.ok.injEq]
  · rename_i h
    simpa using fun ha => h id st ha

end Action

namespace Hub

variable {f f' f'' g g' : Hub} {id : Identifier} {t t' : Task} {a : Action} {as bs : List Action}
  {x y : Execution} {st st' : RunStatus}

/-! ## Hubs that go on alike -/

/-- Two hubs that only differ in which of the runs that are over are cancelled. -/
structure Alike (f g : Hub) : Prop where
  registry : g.registry = f.registry
  config : g.config = f.config
  tasks : ∀ id, Option.Rel Task.Alike (f.tasks id) (g.tasks id)
  tracked : g.tracked = f.tracked
  waiting : g.waiting = f.waiting

namespace Alike

theorem symm (h : f.Alike g) : g.Alike f where
  registry := h.registry.symm
  config := h.config.symm
  tasks id := by
    have := h.tasks id
    cases hf : f.tasks id <;> cases hg : g.tasks id <;> rw [hf, hg] at this <;> cases this
    · exact .none
    · exact .some (Task.Alike.symm ‹_›)
  tracked := h.tracked.symm
  waiting := h.waiting.symm

theorem task (h : f.Alike g) (ht : f.tasks id = some t) :
    ∃ t', g.tasks id = some t' ∧ t.Alike t' := by
  have hr := h.tasks id
  rw [ht] at hr
  cases hg : g.tasks id <;> rw [hg] at hr <;> cases hr
  exact ⟨_, rfl, ‹_›⟩

theorem find (h : f.Alike g) (ht : f.find id = .ok t) : ∃ t', g.find id = .ok t' ∧ t.Alike t' := by
  obtain ⟨hm, ht⟩ := find_eq_ok.1 ht
  obtain ⟨t', ht', ha⟩ := h.task ht
  exact ⟨t', find_eq_ok.2 ⟨h.tracked ▸ hm, ht'⟩, ha⟩

theorem find_eq_error (h : f.Alike g) {x : ServiceFault} (hx : f.find id = .error x) :
    g.find id = .error x := by
  cases hg : g.find id with
  | ok t' =>
    obtain ⟨t, ht, -⟩ := h.symm.find hg
    cases ht.symm.trans hx
  | error y => rw [Hub.find_eq_error hg, Hub.find_eq_error hx]

theorem put (h : f.Alike g) (ha : t.Alike t') : (f.put id t).Alike (g.put id t') where
  registry := h.registry
  config := h.config
  tasks k := by
    by_cases hk : k = id
    · subst hk
      rw [tasks_put_self, tasks_put_self]
      exact .some ha
    · rw [tasks_put_of_ne hk, tasks_put_of_ne hk]
      exact h.tasks k
  tracked := h.tracked
  waiting := h.waiting

theorem refl (f : Hub) : f.Alike f where
  registry := rfl
  config := rfl
  tasks id := by
    cases f.tasks id with
    | none => exact .none
    | some t => exact .some (.refl t)
  tracked := rfl
  waiting := rfl

/-- **Hubs that are alike** can do the same, and are alike again. -/
theorem step (h : f.Alike g) (hs : Step f a f') : ∃ g', Step g a g' ∧ f'.Alike g' := by
  have haccept (p : ProcedureGraph) : g.accept p = f.accept p := by
    unfold accept
    rw [h.registry]
  have hengine (id : Identifier) : g.engine id = f.engine id := by
    unfold engine
    rw [h.registry, h.config]
  cases hs with
  | @submit p overrides id hn ha =>
    have hn' : g.tasks id = none := by
      have hr := h.tasks id
      rw [hn] at hr
      cases hg : g.tasks id with
      | none => rfl
      | some _ =>
        rw [hg] at hr
        cases hr
    refine ⟨_, .submit hn' ((haccept p).trans ha), ?_⟩
    exact { h.put (.refl _) with tracked := congrArg (id :: ·) h.tracked }
  | reject hx => exact ⟨g, .reject ((haccept _).trans hx), h⟩
  | cancel ht =>
    obtain ⟨t', ht', ha⟩ := h.find ht
    exact ⟨_, .cancel ht', h.put ha.cancel⟩
  | status ht =>
    obtain ⟨t', ht', ha⟩ := h.find ht
    exact ⟨g, ha.progress_eq ▸ .status ht', h⟩
  | @wait id _ ht =>
    obtain ⟨t', ht', -⟩ := h.find ht
    exact ⟨_, .wait ht', { h with waiting := congrArg (id :: ·) h.waiting }⟩
  | @returns id _ _ hw ht hx =>
    obtain ⟨t', ht', ha⟩ := h.task ht
    refine ⟨_, .returns (h.waiting ▸ hw) ht' (ha.progress_eq ▸ hx), ?_⟩
    exact { h with waiting := congrArg (·.erase id) h.waiting }
  | @forget id _ ht hx =>
    obtain ⟨t', ht', ha⟩ := h.find ht
    refine ⟨_, .forget ht' (ha.progress_eq ▸ hx), ?_⟩
    exact { h with tracked := congrArg (List.filter (· != id)) h.tracked }
  | keep ht hx =>
    obtain ⟨t', ht', ha⟩ := h.find ht
    exact ⟨g, .keep ht' (ha.progress_eq ▸ hx), h⟩
  | unknown hx hm => exact ⟨g, .unknown (h.find_eq_error hx) hm, h⟩
  | goes ht hg =>
    obtain ⟨t', ht', ha⟩ := h.task ht
    exact ⟨_, .goes ht' (hengine _ ▸ ha.goes hg), h.put (.refl _)⟩

theorem trace (h : f.Alike g) (ht : Trace f as f') : ∃ g', Trace g as g' ∧ f'.Alike g' := by
  induction ht generalizing g with
  | nil => exact ⟨g, .nil, h⟩
  | cons hs _ ih =>
    obtain ⟨g', hs', h'⟩ := h.step hs
    obtain ⟨g'', ht', h''⟩ := ih h'
    exact ⟨g'', .cons hs' ht', h''⟩

end Alike

/-- The callers cannot tell the hubs apart. -/
def SameTraces (f g : Hub) : Prop := ∀ as, (∃ f', Trace f as f') ↔ ∃ g', Trace g as g'

theorem Alike.sameTraces (h : f.Alike g) : f.SameTraces g := by
  refine fun as => ⟨fun ⟨f', ht⟩ => ?_, fun ⟨g', ht⟩ => ?_⟩
  · obtain ⟨g', ht', -⟩ := h.trace ht
    exact ⟨g', ht'⟩
  · obtain ⟨f', ht', -⟩ := h.symm.trace ht
    exact ⟨f', ht'⟩

/-! ## What is called -/

theorem Step.of_asks (ha : a.Asks id) (h : Step f a f') (hm : id ∉ f.tracked) :
    a ∈ Action.refusals id (.notFound id) ∧ f' = f := by
  have hfind {t} (ht : f.find id = .ok t) : False := hm (find_eq_ok.1 ht).1
  cases h with
  | cancel ht | status ht | wait ht | forget ht | keep ht =>
    cases ha
    exact (hfind ht).elim
  | unknown hx hr =>
    obtain rfl := Action.eq_of_asks ha hr
    obtain rfl := find_eq_error hx
    exact ⟨hr, rfl⟩
  | submit | reject | returns | goes => cases ha

theorem Step.of_cancel {r : Except ServiceFault Unit} (h : Step f (.cancel id r) f')
    (ht : f.find id = .ok t) : r = .ok () ∧ f' = f.put id { t with cancelled := true } := by
  generalize ha : Action.cancel id r = a at h
  cases h with
  | cancel hk =>
    cases ha
    cases hk.symm.trans ht
    exact ⟨rfl, rfl⟩
  | unknown hx hm =>
    subst ha
    obtain rfl := Action.eq_of_asks (.cancel r) hm
    cases hx.symm.trans ht
  | _ => cases ha

theorem Step.of_wait {r : Except ServiceFault Unit} (h : Step f (.wait id r) f')
    (ht : f.find id = .ok t) : r = .ok () ∧ f' = { f with waiting := id :: f.waiting } := by
  generalize ha : Action.wait id r = a at h
  cases h with
  | wait hk =>
    cases ha
    exact ⟨rfl, rfl⟩
  | unknown hx hm =>
    subst ha
    obtain rfl := Action.eq_of_asks (.wait r) hm
    cases hx.symm.trans ht
  | _ => cases ha

theorem Step.of_forget {r : Except ServiceFault Unit} (h : Step f (.forget id r) f')
    (ht : f.find id = .ok t) :
    r = .ok () ∧ f' = if t.progress.status.isTerminal then
      { f with tracked := f.tracked.filter (· != id) } else f := by
  generalize ha : Action.forget id r = a at h
  cases h with
  | forget hk hx | keep hk hx =>
    cases ha
    cases hk.symm.trans ht
    exact ⟨rfl, by rw [hx]; rfl⟩
  | unknown hx hm =>
    subst ha
    obtain rfl := Action.eq_of_asks (.forget r) hm
    cases hx.symm.trans ht
  | _ => cases ha

theorem Step.of_status (h : Step f (.status id (.ok st)) f') :
    ∃ t, f.find id = .ok t ∧ t.progress.status = st ∧ f' = f := by
  generalize ha : Action.status id (.ok st) = a at h
  cases h with
  | status ht =>
    cases ha
    exact ⟨_, ht, rfl, rfl⟩
  | unknown _ hm =>
    subst ha
    simp [Action.refusals] at hm
  | _ => cases ha

theorem Step.of_returns (h : Step f (.returns id x) f') :
    ∃ t, f.tasks id = some t ∧ t.progress.execution = some x := by
  generalize ha : Action.returns id x = a at h
  cases h with
  | returns _ ht hx =>
    cases ha
    exact ⟨_, ht, hx⟩
  | unknown _ hm =>
    subst ha
    simp [Action.refusals] at hm
  | _ => cases ha

/-! ## Runs that are over -/

/-- A caller can wait for the run, and whenever one does, it can be told the execution at once. -/
def Answers (f : Hub) (id : Identifier) (x : Execution) : Prop :=
  (∃ f', Step f (.wait id (.ok ())) f') ∧
    ∀ r f', Step f (.wait id r) f' → r = .ok () ∧ ∃ f'', Step f' (.returns id x) f''

/-- A run is over with an execution: from now on this and its status are all that callers are told of
the run, also those that have begun to wait for it. -/
structure Over (f : Hub) (k : Identifier) (x : Execution) : Prop where
  id : x.id = k
  terminal : x.status.isTerminal = true
  observed : ∀ as f', Trace f as f' → ∀ st, .status k (.ok st) ∈ as → st = x.status
  returned : ∀ as f', Trace f as f' → ∀ y, .returns k y ∈ as → y = x
  answers : ∀ as f', Trace f as f' → k ∈ f'.tracked → f'.Answers k x
  returns : ∀ as f', Trace f as f' → k ∈ f'.waiting → ∃ f'', Step f' (.returns k x) f''

/-- The execution of a task is there for ever. -/
theorem Sound.over (hf : f.Sound) (ht : f.tasks id = some t) (hx : t.progress.execution = some x) :
    f.Over id x := by
  obtain ⟨hdone, hst, hid, hterminal⟩ := (hf.tasks id t ht).execution hx
  have hkept {as f'} (h : Trace f as f') : ∃ t', f'.tasks id = some t' ∧ t'.progress = t.progress := by
    obtain ⟨t', ht', hb⟩ := h.exists_task hf ht
    exact ⟨t', ht', hb.execution x hx⟩
  refine ⟨hid, hterminal, fun as f' h st hm => ?_, fun as f' h y hm => ?_, fun as f' h hm => ?_,
    fun as f' h hm => ?_⟩
  · obtain ⟨bs, cs, g, g', -, hb, hs, -⟩ := h.exists_step hm
    obtain ⟨u, hu, rfl, -⟩ := hs.of_status
    obtain ⟨t', ht', hp⟩ := hkept hb
    cases (find_eq_ok.1 hu).2.symm.trans ht'
    rw [hp, hst]
  · obtain ⟨bs, cs, g, g', -, hb, hs, -⟩ := h.exists_step hm
    obtain ⟨u, hu, hy⟩ := hs.of_returns
    obtain ⟨t', ht', hp⟩ := hkept hb
    cases hu.symm.trans ht'
    rw [hp, hx] at hy
    exact (Option.some.inj hy).symm
  · obtain ⟨t', ht', hp⟩ := hkept h
    have hfind := find_eq_ok.2 ⟨hm, ht'⟩
    refine ⟨⟨_, .wait hfind⟩, fun r f'' hw => ?_⟩
    obtain ⟨rfl, rfl⟩ := hw.of_wait hfind
    exact ⟨rfl, _, .returns List.mem_cons_self ht' (hp ▸ hx)⟩
  · obtain ⟨t', ht', hp⟩ := hkept h
    exact ⟨_, .returns hm ht' (hp ▸ hx)⟩

/-! ## Runs that are not over -/

/-- A run goes on: it is over once its task has taken a number of steps, whatever else happens, and
until then its task can take one. -/
def GoesOn (f : Hub) (id : Identifier) : Prop :=
  ∃ n, ∀ as f', Trace f as f' →
    (∃ x, f'.Over id x) ∨ as.countP (Action.isStepOf id) < n ∧ ∃ f'', Step f' (.goes id) f''

theorem Step.remaining_le (h : Step f a f') (hf : f.Sound) (ht : f.tasks id = some t) :
    ∃ t', f'.tasks id = some t' ∧
      t'.remaining f.budget + (if a.isStepOf id then 1 else 0) ≤ t.remaining f.budget := by
  obtain ⟨t', ht', hm⟩ := h.exists_task ht
  refine ⟨t', ht', ?_⟩
  cases hm with
  | stays ha =>
    have hstep : a.isStepOf id = false := by
      cases a <;> simp_all [Action.isStepOf]
    rw [hstep]
    exact Nat.le_refl _
  | cancelled => exact Nat.le_refl _
  | goes hg =>
    rw [Action.isStepOf, beq_self_eq_true, if_pos rfl]
    exact hg.remaining_lt (hf.tasks id t ht) fun _ => rfl

theorem Trace.remaining_le (h : Trace f as f') (hf : f.Sound) (ht : f.tasks id = some t) :
    ∃ t', f'.tasks id = some t' ∧
      t'.remaining f.budget + as.countP (Action.isStepOf id) ≤ t.remaining f.budget := by
  induction h generalizing t with
  | nil => exact ⟨t, ht, by simp⟩
  | cons hs _ ih =>
    obtain ⟨u, hu, hle⟩ := hs.remaining_le hf ht
    obtain ⟨t', ht', hle'⟩ := ih (hs.sound hf) hu
    rw [hs.budget_eq] at hle'
    refine ⟨t', ht', ?_⟩
    rw [List.countP_cons]
    omega

theorem Sound.over_or_goes (hf : f.Sound) (ht : f.tasks id = some t) :
    (∃ x, f.Over id x) ∨ 0 < t.remaining f.budget ∧ ∃ f', Step f (.goes id) f' := by
  have hs := hf.tasks id t ht
  cases hst : t.progress.status.isTerminal with
  | true =>
    obtain ⟨x, hx⟩ := hs.exists_execution hst
    exact .inl ⟨x, hf.over ht hx⟩
  | false =>
    obtain ⟨t', hg⟩ := hs.exists_goes hst
    exact .inr ⟨Nat.zero_lt_of_lt (hg.remaining_lt hs fun _ => rfl), _, .goes ht hg⟩

theorem Sound.goesOn (hf : f.Sound) (ht : f.tasks id = some t) : f.GoesOn id := by
  refine ⟨t.remaining f.budget, fun as f' h => ?_⟩
  obtain ⟨t', ht', hle⟩ := h.remaining_le hf ht
  rcases (h.sound hf).over_or_goes ht' with hover | ⟨hpos, hstep⟩
  · exact .inl hover
  · rw [h.budget_eq] at hpos
    exact .inr ⟨by omega, hstep⟩

/-! ## At every moment -/

/-- What the callers of a hub can rely on. -/
structure Orderly (f : Hub) : Prop where
  /-- A status is only followed by those that may come later. -/
  forward : ∀ id st, Step f (.status id (.ok st)) f → ∀ as f', Trace f as f' →
    ∀ st', .status id (.ok st') ∈ as → st.MayBecome st'
  /-- A run with a terminal status is over. -/
  terminal : ∀ id st, Step f (.status id (.ok st)) f → st.isTerminal = true →
    ∃ x, f.Over id x ∧ x.status = st
  /-- A run whose execution is told is over. -/
  returned : ∀ id x f', Step f (.returns id x) f' → f.Over id x
  /-- To cancel a run that is over changes nothing. -/
  cancelled : ∀ id st, Step f (.status id (.ok st)) f → st.isTerminal = true →
    (∃ f', Step f (.cancel id (.ok ())) f') ∧
      ∀ r f', Step f (.cancel id r) f' → r = .ok () ∧ f.SameTraces f'
  /-- A run is forgotten just if it is over, and this changes nothing for the other runs. -/
  forgotten : ∀ id st, Step f (.status id (.ok st)) f →
    (∃ f', Step f (.forget id (.ok ())) f') ∧
      ∀ r f', Step f (.forget id r) f' → r = .ok () ∧
        (id ∈ f'.tracked ↔ st.isTerminal = false) ∧
          (∀ k ≠ id, k ∈ f'.tracked ↔ k ∈ f.tracked) ∧ f' = { f with tracked := f'.tracked }
  /-- A run goes on to its end. -/
  goesOn : ∀ id st, Step f (.status id (.ok st)) f → f.GoesOn id
  /-- A run that is not tracked is not found, and to ask for it changes nothing. -/
  unknown : ∀ id, id ∉ f.tracked → ∀ a, a.Asks id →
    (∀ f', Step f a f' → a ∈ Action.refusals id (.notFound id) ∧ f' = f) ∧
      (a ∈ Action.refusals id (.notFound id) → Step f a f)

/-- **At every moment** the callers can rely on this. -/
theorem Sound.orderly (hf : f.Sound) : f.Orderly where
  forward id st h as f' ht st' hm := by
    obtain ⟨t, hk, rfl, -⟩ := h.of_status
    obtain ⟨bs, cs, g, g', -, hb, hs, -⟩ := ht.exists_step hm
    obtain ⟨u, hu, rfl, -⟩ := hs.of_status
    obtain ⟨t', ht', hbefore⟩ := hb.exists_task hf (find_eq_ok.1 hk).2
    cases (find_eq_ok.1 hu).2.symm.trans ht'
    exact hbefore.status
  terminal id st h hst := by
    obtain ⟨t, hk, rfl, -⟩ := h.of_status
    have ht := (find_eq_ok.1 hk).2
    obtain ⟨x, hx⟩ := (hf.tasks id t ht).exists_execution hst
    exact ⟨x, hf.over ht hx, ((hf.tasks id t ht).execution hx).2.1.symm⟩
  returned id x f' h := by
    obtain ⟨t, ht, hx⟩ := h.of_returns
    exact hf.over ht hx
  cancelled id st h hst := by
    obtain ⟨t, hk, rfl, -⟩ := h.of_status
    refine ⟨⟨_, .cancel hk⟩, fun r f' hs => ?_⟩
    obtain ⟨rfl, rfl⟩ := hs.of_cancel hk
    have ht := (find_eq_ok.1 hk).2
    obtain ⟨x, hx⟩ := (hf.tasks id t ht).exists_execution hst
    have hdone := ((hf.tasks id t ht).execution hx).1
    have halike : (f.put id t).Alike (f.put id { t with cancelled := true }) :=
      (Alike.refl f).put (.done true hdone)
    rw [put_eq_self ht] at halike
    exact ⟨rfl, halike.sameTraces⟩
  forgotten id st h := by
    obtain ⟨t, hk, rfl, -⟩ := h.of_status
    have hm := (find_eq_ok.1 hk).1
    refine ⟨?_, fun r f' hs => ?_⟩
    · cases hst : t.progress.status.isTerminal with
      | true => exact ⟨_, .forget hk hst⟩
      | false => exact ⟨_, .keep hk hst⟩
    obtain ⟨rfl, hf'⟩ := hs.of_forget hk
    refine ⟨rfl, ?_⟩
    rw [hf']
    cases t.progress.status.isTerminal <;> simp +contextual [hm]
  goesOn id st h := by
    obtain ⟨t, hk, -⟩ := h.of_status
    exact hf.goesOn (find_eq_ok.1 hk).2
  unknown id hm a ha :=
    ⟨fun f' h => h.of_asks ha hm, fun hr => .unknown (find_of_not_mem hm) hr⟩

/-- The statuses that callers observe of a run come in order. -/
theorem Trace.observed_pairwise (h : Trace f as f') (hf : f.Sound) (id : Identifier) :
    (as.filterMap (Action.observed? id)).Pairwise RunStatus.MayBecome := by
  induction h with
  | nil => exact .nil
  | @cons f g f' a as hs ht ih =>
    rw [List.filterMap_cons]
    cases ha : a.observed? id with
    | none => exact ih (hs.sound hf)
    | some st =>
      obtain rfl := Action.observed?_eq_some.1 ha
      refine List.pairwise_cons.2 ⟨fun st' hm => ?_, ih (hs.sound hf)⟩
      obtain ⟨b, hb, hst⟩ := List.mem_filterMap.1 hm
      obtain rfl := Action.observed?_eq_some.1 hst
      obtain ⟨-, -, -, rfl⟩ := hs.of_status
      exact hf.orderly.forward id st hs _ _ ht st' hb

end Hub

/-- **The runs of a service are orderly.** Whatever calls are made and however the runs in the
background go on in between, the statuses that callers observe of a run only go forward, and at every
moment the callers can rely on this: from a terminal status on, each wait for the run is answered at
once with one and the same execution, and to cancel the run changes nothing; a run is forgotten just
if it is over, and goes on to its end otherwise; a run that is not tracked is not found. What callers
see of the service on its clock is among this. -/
theorem Service.runs_stay_orderly (registry : Registry) (config : Config) (origin : Instant) :
    (∀ os, Service.Mirrored { registry, config }
      (Service.performs { registry, config, origin } os).1
      (Service.performs { registry, config, origin } os).2) ∧
      ∀ as f, Hub.Trace { registry, config } as f →
        (∀ id, (as.filterMap (Action.observed? id)).Pairwise RunStatus.MayBecome) ∧ f.Orderly := by
  refine ⟨Service.performs_mirrored registry config origin, fun as f h => ?_⟩
  have hsound := Hub.Sound.new registry config
  exact ⟨h.observed_pairwise hsound, (h.sound hsound).orderly⟩

end Runbook

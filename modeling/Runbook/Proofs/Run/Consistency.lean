import Runbook.Proofs.Run.Scheduling
import Runbook.Proofs.Text.ByteOrder

/-!
# The parts of the state agree

A run keeps the visited steps, the log and, in its context, the results, the statuses, the history
and the namespaces of the devices. `Context.Reflects` says what the context tells of some visits:
it has the results and statuses of the steps that were visited and of no others, each from the last
visit. One visit keeps this (`Context.Reflects.merge`), so it holds at every moment that a run may
reach. The main statement (`Engine.run_state_agrees`) joins it with what the log and the visited
steps tell of the same visits (`Agrees`).
-/

namespace Runbook

/-- The devices that a definition declares anywhere. -/
def ProcedureDefinition.allDevices (p : ProcedureDefinition) : List String :=
  p.devices ++ p.steps.flatMap fun s => s.devices.getD []

/-- The devices of a declared step are declared. -/
theorem ProcedureGraph.mem_allDevices {g : ProcedureGraph} {id d : String} {s : StepDefinition}
    (h : (id, s) ∈ g.definition.identified) (hd : d ∈ g.devicesFor s) :
    d ∈ g.definition.allDevices := by
  unfold devicesFor at hd
  cases hs : s.devices with
  | none => exact List.mem_append_left _ (by simpa [hs] using hd)
  | some ds =>
    rw [hs] at hd
    exact List.mem_append_right _ (List.mem_flatMap.2 ⟨s, (List.of_mem_zip h).2, by rwa [hs]⟩)

/-! ## What the log says -/

/-- The last of some records that a step left for a target. -/
def lastRecord? (log : List StepRecord) (step : String) (device : Option String) :
    Option StepRecord := (log.filter fun r => r.step = step ∧ r.device = device).getLast?

/-- The last of some visits of a step. -/
def lastVisit? (visits : List LoggedVisit) (step : String) : Option LoggedVisit :=
  (visits.filter fun v => v.step = step).getLast?

/-- The status that a visit gives to its step: any failure makes it failed. -/
def LoggedVisit.status (v : LoggedVisit) : Status := .aggregate (v.records.map (·.result.status))

theorem lastRecord?_append {log records : List StepRecord} {step : String}
    {device : Option String} :
    lastRecord? (log ++ records) step device =
      (lastRecord? records step device).or (lastRecord? log step device) := by
  simp [lastRecord?]

theorem lastVisit?_append {visits : List LoggedVisit} {v : LoggedVisit} {step : String} :
    lastVisit? (visits ++ [v]) step =
      if v.step = step then some v else lastVisit? visits step := by
  by_cases h : v.step = step <;> simp [lastVisit?, h]

namespace Engine.Admits

variable {e : Engine} {g : ProcedureGraph} {id id' : String} {s : StepDefinition} {c : Context}
  {v : StepVisit} {device : Option String}

theorem lastRecord?_records (h : Admits e g id s c v) (hs : (id, s) ∈ g.definition.identified)
    (hd : device ∈ g.targets s) :
    lastRecord? (v.records id) id device = some ((e.settled id s c device).record id) := by
  have hf : ((v.records id).filter fun r => r.step = id ∧ r.device = device) =
      (v.records id).filter fun r => r.device = device :=
    List.filter_congr fun r hr => by
      obtain ⟨i, -, rfl⟩ := List.mem_map.1 hr
      exact decide_eq_decide.2 (and_iff_right rfl)
  rw [lastRecord?, hf, h.records_filter hs hd]
  rfl

theorem lastRecord?_records_of_ne (h : id' ≠ id) :
    lastRecord? (v.records id) id' device = none := by
  rw [lastRecord?, List.getLast?_eq_none_iff, List.filter_eq_nil_iff]
  intro r hr
  obtain ⟨i, -, rfl⟩ := List.mem_map.1 hr
  simp [Invocation.record, Ne.symm h]

end Engine.Admits

/-! ## What the context says -/

/-- The context says of the visits of a run what the log says of them. -/
structure Context.Reflects (c : Context) (g : ProcedureGraph) (visits : List LoggedVisit) :
    Prop where
  history : c.history.map (·.step) = visits.map (·.step)
  resultSteps : c.stepResults.HasKeys (visits.map (·.step))
  resultTargets : ∀ {id s rs}, g.step? id = some s → Table.get? id c.stepResults = some rs →
    rs.HasKeys ((g.targets s).map (·.getD noDevice))
  results : ∀ {id s d}, g.step? id = some s → d ∈ g.targets s →
    c.resultFor? id d = (lastRecord? (visits.flatMap (·.records)) id d).map (·.result)
  statusSteps : c.stepStatus.HasKeys (visits.map (·.step))
  statuses : ∀ id, Table.get? id c.stepStatus = (lastVisit? visits id).map (·.status)
  devices : c.devices.HasKeys g.definition.allDevices

/-! ## One visit -/

namespace Context

variable {c : Context} {step : String} {ks : List String} {f : Option String → Invocation}
  {ds : List (Option String)}

theorem hasKeys_stepResults_commits (h : c.stepResults.HasKeys ks) (hds : ds ≠ []) :
    (commits step f ds c).stepResults.HasKeys (step :: ks) := by
  induction ds generalizing c ks with
  | nil => exact absurd rfl hds
  | cons d ds ih =>
    have hc : (c.commit step (f d)).stepResults.HasKeys (step :: ks) := by
      rw [stepResults_commit]
      exact h.insert step _
    rw [commits_cons]
    cases ds with
    | nil => exact hc
    | cons d' ds => exact (ih hc (List.cons_ne_nil _ _)).congr fun k => by simp

/-- The results of a step after a visit are those before, with those of its targets over them. -/
theorem get?_stepResults_commits (hf : ∀ d, (f d).device = d) :
    (Table.get? step (commits step f ds c).stepResults).getD [] =
      ds.foldl (fun t d => Table.insert (d.getD noDevice) (f d).result t)
        ((Table.get? step c.stepResults).getD []) := by
  induction ds generalizing c with
  | nil => rfl
  | cons d ds ih =>
    rw [commits_cons, ih, stepResults_commit, hf, List.foldl_cons]
    simp only [recordResult, Table.get?_insert_self, Option.getD_some]

theorem hasKeys_devices_commit {i : Invocation} (h : c.devices.HasKeys ks)
    (hd : ∀ d, i.device = some d → d ∈ ks) : (c.commit step i).devices.HasKeys ks := by
  unfold commit
  cases hi : i.device with
  | none =>
    dsimp only
    split <;> exact h
  | some d => exact h.insert_mem (hd d hi) _

theorem hasKeys_devices_commits (hf : ∀ d, (f d).device = d) (h : c.devices.HasKeys ks)
    (hd : ∀ d, some d ∈ ds → d ∈ ks) : (commits step f ds c).devices.HasKeys ks := by
  induction ds generalizing c with
  | nil => exact h
  | cons d ds ih =>
    rw [commits_cons]
    refine ih (hasKeys_devices_commit h fun d' he => ?_) fun d' hm => ?_
    · exact hd d' (List.mem_cons.2 (.inl ((hf d).symm.trans he).symm))
    · exact hd d' (List.mem_cons_of_mem _ hm)

end Context

/-- **A run starts** with a context that tells of no visits. -/
theorem ProcedureGraph.initialContext_reflects (g : ProcedureGraph) (overrides : Fields) :
    (g.initialContext overrides).Reflects g [] := by
  rw [g.initialContext_eq]
  refine ⟨rfl, .nil, nofun, fun _ _ => rfl, .nil, fun _ => rfl, ?_, fun d => ?_⟩
  · exact Table.sorted_nil.withDevices
  · rw [Table.mem_keys_iff, Table.get?_withDevices, ← ProcedureDefinition.allDevices]
    by_cases hd : d ∈ g.definition.allDevices <;> simp [hd, Table.get?]

namespace Context.Reflects

open Engine

variable {e : Engine} {g : ProcedureGraph} {id : String} {s : StepDefinition} {c : Context}
  {v : StepVisit} {visits : List LoggedVisit}

/-- The results of the step that is visited have the keys of its targets. -/
theorem hasKeys_commits (h : c.Reflects g visits) (hs : g.step? id = some s) {rs : Table StepResult}
    (hr : Table.get? id (commits id (e.settled id s c) (g.order s) c).stepResults = some rs) :
    rs.HasKeys ((g.targets s).map (·.getD noDevice)) := by
  have hrs : (Table.get? id (commits id (e.settled id s c) (g.order s) c).stepResults).getD [] =
      (g.order s).foldl
        (fun t d => Table.insert (d.getD noDevice) (e.settled id s c d).result t)
        ((Table.get? id c.stepResults).getD []) := get?_stepResults_commits fun _ => rfl
  rw [hr, Option.getD_some] at hrs
  have horder : ∀ k, k ∈ (g.order s).map (·.getD noDevice) ↔
      k ∈ (g.targets s).map (·.getD noDevice) :=
    fun _ => (ProcedureGraph.order_perm.map _).mem_iff
  cases hc : Table.get? id c.stepResults with
  | none =>
    rw [hc, Option.getD_none] at hrs
    rw [hrs]
    refine (Table.HasKeys.nil.foldl_insert _ _ _).congr fun k => ?_
    rw [List.append_nil, horder]
  | some before =>
    rw [hc, Option.getD_some] at hrs
    rw [hrs]
    refine ((h.resultTargets hs hc).foldl_insert _ _ _).congr fun k => ?_
    rw [List.mem_append, horder, or_self]

/-- **One visit** is reflected, if the visits before it are. -/
theorem merge (h : c.Reflects g visits) (hs : g.step? id = some s)
    (hv : Admits e g id s c v) (began : Nat) :
    (e.merge id began v c).Reflects g (visits ++ [.mk id (v.records id)]) := by
  have hm := step?_mem hs
  have hkeys : ∀ k, k ∈ id :: visits.map (·.step) ↔
      k ∈ (visits ++ [LoggedVisit.mk id (v.records id)]).map (·.step) := fun k => by simp [or_comm]
  have hstatus : v.status = (LoggedVisit.mk id (v.records id)).status := by
    simp [LoggedVisit.status, hv.status_eq, hv.records_eq, Function.comp_def, Invocation.record]
  constructor
  case history => simp [hv.history_merge, h.history]
  case resultSteps =>
    rw [hv.merge_eq]
    exact (hasKeys_stepResults_commits h.resultSteps ProcedureGraph.order_ne_nil).congr hkeys
  -- Of the results, only those of the step that is visited are others than before.
  case resultTargets =>
    intro id' s' rs hs' hr
    by_cases hid : id' = id
    · subst hid
      obtain rfl : s = s' := Option.some.inj (hs.symm.trans hs')
      rw [hv.merge_eq] at hr
      exact h.hasKeys_commits hs hr
    · rw [hv.get?_stepResults_merge_of_ne hid] at hr
      exact h.resultTargets hs' hr
  case results =>
    intro id' s' d hs' hd
    rw [List.flatMap_append, List.flatMap_singleton, lastRecord?_append]
    by_cases hid : id' = id
    · subst hid
      obtain rfl : s = s' := Option.some.inj (hs.symm.trans hs')
      rw [hv.resultFor?_merge hm hd, hv.lastRecord?_records hm hd]
      rfl
    · rw [Admits.lastRecord?_records_of_ne hid, Option.none_or, ← h.results hs' hd, resultFor?,
        hv.get?_stepResults_merge_of_ne hid, resultFor?]
  case statusSteps =>
    rw [hv.stepStatus_merge]
    exact (h.statusSteps.insert id _).congr hkeys
  case statuses =>
    intro id'
    rw [hv.stepStatus_merge, Table.get?_insert, lastVisit?_append, h.statuses, hstatus]
    split <;> rfl
  case devices =>
    rw [hv.merge_eq]
    refine hasKeys_devices_commits (fun _ => rfl) h.devices fun d hd => ?_
    exact ProcedureGraph.mem_allDevices hm
      (ProcedureGraph.some_mem_targets.1 (ProcedureGraph.mem_order.1 hd))

end Context.Reflects

/-! ## Whole runs -/

namespace LoggedVisit

/-- A visit left one record for each of some targets, in the order of the bytes of their devices. -/
structure Covers (v : LoggedVisit) (targets : List (Option String)) : Prop where
  steps : ∀ r ∈ v.records, r.step = v.step
  targets : (v.records.map (·.device)).Perm targets
  sorted : v.records.Pairwise fun a b =>
    ∀ x ∈ a.device, ∀ y ∈ b.device, Text.bytes x < Text.bytes y

theorem covers_of_isVisit {g : ProcedureGraph} {v : LoggedVisit} (h : g.IsVisit v) :
    ∃ s, g.step? v.step = some s ∧ v.Covers (g.targets s) := by
  obtain ⟨s, hs, hr⟩ := h
  have hdevices : v.records.map (·.device) = g.order s := by
    simpa [Function.comp_def] using congrArg (List.map Prod.snd) hr
  refine ⟨s, hs, fun r hm => ?_, hdevices ▸ ProcedureGraph.order_perm, ?_⟩
  · have hp := List.mem_map_of_mem (f := fun r : StepRecord => (r.step, r.device)) hm
    rw [hr] at hp
    obtain ⟨d, -, hd⟩ := List.mem_map.1 hp
    exact (congrArg Prod.fst hd).symm
  · have hlt : (g.order s).Pairwise fun a b => targetNotAfter a b ∧ a ≠ b :=
      ProcedureGraph.order_pairwise.and (ProcedureGraph.order_nodup (Engine.step?_mem hs))
    rw [← hdevices, List.pairwise_map] at hlt
    refine hlt.imp fun hab x hx y hy => ?_
    rw [Option.mem_def.1 hx, Option.mem_def.1 hy, targetNotAfter_some] at hab
    exact Text.bytes_lt_iff.2 (Std.lt_of_le_of_ne hab.1 fun he => hab.2 (congrArg some he))

end LoggedVisit

/-- No step of an execution is cut short: its log is that of its visits, and each of these left a
record for each target of its step. -/
structure Execution.Whole (x : Execution) (g : ProcedureGraph) : Prop where
  steps : (x.visits g).map (·.step) = x.visited
  records : (x.visits g).flatMap (·.records) = x.log
  covers : ∀ v ∈ x.visits g, ∃ s, g.step? v.step = some s ∧ v.Covers (g.targets s)

/-- The parts of the state of a run, the visited steps, the log and the context, agree with each
other. -/
structure Agrees (g : ProcedureGraph) (visited : List String) (log : List StepRecord) (c : Context)
    (visits : List LoggedVisit) : Prop extends c.Reflects g visits where
  visited : visits.map (·.step) = visited
  log : visits.flatMap (·.records) = log
  covers : ∀ v ∈ visits, ∃ s, g.step? v.step = some s ∧ v.Covers (g.targets s)
  noError : ∀ step, Table.get? step c.stepStatus ≠ some .error

namespace Engine

variable {e : Engine} {g : ProcedureGraph} {overrides : Fields} {cancelFrom : Option Nat}
  {id next : String} {s : StepDefinition} {a : Walk} {c : Context} {visits : List LoggedVisit}

theorem Followed.agrees (h : Followed e g a visits) (hc : a.context.Reflects g visits) :
    Agrees g a.visited a.log a.context visits where
  toReflects := hc
  visited := h.steps
  log := h.records
  covers v hv := LoggedVisit.covers_of_isVisit (h.areVisits v hv)
  noError step he := by
    rw [hc.statuses] at he
    obtain ⟨v, -, hv⟩ := Option.map_eq_some_iff.1 he
    unfold LoggedVisit.status Status.aggregate at hv
    split at hv <;> cases hv

/-- A visit with any schedule leaves the records of the one that the engine makes. -/
theorem Admits.logged_eq {v : StepVisit} (h : Admits e g id s c v) :
    e.logged g id s c = ⟨id, v.records id⟩ := by
  rw [logged, h.records_eq, visit_admits.records_eq]

theorem Admits.leadsTo {v : StepVisit} (h : Admits e g id s c v) (hs : g.step? id = some s)
    (he : s.edge? v.status = some next) : g.LeadsTo ⟨id, v.records id⟩ next := by
  have hstatus : v.status = (e.visit g id s c).status := by
    rw [h.status_eq, visit_admits.status_eq]
  rw [← h.logged_eq]
  exact (edge?_eq_some_iff hs).1 (hstatus ▸ he)

theorem Followed.advance_of_admits {v : StepVisit} (h : Followed e g a visits)
    (hd : g.Due visits id) (hs : Enters e g cancelFrom id a s) (hv : Admits e g id s a.context v) :
    Followed e g (e.advance id v a) (visits ++ [⟨id, v.records id⟩]) := by
  have hf := h.advance hd hs
  have hrecords : (e.visit g id s a.context).records id = v.records id :=
    congrArg LoggedVisit.records hv.logged_eq
  have hlog : (e.advance id (e.visit g id s a.context) a).log = (e.advance id v a).log := by
    rw [Engine.advance, Engine.advance, hrecords]
  rw [hv.logged_eq] at hf
  exact ⟨hf.steps, hf.records.trans hlog, hf.areVisits, hf.entry, hf.chain, hf.within⟩

/-- **Every moment that a run may reach** is reflected. -/
theorem MayReach.reflects (h : MayReach e g overrides cancelFrom id a) :
    ∃ visits, Followed e g a visits ∧ g.Due visits id ∧ a.context.Reflects g visits := by
  induction h with
  | start => exact ⟨[], .start, rfl, g.initialContext_reflects overrides⟩
  | next _ ht ih =>
    obtain ⟨visits, hf, hd, hc⟩ := ih
    obtain ⟨s, v, hs, hv, he, rfl⟩ := ht.next_cases
    refine ⟨_, hf.advance_of_admits hd hs hv, ?_, hc.merge hs.step hv _⟩
    simpa [ProcedureGraph.Due] using hv.leadsTo hs.step he

/-- So is the end of a run. -/
theorem Schedules.reflects {x : Execution} (h : Schedules e g overrides cancelFrom x) :
    ∃ ending b visits, x = e.report g ending b ∧ Followed e g b visits ∧
      b.context.Reflects g visits := by
  obtain ⟨id, a, ending, b, hr, hx, ht⟩ := h.stops
  obtain ⟨visits, hf, hd, hc⟩ := hr.reflects
  rcases ht.stop_cases with ⟨-, rfl⟩ | ⟨s, v, hs, hv, -, -, rfl⟩
  · exact ⟨ending, b, visits, hx, hf, hc⟩
  · exact ⟨ending, _, _, hx, hf.advance_of_admits hd hs hv, hc.merge hs.step hv _⟩

theorem Schedules.whole {x : Execution} (h : Schedules e g overrides cancelFrom x) : x.Whole g := by
  obtain ⟨ending, b, visits, rfl, hf, -⟩ := h.reflects
  have hv : (e.report g ending b).visits g = visits := hf.visits_eq
  refine ⟨hv ▸ hf.steps, hv ▸ hf.records, fun v hm => ?_⟩
  exact LoggedVisit.covers_of_isVisit (hf.areVisits v (hv ▸ hm))

/-- **The parts of the state agree** with each other whenever a step is due in a run, and at its
end. -/
theorem run_state_agrees (e : Engine) (g : ProcedureGraph) (overrides : Fields)
    (cancelFrom : Option Nat) :
    (∀ id a, MayReach e g overrides cancelFrom id a →
        ∃ visits, Agrees g a.visited a.log a.context visits) ∧
      Schedules e g overrides cancelFrom (e.run g overrides cancelFrom).execution ∧
      ∀ x, Schedules e g overrides cancelFrom x →
        ∃ visits, Agrees g x.visited x.log x.context visits := by
  refine ⟨?_, run_scheduled _ _ _ _, ?_⟩
  · intro id a h
    obtain ⟨visits, hf, -, hc⟩ := h.reflects
    exact ⟨visits, hf.agrees hc⟩
  · intro x h
    obtain ⟨ending, b, visits, rfl, hf, hc⟩ := h.reflects
    exact ⟨visits, hf.agrees hc⟩

end Engine
end Runbook

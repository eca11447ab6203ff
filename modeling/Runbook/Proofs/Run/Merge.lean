import Runbook.Proofs.Run.Visit
import Runbook.Proofs.Table

/-!
# Merging invocations

`Context.commit` writes what one invocation came to: its result under the step, and the namespace of
its device or the globals. The lemmas say what it does to each part of the context. From them follow
the namespace (`Admits.device?_merge`) and the result (`Admits.resultFor?_merge`) that a target has
once all invocations of a visit are merged. What a handler wrote to its namespace before it came to
an error, a draft, is not merged (`Engine.merge_withDrafts`).
-/

namespace Runbook

theorem Status.bne_error_iff {s : Status} : (s != .error) = true ↔ s ≠ .error := by
  cases s <;> decide

namespace Context

variable {c : Context} {d d' step other : String} {vars : Fields} {i : Invocation}

@[simp] theorem device?_setDevice :
    (c.setDevice d vars).device? d' = if d = d' then some vars else c.device? d' :=
  Table.get?_insert

@[simp] theorem device?_recordResult {device : Option String} {r : StepResult} :
    (c.recordResult step device r).device? d = c.device? d := rfl

/-! ## One invocation -/

/-- The namespace that a device has once an invocation for it is merged. -/
def committedVars (c : Context) (step d : String) (i : Invocation) : Fields :=
  Table.insert step i.result.summary
    (if i.result.status = .error then (c.device? d).getD [] else i.vars)

theorem device?_commit_self (h : i.device = some d) :
    (c.commit step i).device? d = some (c.committedVars step d i) := by
  by_cases hs : i.result.status = .error <;>
    simp [commit, h, hs, committedVars, Status.bne_error_iff]

theorem device?_commit_ne (h : i.device ≠ some d) :
    (c.commit step i).device? d = c.device? d := by
  unfold commit
  cases hd : i.device with
  | none => dsimp only; split <;> rfl
  | some d' =>
    have hne : d' ≠ d := fun he => h (by rw [hd, he])
    simp [hne]

theorem resultFor?_recordResult {device device' : Option String} {r : StepResult} :
    (c.recordResult step device r).resultFor? step device' =
      if device.getD noDevice = device'.getD noDevice then some r
      else c.resultFor? step device' := by
  simp only [recordResult, resultFor?, Table.get?_insert_self, Option.bind_some, Table.get?_insert]
  split
  · rfl
  · cases Table.get? step c.stepResults <;> rfl

theorem resultFor?_commit {device : Option String} :
    (c.commit step i).resultFor? step device =
      if i.device.getD noDevice = device.getD noDevice then some i.result
      else c.resultFor? step device := by
  rw [commit, resultFor?_recordResult]
  congr 1
  cases i.device with
  | none => dsimp only; split <;> rfl
  | some d => rfl

/-- Apart from globals and devices, an invocation changes the results of its step alone. -/
theorem commit_eq (c : Context) (step : String) (i : Invocation) :
    ∃ globals devices, c.commit step i =
      { c with globals, devices }.recordResult step i.device i.result := by
  unfold commit
  cases i.device with
  | none =>
    dsimp only
    split
    · exact ⟨i.vars, c.devices, rfl⟩
    · exact ⟨c.globals, c.devices, rfl⟩
  | some d => exact ⟨c.globals, _, rfl⟩

theorem stepResults_commit :
    (c.commit step i).stepResults = (c.recordResult step i.device i.result).stepResults := by
  obtain ⟨_, _, h⟩ := commit_eq c step i
  rw [h]
  rfl

theorem stepStatus_commit : (c.commit step i).stepStatus = c.stepStatus := by
  obtain ⟨_, _, h⟩ := commit_eq c step i
  rw [h]
  rfl

theorem history_commit : (c.commit step i).history = c.history := by
  obtain ⟨_, _, h⟩ := commit_eq c step i
  rw [h]
  rfl

theorem globals_commit_some (h : i.device = some d) : (c.commit step i).globals = c.globals := by
  simp [commit, h, recordResult, setDevice]

theorem globals_commit_none (h : i.device = none) :
    (c.commit step i).globals = if i.result.status = .error then c.globals else i.vars := by
  by_cases hs : i.result.status = .error <;>
    simp [commit, h, hs, recordResult, Status.bne_error_iff]

/-! ## All invocations of a visit -/

/-- The context with the invocations of several targets merged. -/
def commits (step : String) (f : Option String → Invocation) (ds : List (Option String))
    (c : Context) : Context := ds.foldl (fun c d => c.commit step (f d)) c

variable {f : Option String → Invocation} {ds : List (Option String)}

theorem commits_cons (d : Option String) :
    commits step f (d :: ds) c = commits step f ds (c.commit step (f d)) := rfl

theorem device?_commits_of_not_mem (hf : ∀ d, (f d).device = d) (h : some d ∉ ds) :
    (commits step f ds c).device? d = c.device? d := by
  induction ds generalizing c with
  | nil => rfl
  | cons d' ds ih =>
    obtain ⟨hne, hm⟩ := List.ne_and_not_mem_of_not_mem_cons h
    rw [commits_cons, ih hm, device?_commit_ne (by rw [hf]; exact Ne.symm hne)]

/-- **The namespace of a device** after a visit is the one that its own invocation leaves. -/
theorem device?_commits (hf : ∀ d, (f d).device = d) (hn : ds.Nodup) (h : some d ∈ ds) :
    (commits step f ds c).device? d = some (c.committedVars step d (f (some d))) := by
  induction ds generalizing c with
  | nil => cases h
  | cons d' ds ih =>
    obtain ⟨hd, hn⟩ := List.nodup_cons.1 hn
    rw [commits_cons]
    rcases List.mem_cons.1 h with rfl | hm
    · rw [device?_commits_of_not_mem hf hd, device?_commit_self (hf _)]
    · have hne : d' ≠ some d := fun he => hd (he ▸ hm)
      rw [ih hn hm, committedVars, committedVars, device?_commit_ne (by rw [hf]; exact hne)]

theorem resultFor?_commits_of_ne {device : Option String} (hf : ∀ d, (f d).device = d)
    (h : ∀ d ∈ ds, d.getD noDevice ≠ device.getD noDevice) :
    (commits step f ds c).resultFor? step device = c.resultFor? step device := by
  induction ds generalizing c with
  | nil => rfl
  | cons d ds ih =>
    rw [commits_cons, ih fun d' hd' => h d' (List.mem_cons_of_mem _ hd'),
      resultFor?_commit, hf, if_neg (h d List.mem_cons_self)]

/-- **The result of a target** after a visit is the one of its own invocation. -/
theorem resultFor?_commits {device : Option String} (hf : ∀ d, (f d).device = d)
    (hn : (ds.map (·.getD noDevice)).Nodup) (h : device ∈ ds) :
    (commits step f ds c).resultFor? step device = some (f device).result := by
  induction ds generalizing c with
  | nil => cases h
  | cons d ds ih =>
    obtain ⟨hd, hn⟩ := List.nodup_cons.1 hn
    rw [commits_cons]
    rcases List.mem_cons.1 h with rfl | hm
    · rw [resultFor?_commits_of_ne hf fun d' hm he => hd (List.mem_map.2 ⟨d', hm, he⟩),
        resultFor?_commit, hf, if_pos rfl]
    · exact ih hn hm

theorem stepStatus_commits : (commits step f ds c).stepStatus = c.stepStatus := by
  induction ds generalizing c with
  | nil => rfl
  | cons d ds ih => rw [commits_cons, ih, stepStatus_commit]

theorem history_commits : (commits step f ds c).history = c.history := by
  induction ds generalizing c with
  | nil => rfl
  | cons d ds ih => rw [commits_cons, ih, history_commit]

/-- Invocations for devices leave the globals alone. -/
theorem globals_commits (hf : ∀ d, (f d).device = d) (h : none ∉ ds) :
    (commits step f ds c).globals = c.globals := by
  induction ds generalizing c with
  | nil => rfl
  | cons d ds ih =>
    obtain ⟨hd, hds⟩ := List.ne_and_not_mem_of_not_mem_cons h
    obtain ⟨d, rfl⟩ := Option.ne_none_iff_exists'.1 (Ne.symm hd)
    rw [commits_cons, ih hds, globals_commit_some (hf _)]

/-- The results of other steps stay. -/
theorem get?_stepResults_commits_of_ne (h : other ≠ step) :
    Table.get? other (commits step f ds c).stepResults = Table.get? other c.stepResults := by
  induction ds generalizing c with
  | nil => rfl
  | cons d ds ih =>
    rw [commits_cons, ih, stepResults_commit]
    simp only [recordResult, Table.get?_insert, if_neg (Ne.symm h)]

end Context

/-! ## Drafts -/

/-- The invocation with what its handler wrote to its namespace before it came to an error. -/
def Invocation.withDraft (drafts : Option String → Fields → Fields) (i : Invocation) : Invocation :=
  if i.result.status = .error then { i with vars := drafts i.device i.vars } else i

/-- The visit with such drafts of all its invocations that came to an error. -/
def StepVisit.withDrafts (drafts : Option String → Fields → Fields) (v : StepVisit) : StepVisit :=
  { v with ended := v.ended.map (Invocation.withDraft drafts) }

section Drafts

variable {drafts : Option String → Fields → Fields} {i : Invocation} {v : StepVisit} {c : Context}
  {id : String}

theorem Invocation.withDraft_device : (i.withDraft drafts).device = i.device := by
  unfold withDraft
  split <;> rfl

theorem Invocation.withDraft_result : (i.withDraft drafts).result = i.result := by
  unfold withDraft
  split <;> rfl

/-- A draft is not committed. -/
theorem Context.commit_withDraft : c.commit id (i.withDraft drafts) = c.commit id i := by
  unfold Invocation.withDraft
  split
  · rename_i hs
    have hb : (Status.error != Status.error) = false := rfl
    simp [commit, hs, hb]
  · rfl

theorem StepVisit.merged_withDrafts :
    (v.withDrafts drafts).merged = v.merged.map (Invocation.withDraft drafts) := by
  refine (List.map_mergeSort (s := fun i j : Invocation => targetNotAfter i.device j.device)
    fun i _ j _ => ?_).symm
  rw [Invocation.withDraft_device, Invocation.withDraft_device]

theorem StepVisit.records_withDrafts : (v.withDrafts drafts).records id = v.records id := by
  rw [StepVisit.records, StepVisit.merged_withDrafts, List.map_map]
  refine List.map_congr_left fun i _ => ?_
  rw [Function.comp_apply, Invocation.record, Invocation.withDraft_device,
    Invocation.withDraft_result]
  rfl

/-- **Drafts count for nothing**: they are not merged. -/
theorem Engine.merge_withDrafts (e : Engine) (began : Nat) :
    e.merge id began (v.withDrafts drafts) c = e.merge id began v c := by
  have hcommits : (v.withDrafts drafts).merged.foldl (Context.commit id) c =
      v.merged.foldl (Context.commit id) c := by
    simp only [StepVisit.merged_withDrafts, List.foldl_map, Context.commit_withDraft]
  have hstatus : (v.withDrafts drafts).status = v.status := by
    simp [StepVisit.status, StepVisit.merged_withDrafts, Function.comp_def,
      Invocation.withDraft_result]
  rw [merge, merge, hcommits, hstatus]
  rfl

end Drafts

/-- The targets of a step have distinct keys in its results. -/
theorem ProcedureGraph.targets_keys_nodup {g : ProcedureGraph} {id : String} {s : StepDefinition}
    (h : (id, s) ∈ g.definition.identified) :
    ((g.targets s).map (·.getD Context.noDevice)).Nodup := by
  have hn := devicesFor_nodup h
  unfold targets
  split
  · simp
  · simpa [Function.comp_def] using hn

namespace Engine.Admits

variable {e : Engine} {g : ProcedureGraph} {id d : String} {s : StepDefinition} {c : Context}
  {v : StepVisit} {began : Nat}

theorem merge_eq (h : Admits e g id s c v) (began : Nat) : e.merge id began v c =
    (((Context.commits id (e.settled id s c) (g.order s) c).setStatus id v.status).pushVisit
      { step := id
        started := e.startedAt.addMillis began
        finished := e.startedAt.addMillis (began + v.elapsed) }) := by
  rw [merge, h.commits_eq, Context.commits]

theorem device?_merge (h : Admits e g id s c v) (hs : (id, s) ∈ g.definition.identified)
    (hd : some d ∈ g.targets s) :
    (e.merge id began v c).device? d = some (c.committedVars id d (e.settled id s c (some d))) := by
  rw [h.merge_eq]
  exact Context.device?_commits (fun _ => rfl) (ProcedureGraph.order_nodup hs)
    (ProcedureGraph.mem_order.2 hd)

theorem resultFor?_merge {device : Option String} (h : Admits e g id s c v)
    (hs : (id, s) ∈ g.definition.identified) (hd : device ∈ g.targets s) :
    (e.merge id began v c).resultFor? id device = some (e.settled id s c device).result := by
  rw [h.merge_eq]
  exact Context.resultFor?_commits (fun _ => rfl)
    ((ProcedureGraph.order_perm.map _).nodup_iff.2 (ProcedureGraph.targets_keys_nodup hs))
    (ProcedureGraph.mem_order.2 hd)

/-! ## What a visit leaves alone -/

theorem device?_merge_of_not_mem (h : Admits e g id s c v) (hd : d ∉ g.devicesFor s) :
    (e.merge id began v c).device? d = c.device? d := by
  rw [h.merge_eq]
  refine Context.device?_commits_of_not_mem (fun _ => rfl) fun hm => hd ?_
  exact ProcedureGraph.some_mem_targets.1 (ProcedureGraph.mem_order.1 hm)

theorem globals_merge (h : Admits e g id s c v) (hd : g.devicesFor s ≠ []) :
    (e.merge id began v c).globals = c.globals := by
  rw [h.merge_eq]
  refine Context.globals_commits (fun _ => rfl) fun hm => hd ?_
  exact ProcedureGraph.none_mem_targets.1 (ProcedureGraph.mem_order.1 hm)

/-- The globals after a visit without a device are those that its only invocation leaves. -/
theorem globals_merge_deviceless (h : Admits e g id s c v) (hd : g.devicesFor s = []) :
    (e.merge id began v c).globals =
      if (e.settled id s c none).result.status = .error then c.globals
      else (e.settled id s c none).vars := by
  have ho : g.order s = [none] := by
    have ht : g.targets s = [none] := by rw [ProcedureGraph.targets, hd]
    exact List.perm_singleton.1 (ht ▸ ProcedureGraph.order_perm)
  rw [h.merge_eq, ho]
  change (c.commit id (e.settled id s c none)).globals = _
  rw [Context.globals_commit_none rfl]

theorem get?_stepResults_merge_of_ne (h : Admits e g id s c v) {other : String}
    (ho : other ≠ id) :
    Table.get? other (e.merge id began v c).stepResults = Table.get? other c.stepResults := by
  rw [h.merge_eq]
  exact Context.get?_stepResults_commits_of_ne ho

theorem stepStatus_merge (h : Admits e g id s c v) :
    (e.merge id began v c).stepStatus = Table.insert id v.status c.stepStatus := by
  rw [h.merge_eq]
  exact congrArg _ Context.stepStatus_commits

theorem history_merge (h : Admits e g id s c v) :
    (e.merge id began v c).history = c.history ++
      [{ step := id
         started := e.startedAt.addMillis began
         finished := e.startedAt.addMillis (began + v.elapsed) }] := by
  rw [h.merge_eq]
  exact congrArg (· ++ _) Context.history_commits

/-! ## The log -/

/-- The log has one record for each target of a visit. -/
theorem records_filter {device : Option String} (h : Admits e g id s c v)
    (hs : (id, s) ∈ g.definition.identified) (hd : device ∈ g.targets s) :
    (v.records id).filter (fun r => r.device = device) =
      [(e.settled id s c device).record id] := by
  have ho : (g.order s).filter (fun d => d = device) = [device] := by
    rw [List.filter_eq, List.count_eq_one_of_mem (ProcedureGraph.order_nodup hs)
      (ProcedureGraph.mem_order.2 hd)]
    rfl
  rw [h.records_eq, List.filter_map]
  exact congrArg _ ho

end Engine.Admits
end Runbook

import Runbook.Proofs.Run.Consistency
import Runbook.Proofs.Run.Fault
import Runbook.Proofs.Run.Isolation

/-!
# Commit and rollback

What a visit writes. It changes the namespaces of its devices, or the globals when it runs a script
without a device, and beside them only what is kept under its own step (`Engine.Frame`,
`visit_keeps_frame`). Of each invocation it takes over either all or nothing: after an error the
namespace is the one before the visit, else the one that the handler left
(`visit_commits_or_rolls_back`). In both statements the handlers may have written anything before
they came to an error (`StepVisit.withDrafts`).
-/

namespace Runbook

/-- The namespace that an invocation for a target writes to: the one of the device, else the
globals. -/
def Context.vars? (c : Context) : Option String → Option Fields
  | some d => c.device? d
  | none => some c.globals

/-- The namespace of a target with the summary of a result, which devices have under the step. -/
def Fields.noting (vars : Fields) (step : String) (r : StepResult) : Option String → Fields
  | some _ => Table.insert step r.summary vars
  | none => vars

namespace Engine

variable {e : Engine} {g : ProcedureGraph} {overrides : Fields} {cancelFrom : Option Nat}
  {id : String} {s : StepDefinition} {scope : Scope} {c : Context} {a : Walk} {v : StepVisit}
  {w : World} {d : Option String}

/-! ## What a visit leaves alone -/

/-- What a visit of the step `id` changes at most: the namespaces of its devices, or the globals
when it is a script without a device, its own results and its own status, and the history by one
visit of it. -/
structure Frame (g : ProcedureGraph) (id : String) (s : StepDefinition) (c c' : Context) :
    Prop where
  devices : ∀ d, d ∉ g.devicesFor s → c'.device? d = c.device? d
  globals : g.devicesFor s ≠ [] ∨ s.stepType ≠ "code" → c'.globals = c.globals
  results : ∀ other, other ≠ id →
    Table.get? other c'.stepResults = Table.get? other c.stepResults
  statuses : ∀ other, other ≠ id → Table.get? other c'.stepStatus = Table.get? other c.stepStatus
  history : ∃ visit : Visit, visit.step = id ∧ c'.history = c.history ++ [visit]

/-- Only a script leaves other globals than it was given. -/
theorem settled_vars (he : e.registry = .ofWorld w) (hs : s.stepType ≠ "code") :
    (e.settled id s c none).vars = c.globals := by
  change Invocation.varsOf c.globals (e.invoke s (e.scopeFor id c none)) = c.globals
  unfold Invocation.varsOf
  split
  · rename_i ho
    obtain ⟨-, hvars⟩ := invoke_yields he _ ho
    exact hvars hs
  · rfl

/-- **A visit changes only what its scope allows**, whatever its templates, scripts, answers and
faults are. -/
theorem visit_keeps_frame (he : e.registry = .ofWorld w) (hv : Admits e g id s c v)
    (drafts : Option String → Fields → Fields) (began : Nat) :
    Frame g id s c (e.merge id began (v.withDrafts drafts) c) := by
  rw [merge_withDrafts]
  refine ⟨fun d hd => hv.device?_merge_of_not_mem hd, fun hg => ?_,
    fun other ho => hv.get?_stepResults_merge_of_ne ho, fun other ho => ?_, ?_⟩
  · by_cases hd : g.devicesFor s = []
    · have hs : s.stepType ≠ "code" := hg.resolve_left fun hn => hn hd
      rw [hv.globals_merge_deviceless hd, settled_vars he hs, ite_self]
    · exact hv.globals_merge hd
  · rw [hv.stepStatus_merge, Table.get?_insert, if_neg (Ne.symm ho)]
  · exact ⟨_, rfl, hv.history_merge⟩

/-- A context in which two devices have a namespace. -/
def twoDevices : Context :=
  { devices := [("a", [("up", .bool false)]), ("b", [("up", .bool true)])] }

theorem visit_keeps_frame_of_other_device :
    (calmEngine.merge "probe" 0
      ((calmEngine.visit probeOne "probe" probe twoDevices).withDrafts fun _ _ => [])
      twoDevices).device? "b" = some [("up", .bool true)] := by
  have hv : Admits calmEngine probeOne "probe" probe twoDevices
      (calmEngine.visit probeOne "probe" probe twoDevices) := visit_admits
  have hframe := visit_keeps_frame (w := worldOfOthers ⟨0, .value { output := "up" }⟩) rfl hv
    (fun _ _ => []) 0
  exact hframe.devices "b" (by decide)

/-! ## What a visit writes -/

/-- What an invocation yields is what its handler comes to, with the namespace as it left it. -/
theorem invoke_value {q : StepResult} {vars : Fields}
    (h : (e.invoke s scope).outcome = .value (q, vars)) :
    ∃ handler params, Calls e s scope handler params ∧
      (handler.run params scope).outcome = .value (q, vars) := by
  rcases invoke_cases e s scope with ⟨handler, params, hc⟩ | ⟨-, hi⟩ | ⟨_, _, -, -, hi⟩
  · rw [hc.invoke_eq, Timeline.within] at h
    split at h
    · exact ⟨handler, params, hc, h⟩
    · cases h
  · rw [hi] at h
    cases h
  · rw [hi] at h
    cases h

/-- An invocation that comes to no error yields its result. -/
theorem settled_of_ne_error (h : (e.settled id s c d).result.status ≠ .error) :
    ∃ q, (e.invoke s (e.scopeFor id c d)).outcome = .value (q, (e.settled id s c d).vars) ∧
      ∃ ms, (e.settled id s c d).result = q.withDuration ms := by
  generalize ht : e.invoke s (e.scopeFor id c d) = t
  have hresult : (e.settled id s c d).result = (Invocation.resultOf t).withDuration t.elapsed := by
    rw [← ht]
    rfl
  have hvars : (e.settled id s c d).vars = Invocation.varsOf (e.scopeFor id c d).vars t := by
    rw [← ht]
    rfl
  rw [hresult] at h ⊢
  rw [hvars]
  unfold Invocation.resultOf at h ⊢
  unfold Invocation.varsOf
  cases ho : t.outcome with
  | value x => exact ⟨x.1, rfl, t.elapsed, rfl⟩
  | fault f => exact absurd (by rw [ho]; rfl) h
  | panic m => exact absurd (by rw [ho]; rfl) h

/-- The namespace of a target after a visit: the one before it if its invocation came to an error,
else the one that the invocation left. -/
theorem Admits.vars?_merge {before : Fields} (h : Admits e g id s c v) (began : Nat)
    (hs : g.step? id = some s) (hd : d ∈ g.targets s) (hb : c.vars? d = some before) :
    let i := e.settled id s c d
    (e.merge id began v c).vars? d =
      some ((if i.result.status = .error then before else i.vars).noting id i.result d) := by
  intro i
  cases d with
  | some d =>
    have hb : c.device? d = some before := hb
    change (e.merge id began v c).device? d = _
    rw [h.device?_merge (step?_mem hs) hd, Context.committedVars, hb]
    rfl
  | none =>
    obtain rfl : c.globals = before := Option.some.inj hb
    exact congrArg some (h.globals_merge_deviceless (ProcedureGraph.none_mem_targets.1 hd))

/-- Every target of a step has a namespace whenever the step is due. -/
theorem MayReach.vars?_isSome (h : MayReach e g overrides cancelFrom id a)
    (hs : (id, s) ∈ g.definition.identified) (hd : d ∈ g.targets s) :
    ∃ before, a.context.vars? d = some before := by
  cases d with
  | none => exact ⟨_, rfl⟩
  | some d =>
    obtain ⟨visits, -, -, hc⟩ := h.reflects
    have hm := ProcedureGraph.mem_allDevices hs (ProcedureGraph.some_mem_targets.1 hd)
    exact Option.isSome_iff_exists.1 (Table.mem_keys_iff.1 ((hc.devices.mem d).2 hm))

/-- **An invocation commits or rolls back.** After an error, whatever it is and whatever the handler
wrote before it, the namespace of the target is the one from before the visit; after a success or a
failure it is the one that the handler left. A device has the summary of the result on top in both
cases. -/
theorem visit_commits_or_rolls_back (hr : MayReach e g overrides cancelFrom id a)
    (hs : g.step? id = some s) (hv : Admits e g id s a.context v)
    (drafts : Option String → Fields → Fields) (hd : d ∈ g.targets s) :
    let visit := v.withDrafts drafts
    let scope := e.scopeFor id a.context d
    let after := (e.advance id visit a).context
    ∃ r before,
      (visit.records id).filter (fun r => r.device = d) = [⟨id, d, r⟩] ∧
      a.context.vars? d = some before ∧
      ((∃ q, Fails e s scope q) ↔ r.status = .error) ∧
      (r.status = .error → after.vars? d = some (before.noting id r d)) ∧
      (r.status ≠ .error → ∃ handler params q vars, Calls e s scope handler params ∧
        (handler.run params scope).outcome = .value (q, vars) ∧
        (∃ ms, r = q.withDuration ms) ∧
        after.vars? d = some (vars.noting id r d)) := by
  intro visit scope after
  have hm := step?_mem hs
  obtain ⟨before, hbefore⟩ := hr.vars?_isSome hm hd
  have hrecords : visit.records id = v.records id := StepVisit.records_withDrafts
  have hafter : after = e.merge id a.elapsed v a.context := merge_withDrafts e a.elapsed
  have hmerge := hv.vars?_merge a.elapsed hs hd hbefore
  rw [← hafter] at hmerge
  refine ⟨(e.settled id s a.context d).result, before, ?_, hbefore, exists_fails_iff.symm, ?_, ?_⟩
  · rw [hrecords, hv.records_filter hm hd]
    rfl
  · intro herror
    rw [hmerge, if_pos herror]
  · intro hkept
    obtain ⟨q, ho, hq⟩ := settled_of_ne_error hkept
    obtain ⟨handler, params, hc, hrun⟩ := invoke_value ho
    refine ⟨handler, params, q, _, hc, hrun, hq, ?_⟩
    rw [hmerge, if_neg hkept]

theorem visit_rolls_back_after_panic :
    let a : Walk := { context := probeBoth.initialContext [] }
    let v := brokenEngine.visit probeBoth "probe" probe a.context
    let after := brokenEngine.advance "probe" (v.withDrafts fun _ _ => [("up", .bool true)]) a
    ∃ r : StepResult, r.status = .error ∧
      after.context.device? "b" = some [("probe", r.summary)] := by
  intro a v after
  have hreach : MayReach brokenEngine probeBoth [] none "probe" a := .start
  have hs : probeBoth.step? "probe" = some probe := rfl
  have hd : some "b" ∈ probeBoth.targets probe := by decide
  have hstatus : (Invocation.resultOf (brokenEngine.invoke probe
      (brokenEngine.scopeFor "probe" a.context (some "b")))).status = .error := by decide +kernel
  obtain ⟨r, before, -, hbefore, hfails, hback, -⟩ :=
    visit_commits_or_rolls_back hreach hs visit_admits (fun _ _ => [("up", .bool true)]) hd
  obtain rfl : [] = before := Option.some.inj hbefore
  have herror := hfails.1 (exists_fails_iff.1 hstatus)
  exact ⟨r, herror, hback herror⟩

end Engine
end Runbook

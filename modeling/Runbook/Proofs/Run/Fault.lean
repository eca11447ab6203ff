import Runbook.Proofs.Handler.Answers
import Runbook.Proofs.Handler.Values
import Runbook.Proofs.Run.Scheduling

/-!
# Faults become records

An invocation comes to an error exactly when something keeps it from its work: its type of step is
unknown, a template does not resolve, the handler gives up, breaks down or takes too long
(`Engine.Fails`, `fails_iff`). Each of these is the result of this invocation and of no other: a
visit has one record for each of its targets, whatever becomes of them (`Engine.Logs`,
`Admits.logs`). The main statement is that no fault does more than that
(`Engine.faults_become_records`): a visit with an error goes on like one with a failure, and only a
budget that is used up gives a run up.
-/

namespace Runbook

namespace Engine

variable {e : Engine} {g : ProcedureGraph} {overrides : Fields} {cancelFrom : Option Nat}
  {id : String} {s : StepDefinition} {scope : Scope} {c : Context} {a : Walk} {v : StepVisit}
  {r : StepResult} {w : World}

/-- The invocation gets as far as its handler `h`, with the parameters `p`. -/
structure Calls (e : Engine) (s : StepDefinition) (scope : Scope) (h : Handler) (p : Json) :
    Prop where
  handler : e.registry.resolve s.stepType = .ok h
  params : Template.resolveParams (.obj s.params) scope h.raw = .ok p

/-- What keeps an invocation from its work, by the result that it comes to. -/
inductive Fails (e : Engine) (s : StepDefinition) (scope : Scope) : StepResult → Prop
  /-- There is no handler for the type of the step. -/
  | unknownType : e.registry.has s.stepType = false →
      Fails e s scope (StepFault.unknownStepType s.stepType).result
  /-- A template among the parameters does not resolve. -/
  | unresolved {h : Handler} {f : StepFault} : e.registry.resolve s.stepType = .ok h →
      Template.resolveParams (.obj s.params) scope h.raw = .error f → Fails e s scope f.result
  /-- The handler gives up with a fault. -/
  | faulted {h : Handler} {p : Json} {f : StepFault} : Calls e s scope h p →
      (h.run p scope).elapsed ≤ e.timeout s * 1000 → (h.run p scope).outcome = .fault f →
      Fails e s scope f.result
  /-- The handler comes to an end and reports an error. -/
  | reported {h : Handler} {p : Json} {r : StepResult} {vars : Fields} : Calls e s scope h p →
      (h.run p scope).elapsed ≤ e.timeout s * 1000 → (h.run p scope).outcome = .value (r, vars) →
      r.status = .error → Fails e s scope r
  /-- The handler breaks down. -/
  | panicked {h : Handler} {p : Json} {m : String} : Calls e s scope h p →
      (h.run p scope).elapsed ≤ e.timeout s * 1000 → (h.run p scope).outcome = .panic m →
      Fails e s scope (StepFault.panic m).result
  /-- The handler takes longer than the step allows. -/
  | outlasted {h : Handler} {p : Json} : Calls e s scope h p →
      e.timeout s * 1000 < (h.run p scope).elapsed →
      Fails e s scope (StepFault.timeout (e.timeout s)).result

theorem Calls.invoke_eq {h : Handler} {p : Json} (hc : Calls e s scope h p) :
    e.invoke s scope =
      (h.run p scope).within (e.timeout s * 1000) (.fault (.timeout (e.timeout s))) := by
  rw [invoke, hc.handler, Timeline.ofExcept_ok_bind, hc.params, Timeline.ofExcept_ok_bind]

/-- An invocation gets as far as a handler, or it has no handler, or no parameters for it. -/
theorem invoke_cases (e : Engine) (s : StepDefinition) (scope : Scope) :
    (∃ h p, Calls e s scope h p) ∨
      (e.registry.has s.stepType = false ∧
        e.invoke s scope = .fail (.unknownStepType s.stepType)) ∨
      ∃ h f, e.registry.resolve s.stepType = .ok h ∧
        Template.resolveParams (.obj s.params) scope h.raw = .error f ∧
        e.invoke s scope = .fail f := by
  cases hh : e.registry.resolve s.stepType with
  | error f =>
    obtain ⟨hn, rfl⟩ := Registry.resolve_eq_error.1 hh
    refine .inr (.inl ⟨hn, ?_⟩)
    rw [invoke, hh, Timeline.ofExcept_error_bind]
  | ok h =>
    cases hp : Template.resolveParams (.obj s.params) scope h.raw with
    | error f =>
      refine .inr (.inr ⟨h, f, rfl, hp, ?_⟩)
      rw [invoke, hh, Timeline.ofExcept_ok_bind, hp, Timeline.ofExcept_error_bind]
    | ok p => exact .inl ⟨h, p, hh, hp⟩

theorem Fails.status (h : Fails e s scope r) : r.status = .error := by
  cases h with
  | reported _ _ _ hr => exact hr
  | _ => rfl

/-- **An invocation comes to an error** exactly when something keeps it from its work, and this is
what its result tells. -/
theorem fails_iff :
    Fails e s scope r ↔ r = Invocation.resultOf (e.invoke s scope) ∧ r.status = .error := by
  constructor
  · intro h
    refine ⟨?_, h.status⟩
    cases h with
    | unknownType hr =>
      rw [invoke, Registry.resolve_eq_error.2 ⟨hr, rfl⟩]
      rfl
    | unresolved hr hp =>
      rw [invoke, hr, Timeline.ofExcept_ok_bind, hp]
      rfl
    | faulted hc hl ho | reported hc hl ho | panicked hc hl ho =>
      rw [hc.invoke_eq, Timeline.within, if_pos hl, Invocation.resultOf, ho]
    | outlasted hc hl =>
      rw [hc.invoke_eq, Timeline.within, if_neg (by omega)]
      rfl
  · rintro ⟨rfl, hr⟩
    rcases invoke_cases e s scope with ⟨h, p, hc⟩ | ⟨hn, hi⟩ | ⟨h, f, hh, hp, hi⟩
    · rw [hc.invoke_eq, Timeline.within] at hr ⊢
      split at hr
      · rename_i hl
        rw [if_pos hl]
        unfold Invocation.resultOf at hr ⊢
        cases ho : (h.run p scope).outcome with
        | value x => rw [ho] at hr; exact .reported hc hl ho hr
        | fault f => exact .faulted hc hl ho
        | panic m => exact .panicked hc hl ho
      · rename_i hl
        rw [if_neg hl]
        exact .outlasted hc (by omega)
    · rw [hi]
      exact .unknownType hn
    · rw [hi]
      exact .unresolved hh hp

theorem exists_fails_iff :
    (Invocation.resultOf (e.invoke s scope)).status = .error ↔ ∃ r, Fails e s scope r := by
  refine ⟨fun h => ⟨_, fails_iff.2 ⟨rfl, h⟩⟩, ?_⟩
  rintro ⟨r, h⟩
  obtain ⟨rfl, hr⟩ := fails_iff.1 h
  exact hr

/-! ## The built-in handlers -/

/-- What an invocation of a built-in handler yields is no error, and it leaves the namespace as it
found it unless it ran a script. -/
theorem invoke_yields (he : e.registry = .ofWorld w) :
    (e.invoke s scope).Yields fun x =>
      x.1.status ≠ .error ∧ (s.stepType ≠ "code" → x.2 = scope.vars) := by
  refine (Timeline.yields_ofExcept (P := fun h => h ∈ Handler.builtins w ∧ h.name = s.stepType)
    fun h hh => ?_).bind fun h hh => (Timeline.yields_true _).bind fun p _ => ?_
  · rw [he, Registry.resolve_ofWorld] at hh
    cases hf : (Handler.builtins w).find? (·.name == s.stepType) with
    | none => rw [hf] at hh; cases hh
    | some h' =>
      rw [hf] at hh
      cases hh
      exact ⟨List.mem_of_find?_eq_some hf, by simpa using List.find?_some hf⟩
  · exact (hh.2 ▸ Handler.builtins_yield hh.1).within _ _

/-- With the built-in handlers, every error is a fault: none of them reports one. -/
theorem Fails.exists_fault (he : e.registry = .ofWorld w) (h : Fails e s scope r) :
    ∃ f : StepFault, r = f.result := by
  cases h with
  | @reported _ _ _ vars hc hl ho hr =>
    have hvalue : (e.invoke s scope).outcome = .value (r, vars) := by
      rw [hc.invoke_eq, Timeline.within, if_pos hl, ho]
    obtain ⟨hne, -⟩ := invoke_yields he _ hvalue
    exact absurd hr hne
  | _ => exact ⟨_, rfl⟩

/-! ## The records of a visit -/

/-- What a visit of a step adds to the log: one record for each of its devices, or a single one
without a device when the step declares that it has none. Each tells of its own invocation alone,
and it is an error exactly when something kept this invocation from its work. -/
structure Logs (e : Engine) (g : ProcedureGraph) (id : String) (s : StepDefinition) (c : Context)
    (records : List StepRecord) : Prop where
  steps : ∀ r ∈ records, r.step = id
  devices : ∀ d, (records.map (·.device)).count (some d) = if d ∈ g.devicesFor s then 1 else 0
  deviceless : (records.map (·.device)).count none = if s.devices = some [] then 1 else 0
  own : ∀ r ∈ records,
    let t := e.invoke s (e.scopeFor id c r.device)
    r.result = (Invocation.resultOf t).withDuration t.elapsed
  errors : ∀ r ∈ records,
    r.result.status = .error ↔ ∃ q, Fails e s (e.scopeFor id c r.device) q
  faults : ∀ r ∈ records, ∀ q, Fails e s (e.scopeFor id c r.device) q →
    ∃ ms, r.result = q.withDuration ms
  /-- The built-in handlers report no errors on their own. -/
  builtin : ∀ w, e.registry = .ofWorld w → ∀ r ∈ records, r.result.status = .error →
    ∃ f : StepFault, ∃ ms, r.result = f.result.withDuration ms

namespace Admits

theorem devices_eq (h : Admits e g id s c v) : (v.records id).map (·.device) = g.order s := by
  rw [h.records_eq, List.map_map]
  exact List.map_id _

theorem record_result (h : Admits e g id s c v) {record : StepRecord}
    (hr : record ∈ v.records id) :
    let t := e.invoke s (e.scopeFor id c record.device)
    record.result = (Invocation.resultOf t).withDuration t.elapsed := by
  rw [h.records_eq] at hr
  obtain ⟨d, -, rfl⟩ := List.mem_map.1 hr
  rfl

/-- **A visit** adds one record for each of its targets, and no fault of one of them touches those
of the others. -/
theorem logs (h : Admits e g id s c v) (hs : g.step? id = some s) :
    Logs e g id s c (v.records id) := by
  have hm := step?_mem hs
  have herrors : ∀ r ∈ v.records id,
      r.result.status = .error ↔ ∃ q, Fails e s (e.scopeFor id c r.device) q := by
    intro r hr
    rw [h.record_result hr]
    exact exists_fails_iff
  have hfaults : ∀ r ∈ v.records id, ∀ q, Fails e s (e.scopeFor id c r.device) q →
      ∃ ms, r.result = q.withDuration ms := by
    intro r hr q hq
    obtain ⟨rfl, -⟩ := fails_iff.1 hq
    exact ⟨_, h.record_result hr⟩
  refine ⟨?_, ?_, ?_, fun r hr => h.record_result hr, herrors, hfaults, ?_⟩
  · intro r hr
    obtain ⟨i, -, rfl⟩ := List.mem_map.1 hr
    rfl
  · intro d
    rw [h.devices_eq, (ProcedureGraph.order_nodup hm).count]
    simp only [ProcedureGraph.mem_order, ProcedureGraph.some_mem_targets]
  · rw [h.devices_eq, (ProcedureGraph.order_nodup hm).count]
    simp only [ProcedureGraph.mem_order, ProcedureGraph.none_mem_targets,
      ProcedureGraph.devicesFor_eq_nil_iff hm]
  · intro w he r hr hstatus
    obtain ⟨q, hq⟩ := (herrors r hr).1 hstatus
    obtain ⟨f, rfl⟩ := hq.exists_fault he
    exact ⟨f, hfaults r hr _ hq⟩

end Admits

/-! ## Runs -/

/-- A run that is given up has no budget left for the step that is due. -/
theorem Schedules.exhausted {x : Execution} {reason : String}
    (h : Schedules e g overrides cancelFrom x) (hx : x.error = some reason) :
    ∃ next, e.budget ≤ x.visited.count next ∧
      reason = (RunFault.budgetExceeded next (x.visited.count next + 1) e.budget).message := by
  obtain ⟨id, a, ending, b, hr, rfl, ht⟩ := h.stops
  rcases ht.stop_cases with ⟨hrefused, rfl⟩ | ⟨_, _, -, -, -, rfl, -⟩
  · cases hrefused with
    | cancelled _ => cases hx
    | unknown _ _ hn =>
      obtain ⟨s, hs⟩ := hr.declared
      rw [hs] at hn
      cases hn
    | exhausted _ hb =>
      cases hx
      exact ⟨id, hb, rfl⟩
  · cases hx

/-- Every run comes to a terminal status. -/
theorem Schedules.isTerminal {x : Execution} (h : Schedules e g overrides cancelFrom x) :
    x.status.isTerminal = true := by
  obtain ⟨id, a, ending, b, hr, rfl, ht⟩ := h.stops
  rcases ht.stop_cases with ⟨hrefused, -⟩ | ⟨_, v, -, -, -, rfl, -⟩
  · cases hrefused <;> rfl
  · change (RunStatus.ofStep v.status).isTerminal = true
    cases v.status <;> rfl

end Engine
end Runbook

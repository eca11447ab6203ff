import Runbook.Proofs.Handler.Faults
import Runbook.Proofs.Procedure.Gate
import Runbook.Proofs.Run.Fault

/-!
# Records of steps with handlers

A record in the log of a run is one that a visit of its step makes (`Engine.MayRecord`), whatever path
the run takes, with any schedule and when it is cancelled (`MayReach.mayRecord`,
`Schedules.mayRecord`). If every step of the graph has a handler, such a record says that a type of
step is unknown only if the handler of its step says so itself (`MayRecord.handled`).
-/

namespace Runbook

/-! ## Templates -/

namespace Template

variable {context : Json} {f : StepFault}

theorem lookup_knowsType {expr : String} (h : lookup expr context = .error f) : f.KnowsType := by
  unfold lookup at h
  repeat' split at h
  all_goals cases h
  all_goals rintro _ ⟨⟩

theorem render_knowsType {template : String} (h : render template context = .error f) :
    f.KnowsType := by
  unfold render at h
  repeat' split at h
  all_goals cases h
  all_goals rintro _ ⟨⟩

theorem resolveText_knowsType {s : String} (h : resolveText s context = .error f) : f.KnowsType := by
  unfold resolveText at h
  split at h
  · split at h
    · exact lookup_knowsType h
    · cases hr : render s context with
      | ok _ => rw [hr] at h; cases h
      | error _ =>
        rw [hr] at h
        cases h
        exact render_knowsType hr
  · cases h

mutual
/-- A template that does not resolve says nothing of types of steps. -/
theorem resolve_knowsType : ∀ v : Json, resolve context v = .error f → f.KnowsType
  | .str _, h => resolveText_knowsType h
  | .arr xs, h => by
    rw [resolve] at h
    cases hx : resolveItems context xs with
    | ok _ => rw [hx] at h; cases h
    | error _ =>
      rw [hx] at h
      cases h
      exact resolveItems_knowsType xs hx
  | .obj fs, h => by
    rw [resolve] at h
    cases hx : resolveFields context fs with
    | ok _ => rw [hx] at h; cases h
    | error _ =>
      rw [hx] at h
      cases h
      exact resolveFields_knowsType fs hx
  | .null, h | .bool _, h | .int _, h | .double _, h => by cases h

theorem resolveItems_knowsType : ∀ xs : List Json, resolveItems context xs = .error f → f.KnowsType
  | [], h => by cases h
  | x :: xs, h => by
    rcases bind_eq_error.1 h with h | ⟨_, -, h⟩
    · exact resolve_knowsType x h
    · rcases bind_eq_error.1 h with h | ⟨_, -, h⟩
      · exact resolveItems_knowsType xs h
      · cases h

theorem resolveFields_knowsType :
    ∀ fs : List (String × Json), resolveFields context fs = .error f → f.KnowsType
  | [], h => by cases h
  | (_, x) :: fs, h => by
    rcases bind_eq_error.1 h with h | ⟨_, -, h⟩
    · exact resolve_knowsType x h
    · rcases bind_eq_error.1 h with h | ⟨_, -, h⟩
      · exact resolveFields_knowsType fs h
      · cases h
end

theorem resolveParams_knowsType {params : Json} {scope : Scope} {raw : List String}
    (h : resolveParams params scope raw = .error f) : f.KnowsType := by
  unfold resolveParams at h
  dsimp only at h
  split at h
  · rcases bind_eq_error.1 h with h | ⟨_, -, h⟩
    · obtain ⟨⟨k, v⟩, -, hv⟩ := exists_of_mapM_eq_error h
      dsimp only at hv
      split at hv
      · cases hv
      · rcases bind_eq_error.1 hv with hv | ⟨_, -, hv⟩
        · exact resolve_knowsType v hv
        · cases hv
    · cases h
  · exact resolve_knowsType _ h

end Template

/-! ## Records -/

namespace Engine

variable {e : Engine} {g : ProcedureGraph} {overrides : Fields} {cancelFrom : Option Nat}
  {id : String} {s : StepDefinition} {scope : Scope} {c : Context} {v : StepVisit} {a : Walk}
  {r : StepRecord} {x : Execution}

/-- A visit of its step may leave the record. -/
def MayRecord (e : Engine) (g : ProcedureGraph) (r : StepRecord) : Prop :=
  ∃ s c v, g.step? r.step = some s ∧ e.Admits g r.step s c v ∧ r ∈ v.records r.step

/-- What a visit adds to the log are records that it may leave. -/
theorem mayRecord_advance (ha : ∀ r ∈ a.log, e.MayRecord g r) (hs : g.step? id = some s)
    (hv : e.Admits g id s a.context v) : ∀ r ∈ (e.advance id v a).log, e.MayRecord g r := by
  intro r hr
  rcases List.mem_append.1 hr with hr | hr
  · exact ha r hr
  · obtain rfl : r.step = id := (hv.logs hs).steps r hr
    exact ⟨s, a.context, v, hs, hv, hr⟩

/-- **Whatever path a run takes**, its visits leave the records of its log. -/
theorem MayReach.mayRecord (h : MayReach e g overrides cancelFrom id a) :
    ∀ r ∈ a.log, e.MayRecord g r := by
  induction h with
  | start => nofun
  | next _ ht ih =>
    obtain ⟨s, v, hs, hv, -, rfl⟩ := ht.next_cases
    exact mayRecord_advance ih hs.step hv

theorem Schedules.mayRecord (h : Schedules e g overrides cancelFrom x) :
    ∀ r ∈ x.log, e.MayRecord g r := by
  obtain ⟨id, a, ending, b, hr, rfl, ht⟩ := h.stops
  rcases ht.stop_cases with ⟨-, rfl⟩ | ⟨s, v, hs, hv, -, -, rfl⟩
  · exact hr.mayRecord
  · exact mayRecord_advance hr.mayRecord hs.step hv

/-- An invocation with a handler says that its type of step is unknown only if its handler does. -/
theorem Fails.saysUnknownType {h : Handler} {r : StepResult} (hf : Fails e s scope r)
    (hh : e.registry.resolve s.stepType = .ok h) (hr : r.SaysUnknownType) :
    ∃ params, (Invocation.resultOf (h.run params scope)).SaysUnknownType := by
  cases hf with
  | unknownType hn =>
    rw [Registry.resolve_eq_error.2 ⟨hn, rfl⟩] at hh
    cases hh
  | unresolved _ hp =>
    exact absurd (Template.resolveParams_knowsType hp) (StepFault.saysUnknownType_result.1 hr)
  | @faulted h' p _ hc _ ho | @reported h' p _ _ hc _ ho | @panicked h' p _ hc _ ho =>
    cases hc.handler.symm.trans hh
    refine ⟨p, ?_⟩
    rw [Invocation.resultOf, ho]
    exact hr
  | outlasted =>
    have hk : (StepFault.timeout (e.timeout s)).KnowsType := by rintro _ ⟨⟩
    exact absurd hk (StepFault.saysUnknownType_result.1 hr)

end Engine

/-- The step of a record has a handler, and the record says that a type of step is unknown only if
this handler does so itself. -/
def StepRecord.Handled (registry : Registry) (g : ProcedureGraph) (r : StepRecord) : Prop :=
  ∃ s h, g.step? r.step = some s ∧ registry.resolve s.stepType = .ok h ∧
    (r.result.SaysUnknownType →
      ∃ params scope, (Invocation.resultOf (h.run params scope)).SaysUnknownType)

/-- If no handler says that a type of step is unknown, no record does. -/
theorem StepRecord.Handled.not_saysUnknownType {registry : Registry} {g : ProcedureGraph}
    {r : StepRecord} (h : r.Handled registry g) (hk : registry.KnowsTypes) :
    ¬r.result.SaysUnknownType := by
  intro hr
  obtain ⟨s, h, -, hh, hsays⟩ := h
  obtain ⟨params, scope, hp⟩ := hsays hr
  exact hk s.stepType h hh params scope hp

/-- **The records of a graph** whose steps all have handlers. -/
theorem Engine.MayRecord.handled {e : Engine} {g : ProcedureGraph} {r : StepRecord}
    (h : e.MayRecord g r) (hg : g.handlerViolations e.registry = []) : r.Handled e.registry g := by
  obtain ⟨s, c, v, hs, hv, hr⟩ := h
  obtain ⟨h, hh⟩ := g.resolve_of_served hg (Engine.step?_mem hs)
  refine ⟨s, h, hs, hh, fun hsays => ?_⟩
  rw [hv.record_result hr] at hsays
  obtain ⟨params, hp⟩ := (Engine.fails_iff.2 ⟨rfl, hsays.1⟩).saysUnknownType hh hsays
  exact ⟨params, _, hp⟩

end Runbook

import Runbook.Proofs.Run.Authored
import Runbook.Proofs.Run.Commit
import Runbook.Proofs.Script.Conversion

/-!
# Scripts are all or nothing

A `code` step works on a copy of its context. When its parameters cannot be read, its script is
refused, ends with a fault or leaves something else than a map in `vars` (`Refused`), the step comes
to a fault and the namespace is the one from before. Else the namespace is what the script leaves in
`vars`, and the step has failed exactly when the value of the script is the truth value `false`
(`run_all_or_nothing`). A script always leaves some variable `vars`, its own or the one that it was
given, since it can take none away (`Script.Kept.exists_find?`). Beside its namespace a step changes
only what is kept of it under its own name and target (`Context.SameBeside`).
-/

namespace Runbook

/-! ## The context beside one namespace -/

/-- Apart from the namespace of a target and its result of one step, nothing has changed. -/
structure Context.SameBeside (target : Option String) (step : String) (c c' : Context) : Prop where
  vars : ∀ other, other ≠ target → c'.vars? other = c.vars? other
  results : ∀ other device, other ≠ step ∨ device.getD noDevice ≠ target.getD noDevice →
    c'.resultFor? other device = c.resultFor? other device
  statuses : c'.stepStatus = c.stepStatus
  history : c'.history = c.history

namespace Context

variable {c : Context} {before : Fields}

theorem commit_sameBeside (c : Context) (step : String) (i : Invocation) :
    SameBeside i.device step c (c.commit step i) where
  vars other hother := by
    cases other with
    | some d => exact device?_commit_ne (Ne.symm hother)
    | none =>
      obtain ⟨d, hd⟩ := Option.ne_none_iff_exists'.1 (Ne.symm hother)
      exact congrArg some (globals_commit_some hd)
  results other device h := by
    by_cases hstep : other = step
    · subst hstep
      rw [resultFor?_commit, if_neg (Ne.symm (h.resolve_left fun hne => hne rfl))]
    · rw [resultFor?, stepResults_commit, recordResult, Table.get?_insert,
        if_neg (Ne.symm hstep)]
      rfl
  statuses := stepStatus_commit
  history := history_commit

/-- The namespace of an invocation's target once it is merged. -/
theorem vars?_commit {step : String} {i : Invocation} (hb : c.vars? i.device = some before) :
    (c.commit step i).vars? i.device =
      some ((if i.result.status = .error then before
        else i.vars).noting step i.result i.device) := by
  cases hd : i.device with
  | some d =>
    rw [hd] at hb
    have hb : c.device? d = some before := hb
    change (c.commit step i).device? d = _
    rw [device?_commit_self hd, committedVars, hb]
    rfl
  | none =>
    rw [hd] at hb
    obtain rfl : c.globals = before := Option.some.inj hb
    exact congrArg some (globals_commit_none hd)

/-- What a timeline without errors leaves is committed, be it a namespace or the one from before. -/
theorem vars?_commit_ofTimeline {d : Option String} {t : Timeline (StepResult × Fields)}
    (ht : t.Yields fun x => x.1.status ≠ .error) (hb : c.vars? d = some before) (step : String)
    (start : Nat) :
    let i := Invocation.ofTimeline d before start t
    (c.commit step i).vars? d = some ((Invocation.varsOf before t).noting step i.result d) := by
  intro i
  have hcommit : (c.commit step i).vars? d = some ((if (Invocation.resultOf t).status = .error
      then before else Invocation.varsOf before t).noting step i.result d) := vars?_commit hb
  rw [hcommit]
  congr 2
  refine ite_eq_right_iff.2 fun herror => ?_
  unfold Invocation.resultOf at herror
  unfold Invocation.varsOf
  cases ho : t.outcome with
  | value x =>
    rw [ho] at herror
    exact absurd herror (ht x ho)
  | fault _ | panic _ => rfl

end Context

/-! ## What a script comes to -/

/-- Of all values only the truth value `false` becomes it. -/
theorem Script.Value.toJson_eq_false {v : Value} : v.toJson = .bool false ↔ v = .bool false := by
  cases v with
  | bool b => simp [toJson]
  | float x =>
    rw [toJson]
    split <;> simp
  | _ => simp [toJson]

namespace Handler.Code

variable {limits : Script.Limits} {now : Instant} {scope : Scope} {params : Json} {p : Params}
  {v : Script.Value} {after : List Script.Slot} {f : StepFault}

/-- The parameters are read, and no rule of the deny list matches the script. -/
structure Admitted (params : Json) (p : Params) : Prop where
  read : decode params = .ok p
  passed : Script.deniedBy? p.code = none

/-- The innermost of the variables named `vars`. -/
def vars? (slots : List Script.Slot) : Option Script.Value :=
  (slots.find? fun s => s.name == "vars").map (·.value)

/-- Why a script comes to nothing, and the fault that tells of it. -/
inductive Refused (limits : Script.Limits) (now : Instant) (scope : Scope) (params : Json) :
    StepFault → Prop where
  | undecoded {f : DecodeFault} : decode params = .error f →
      Refused limits now scope params (.invalidParams ("Invalid code params: " ++ f.message))
  | denied {p : Params} {r : Script.DenyRule} : decode params = .ok p →
      Script.deniedBy? p.code = some r → Refused limits now scope params (.rejected r.text r.reason)
  | ended {p : Params} {f : Script.Fault} : Admitted params p →
      Script.run limits now (slots scope p.args) p.code = .error f →
      Refused limits now scope params (.script f.message)
  | unmapped {p : Params} {v w : Script.Value} {after : List Script.Slot} : Admitted params p →
      Script.run limits now (slots scope p.args) p.code = .ok (v, after) →
      vars? after = some w → (∀ fs, w ≠ .map fs) →
      Refused limits now scope params (.script "'vars' must remain a map")

/-- A script comes to its end: with a value and a map in `vars`, and its constants unchanged. -/
structure Completed (limits : Script.Limits) (now : Instant) (scope : Scope) (params : Json)
    (p : Params) (v : Script.Value) (after : List Script.Slot)
    (fs : List (String × Script.Value)) : Prop where
  admitted : Admitted params p
  ends : Script.run limits now (slots scope p.args) p.code = .ok (v, after)
  left : vars? after = some (.map fs)
  kept : Script.Kept (slots scope p.args) after

theorem varsOf_of_vars? {fs : List (String × Script.Value)} (h : vars? after = some (.map fs)) :
    varsOf after = .ok (Script.Value.toJsonFields fs) := by
  obtain ⟨s, hs, hmap⟩ := Option.map_eq_some_iff.1 h
  obtain ⟨name, constant, value⟩ := s
  obtain rfl : value = .map fs := hmap
  rw [varsOf, hs]

theorem varsOf_of_vars?_ne {w : Script.Value} (h : vars? after = some w)
    (hw : ∀ fs, w ≠ .map fs) : varsOf after = .error (.script "'vars' must remain a map") := by
  obtain ⟨s, hs, rfl⟩ := Option.map_eq_some_iff.1 h
  obtain ⟨name, constant, value⟩ := s
  rw [varsOf, hs]
  cases value with
  | map fs => exact absurd rfl (hw fs)
  | _ => rfl

/-- A script leaves some variable `vars`. -/
theorem exists_vars? (h : Script.Kept (slots scope p.args) after) : ∃ w, vars? after = some w := by
  obtain ⟨t, ht⟩ := h.exists_find?
  exact ⟨t.value, Option.map_eq_some_iff.2 ⟨t, ht, rfl⟩⟩

/-- What reading and running a script comes to. -/
theorem run_cases (limits : Script.Limits) (now : Instant) (scope : Scope) (params : Json) :
    (∃ f, decodeParams "code" decode params >>= run limits now scope = .error f ∧
      Refused limits now scope params f) ∨
    ∃ p v after fs, decodeParams "code" decode params >>= run limits now scope =
        .ok (v.toJson, Script.Value.toJsonFields fs) ∧
      Completed limits now scope params p v after fs := by
  -- One case for each step of the handler that may be the last one, in their order.
  cases hd : decode params with
  | error f =>
    refine .inl ⟨_, ?_, .undecoded hd⟩
    rw [decodeParams, hd]
    rfl
  | ok p =>
    rw [decodeParams_eq_ok.2 hd]
    change (∃ f, run limits now scope p = _ ∧ _) ∨ ∃ q v after fs, run limits now scope p = _ ∧ _
    cases hp : Script.deniedBy? p.code with
    | some r =>
      refine .inl ⟨_, ?_, .denied hd hp⟩
      rw [run, Script.scan, hp]
      rfl
    | none =>
      have ha : Admitted params p := ⟨hd, hp⟩
      have hscan : Script.scan p.code = .ok () := by rw [Script.scan, hp]
      have hrun : run limits now scope p = _ := runIn_accepted (x := .ofLimits limits) hscan
      rw [hrun, Script.Sandbox.ofLimits]
      dsimp only
      cases he : Script.run limits now (slots scope p.args) p.code with
      | error f => exact .inl ⟨_, rfl, .ended ha he⟩
      | ok r =>
        obtain ⟨v, after⟩ := r
        have hk := Script.run_keeps he
        obtain ⟨w, hw⟩ := exists_vars? hk
        by_cases hm : ∃ fs, w = .map fs
        · obtain ⟨fs, rfl⟩ := hm
          refine .inr ⟨p, v, after, fs, ?_, ha, he, hw, hk⟩
          dsimp only
          rw [varsOf_of_vars? hw]
          rfl
        · have hw' : ∀ fs, w ≠ .map fs := not_exists.1 hm
          refine .inl ⟨_, ?_, .unmapped ha he hw hw'⟩
          dsimp only
          rw [varsOf_of_vars?_ne hw hw']
          rfl

/-- The handler does nothing but to read and to run the script, and comes to an end at once. -/
theorem run_eq_ofExcept {now : Occasion → Instant} :
    (handler limits now).run params scope =
      .ofExcept ((decodeParams "code" decode params >>=
        run limits (now (scope.occasion 0)) scope).map fun x => (resultOf x.1, x.2)) := by
  rw [← handlerIn_ofLimits, handlerIn_run]
  cases decodeParams "code" decode params <;> rfl

theorem run_atOnce {now : Occasion → Instant} :
    ((handler limits now).run params scope).events = [] ∧
      ((handler limits now).run params scope).elapsed = 0 := by
  rw [run_eq_ofExcept]
  cases (decodeParams "code" decode params >>= run limits (now (scope.occasion 0)) scope) <;>
    exact ⟨rfl, rfl⟩

theorem data_resultOf (v : Json) : (resultOf v).data = v := by
  unfold resultOf
  split <;> rfl

/-- The result is a failure when the value is `false`, else a success. -/
theorem status_resultOf (v : Script.Value) :
    ((resultOf v.toJson).status = .failed ↔ v = .bool false) ∧
      ((resultOf v.toJson).status = .success ↔ v ≠ .bool false) := by
  rw [ne_eq, ← Script.Value.toJson_eq_false]
  unfold resultOf
  split
  · rename_i h
    simp [h, StepResult.failed]
  · rename_i h
    simpa [StepResult.success] using h

/-- **A script does all of its work or none.** Either the step comes to a fault, for one of the
reasons listed, and the namespace is the one from before; or the script came to its end, and the
namespace is what it left in `vars`, the data its value, and the step has failed exactly when that
value is the truth value `false`, else it has succeeded. In both cases nothing outside is called,
and the merge of the invocation changes nothing in the context but this namespace, where a device
gets the summary of the result, and the result of the step for its target. -/
theorem run_all_or_nothing (limits : Script.Limits) (now : Occasion → Instant) (params : Json)
    (scope : Scope) :
    let t := (handler limits now).run params scope
    let vars := Invocation.varsOf scope.vars t
    ((∃ f, t.outcome = .fault f ∧ Refused limits (now (scope.occasion 0)) scope params f ∧
        vars = scope.vars) ∨
      ∃ p v after fs r, t.outcome = .value (r, vars) ∧
        Completed limits (now (scope.occasion 0)) scope params p v after fs ∧
        vars = Script.Value.toJsonFields fs ∧ r.data = v.toJson ∧
        (r.status = .failed ↔ v = .bool false) ∧ (r.status = .success ↔ v ≠ .bool false)) ∧
    t.events = [] ∧ t.elapsed = 0 ∧
    ∀ c step start, c.vars? scope.device = some scope.vars →
      let i := Invocation.ofTimeline scope.device scope.vars start t
      (c.commit step i).vars? scope.device = some (vars.noting step i.result scope.device) ∧
      Context.SameBeside scope.device step c (c.commit step i) := by
  intro t vars
  have ht : t = _ := run_eq_ofExcept
  refine ⟨?_, run_atOnce.1, run_atOnce.2, fun c step start hc =>
    ⟨Context.vars?_commit_ofTimeline (run_yields limits now) hc step start,
      Context.commit_sameBeside c step (.ofTimeline scope.device scope.vars start t)⟩⟩
  rcases run_cases limits (now (scope.occasion 0)) scope params with
    ⟨f, hrun, hrefused⟩ | ⟨p, v, after, fs, hrun, hcompleted⟩
  · rw [hrun] at ht
    have ho : t.outcome = .fault f := by rw [ht]; rfl
    refine .inl ⟨f, ho, hrefused, ?_⟩
    change Invocation.varsOf scope.vars t = _
    rw [Invocation.varsOf, ho]
  · rw [hrun] at ht
    have ho : t.outcome = .value (resultOf v.toJson, Script.Value.toJsonFields fs) := by
      rw [ht]
      rfl
    have hvars : vars = Script.Value.toJsonFields fs := by
      change Invocation.varsOf scope.vars t = _
      rw [Invocation.varsOf, ho]
    exact .inr ⟨p, v, after, fs, _, hvars ▸ ho, hcompleted, hvars, data_resultOf _,
      status_resultOf v⟩

/-- A script that counts to four and then throws. -/
def counting : Json := .obj [("code", .str "vars.octets = 4; throw 1")]

/-- The outcome is a fault. -/
def isFault : Outcome (StepResult × Fields) → Bool
  | .fault _ => true
  | _ => false

theorem counting_faults :
    isFault ((handler {} fun _ => .epoch).run counting (counterScope 3)).outcome = true := by
  decide +kernel

/-- The counter is at three as before, although the script had set it to four. -/
theorem run_all_or_nothing_counter :
    let t := (handler {} fun _ => .epoch).run counting (counterScope 3)
    let i := Invocation.ofTimeline none (counterScope 3).vars 0 t
    isFault t.outcome = true ∧
      ((counterScope 3).context.commit "count" i).vars? none = some [("octets", .int 3)] := by
  have hfault := counting_faults
  obtain ⟨hends, -, -, hcommit⟩ :=
    run_all_or_nothing {} (fun _ => .epoch) counting (counterScope 3)
  refine ⟨hfault, ?_⟩
  rcases hends with ⟨f, -, -, hvars⟩ | ⟨_, _, _, _, r, ho, -⟩
  · rw [hvars] at hcommit
    exact (hcommit (counterScope 3).context "count" 0 rfl).1
  · rw [ho] at hfault
    cases hfault

end Handler.Code
end Runbook

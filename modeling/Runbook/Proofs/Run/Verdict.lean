import Runbook.Proofs.Run.Fault

/-!
# Verdicts of checks

A `check` step tests all its conditions before it judges them. So a condition that cannot be tested
counts wherever it stands, and the verdict asks only what there is among the conditions, not in
which order (`Engine.check_verdict`). Only the message and the data look at places: the first
condition that does not hold is named, and each condition has its own truth value.
-/

namespace Runbook

namespace Handler.Check

variable {p q : Params} {params : Json} {outcomes : List Bool} {f : StepFault}

/-- What the conditions of a step come to, told by their truth values. -/
def judge (p : Params) (outcomes : List Bool) : StepResult :=
  let data := Json.ofFields [("results", .arr (outcomes.map Json.bool))]
  match (p.conditions.zip outcomes).zipIdx.find? fun x => !x.1.2 with
  | none => .success (toString outcomes.length ++ " condition(s) held") data
  | some ((c, _), index) => .failed (p.message.getD (Condition.failureText index c)) data

theorem run_of_decode (h : decode params = .ok p) (hne : p.conditions ≠ []) :
    run params = p.conditions.mapM Condition.holds >>= fun outcomes => .ok (judge p outcomes) := by
  have hempty : p.conditions.isEmpty = false := by simpa using hne
  rw [run, decodeParams_eq_ok.2 h]
  simp only [bind, Except.bind, hempty, Bool.false_eq_true, if_false]
  cases p.conditions.mapM Condition.holds with
  | error f => rfl
  | ok outcomes =>
    dsimp only [judge]
    cases (p.conditions.zip outcomes).zipIdx.find? fun x => !x.1.2 <;> rfl

/-- The first that passes a test, with its place. -/
theorem find?_zipIdx {α : Type} {xs : List α} (test : α → Bool) {x : α} {i : Nat}
    (h : (xs.zipIdx.find? fun y => test y.1) = some (x, i)) :
    xs[i]? = some x ∧ test x = true ∧ ∀ j y, j < i → xs[j]? = some y → test y = false := by
  obtain ⟨hx, n, hn, hxn, hbefore⟩ := List.find?_eq_some_iff_getElem.1 h
  simp only [List.getElem_zipIdx, Nat.zero_add, Prod.mk.injEq] at hxn
  obtain ⟨rfl, rfl⟩ := hxn
  have hlength : n < xs.length := by simpa using hn
  refine ⟨List.getElem?_eq_getElem hlength, hx, fun j y hj hy => ?_⟩
  obtain ⟨_, rfl⟩ := List.getElem?_eq_some_iff.1 hy
  simpa using hbefore j hj

/-- The truth values of the conditions, one for each. -/
def Outcomes (cs : List Condition) (outcomes : List Bool) : Prop :=
  List.Forall₂ (fun c b => c.holds = .ok b) cs outcomes

theorem Outcomes.holds_of_getElem? {cs : List Condition} (h : Outcomes cs outcomes) {i : Nat}
    {c : Condition} {b : Bool} (hcb : (cs.zip outcomes)[i]? = some (c, b)) :
    cs[i]? = some c ∧ c.holds = .ok b := by
  obtain ⟨hc, hb⟩ := List.getElem?_zip_eq_some.1 hcb
  obtain ⟨hi, rfl⟩ := List.getElem?_eq_some_iff.1 hc
  obtain ⟨hi', rfl⟩ := List.getElem?_eq_some_iff.1 hb
  exact ⟨hc, h.get hi hi'⟩

/-- Conditions with truth values have been tested without a fault. -/
theorem Outcomes.exists_holds {cs : List Condition} (h : Outcomes cs outcomes) :
    ∀ c ∈ cs, ∃ b, c.holds = .ok b := by
  induction h with
  | nil => nofun
  | cons hc _ ih => exact List.forall_mem_cons.2 ⟨⟨_, hc⟩, ih⟩

/-- Either every condition holds, or the first that does not is named. -/
theorem judge_cases (h : Outcomes p.conditions outcomes) :
    ((judge p outcomes).status = .success ∧ ∀ c ∈ p.conditions, c.holds = .ok true) ∨
      (judge p outcomes).status = .failed ∧ ∃ (i : Nat) (c : Condition), p.conditions[i]? = some c ∧
        c.holds = .ok false ∧
        (∀ (j : Nat) (d : Condition), j < i → p.conditions[j]? = some d → d.holds = .ok true) ∧
        (judge p outcomes).message = p.message.getD (Condition.failureText i c) := by
  have htested : ∀ (i : Nat) (c : Condition), p.conditions[i]? = some c →
      ∃ b : Bool, (p.conditions.zip outcomes)[i]? = some (c, b) ∧ c.holds = .ok b := by
    intro i c hc
    have hi : i < outcomes.length := h.length_eq ▸ (List.getElem?_eq_some_iff.1 hc).1
    have hzip : (p.conditions.zip outcomes)[i]? = some (c, outcomes[i]) :=
      List.getElem?_zip_eq_some.2 ⟨hc, List.getElem?_eq_getElem hi⟩
    exact ⟨outcomes[i], hzip, (h.holds_of_getElem? hzip).2⟩
  unfold judge
  cases hfind : (p.conditions.zip outcomes).zipIdx.find? fun x => !x.1.2 with
  | none =>
    refine .inl ⟨rfl, fun c hc => ?_⟩
    obtain ⟨i, hi⟩ := List.mem_iff_getElem?.1 hc
    obtain ⟨b, hzip, hb⟩ := htested i c hi
    have hnone := List.find?_eq_none.1 hfind ((c, b), i) (List.mem_zipIdx_iff_getElem?.2 hzip)
    have hb' : b = true := by simpa using hnone
    rw [hb, hb']
  | some x =>
    obtain ⟨⟨c, b⟩, i⟩ := x
    obtain ⟨hzip, hfalse, hbefore⟩ := find?_zipIdx (fun y : Condition × Bool => !y.2) hfind
    obtain ⟨hc, hb⟩ := h.holds_of_getElem? hzip
    have hb' : b = false := by simpa using hfalse
    refine .inr ⟨rfl, i, c, hc, hb' ▸ hb, fun j d hj hd => ?_, rfl⟩
    obtain ⟨b, hzip, hb⟩ := htested j d hd
    have hb' : b = true := by simpa using hbefore j _ hj hzip
    rw [hb, hb']

theorem judge_data : (judge p outcomes).data =
    .ofFields [("results", .arr (outcomes.map Json.bool))] := by
  unfold judge
  dsimp only
  split <;> rfl

end Handler.Check

namespace Engine

open Handler

variable {e e' : Engine} {w w' : World} {s s' : StepDefinition} {scope scope' : Scope}
  {p p' : Check.Params} {r : StepResult}

/-- The invocation tests some conditions. -/
structure Tests (e : Engine) (w : World) (s : StepDefinition) (scope : Scope) (p : Check.Params) :
    Prop where
  registry : e.registry = .ofWorld w
  stepType : s.stepType = "check"
  reads : ∃ params, Template.resolveParams (.obj s.params) scope [] = .ok params ∧
    Check.decode params = .ok p
  some : p.conditions ≠ []

/-- What an invocation that tests conditions comes to. -/
theorem Tests.result_eq (h : Tests e w s scope p) :
    Invocation.resultOf (e.invoke s scope) = match p.conditions.mapM Condition.holds with
      | .ok outcomes => Check.judge p outcomes
      | .error f => f.result := by
  obtain ⟨params, hresolves, hdecodes⟩ := h.reads
  have hcalls : Calls e s scope Check.handler params := by
    refine ⟨?_, hresolves⟩
    rw [h.registry, h.stepType]
    exact Registry.resolve_builtin (w := w) (h := Check.handler) (by simp [builtins])
  have hrun : Check.handler.run params scope =
      .ofExcept ((Check.run params).map fun r => (r, scope.vars)) := by
    change Timeline.ofExcept (Check.run params) >>= (fun r => Timeline.pure (r, scope.vars)) = _
    cases Check.run params <;> rfl
  rw [hcalls.invoke_eq, hrun, Timeline.within_ofExcept, Check.run_of_decode hdecodes h.some]
  cases p.conditions.mapM Condition.holds <;> rfl

/-- Some condition cannot be tested, or all are judged by their truth values. -/
theorem Tests.cases (h : Tests e w s scope p) :
    (∃ c ∈ p.conditions, ∃ f, c.holds = .error f ∧
        Invocation.resultOf (e.invoke s scope) = f.result) ∨
      ∃ outcomes, Check.Outcomes p.conditions outcomes ∧
        Invocation.resultOf (e.invoke s scope) = Check.judge p outcomes := by
  rw [h.result_eq]
  cases hm : p.conditions.mapM Condition.holds with
  | error f =>
    obtain ⟨c, hc, hf⟩ := exists_of_mapM_eq_error hm
    exact .inl ⟨c, hc, f, hf, rfl⟩
  | ok outcomes => exact .inr ⟨outcomes, mapM_eq_ok_iff.1 hm, rfl⟩

theorem Tests.error_iff (h : Tests e w s scope p) :
    (Invocation.resultOf (e.invoke s scope)).status = .error ↔
      ∃ c ∈ p.conditions, ∃ f, c.holds = .error f := by
  rcases h.cases with ⟨c, hc, f, hf, hr⟩ | ⟨outcomes, ho, hr⟩
  · exact ⟨fun _ => ⟨c, hc, f, hf⟩, fun _ => hr ▸ rfl⟩
  · rw [hr]
    constructor
    · intro he
      rcases Check.judge_cases ho with ⟨hs, -⟩ | ⟨hs, -⟩
      all_goals
        rw [he] at hs
        cases hs
    · rintro ⟨c, hc, f, hf⟩
      obtain ⟨b, hb⟩ := ho.exists_holds c hc
      rw [hf] at hb
      cases hb

theorem Tests.success_iff (h : Tests e w s scope p) :
    (Invocation.resultOf (e.invoke s scope)).status = .success ↔
      ∀ c ∈ p.conditions, c.holds = .ok true := by
  rcases h.cases with ⟨c, hc, f, hf, hr⟩ | ⟨outcomes, ho, hr⟩
  · rw [hr]
    refine ⟨nofun, fun hall => ?_⟩
    have htrue := hall c hc
    rw [hf] at htrue
    cases htrue
  · rw [hr]
    rcases Check.judge_cases ho with ⟨hs, hall⟩ | ⟨hs, i, c, hi, hfalse, -⟩
    · exact ⟨fun _ => hall, fun _ => hs⟩
    · rw [hs]
      refine ⟨nofun, fun hall => ?_⟩
      have htrue := hall c (List.mem_of_getElem? hi)
      rw [hfalse] at htrue
      cases htrue

/-- What is neither an error nor a success is a failure. -/
theorem Tests.failed_iff (h : Tests e w s scope p) :
    (Invocation.resultOf (e.invoke s scope)).status = .failed ↔
      (∀ c ∈ p.conditions, ∃ b, c.holds = .ok b) ∧ ∃ c ∈ p.conditions, c.holds = .ok false := by
  rcases h.cases with ⟨c, hc, f, hf, hr⟩ | ⟨outcomes, ho, hr⟩
  · rw [hr]
    refine ⟨nofun, fun ⟨hall, _⟩ => ?_⟩
    obtain ⟨b, hb⟩ := hall c hc
    rw [hf] at hb
    cases hb
  · rw [hr]
    rcases Check.judge_cases ho with ⟨hs, hall⟩ | ⟨hs, i, c, hi, hfalse, -⟩
    · rw [hs]
      refine ⟨nofun, fun ⟨_, c, hc, hfalse⟩ => ?_⟩
      rw [hall c hc] at hfalse
      cases hfalse
    · exact ⟨fun _ => ⟨ho.exists_holds, c, List.mem_of_getElem? hi, hfalse⟩, fun _ => hs⟩

theorem Tests.status_perm (h : Tests e w s scope p) (h' : Tests e' w' s' scope' p')
    (hp : p'.conditions.Perm p.conditions) :
    (Invocation.resultOf (e'.invoke s' scope')).status =
      (Invocation.resultOf (e.invoke s scope)).status := by
  cases hs : (Invocation.resultOf (e.invoke s scope)).status with
  | error =>
    obtain ⟨c, hc, hf⟩ := h.error_iff.1 hs
    exact h'.error_iff.2 ⟨c, hp.mem_iff.2 hc, hf⟩
  | failed =>
    obtain ⟨hall, c, hc, hfalse⟩ := h.failed_iff.1 hs
    exact h'.failed_iff.2 ⟨fun c hc => hall c (hp.mem_iff.1 hc), c, hp.mem_iff.2 hc, hfalse⟩
  | success =>
    have hall := h.success_iff.1 hs
    exact h'.success_iff.2 fun c hc => hall c (hp.mem_iff.1 hc)

/-- **The verdict of a check** is an error exactly when some condition cannot be tested, else a
failure exactly when some condition does not hold, and else a success; the order of the conditions
has no say. Conditions that can all be tested give one truth value each, in their order, and the
message of a failure that has none of its own names the first that does not hold. -/
theorem check_verdict (h : Tests e w s scope p) :
    let r := Invocation.resultOf (e.invoke s scope)
    (r.status = .error ↔ ∃ c ∈ p.conditions, ∃ f, c.holds = .error f) ∧
      (r.status = .failed ↔ (∀ c ∈ p.conditions, ∃ b, c.holds = .ok b) ∧
        ∃ c ∈ p.conditions, c.holds = .ok false) ∧
      (r.status = .success ↔ ∀ c ∈ p.conditions, c.holds = .ok true) ∧
      (∀ e' w' s' scope' p', Tests e' w' s' scope' p' → p'.conditions.Perm p.conditions →
        (Invocation.resultOf (e'.invoke s' scope')).status = r.status) ∧
      ((∀ c ∈ p.conditions, ∃ b, c.holds = .ok b) →
        ∃ outcomes, List.Forall₂ (fun c b => c.holds = .ok b) p.conditions outcomes ∧
          r.data = .ofFields [("results", .arr (outcomes.map Json.bool))]) ∧
      (r.status = .failed → ∃ (i : Nat) (c : Condition), p.conditions[i]? = some c ∧
        c.holds = .ok false ∧
        (∀ (j : Nat) (d : Condition), j < i → p.conditions[j]? = some d → d.holds = .ok true) ∧
        r.message = p.message.getD (Condition.failureText i c)) := by
  intro r
  refine ⟨h.error_iff, h.failed_iff, h.success_iff, fun _ _ _ _ _ h' hp => h.status_perm h' hp,
    fun hall => ?_, fun hs => ?_⟩
  · rcases h.cases with ⟨c, hc, f, hf, -⟩ | ⟨outcomes, ho, hr⟩
    · obtain ⟨b, hb⟩ := hall c hc
      rw [hf] at hb
      cases hb
    · exact ⟨outcomes, ho, (congrArg StepResult.data hr).trans Check.judge_data⟩
  · rcases h.cases with ⟨_, _, f, _, hr⟩ | ⟨outcomes, ho, hr⟩
    · have hne := (congrArg StepResult.status hr).symm.trans hs
      cases hne
    · have hr : r = Check.judge p outcomes := hr
      rw [hr] at hs ⊢
      rcases Check.judge_cases ho with ⟨hs', -⟩ | ⟨-, hfirst⟩
      · rw [hs] at hs'
        cases hs'
      · exact hfirst

/-! ## An instance -/

/-- A step that tests some conditions. -/
def asking (conditions : List Json) : StepDefinition where
  name := "Ask"
  stepType := "check"
  params := [("conditions", .arr conditions)]

/-- A condition on an operator and a value, as it is written. -/
def written (op : String) (value : Json) : Json := .obj [("op", .str op), ("value", value)]

theorem resolve_written {context value : Json} {op : String}
    (hv : Template.resolve context value = .ok value) (hop : Template.isTemplate op = false) :
    Template.resolve context (written op value) = .ok (written op value) := by
  simp only [written, Template.resolve, Template.resolveFields, Template.resolveText, hv, hop]
  rfl

/-- Conditions without templates are tested as they are written. -/
theorem asking_tests {conditions : List Json} {p : Check.Params} (slots : Nat)
    (h : ∀ v ∈ conditions, Template.resolve scope.templateContext v = .ok v)
    (hd : Check.decode (.obj (asking conditions).params) = .ok p) (hne : p.conditions ≠ []) :
    Tests (slowEngine slots) slowWorld (asking conditions) scope p := by
  have hitems : Template.resolveItems scope.templateContext conditions = .ok conditions := by
    clear hd
    induction conditions with
    | nil => rfl
    | cons v vs ih =>
      obtain ⟨hv, hvs⟩ := List.forall_mem_cons.1 h
      rw [Template.resolveItems, hv, ih hvs]
      rfl
  refine ⟨rfl, rfl, ⟨_, ?_, hd⟩, hne⟩
  simp only [asking, Template.resolveParams, List.mapM_cons, List.mapM_nil, Template.resolve,
    hitems]
  rfl

/-- A condition that cannot be tested counts behind one that does not hold, and before one. -/
theorem check_verdict_asking :
    let down := written "truthy" (.bool false)
    let broken := written "in" (.str "up")
    let status := fun conditions =>
      (Invocation.resultOf ((slowEngine 1).invoke (asking conditions) default)).status
    status [down] = .failed ∧ status [down, broken] = .error ∧ status [broken, down] = .error := by
  intro down broken status
  let isDown : Condition := { value := .bool false, op := .truthy }
  let isBroken : Condition := { value := .str "up", op := .isIn }
  let context := (default : Scope).templateContext
  have hresolve : ∀ v, v = down ∨ v = broken → Template.resolve context v = .ok v := by
    rintro v (rfl | rfl)
    · exact resolve_written rfl (by decide +kernel)
    · exact resolve_written rfl (by decide +kernel)
  have hdown : Tests (slowEngine 1) slowWorld (asking [down]) default ⟨[isDown], none⟩ :=
    asking_tests 1 (fun v hv => hresolve v (.inl (List.mem_singleton.1 hv))) rfl nofun
  have hboth : Tests (slowEngine 1) slowWorld (asking [down, broken]) default
      ⟨[isDown, isBroken], none⟩ :=
    asking_tests 1 (fun v hv => hresolve v (by simpa using hv)) rfl nofun
  have hswapped : Tests (slowEngine 1) slowWorld (asking [broken, down]) default
      ⟨[isBroken, isDown], none⟩ :=
    asking_tests 1 (fun v hv => hresolve v (.symm (by simpa using hv))) rfl nofun
  obtain ⟨herror, -, -, hperm, -⟩ := check_verdict hboth
  have hstatus : status [down, broken] = .error := herror.2 ⟨isBroken, by simp, _, rfl⟩
  refine ⟨(check_verdict hdown).2.1.2 ⟨?_, isDown, by simp, rfl⟩, hstatus, ?_⟩
  · intro c hc
    obtain rfl := List.mem_singleton.1 hc
    exact ⟨false, rfl⟩
  · exact (hperm _ _ _ _ _ hswapped (.swap _ _ _)).trans hstatus

end Engine
end Runbook

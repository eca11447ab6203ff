import Runbook.Proofs.Run.Fault
import Runbook.Proofs.Run.Invoke

/-!
# Scripts run as they were authored

The text of a script is the parameter `code` of its step as its author wrote it. To say that no
other text is ever judged or evaluated, the handler of scripts is put over any `Script.Sandbox`: what
an invocation comes to depends on the sandbox at this one text only, and not on what it evaluates
where it refuses the text (`Engine.RunsOnly`). This holds in every scope, so that nothing a context
holds can become part of a script, and the verdict on a step is the same in all its scopes
(`Engine.code_runs_as_authored`).
-/

namespace Runbook

/-! ## Sandboxes -/

/-- What judges the text of a script, and what evaluates it. -/
structure Script.Sandbox where
  scan : String → Except StepFault Unit
  eval : Instant → List Slot → String → Except Fault (Value × List Slot)

namespace Script.Sandbox

/-- The sandbox of the built-in handler: the deny list, and the evaluation within limits. -/
def ofLimits (limits : Limits) : Sandbox := ⟨Script.scan, Script.run limits⟩

/-- The sandboxes judge a text alike and, unless they refuse it, evaluate it alike. -/
structure AgreesOn (src : String) (x y : Sandbox) : Prop where
  scan : y.scan src = x.scan src
  eval : x.scan src = .ok () → ∀ now slots, y.eval now slots src = x.eval now slots src

end Script.Sandbox

namespace Handler.Code

open Script (Sandbox)

/-- Runs a script in a sandbox: its value and the namespace it leaves. -/
def runIn (x : Sandbox) (now : Instant) (scope : Scope) (p : Params) :
    Except StepFault (Json × Fields) := do
  x.scan p.code
  match x.eval now (slots scope p.args) p.code with
  | .error f => throw (.script f.message)
  | .ok (v, after) => return (v.toJson, ← varsOf after)

/-- The handler of `code` steps over a sandbox. -/
def handlerIn (x : Sandbox) (now : Occasion → Instant) : Handler :=
  { handler {} now with
    run := fun params scope => do
      let p ← Timeline.ofExcept (decodeParams "code" decode params)
      let (v, vars) ← Timeline.ofExcept (runIn x (now (scope.occasion 0)) scope p)
      return (resultOf v, vars) }

theorem handlerIn_ofLimits (limits : Script.Limits) (now : Occasion → Instant) :
    handlerIn (.ofLimits limits) now = handler limits now := rfl

variable {x y : Sandbox} {now : Instant} {scope : Scope} {p : Params} {f : StepFault}

theorem runIn_refused (h : x.scan p.code = .error f) : runIn x now scope p = .error f := by
  rw [runIn, h]
  rfl

theorem runIn_accepted (h : x.scan p.code = .ok ()) :
    runIn x now scope p =
      match x.eval now (slots scope p.args) p.code with
      | .error f => .error (.script f.message)
      | .ok (v, after) => (varsOf after).map (v.toJson, ·) := by
  rw [runIn, h]
  cases he : x.eval now (slots scope p.args) p.code with
  | error f => rfl
  | ok r =>
    obtain ⟨v, after⟩ := r
    change (varsOf after >>= fun vars => .ok (v.toJson, vars)) = (varsOf after).map (v.toJson, ·)
    cases varsOf after <;> rfl

theorem runIn_eq (h : x.AgreesOn p.code y) : runIn x now scope p = runIn y now scope p := by
  cases hs : x.scan p.code with
  | error f => rw [runIn_refused hs, runIn_refused (h.scan.trans hs)]
  | ok u => rw [runIn_accepted hs, runIn_accepted (h.scan.trans hs), h.eval hs]

/-- A fault of the evaluation is no refusal. -/
theorem runIn_ne_rejected (h : x.scan p.code = .ok ()) (pattern reason : String) :
    runIn x now scope p ≠ .error (.rejected pattern reason) := by
  rw [runIn_accepted h]
  split
  · nofun
  · unfold varsOf
    split <;> nofun

/-- The fields of the parameters. -/
def fields : List Decode.Field :=
  [Decode.field "code" .required Decode.text, Decode.field "args" .defaulted Decode.any]

theorem check_eq_ok {k : String} {v : Json} :
    (∀ f, fields.find? (·.name == k) = some f → f.check v = .ok ()) ↔
      (k = "code" → ∃ src, v = .str src) := by
  have hcode : (Decode.field "code" .required Decode.text).check v = .ok () ↔
      ∃ src, v = .str src := by
    cases v <;> simp [Decode.field, Decode.text, Decode.wrongType, Except.map]
  by_cases hk : k = "code"
  · subst hk
    simpa [fields, Decode.field] using hcode
  · refine iff_of_true (fun f hf => ?_) fun h => absurd h hk
    have hargs : f = Decode.field "args" .defaulted Decode.any := by
      simp only [fields, Decode.field, List.find?_cons, List.find?_nil,
        beq_eq_false_iff_ne.2 (Ne.symm hk)] at hf ⊢
      split at hf
      · cases hf
        rfl
      · cases hf
    rw [hargs]
    rfl

/-- The parameters decode when there is something under `code`, and nothing but texts. -/
theorem exists_decode_iff {fs : Fields} :
    (∃ p, decode (.obj fs) = .ok p) ↔
      (∃ v, ("code", v) ∈ fs) ∧ ∀ v, ("code", v) ∈ fs → ∃ src, v = .str src := by
  have hrecord : (∃ found, Decode.record "CodeConfig" fields (.obj fs) = .ok found) ↔ _ :=
    Decode.exists_record_iff (by decide)
  simp only [check_eq_ok] at hrecord
  constructor
  · rintro ⟨p, h⟩
    obtain ⟨found, hf, -⟩ := bind_eq_ok.1 h
    obtain ⟨hall, hreq⟩ := hrecord.1 ⟨found, hf⟩
    obtain ⟨v, hv⟩ := Option.isSome_iff_exists.1 (hreq _ List.mem_cons_self rfl)
    exact ⟨⟨v, Table.mem_of_get? hv⟩, fun v hv => hall _ hv rfl⟩
  · rintro ⟨⟨v, hv⟩, hall⟩
    have hsome : (Table.get? "code" fs).isSome :=
      Table.mem_keys_iff.1 (List.mem_map.2 ⟨_, hv, rfl⟩)
    obtain ⟨found, hf⟩ := hrecord.2
      ⟨fun e he hk => hall _ (hk ▸ he), by simpa [fields, Decode.field] using hsome⟩
    obtain ⟨v, hv⟩ := Option.isSome_iff_exists.1 hsome
    obtain ⟨src, rfl⟩ := hall _ (Table.mem_of_get? hv)
    have hcode : Decode.get found "code" Decode.text = .ok src :=
      Decode.get_eq_ok.2 ⟨_, by rw [Decode.record_get? (by decide) hf, hv], rfl⟩
    obtain ⟨args, hargs⟩ : ∃ args, Decode.getD found "args" Decode.any .null = .ok args := by
      unfold Decode.getD
      split <;> exact ⟨_, rfl⟩
    exact ⟨⟨src, args⟩, bind_eq_ok.2 ⟨found, hf, bind_eq_ok.2 ⟨src, hcode,
      bind_eq_ok.2 ⟨args, hargs, rfl⟩⟩⟩⟩

/-- Resolving changes nothing under `code`, so the parameters decode in all scopes or in none. -/
theorem exists_decode_resolved {fs ps : Fields}
    (h : List.Forall₂ (fun x y => y.1 = x.1 ∧ (x.1 ∈ ["code"] → y.2 = x.2)) fs ps) :
    (∃ p, decode (.obj ps) = .ok p) ↔ ∃ p, decode (.obj fs) = .ok p := by
  have hmem (v : Json) : ("code", v) ∈ ps ↔ ("code", v) ∈ fs := by
    induction h with
    | nil => simp
    | @cons x y fs ps hxy _ ih =>
      have hhead : ("code", v) = y ↔ ("code", v) = x := by
        simp only [Prod.ext_iff, hxy.1]
        refine and_congr_right fun hk => ?_
        rw [hxy.2 (by simp [← hk])]
      rw [List.mem_cons, List.mem_cons, hhead, ih]
  simp only [exists_decode_iff, hmem]

/-! ## Invocations -/

/-- The handler over a sandbox does nothing else at any time, and comes to an end at once. -/
theorem handlerIn_run {x : Sandbox} {now : Occasion → Instant} {scope : Scope} {params : Json} :
    (handlerIn x now).run params scope =
      .ofExcept (decodeParams "code" decode params >>= fun p =>
        (runIn x (now (scope.occasion 0)) scope p).map fun (v, vars) => (resultOf v, vars)) := by
  change (Timeline.ofExcept (decodeParams "code" decode params) >>= fun p =>
    Timeline.ofExcept (runIn x (now (scope.occasion 0)) scope p) >>= fun r =>
      Timeline.pure (resultOf r.1, r.2)) = _
  cases decodeParams "code" decode params with
  | error f => rfl
  | ok p =>
    rw [Timeline.ofExcept_ok_bind]
    change _ = Timeline.ofExcept ((runIn x (now (scope.occasion 0)) scope p).map _)
    cases runIn x (now (scope.occasion 0)) scope p with
    | error f => rfl
    | ok r => rfl

end Handler.Code

/-- The built-in handlers of a world, with a sandbox for their scripts. -/
def Registry.withSandbox (w : World) (x : Script.Sandbox) : Registry :=
  ⟨(Registry.ofWorld w).handlers.map fun (k, h) =>
    (k, if k = "code" then Handler.Code.handlerIn x w.now else h)⟩

namespace Engine

open Script (Sandbox)
open Handler (Code.handlerIn)

/-- The engine over a world, with a sandbox for its scripts. -/
def withSandbox (e : Engine) (w : World) (x : Sandbox) : Engine :=
  { e with registry := .withSandbox w x }

variable {e : Engine} {w : World} {x y : Sandbox} {s : StepDefinition} {scope scope' : Scope}
  {h h' : Handler} {params params' : Json}

theorem resolve_code (w : World) :
    (Registry.ofWorld w).resolve "code" = .ok (Handler.Code.handler w.limits w.now) :=
  Registry.resolve_builtin (h := Handler.Code.handler w.limits w.now) (by simp [Handler.builtins])

theorem resolve_withSandbox (w : World) (x : Sandbox) (name : String) :
    (Registry.withSandbox w x).resolve name = ((Registry.ofWorld w).resolve name).map fun h =>
      if name = "code" then Code.handlerIn x w.now else h := by
  unfold Registry.withSandbox Registry.resolve
  rw [Table.get?_map (f := fun k h => if k = "code" then Code.handlerIn x w.now else h)]
  cases Table.get? name (Registry.ofWorld w).handlers <;> rfl

/-- The engine is the one over the built-in sandbox. -/
theorem invoke_withSandbox_ofLimits (he : e.registry = .ofWorld w) :
    (e.withSandbox w (.ofLimits w.limits)).invoke s scope = e.invoke s scope := by
  have hr : (Registry.withSandbox w (.ofLimits w.limits)).resolve s.stepType =
      (Registry.ofWorld w).resolve s.stepType := by
    rw [resolve_withSandbox]
    by_cases hs : s.stepType = "code"
    · rw [hs, resolve_code, Handler.Code.handlerIn_ofLimits]
      rfl
    · simp only [if_neg hs]
      cases (Registry.ofWorld w).resolve s.stepType <;> rfl
  unfold invoke
  rw [he]
  change (Timeline.ofExcept
    ((Registry.withSandbox w (.ofLimits w.limits)).resolve s.stepType) >>= _) = _
  rw [hr]
  rfl

/-- An invocation of a `code` step takes no time. -/
theorem invoke_withSandbox (hs : s.stepType = "code") :
    (e.withSandbox w x).invoke s scope =
      .ofExcept (Template.resolveParams (.obj s.params) scope ["code"] >>= fun params =>
        Handler.decodeParams "code" Handler.Code.decode params >>= fun p =>
          (Handler.Code.runIn x (w.now (scope.occasion 0)) scope p).map fun (v, vars) =>
            (Handler.Code.resultOf v, vars)) := by
  have hr : (e.withSandbox w x).registry.resolve s.stepType = .ok (Code.handlerIn x w.now) := by
    rw [hs]
    change (Registry.withSandbox w x).resolve "code" = _
    rw [resolve_withSandbox, resolve_code]
    rfl
  rw [invoke, hr, Timeline.ofExcept_ok_bind]
  change (Timeline.ofExcept (Template.resolveParams (.obj s.params) scope ["code"]) >>= _) = _
  cases Template.resolveParams (.obj s.params) scope ["code"] with
  | error f => rfl
  | ok params =>
    rw [Timeline.ofExcept_ok_bind, Handler.Code.handlerIn_run, Timeline.within_ofExcept]
    rfl

/-! ## The authored text -/

/-- An invocation judges this text and no other, and evaluates this text and no other. -/
structure RunsOnly (e : Engine) (w : World) (s : StepDefinition) (scope : Scope) (src : String) :
    Prop where
  /-- What sandboxes make of other texts makes no difference, nor how they would evaluate one that
  they refuse. -/
  alike : ∀ x y : Sandbox, x.AgreesOn src y →
    (e.withSandbox w x).invoke s scope = (e.withSandbox w y).invoke s scope
  /-- A refusal of the text is what the invocation comes to. -/
  refused : ∀ (x : Sandbox) (f : StepFault), x.scan src = .error f →
    (e.withSandbox w x).invoke s scope = .fail f
  /-- A text that is not refused is evaluated. -/
  accepted : ∃ args, ∀ x : Sandbox, x.scan src = .ok () → (e.withSandbox w x).invoke s scope =
    .ofExcept ((Handler.Code.runIn x (w.now (scope.occasion 0)) scope ⟨src, args⟩).map
      fun (v, vars) => (Handler.Code.resultOf v, vars))
  /-- The invocation is rejected when the deny list rejects the text. -/
  verdict : ∀ pattern reason, e.invoke s scope = .fail (.rejected pattern reason) ↔
    Script.scan src = .error (.rejected pattern reason)

theorem runsOnly (he : e.registry = .ofWorld w) (hs : s.stepType = "code")
    (hp : Template.resolveParams (.obj s.params) scope ["code"] = .ok params) {p : Handler.Code.Params}
    (hd : Handler.Code.decode params = .ok p) : RunsOnly e w s scope p.code := by
  have hinvoke (x : Sandbox) : (e.withSandbox w x).invoke s scope =
      .ofExcept ((Handler.Code.runIn x (w.now (scope.occasion 0)) scope p).map
        fun (v, vars) => (Handler.Code.resultOf v, vars)) := by
    rw [invoke_withSandbox hs, hp]
    change Timeline.ofExcept (Handler.decodeParams "code" Handler.Code.decode params >>= _) = _
    rw [Handler.decodeParams_eq_ok.2 hd]
    rfl
  have hrefused (x : Sandbox) (f : StepFault) (hf : x.scan p.code = .error f) :
      (e.withSandbox w x).invoke s scope = .fail f := by
    rw [hinvoke, Handler.Code.runIn_refused hf]
    rfl
  refine ⟨fun x y hxy => ?_, hrefused, ⟨p.args, fun x _ => hinvoke x⟩, fun pattern reason => ?_⟩
  · rw [hinvoke, hinvoke, Handler.Code.runIn_eq hxy]
  · rw [← invoke_withSandbox_ofLimits he]
    refine ⟨fun h => ?_, hrefused (.ofLimits w.limits) _⟩
    cases hscan : Script.scan p.code with
    | error f =>
      rw [hrefused (.ofLimits w.limits) f hscan] at h
      cases h
      rfl
    | ok u =>
      have hne : Handler.Code.runIn (.ofLimits w.limits) (w.now (scope.occasion 0)) scope p ≠
          .error (.rejected pattern reason) := Handler.Code.runIn_ne_rejected hscan pattern reason
      rw [hinvoke] at h
      cases hrun : Handler.Code.runIn (.ofLimits w.limits) (w.now (scope.occasion 0)) scope p with
      | ok r => rw [hrun] at h; cases h
      | error f =>
        rw [hrun] at h
        cases h
        exact absurd hrun hne

/-- Whatever the scope, parameters that decode hold the authored text. -/
theorem runsOnly_of_decode (he : e.registry = .ofWorld w) (hs : s.stepType = "code")
    (hp : Template.resolveParams (.obj s.params) scope ["code"] = .ok params)
    {p : Handler.Code.Params} (hd : Handler.Code.decode (.obj s.params) = .ok p) :
    RunsOnly e w s scope p.code := by
  obtain ⟨ps, rfl, hps⟩ := Template.resolveParams_raw hp
  obtain ⟨_, hobj, hget⟩ := Template.get?_resolveParams hp
  cases hobj
  obtain ⟨q, hq⟩ := (Handler.Code.exists_decode_resolved hps).2 ⟨p, hd⟩
  have hcode : q.code = p.code := by
    have h := hget "code" (List.mem_singleton.2 rfl)
    rw [Handler.Code.decode_code hq, Handler.Code.decode_code hd] at h
    simpa using h
  exact hcode ▸ runsOnly he hs hp hq

theorem invoke_undecoded (hs : s.stepType = "code")
    (hp : Template.resolveParams (.obj s.params) scope ["code"] = .ok params)
    (hd : ∀ p, Handler.Code.decode (.obj s.params) ≠ .ok p) :
    ∃ d, ∀ x : Sandbox, (e.withSandbox w x).invoke s scope = .fail (.invalidParams d) := by
  obtain ⟨ps, rfl, hps⟩ := Template.resolveParams_raw hp
  rw [← not_exists, ← Handler.Code.exists_decode_resolved hps] at hd
  cases hq : Handler.Code.decode (.obj ps) with
  | ok p => exact absurd ⟨p, hq⟩ hd
  | error f =>
    refine ⟨"Invalid " ++ "code" ++ " params: " ++ f.message, fun x => ?_⟩
    rw [invoke_withSandbox hs, hp]
    change Timeline.ofExcept (Handler.decodeParams "code" Handler.Code.decode (.obj ps) >>= _) = _
    rw [Handler.decodeParams, hq]
    rfl

/-- **Scripts run as they were authored.** In any two scopes in which an invocation of a `code` step
gets as far as its handler, the handler judges and evaluates the text that was authored under `code`
and no other; with parameters that hold no such text, it judges and evaluates nothing. -/
theorem code_runs_as_authored (he : e.registry = .ofWorld w) (hs : s.stepType = "code")
    (hc : Calls e s scope h params) (hc' : Calls e s scope' h' params') :
    (∀ z, (e.withSandbox w (.ofLimits w.limits)).invoke s z = e.invoke s z) ∧
      (∀ p, Handler.Code.decode (.obj s.params) = .ok p →
        Table.get? "code" s.params = some (.str p.code) ∧
          RunsOnly e w s scope p.code ∧ RunsOnly e w s scope' p.code) ∧
      ((∀ p, Handler.Code.decode (.obj s.params) ≠ .ok p) →
        ∃ d d', ∀ x : Sandbox, (e.withSandbox w x).invoke s scope = .fail (.invalidParams d) ∧
          (e.withSandbox w x).invoke s scope' = .fail (.invalidParams d')) := by
  have hraw {h : Handler} {z : Scope} {q : Json} (hc : Calls e s z h q) :
      Template.resolveParams (.obj s.params) z ["code"] = .ok q := by
    have hh := hc.handler
    rw [he, hs, resolve_code] at hh
    cases hh
    exact hc.params
  refine ⟨fun z => invoke_withSandbox_ofLimits he, fun p hd => ?_, fun hd => ?_⟩
  · exact ⟨Handler.Code.decode_code hd, runsOnly_of_decode he hs (hraw hc) hd,
      runsOnly_of_decode he hs (hraw hc') hd⟩
  · obtain ⟨d, hfail⟩ := invoke_undecoded (e := e) (w := w) hs (hraw hc) hd
    obtain ⟨d', hfail'⟩ := invoke_undecoded (e := e) (w := w) hs (hraw hc') hd
    exact ⟨d, d', fun x => ⟨hfail x, hfail' x⟩⟩

/-! ### A script that looks like a template -/

/-- A step whose script would load a module if a variable had its way. -/
def greeting : StepDefinition where
  name := "Greet"
  stepType := "code"
  params := [("args", .str "\x7b\x7b site \x7d\x7d"), ("code", .str "args + '\x7b\x7b site \x7d\x7d'")]

/-- A scope in which the variable has a value. -/
def greetingScope (site : String) : Scope :=
  .new .nil "greet" none (.ofGlobals [("site", .str site)])

theorem greeting_calls (site : String)
    (h : (Template.resolveParams (.obj greeting.params) (greetingScope site) ["code"]).toBool) :
    ∃ params, Calls (slowEngine 1) greeting (greetingScope site)
      (Handler.Code.handler slowWorld.limits slowWorld.now) params := by
  cases hp : Template.resolveParams (.obj greeting.params) (greetingScope site) ["code"] with
  | error f => rw [hp] at h; cases h
  | ok params => exact ⟨params, resolve_code slowWorld, hp⟩

theorem code_runs_as_authored_greeting :
    let src := "args + '\x7b\x7b site \x7d\x7d'"
    RunsOnly (slowEngine 1) slowWorld greeting (greetingScope "ams1") src ∧
      RunsOnly (slowEngine 1) slowWorld greeting (greetingScope "x'; import 'm") src := by
  obtain ⟨params, hc⟩ := greeting_calls "ams1" (by decide +kernel)
  obtain ⟨params', hc'⟩ := greeting_calls "x'; import 'm" (by decide +kernel)
  exact ((code_runs_as_authored rfl rfl hc hc').2.1 ⟨_, .str "\x7b\x7b site \x7d\x7d"⟩ rfl).2

end Engine
end Runbook

import Runbook.Proofs.Handler.Answers
import Runbook.Proofs.Run.Visit

/-!
# One invocation in two runs

An invocation is determined by its step, its scope and what its calls are answered. So it is the
same in two runs over worlds that answer its calls alike (`Engine.invoke_eq`), and it depends on no
moment of the visits before (`Engine.invoke_untimed`). `Engine.Counterparts` are the engines that are
compared; what there is to merge of an invocation is the same for both (`Counterparts.settled_eq`).
-/

namespace Runbook

/-- The parameters keep their names, and those that a handler takes as they are stay so. -/
theorem Template.resolveParams_raw {fs : Fields} {scope : Scope} {raw : List String} {params : Json}
    (h : resolveParams (.obj fs) scope raw = .ok params) :
    ∃ ps, params = .obj ps ∧
      List.Forall₂ (fun x y => y.1 = x.1 ∧ (x.1 ∈ raw → y.2 = x.2)) fs ps := by
  obtain ⟨ps, hm, he⟩ := bind_eq_ok.1 h
  clear h
  cases he
  refine ⟨ps, rfl, ?_⟩
  induction fs generalizing ps with
  | nil =>
    cases hm
    exact .nil
  | cons x fs ih =>
    obtain ⟨l, v⟩ := x
    rw [List.mapM_cons] at hm
    obtain ⟨y, hy, hm⟩ := bind_eq_ok.1 hm
    obtain ⟨ys, hys, hm⟩ := bind_eq_ok.1 hm
    cases hm
    refine .cons ?_ (ih ys hys)
    dsimp only at hy
    split at hy
    · cases hy
      exact ⟨rfl, fun _ => rfl⟩
    · rename_i hn
      obtain ⟨u, -, hy⟩ := bind_eq_ok.1 hy
      cases hy
      exact ⟨rfl, fun hl => absurd (List.contains_iff_mem.2 hl) hn⟩

theorem Template.get?_resolveParams {fs : Fields} {scope : Scope} {raw : List String} {params : Json}
    (h : resolveParams (.obj fs) scope raw = .ok params) :
    ∃ ps, params = .obj ps ∧ ∀ k ∈ raw, Table.get? k ps = Table.get? k fs := by
  obtain ⟨ps, rfl, hps⟩ := resolveParams_raw h
  refine ⟨ps, rfl, fun k hk => ?_⟩
  clear h
  induction hps with
  | nil => rfl
  | @cons x y fs ps hxy _ ih =>
    rw [Table.get?, Table.get?, ih, hxy.1]
    split
    · rename_i hl
      rw [hxy.2 (hl ▸ hk)]
    · rfl

/-- The script of a `code` step does not read the clock. -/
def StepDefinition.ReadsNoClock (limits : Script.Limits) (s : StepDefinition) : Prop :=
  s.stepType = "code" → ∀ code, Table.get? "code" s.params = some (.str code) →
    Script.ReadsNoClock limits code

namespace Handler

variable {w w' : World} {h : Handler}

theorem find?_twins {hs hs' : List Handler} (ht : List.Forall₂ (Twins w w') hs hs')
    (name : String) :
    Option.Rel (Twins w w') (hs.find? (·.name == name)) (hs'.find? (·.name == name)) := by
  induction ht with
  | nil => exact .none
  | cons h _ ih =>
    rw [List.find?_cons, List.find?_cons, h.name]
    split
    · exact .some h
    · exact ih

theorem code_mem_raw (hm : h ∈ builtins w) (hn : h.name = "code") : "code" ∈ h.raw := by
  simp only [builtins, List.mem_cons, List.not_mem_nil, or_false] at hm
  rcases hm with rfl | rfl | rfl | rfl | rfl | rfl
  · simp [Command.handler] at hn
  · simp [Delay.handler] at hn
  · simp [Webhook.handler] at hn
  · simp [Notify.handler] at hn
  · simp [Check.handler] at hn
  · exact List.mem_singleton.2 rfl

/-- The parameters of an invocation hold the script of its step. -/
theorem readsNoClock_of_step {s : StepDefinition} {scope : Scope} {params : Json}
    (hs : s.ReadsNoClock w.limits) (hm : h ∈ builtins w) (hn : h.name = s.stepType)
    (hp : Template.resolveParams (.obj s.params) scope h.raw = .ok params) :
    ReadsNoClock w.limits h.name params := by
  intro hc p hd
  obtain ⟨ps, rfl, hraw⟩ := Template.get?_resolveParams hp
  refine hs (hn ▸ hc) p.code ?_
  rw [← hraw "code" (code_mem_raw hm hc), Code.decode_code hd]

end Handler

namespace Engine

variable {e e' : Engine} {w w' : World} {id : String} {s s' : StepDefinition} {scope : Scope}
  {c : Context} {device : Option String}

theorem invoke_untimed (he : e.registry = .ofWorld w) :
    e.invoke s scope.untimed = e.invoke s scope := by
  unfold invoke
  rw [he, Registry.resolve_ofWorld]
  cases hf : (Handler.builtins w).find? (·.name == s.stepType) with
  | none => rfl
  | some h =>
    have hm := List.mem_of_find?_eq_some hf
    simp only [Option.elim_some, Timeline.ofExcept_ok_bind, Handler.run_untimed hm]
    rfl

/-- **An invocation** does the same in two worlds that answer its calls alike. -/
theorem invoke_eq (he : e.registry = .ofWorld w) (he' : e'.registry = .ofWorld w')
    (hl : w'.limits = w.limits) (htype : s'.stepType = s.stepType) (hparams : s'.params = s.params)
    (ht : e'.timeout s' = e.timeout s) (hc : s.ReadsNoClock w.limits)
    (ha : w.AnswerAlike w' scope (e.invoke s scope).events) :
    e'.invoke s' scope = e.invoke s scope := by
  unfold invoke at ha ⊢
  rw [he, Registry.resolve_ofWorld] at ha
  rw [he, he', htype, hparams, ht, Registry.resolve_ofWorld, Registry.resolve_ofWorld]
  have hrel := Handler.find?_twins (Handler.builtins_twins hl) s.stepType
  cases hf : (Handler.builtins w).find? (·.name == s.stepType) with
  | none =>
    rw [hf] at hrel
    cases hf' : (Handler.builtins w').find? (·.name == s.stepType) with
    | none => rfl
    | some h' => rw [hf'] at hrel; cases hrel
  | some h =>
    rw [hf] at hrel
    cases hf' : (Handler.builtins w').find? (·.name == s.stepType) with
    | none => rw [hf'] at hrel; cases hrel
    | some h' =>
      rw [hf'] at hrel
      obtain ⟨ht⟩ := hrel
      simp only [hf, Option.elim_some, Timeline.ofExcept_ok_bind] at ha ⊢
      rw [ht.raw]
      cases hp : Template.resolveParams (.obj s.params) scope h.raw with
      | error f => rw [Timeline.ofExcept_error_bind, Timeline.ofExcept_error_bind]
      | ok params =>
        simp only [hp, Timeline.ofExcept_ok_bind] at ha ⊢
        have hn : h.name = s.stepType := by simpa using List.find?_some hf
        rw [(ht.ordered params scope).events_within] at ha
        refine (Timeline.AlikeUpTo.within_eq (ht.alike params scope _ ?_ ha) _).symm
        exact Handler.readsNoClock_of_step hc (List.mem_of_find?_eq_some hf) hn hp

/-! ## Two engines -/

/-- Engines that differ at most in the worlds behind their handlers, in the number of invocations
that they let go on at a time and in the moment at which they start. -/
structure Counterparts (w w' : World) (e e' : Engine) : Prop where
  left : e.registry = .ofWorld w
  right : e'.registry = .ofWorld w'
  limits : w'.limits = w.limits
  execution : e'.execution = e.execution
  config : e'.config = { e.config with maxParallelDevices := e'.config.maxParallelDevices }

theorem Counterparts.timeout (h : Counterparts w w' e e')
    (hs : s' = { s with devices := s'.devices }) : e'.timeout s' = e.timeout s := by
  unfold Engine.timeout
  rw [h.config, hs]

theorem scopeFor_untimed : (e.scopeFor id c device).untimed = e.scopeFor id c.untimed device := by
  cases device <;> rfl

/-- What there is to merge of an invocation depends on no moment of the visits before. -/
theorem settled_untimed (he : e.registry = .ofWorld w) :
    e.settled id s c.untimed device = e.settled id s c device := by
  have ht : e.invoke s (e.scopeFor id c.untimed device) = e.invoke s (e.scopeFor id c device) := by
    rw [← scopeFor_untimed, invoke_untimed he]
  have hv : (e.scopeFor id c.untimed device).vars = (e.scopeFor id c device).vars := by
    rw [← scopeFor_untimed]
    rfl
  rw [settled, settled, invocation, invocation, ht, hv]

/-- What there is to merge of an invocation is the same for counterparts whose worlds answer its
calls alike. -/
theorem Counterparts.settled_eq (h : Counterparts w w' e e')
    (hs : s' = { s with devices := s'.devices }) (hc : s.ReadsNoClock w.limits)
    (ha : w.AnswerAlike w' (e.scopeFor id c device) (e.invoke s (e.scopeFor id c device)).events) :
    e'.settled id s' c device = e.settled id s c device := by
  have hscope : e'.scopeFor id c device = e.scopeFor id c device := by
    rw [scopeFor, h.execution, scopeFor]
  have ht : e'.invoke s' (e.scopeFor id c device) = e.invoke s (e.scopeFor id c device) :=
    invoke_eq h.left h.right h.limits (by rw [hs]) (by rw [hs]) (h.timeout hs) hc ha
  rw [settled, settled, invocation, invocation, hscope, ht]

end Engine
end Runbook

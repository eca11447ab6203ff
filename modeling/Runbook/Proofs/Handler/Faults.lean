import Runbook.Proofs.Handler.Answers
import Runbook.Proofs.Handler.Values
import Runbook.Run.Step

/-!
# Faults of handlers

A registry says that a type of step is unknown when it has no handler for it. No built-in handler ends
with such a fault itself, unless what it reaches outside does (`Handler.builtins_knowType`), and no
other fault makes a result that says so (`StepFault.saysUnknownType_result`). So nothing that the
built-in handlers come to says it (`World.KnowsTypes.registry`).
-/

namespace Runbook

/-- The result of an invocation says that its type of step is unknown. -/
def StepResult.SaysUnknownType (r : StepResult) : Prop :=
  r.status = .error ∧ ∃ name, r.message = (StepFault.unknownStepType name).message

namespace StepFault

/-- The fault is not that a type of step is unknown. -/
def KnowsType (f : StepFault) : Prop := ∀ name, f ≠ .unknownStepType name

/-- The wording of no other fault begins like the one of an unknown type. -/
theorem KnowsType.message_ne {f : StepFault} (h : f.KnowsType) (name : String) :
    f.message ≠ (unknownStepType name).message := by
  have hopening {a b x y : String} (he : a ++ x = b ++ y) (ha : 3 ≤ a.toList.length)
      (hb : 3 ≤ b.toList.length) : a.toList.take 3 = b.toList.take 3 := by
    have htake := congrArg (fun m : String => m.toList.take 3) he
    simpa only [String.toList_append, List.take_append_of_le_length ha,
      List.take_append_of_le_length hb] using htake
  intro he
  cases f with
  | unknownStepType n => exact h n rfl
  | _ =>
    unfold message at he
    simp only [String.append_assoc] at he
    exact absurd (hopening he (by decide +kernel) (by decide +kernel)) (by decide +kernel)

theorem saysUnknownType_result {f : StepFault} : f.result.SaysUnknownType ↔ ¬f.KnowsType := by
  refine ⟨fun ⟨_, name, hm⟩ hk => hk.message_ne name hm, fun hk => ?_⟩
  obtain ⟨name, rfl⟩ : ∃ name, f = .unknownStepType name := by simpa [KnowsType] using hk
  exact ⟨rfl, name, rfl⟩

end StepFault

/-- Nothing outside answers that a type of step is unknown. -/
structure World.KnowsTypes (w : World) : Prop where
  transport : ∀ o c e, (w.transport o c).outcome = .fault e → e.KnowsType
  relay : ∀ o n e, (w.relay o n).outcome = .fault e → e.KnowsType
  exchange : ∀ o r seconds e, (w.exchange o r seconds).outcome = .fault e → e.KnowsType

namespace Handler

variable {α : Type} {w : World} {name : String} {d : Decoder α} {params : Json} {scope : Scope}
  {e : StepFault}

theorem decodeParams_knowsType (h : decodeParams name d params = .error e) : e.KnowsType := by
  unfold decodeParams at h
  split at h <;> cases h
  nofun

/-! ## Commands -/

namespace Command

variable {send : Nat → CommandCall → Response CommandOutput} {device : String}
  {timeout : Option Nat} {a : Answers} {cs : List String} {mode : ParseMode}
  {expect reject : Option (String × Pattern)}

theorem readParams_knowsType (h : readParams params = .error e) : e.KnowsType := by
  rcases bind_eq_error.1 h with h | ⟨p, -, h⟩
  · exact decodeParams_knowsType h
  · split at h <;> cases h
    nofun

theorem patternOf_knowsType {text : Option String} (h : patternOf name text = .error e) :
    e.KnowsType := by
  unfold patternOf at h
  split at h
  · cases h
  · split at h <;> cases h
    nofun

theorem runAll_faultsOnly (hs : ∀ n c e, (send n c).outcome = .fault e → e.KnowsType) :
    (runAll send device timeout a cs).FaultsOnly StepFault.KnowsType := by
  induction cs generalizing a with
  | nil => exact Timeline.faultsOnly_pure _
  | cons c cs ih =>
    refine (Timeline.faultsOnly_emit _).bind fun _ =>
      (Timeline.faultsOnly_await (hs _ _)).bind fun o => ?_
    dsimp only
    split
    · exact ih
    · exact Timeline.faultsOnly_pure _

theorem verdict_knowsType (h : verdict device mode expect reject a = .error e) : e.KnowsType := by
  rcases bind_eq_error.1 h with h | ⟨parsed, -, h⟩
  · unfold parseOutput at h
    split at h
    · cases h
    · split at h <;> cases h
      nofun
    · cases h
  · cases expect with
    | none =>
      cases reject with
      | none => cases h
      | some _ =>
        dsimp only at h
        split at h <;> cases h
    | some _ =>
      dsimp only at h
      split at h
      · cases h
      · cases reject with
        | none => cases h
        | some _ =>
          dsimp only at h
          split at h <;> cases h

theorem run_faultsOnly {send : Occasion → CommandCall → Response CommandOutput}
    (hs : ∀ o c e, (send o c).outcome = .fault e → e.KnowsType) :
    ((handler send).run params scope).FaultsOnly StepFault.KnowsType := by
  unfold handler
  dsimp only
  split
  · exact Timeline.faultsOnly_fail nofun
  · refine (Timeline.faultsOnly_ofExcept fun _ => readParams_knowsType).bind fun p =>
      (Timeline.faultsOnly_ofExcept fun _ => patternOf_knowsType).bind fun _ =>
      (Timeline.faultsOnly_ofExcept fun _ => patternOf_knowsType).bind fun _ =>
      (runAll_faultsOnly fun _ => hs _).bind fun x => ?_
    cases x with
    | error r => exact Timeline.faultsOnly_pure _
    | ok a =>
      exact (Timeline.faultsOnly_ofExcept fun _ => verdict_knowsType).bind fun r =>
        Timeline.faultsOnly_pure _

end Command

/-! ## The other handlers -/

theorem Delay.duration_knowsType (h : Delay.duration params = .error e) : e.KnowsType := by
  rcases bind_eq_error.1 h with h | ⟨p, -, h⟩
  · exact decodeParams_knowsType h
  · split at h
    · split at h <;> cases h
      nofun
    · cases h
    · cases h
      nofun

theorem Delay.run_faultsOnly : (Delay.handler.run params scope).FaultsOnly StepFault.KnowsType :=
  (Timeline.faultsOnly_ofExcept fun _ => Delay.duration_knowsType).bind fun _ =>
    (Timeline.faultsOnly_sleep _).bind fun _ => Timeline.faultsOnly_pure _

theorem Notify.run_faultsOnly {relay : Occasion → Notification → Response Unit}
    (hs : ∀ o n e, (relay o n).outcome = .fault e → e.KnowsType) :
    ((Notify.handler relay).run params scope).FaultsOnly StepFault.KnowsType :=
  (Timeline.faultsOnly_ofExcept fun _ => decodeParams_knowsType).bind fun _ =>
    (((Timeline.faultsOnly_emit _).bind fun _ => Timeline.faultsOnly_await (hs _ _)).within _
      (by nofun)).bind fun _ => Timeline.faultsOnly_pure _

theorem Webhook.request_knowsType {p : Webhook.Params} (h : Webhook.request p = .error e) :
    e.KnowsType := by
  unfold Webhook.request at h
  split at h
  · cases h
    nofun
  · dsimp only at h
    split at h
    · cases h
      nofun
    · split at h <;> cases h
      nofun

theorem Webhook.resultOf_knowsType {p : Webhook.Params} {request : HttpRequest} {reply : HttpReply}
    (h : Webhook.resultOf p request reply = .error e) : e.KnowsType := by
  unfold Webhook.resultOf at h
  split at h
  · cases h
    nofun
  · cases h
    nofun
  · split at h <;> cases h
    nofun

theorem Webhook.run_faultsOnly {exchange : Occasion → HttpRequest → Nat → Response HttpReply}
    (hs : ∀ o r seconds e, (exchange o r seconds).outcome = .fault e → e.KnowsType) :
    ((Webhook.handler exchange).run params scope).FaultsOnly StepFault.KnowsType :=
  (Timeline.faultsOnly_ofExcept fun _ => decodeParams_knowsType).bind fun _ =>
    (Timeline.faultsOnly_ofExcept fun _ => Webhook.request_knowsType).bind fun _ =>
      (Timeline.faultsOnly_await (hs _ _ _)).bind fun _ =>
        (Timeline.faultsOnly_ofExcept fun _ => Webhook.resultOf_knowsType).bind fun _ =>
          Timeline.faultsOnly_pure _

theorem Check.holds_knowsType {c : Condition} (h : c.holds = .error e) : e.KnowsType := by
  have hnumber {v : Json} {e : StepFault} (h : Condition.number v = .error e) : e.KnowsType := by
    unfold Condition.number at h
    split at h <;> cases h
    nofun
  have hnumbers {a b : Json} {p : Float → Float → Bool} {e : StepFault}
      (h : Condition.compareNumbers a b p = .error e) : e.KnowsType := by
    rcases bind_eq_error.1 h with h | ⟨_, -, h⟩
    · exact hnumber h
    · rcases bind_eq_error.1 h with h | ⟨_, -, h⟩
      · exact hnumber h
      · cases h
  unfold Condition.holds at h
  split at h
  case h_3 | h_4 | h_5 | h_6 => exact hnumbers h
  case h_8 =>
    unfold Condition.matchesPattern at h
    split at h
    · split at h <;> cases h
      nofun
    · cases h
      nofun
  case h_11 | h_12 =>
    split at h <;> cases h
    nofun
  all_goals cases h

theorem Check.run_knowsType (h : Check.run params = .error e) : e.KnowsType := by
  rcases bind_eq_error.1 h with h | ⟨p, -, h⟩
  · exact decodeParams_knowsType h
  · split at h
    · cases h
      nofun
    · rcases bind_eq_error.1 h with h | ⟨_, -, h⟩
      · obtain ⟨c, -, hc⟩ := exists_of_mapM_eq_error h
        exact Check.holds_knowsType hc
      · split at h <;> cases h

theorem Check.run_faultsOnly : (Check.handler.run params scope).FaultsOnly StepFault.KnowsType :=
  (Timeline.faultsOnly_ofExcept fun _ => Check.run_knowsType).bind fun _ =>
    Timeline.faultsOnly_pure _

theorem Code.run_knowsType {limits : Script.Limits} {now : Instant} {p : Code.Params}
    (h : Code.run limits now scope p = .error e) : e.KnowsType := by
  rcases bind_eq_error.1 h with h | ⟨_, -, h⟩
  · unfold Script.scan at h
    split at h <;> cases h
    nofun
  · split at h
    · cases h
      nofun
    · rcases bind_eq_error.1 h with h | ⟨_, -, h⟩
      · unfold Code.varsOf at h
        split at h <;> cases h
        nofun
      · cases h

theorem Code.run_faultsOnly (limits : Script.Limits) (now : Occasion → Instant) :
    ((Code.handler limits now).run params scope).FaultsOnly StepFault.KnowsType :=
  (Timeline.faultsOnly_ofExcept fun _ => decodeParams_knowsType).bind fun _ =>
    (Timeline.faultsOnly_ofExcept fun _ => Code.run_knowsType).bind fun _ =>
      Timeline.faultsOnly_pure _

/-- **No built-in handler** says that a type of step is unknown, if nothing outside does. -/
theorem builtins_knowType (hw : w.KnowsTypes) {h : Handler} (hm : h ∈ builtins w) :
    (h.run params scope).FaultsOnly StepFault.KnowsType := by
  simp only [builtins, List.mem_cons, List.not_mem_nil, or_false] at hm
  rcases hm with rfl | rfl | rfl | rfl | rfl | rfl
  · exact Command.run_faultsOnly hw.transport
  · exact Delay.run_faultsOnly
  · exact Webhook.run_faultsOnly hw.exchange
  · exact Notify.run_faultsOnly hw.relay
  · exact Check.run_faultsOnly
  · exact Code.run_faultsOnly _ _

end Handler

/-- No handler says itself that a type of step is unknown. -/
def Registry.KnowsTypes (r : Registry) : Prop :=
  ∀ name h, r.resolve name = .ok h → ∀ params scope,
    ¬(Invocation.resultOf (h.run params scope)).SaysUnknownType

/-- The built-in handlers do not, if nothing outside does. -/
theorem World.KnowsTypes.registry {w : World} (hw : w.KnowsTypes) : (Registry.ofWorld w).KnowsTypes := by
  intro name h hh params scope hsays
  rw [Registry.resolve_ofWorld] at hh
  cases hf : (Handler.builtins w).find? (·.name == name) with
  | none => rw [hf] at hh; cases hh
  | some h' =>
    rw [hf] at hh
    cases hh
    have hm := List.mem_of_find?_eq_some hf
    unfold Invocation.resultOf at hsays
    cases ho : (h.run params scope).outcome with
    | value x =>
      rw [ho] at hsays
      exact (Handler.builtins_yield hm x ho).1 hsays.1
    | fault f =>
      rw [ho] at hsays
      exact StepFault.saysUnknownType_result.1 hsays (Handler.builtins_knowType hw hm f ho)
    | panic m =>
      rw [ho] at hsays
      exact StepFault.saysUnknownType_result.1 hsays nofun

end Runbook

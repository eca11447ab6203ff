import Runbook.Proofs.Handler.Transcript

/-!
# Faults of the parameters and what was done before

A handler that finds fault with its parameters does so before it calls anything outside: without
valid parameters a `command` step sends nothing (`Command.calls_eq_nil_or_accepts`), and a `notify`
step that has a message does nothing but deliver it (`Notify.run_of_decode`). So such a fault after
a call is an answer to the call or the judgement on outputs that are no JSON document
(`calls_eq_nil_of_ofParams`).
-/

namespace Runbook

/-- The fault says that the parameters do not fit the type of step. -/
def StepFault.OfParams : StepFault → Prop
  | .invalidParams _ | .missingDevice _ => True
  | _ => False

namespace Handler

variable {params : Json} {scope : Scope} {f : StepFault}

/-! ## Commands -/

namespace Command

variable {send : Occasion → CommandCall → Response CommandOutput} {device : String} {p : Params}
  {expect reject : Option (String × Pattern)}

/-- Nothing is sent without a device and valid parameters. -/
theorem calls_eq_nil_or_accepts (send : Occasion → CommandCall → Response CommandOutput)
    (params : Json) (scope : Scope) : ((handler send).run params scope).calls = [] ∨
      ∃ device p expect reject, Accepts params scope device p expect reject := by
  unfold handler
  dsimp only
  cases hd : scope.device with
  | none => exact .inl rfl
  | some device =>
    cases hp : readParams params with
    | error f => exact .inl rfl
    | ok p =>
      cases he : patternOf "expect" p.expect with
      | error f =>
        refine .inl ?_
        simp only [he, Timeline.ofExcept_ok_bind, Timeline.ofExcept_error_bind, Timeline.calls_fail]
      | ok expect =>
        cases hr : patternOf "reject" p.reject with
        | error f =>
          refine .inl ?_
          simp only [he, hr, Timeline.ofExcept_ok_bind, Timeline.ofExcept_error_bind,
            Timeline.calls_fail]
        | ok reject =>
          obtain ⟨hdecode, hne⟩ := readParams_eq_ok.1 hp
          exact .inr ⟨device, p, expect, reject, hd, hdecode, hne, he, hr⟩

/-- The transport itself answers one of the calls with the fault. -/
def Passes (send : Occasion → CommandCall → Response CommandOutput) (params : Json) (scope : Scope)
    (f : StepFault) : Prop :=
  ∃ n call, ((handler send).run params scope).calls[n]? = some (.command call) ∧
    (send (scope.occasion n) call).outcome = .fault f

/-- All commands are sent and exit cleanly, and their output is no JSON document where one is asked
for. -/
def Chokes (send : Occasion → CommandCall → Response CommandOutput) (params : Json)
    (scope : Scope) : Prop :=
  ∃ device p expect reject outputs, Accepts params scope device p expect reject ∧
    ((handler send).run params scope).calls =
      (p.all.map fun c => CommandCall.mk device c p.timeout).map Event.command ∧
    AnswersCleanly (fun n => send (scope.occasion n))
      (p.all.map fun c => CommandCall.mk device c p.timeout) outputs ∧
    outputs.length = p.all.length ∧ Unreadable p.parse (String.join (outputs.map (·.output)))

theorem Passes.calls_ne_nil (h : Passes send params scope f) :
    ((handler send).run params scope).calls ≠ [] := by
  obtain ⟨n, call, hn, -⟩ := h
  intro hnil
  rw [hnil] at hn
  cases hn

theorem Chokes.calls_ne_nil (h : Chokes send params scope) :
    ((handler send).run params scope).calls ≠ [] := by
  obtain ⟨_, p, _, _, _, haccepts, hcalls, -⟩ := h
  simpa [hcalls] using haccepts.some

/-- A fault after a call is an answer to one or the judgement on what is no JSON document. -/
theorem passes_or_chokes (ho : ((handler send).run params scope).outcome = .fault f)
    (h : Accepts params scope device p expect reject) :
    Passes send params scope f ∨ Chokes send params scope := by
  obtain ⟨outputs, hanswers, hcalls, hend⟩ := run_transcript send h
  have hresult : (Invocation.resultOf ((handler send).run params scope)).status = .error := by
    rw [Invocation.resultOf, ho]
    rfl
  cases hx : answer? (fun n => send (scope.occasion n))
      (p.all.map fun c => CommandCall.mk device c p.timeout) outputs.length with
  | none =>
    rw [hx] at hend
    obtain ⟨hlength, hjudged⟩ := hend
    refine .inr ⟨device, p, expect, reject, outputs, h, ?_, hanswers, by simpa using hlength,
      hjudged.error_iff.1 hresult⟩
    rw [hcalls, List.take_of_length_le (by omega)]
  | some answer =>
    rw [hx] at hend
    cases answer with
    | value o =>
      obtain ⟨-, hfailed, -⟩ := hend
      rw [hresult] at hfailed
      cases hfailed
    | fault g =>
      obtain rfl : f = g := by
        rw [ho] at hend
        cases hend
        rfl
      obtain ⟨call, hcall, hsend⟩ := Option.map_eq_some_iff.1 hx
      refine .inl ⟨outputs.length, call, ?_, hsend⟩
      rw [hcalls, List.getElem?_map, List.getElem?_take_of_lt (by omega), hcall]
      rfl
    | panic m =>
      rw [ho] at hend
      cases hend

end Command

/-! ## Notifications -/

namespace Notify

variable {relay : Occasion → Notification → Response Unit} {n : Notification}

/-- The result of a delivery. -/
def sent (n : Notification) : StepResult :=
  .success ("Notification sent via " ++ n.channel ++ " to " ++ toString n.recipients.length ++
    " recipient(s)") n.toJson

/-- What a delivery comes to that ends in time. -/
def delivered (n : Notification) (vars : Fields) : Outcome Unit → Outcome (StepResult × Fields)
  | .value _ => .value (sent n, vars)
  | .fault f => .fault f
  | .panic m => .panic m

/-- A delivery for which there are some seconds. -/
def delivery (n : Notification) (vars : Fields) (answer : Response Unit) (seconds : Nat) :
    Timeline (StepResult × Fields) :=
  ⟨[(0, .notice n)], min answer.elapsed (seconds * 1000),
    if answer.elapsed ≤ seconds * 1000 then delivered n vars answer.outcome
    else .fault (.timeout seconds)⟩

/-- **A message is handed over once**, and what comes of it counts when it comes in time. -/
theorem run_of_decode (relay : Occasion → Notification → Response Unit) (scope : Scope)
    (h : Notification.decode params = .ok n) :
    (handler relay).run params scope =
      delivery n scope.vars (relay (scope.occasion 0) n) (limit params) := by
  let answer := relay (scope.occasion 0) n
  let seconds := limit params
  let handed : Timeline Unit := do
    Timeline.emit (.notice n)
    Timeline.await answer
  have hhanded : handed = ⟨[(0, .notice n)], answer.elapsed, answer.outcome⟩ := by
    refine (Timeline.bind_value rfl).trans ?_
    simp [Timeline.emit, Timeline.await, Timeline.later]
  have hrun : (handler relay).run params scope =
      handed.within (seconds * 1000) (.fault (.timeout seconds)) >>=
        fun _ => pure (sent n, scope.vars) := by
    unfold handler
    simp only [decodeParams_eq_ok.2 h, Timeline.ofExcept_ok_bind]
    rfl
  rw [hrun, hhanded, Timeline.within, delivery]
  by_cases hl : answer.elapsed ≤ seconds * 1000
  · rw [if_pos hl, if_pos hl, Nat.min_eq_left hl]
    cases ho : answer.outcome with
    | value _ => exact Timeline.bind_value rfl
    | fault f => exact Timeline.bind_fault rfl
    | panic m => exact Timeline.bind_panic rfl
  · rw [if_neg hl, if_neg hl, Nat.min_eq_right (Nat.le_of_not_le hl)]
    exact Timeline.bind_fault rfl

theorem calls_of_decode (h : Notification.decode params = .ok n) :
    ((handler relay).run params scope).calls = [.notice n] := by
  rw [run_of_decode relay scope h]
  rfl

/-- Nothing is handed over without a message. -/
theorem calls_eq_nil (h : ∀ n, Notification.decode params ≠ .ok n) :
    ((handler relay).run params scope).calls = [] := by
  unfold handler
  dsimp only
  cases hn : decodeParams "notify" Notification.decode params with
  | error f => rfl
  | ok n => exact absurd (decodeParams_eq_ok.1 hn) (h n)

/-- The relay itself answers with the fault. -/
def Passes (relay : Occasion → Notification → Response Unit) (params : Json) (scope : Scope)
    (f : StepFault) : Prop :=
  ∃ n, ((handler relay).run params scope).calls = [.notice n] ∧
    (relay (scope.occasion 0) n).outcome = .fault f

theorem passes_of_decode (hf : f.OfParams)
    (ho : ((handler relay).run params scope).outcome = .fault f)
    (h : Notification.decode params = .ok n) : Passes relay params scope f := by
  refine ⟨n, calls_of_decode h, ?_⟩
  rw [run_of_decode relay scope h, delivery] at ho
  dsimp only at ho
  split at ho
  · cases hr : (relay (scope.occasion 0) n).outcome with
    | value _ =>
      rw [hr] at ho
      cases ho
    | fault g =>
      rw [hr] at ho
      cases ho
      rfl
    | panic m =>
      rw [hr] at ho
      cases ho
  · cases ho
    exact absurd hf id

end Notify

/-- **A fault of the parameters** comes before anything is done. It comes after a call only when the
transport or the relay itself answers with it, or when the output of all commands is no JSON
document where one is asked for. -/
theorem calls_eq_nil_of_ofParams (transport : Occasion → CommandCall → Response CommandOutput)
    (relay : Occasion → Notification → Response Unit) (params : Json) (scope : Scope)
    (hf : f.OfParams) :
    let command := (Command.handler transport).run params scope
    let notify := (Notify.handler relay).run params scope
    (command.outcome = .fault f → (command.calls = [] ↔
      ¬Command.Passes transport params scope f ∧ ¬Command.Chokes transport params scope)) ∧
    (notify.outcome = .fault f → (notify.calls = [] ↔ ¬Notify.Passes relay params scope f)) := by
  intro command notify
  refine ⟨fun ho => ⟨fun hnil => ⟨?_, ?_⟩, fun ⟨hp, hc⟩ => ?_⟩,
    fun ho => ⟨fun hnil ⟨n, hcalls, _⟩ => ?_, fun hp => ?_⟩⟩
  · exact fun hp => hp.calls_ne_nil hnil
  · exact fun hc => hc.calls_ne_nil hnil
  · rcases Command.calls_eq_nil_or_accepts transport params scope with hnil | ⟨_, _, _, _, h⟩
    · exact hnil
    · exact absurd (Command.passes_or_chokes ho h) (not_or.2 ⟨hp, hc⟩)
  · rw [show notify.calls = [] from hnil] at hcalls
    cases hcalls
  · by_cases hn : ∃ n, Notification.decode params = .ok n
    · obtain ⟨n, hn⟩ := hn
      exact absurd (Notify.passes_of_decode hf ho hn) hp
    · exact Notify.calls_eq_nil (not_exists.1 hn)

/-- Parameters without a command are refused before anything is sent. -/
theorem calls_eq_nil_of_no_command :
    let params := Json.ofFields [("commands", .arr [])]
    let scope : Scope := { (default : Scope) with device := some "r1" }
    let f : StepFault := .invalidParams "command step needs 'command' or 'commands'"
    f.OfParams ∧ ((Command.handler Command.unruly).run params scope).outcome = .fault f ∧
      ((Command.handler Command.unruly).run params scope).calls = [] := by
  intro params scope f
  have ho : ((Command.handler Command.unruly).run params scope).outcome = .fault f := rfl
  refine ⟨trivial, ho, ?_⟩
  refine ((calls_eq_nil_of_ofParams Command.unruly (fun _ _ => ⟨0, .value ()⟩) params scope
    (f := f) trivial).1 ho).2 ⟨fun ⟨_, call, _, hsend⟩ => ?_, fun ⟨_, p, _, _, _, h, _⟩ => ?_⟩
  · -- The device answers every command.
    unfold Command.unruly at hsend
    split at hsend <;> cases hsend
  · have hp := h.params
    cases hp
    exact h.some rfl

/-- The output of a command that is no JSON document is called a fault of the parameters. -/
theorem invalidParams_after_command :
    ¬∀ (transport : Occasion → CommandCall → Response CommandOutput) (params : Json) (scope : Scope)
      (f : StepFault), f.OfParams →
      ((Command.handler transport).run params scope).outcome = .fault f →
      ((Command.handler transport).run params scope).calls = [] := by
  intro h
  let params := Json.ofFields [("command", .str "show"), ("parse", .str "json")]
  let scope : Scope := { (default : Scope) with device := some "r1" }
  let f : StepFault :=
    .invalidParams "Output is not valid JSON: expected value at line 1 column 1"
  have ho : ((Command.handler Command.unruly).run params scope).outcome = .fault f := rfl
  have hcalls : ((Command.handler Command.unruly).run params scope).calls =
      [.command ⟨"r1", "show", none⟩] := rfl
  have hnil := h Command.unruly params scope f trivial ho
  rw [hcalls] at hnil
  cases hnil

end Handler
end Runbook

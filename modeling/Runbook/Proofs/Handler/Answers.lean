import Mathlib.Data.List.Forall2
import Runbook.Handler.Builtin
import Runbook.Proofs.Json.Decode
import Runbook.Proofs.Script.Clock
import Runbook.Proofs.Table
import Runbook.Proofs.Timeline

/-!
# What handlers learn of the world

A built-in handler learns of the world what its calls are answered, and nothing else: in two worlds
that answer the calls up to a limit alike (`World.AnswerAlike`) it does the same up to that limit,
unless it runs a script that reads the clock (`Twins`). Of its scope it sees all but the moments of
the visits before (`run_untimed`).
-/

namespace Runbook

open Timeline (AlikeUpTo Ordered)

/-! ## Worlds -/

/-- Two worlds give the same answers to the calls that an invocation makes, and to any request that
it may send. -/
structure World.AnswerAlike (w w' : World) (scope : Scope) (calls : List (Nat × Event)) : Prop where
  command : ∀ {n t c}, calls[n]? = some (t, .command c) →
    w'.transport (scope.occasion n) c = w.transport (scope.occasion n) c
  notice : ∀ {n t m}, calls[n]? = some (t, .notice m) →
    w'.relay (scope.occasion n) m = w.relay (scope.occasion n) m
  request : ∀ r seconds,
    w'.exchange (scope.occasion 0) r seconds = w.exchange (scope.occasion 0) r seconds

/-! ## Scopes -/

/-- The visit without its moments. -/
def Visit.untimed (v : Visit) : Visit := { v with started := default, finished := default }

/-- The context without the moments of its visits. -/
def Context.untimed (c : Context) : Context := { c with history := c.history.map Visit.untimed }

/-- The scope without the moments of the visits before. -/
def Scope.untimed (s : Scope) : Scope := { s with context := s.context.untimed }

@[simp] theorem Scope.occasion_untimed (s : Scope) (n : Nat) : s.untimed.occasion n = s.occasion n := by
  simp [Scope.occasion, Scope.untimed, Context.untimed]

namespace Handler

variable {w w' : World} {scope : Scope} {params : Json} {limit : Nat}

theorem decodeParams_eq_ok {α : Type} {name : String} {d : Decoder α} {a : α} :
    decodeParams name d params = .ok a ↔ d params = .ok a := by
  unfold decodeParams
  split <;> simp_all

/-! ## Commands -/

namespace Command

variable {send send' : Nat → CommandCall → Response CommandOutput} {device : String}
  {timeout : Option Nat} {a : Answers} {cs : List String} {c : String}

/-- The commands after one that exits cleanly. -/
def rest (send : Nat → CommandCall → Response CommandOutput) (device : String)
    (timeout : Option Nat) (a : Answers) (c : String) (cs : List String) (o : CommandOutput) :
    Timeline (Except StepResult Answers) :=
  if o.exitedCleanly then runAll send device timeout (a.push o) cs
  else
    pure (.error (.failed ("'" ++ c ++ "' exited with code " ++ toString (o.exitCode.getD (-1)))
      (.ofFields (a.push o).fields)))

theorem runAll_cons : runAll send device timeout a (c :: cs) =
    (do
      Timeline.emit (.command ⟨device, c, timeout⟩)
      let o ← Timeline.await (send a.outputs.length ⟨device, c, timeout⟩)
      rest send device timeout a c cs o) := rfl

theorem runAll_ordered : Ordered (runAll send device timeout a cs) := by
  induction cs generalizing a with
  | nil => exact Timeline.ordered_pure _
  | cons c cs ih =>
    rw [runAll_cons]
    refine (Timeline.ordered_emit _).bind fun _ => (Timeline.ordered_await _).bind fun o => ?_
    unfold rest
    split
    · exact ih
    · exact Timeline.ordered_pure _

/-- Commands that are answered alike go on alike. -/
theorem runAll_alike (h : ∀ {n t c},
      (runAll send device timeout a cs).events[n]? = some (t, .command c) → t ≤ limit →
      send' (a.outputs.length + n) c = send (a.outputs.length + n) c) :
    AlikeUpTo limit (runAll send device timeout a cs) (runAll send' device timeout a cs) := by
  induction cs generalizing a limit with
  | nil => exact .refl _ _
  | cons c cs ih =>
    let call : CommandCall := ⟨device, c, timeout⟩
    have hfirst : send' a.outputs.length call = send a.outputs.length call := by
      refine h (n := 0) (t := 0) (c := call) ?_ (Nat.zero_le _)
      rw [runAll_cons]
      exact Timeline.getElem?_bind rfl
    rw [runAll_cons, runAll_cons, hfirst]
    refine Timeline.bind_alike fun _ _ _ => Timeline.bind_alike fun o ho hl => ?_
    unfold rest
    split
    · rename_i hclean
      refine ih fun {n t c'} hn ht => ?_
      have hlater : (runAll send device timeout a (c :: cs)).events[n + 1]? =
          some (t + (send a.outputs.length call).elapsed, .command c') := by
        rw [runAll_cons, Nat.add_comm n 1]
        refine Timeline.getElem?_bind_value (x := (_, _)) rfl ?_
        rw [← Nat.zero_add n]
        refine Timeline.getElem?_bind_value (x := (t, _)) ho ?_
        rwa [rest, if_pos hclean]
      have hlen : (a.push o).outputs.length + n = a.outputs.length + (n + 1) := by
        simp only [Answers.push, List.length_append, List.length_singleton]
        omega
      rw [hlen]
      have ht : t ≤ limit - (send a.outputs.length call).elapsed := ht
      have hl : (send a.outputs.length call).elapsed ≤ limit := hl
      exact h hlater (by omega)
    · exact .refl _ _

theorem run_ordered (t : Occasion → CommandCall → Response CommandOutput) :
    Ordered ((handler t).run params scope) := by
  unfold handler
  dsimp only
  split
  · exact Timeline.ordered_of_events_nil rfl
  · refine (Timeline.ordered_ofExcept _).bind fun p => (Timeline.ordered_ofExcept _).bind fun _ =>
      (Timeline.ordered_ofExcept _).bind fun _ => runAll_ordered.bind fun r => ?_
    cases r with
    | error _ => exact Timeline.ordered_pure _
    | ok _ => exact (Timeline.ordered_ofExcept _).bind fun _ => Timeline.ordered_pure _

theorem run_alike (h : w.AnswerAlike w' scope
      (((handler w.transport).run params scope).events.filter fun e => e.1 ≤ limit)) :
    AlikeUpTo limit ((handler w.transport).run params scope)
      ((handler w'.transport).run params scope) := by
  have ho : Ordered ((handler w.transport).run params scope) := run_ordered _
  unfold handler at h ho ⊢
  dsimp only at h ho ⊢
  split
  · exact .refl _ _
  · rename_i device hd
    rw [hd] at h ho
    dsimp only at h ho
    cases hp : readParams params with
    | error f =>
      rw [Timeline.ofExcept_error_bind, Timeline.ofExcept_error_bind]
      exact .refl _ _
    | ok p =>
      cases he : patternOf "expect" p.expect with
      | error f =>
        simp only [he, Timeline.ofExcept_ok_bind, Timeline.ofExcept_error_bind]
        exact .refl _ _
      | ok expect =>
        cases hr : patternOf "reject" p.reject with
        | error f =>
          simp only [he, hr, Timeline.ofExcept_ok_bind, Timeline.ofExcept_error_bind]
          exact .refl _ _
        | ok reject =>
          simp only [hp, he, hr, Timeline.ofExcept_ok_bind] at h ho ⊢
          refine (runAll_alike fun {n t c} hn ht => ?_).bind _
          have hc := h.command (Timeline.getElem?_filter_le ho.sorted (Timeline.getElem?_bind hn) ht)
          simpa using hc

end Command

/-! ## Notifications -/

namespace Notify

theorem run_ordered (r : Occasion → Notification → Response Unit) :
    Ordered ((handler r).run params scope) := by
  refine (Timeline.ordered_ofExcept _).bind fun n => Ordered.bind ?_ fun _ => Timeline.ordered_pure _
  exact Ordered.within_limit
    ((Timeline.ordered_emit _).bind fun _ => Timeline.ordered_await _) _

theorem run_eq (h : w.AnswerAlike w' scope
      (((handler w.relay).run params scope).events.filter fun e => e.1 ≤ limit)) :
    (handler w'.relay).run params scope = (handler w.relay).run params scope := by
  have ho : Ordered ((handler w.relay).run params scope) := run_ordered _
  unfold handler at h ho ⊢
  dsimp only at h ho ⊢
  cases hn : decodeParams "notify" Notification.decode params with
  | error f => rfl
  | ok n =>
    simp only [hn, Timeline.ofExcept_ok_bind] at h ho ⊢
    have hfirst : w'.relay (scope.occasion 0) n = w.relay (scope.occasion 0) n := by
      refine h.notice (t := 0) (Timeline.getElem?_filter_le ho.sorted ?_ (Nat.zero_le _))
      refine Timeline.getElem?_bind (Ordered.getElem?_within ?_ ?_ (Nat.zero_le _) _)
      · exact (Timeline.ordered_emit _).bind fun _ => Timeline.ordered_await _
      · exact Timeline.getElem?_bind rfl
    rw [hfirst]

end Notify

/-! ## Requests -/

namespace Webhook

theorem run_ordered (x : Occasion → HttpRequest → Nat → Response HttpReply) :
    Ordered ((handler x).run params scope) :=
  (Timeline.ordered_ofExcept _).bind fun _ => (Timeline.ordered_ofExcept _).bind fun _ =>
    (Timeline.ordered_await _).bind fun _ => (Timeline.ordered_ofExcept _).bind fun _ =>
      Timeline.ordered_pure _

theorem run_eq
    (h : ∀ r seconds, w'.exchange (scope.occasion 0) r seconds =
      w.exchange (scope.occasion 0) r seconds) :
    (handler w'.exchange).run params scope = (handler w.exchange).run params scope := by
  unfold handler
  simp only [h]

end Webhook

/-! ## Scripts -/

namespace Code

/-- The script that the parameters of a `code` step hold does not read the clock. -/
def ReadsNoClock (limits : Script.Limits) (params : Json) : Prop :=
  ∀ p, decode params = .ok p → Script.ReadsNoClock limits p.code

theorem decode_code {fs : Fields} {p : Params} (h : decode (.obj fs) = .ok p) :
    Table.get? "code" fs = some (.str p.code) := by
  obtain ⟨found, hf, h⟩ := bind_eq_ok.1 h
  obtain ⟨code, hc, h⟩ := bind_eq_ok.1 h
  obtain ⟨args, -, h⟩ := bind_eq_ok.1 h
  cases h
  obtain ⟨v, hv, ht⟩ := Decode.get_eq_ok.1 hc
  rw [Decode.text_eq_ok] at ht
  rw [← Decode.record_get? (by decide) hf, hv, ht]

theorem run_ordered (l : Script.Limits) (now : Occasion → Instant) :
    Ordered ((handler l now).run params scope) :=
  (Timeline.ordered_ofExcept _).bind fun _ => (Timeline.ordered_ofExcept _).bind fun _ =>
    Timeline.ordered_pure _

theorem run_eq_of_readsNoClock {limits : Script.Limits} {p : Params}
    (h : Script.ReadsNoClock limits p.code) (now now' : Instant) :
    run limits now' scope p = run limits now scope p := by
  unfold run
  rw [Script.run_eq_of_readsNoClock h now now']

theorem run_untimed {limits : Script.Limits} {now : Instant} {p : Params} :
    run limits now scope.untimed p = run limits now scope p := rfl

theorem run_eq {limits : Script.Limits} (now now' : Occasion → Instant)
    (h : ReadsNoClock limits params) :
    (handler limits now').run params scope = (handler limits now).run params scope := by
  unfold handler
  dsimp only
  cases hp : decodeParams "code" decode params with
  | error f => rw [Timeline.ofExcept_error_bind, Timeline.ofExcept_error_bind]
  | ok p =>
    have hp := h p (decodeParams_eq_ok.1 hp)
    rw [Timeline.ofExcept_ok_bind, Timeline.ofExcept_ok_bind, run_eq_of_readsNoClock hp]

end Code

/-! ## All built-in handlers -/

/-- The parameters of a step of some type hold no script that reads the clock. -/
def ReadsNoClock (limits : Script.Limits) (name : String) (params : Json) : Prop :=
  name = "code" → Code.ReadsNoClock limits params

/-- Handlers that do the same as long as their calls are answered alike and they do not read the
clock. -/
structure Twins (w w' : World) (h h' : Handler) : Prop where
  name : h'.name = h.name
  raw : h'.raw = h.raw
  ordered : ∀ params scope, Ordered (h.run params scope)
  alike : ∀ params scope limit, ReadsNoClock w.limits h.name params →
    w.AnswerAlike w' scope ((h.run params scope).events.filter fun e => e.1 ≤ limit) →
    AlikeUpTo limit (h.run params scope) (h'.run params scope)

theorem builtins_twins (hl : w'.limits = w.limits) :
    List.Forall₂ (Twins w w') (builtins w) (builtins w') := by
  refine .cons ⟨rfl, rfl, fun _ _ => Command.run_ordered _, fun _ _ _ _ h => Command.run_alike h⟩ <|
    .cons ⟨rfl, rfl, ?_, fun _ _ _ _ _ => .refl _ _⟩ <|
    .cons ⟨rfl, rfl, fun _ _ => Webhook.run_ordered _, fun _ _ _ _ h => ?_⟩ <|
    .cons ⟨rfl, rfl, fun _ _ => Notify.run_ordered _, fun _ _ _ _ h => ?_⟩ <|
    .cons ⟨rfl, rfl, ?_, fun _ _ _ _ _ => .refl _ _⟩ <|
    .cons ⟨rfl, rfl, fun _ _ => Code.run_ordered _ _, fun _ _ _ hc _ => ?_⟩ .nil
  · exact fun _ _ => (Timeline.ordered_ofExcept _).bind fun _ =>
      (Timeline.ordered_of_events_nil rfl).bind fun _ => Timeline.ordered_pure _
  · rw [Webhook.run_eq h.request]
    exact .refl _ _
  · rw [Notify.run_eq h]
    exact .refl _ _
  · exact fun _ _ => (Timeline.ordered_ofExcept _).bind fun _ => Timeline.ordered_pure _
  · rw [hl, Code.run_eq w.now w'.now (hc rfl)]
    exact .refl _ _

/-- What a built-in handler does depends on no moment of the visits before. -/
theorem run_untimed {h : Handler} (hm : h ∈ builtins w) :
    h.run params scope.untimed = h.run params scope := by
  simp only [builtins, List.mem_cons, List.not_mem_nil, or_false] at hm
  rcases hm with rfl | rfl | rfl | rfl | rfl | rfl
  · simp only [Command.handler, Scope.occasion_untimed]
    rfl
  · rfl
  · simp only [Webhook.handler, Scope.occasion_untimed]
    rfl
  · simp only [Notify.handler, Scope.occasion_untimed]
    rfl
  · rfl
  · simp only [Code.handler, Scope.occasion_untimed, Code.run_untimed]

end Handler

theorem Registry.resolve_eq_error {r : Registry} {name : String} {f : StepFault} :
    r.resolve name = .error f ↔ r.has name = false ∧ f = .unknownStepType name := by
  unfold resolve has Table.has
  cases Table.get? name r.handlers <;> simp [eq_comm]

/-- The registry of a world has its built-in handlers, each under its name. -/
theorem Registry.resolve_ofWorld (w : World) (name : String) :
    (Registry.ofWorld w).resolve name =
      ((Handler.builtins w).find? (·.name == name)).elim (.error (.unknownStepType name)) .ok := by
  have hn : (((Handler.builtins w).map fun h => (h.name, h)).map (·.1)).Nodup := by
    change ["command", "delay", "webhook", "notify", "check", "code"].Nodup
    decide
  have hf : (((Handler.builtins w).map fun h => (h.name, h)).find? (·.1 == name)).map (·.2) =
      (Handler.builtins w).find? (·.name == name) := by
    rw [List.find?_map, Option.map_map]
    exact Option.map_id'
  unfold resolve ofWorld
  rw [Table.get?_ofList hn, hf]
  cases (Handler.builtins w).find? (·.name == name) with
  | none => rfl
  | some h => rfl

theorem Registry.resolve_builtin {w : World} {h : Handler} (hm : h ∈ Handler.builtins w) :
    (Registry.ofWorld w).resolve h.name = .ok h := by
  rw [resolve_ofWorld]
  simp only [Handler.builtins, List.mem_cons, List.not_mem_nil, or_false] at hm
  rcases hm with rfl | rfl | rfl | rfl | rfl | rfl
  all_goals rfl

end Runbook

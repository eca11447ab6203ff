import Runbook.Handler.Builtin
import Runbook.Proofs.Json.Decode
import Runbook.Proofs.Timeline

/-!
# What handlers yield

A built-in handler that comes to an end yields a success or a failure, never an error: what it cannot
do is a fault. Only scripts write, so every handler but the one of `code` steps leaves the namespace
as it found it (`Handler.builtins_yield`).
-/

namespace Runbook.Handler

variable {w : World} {params : Json} {scope : Scope} {r : StepResult}

/-- The result is no error, and the namespace is the one of the scope. -/
def Keeps (scope : Scope) (x : StepResult × Fields) : Prop :=
  x.1.status ≠ .error ∧ x.2 = scope.vars

/-! ## Commands -/

namespace Command

theorem runAll_yields {send : Nat → CommandCall → Response CommandOutput} {device : String}
    {timeout : Option Nat} {a : Answers} {cs : List String} :
    (runAll send device timeout a cs).Yields fun x => ∀ r, x = .error r → r.status ≠ .error := by
  induction cs generalizing a with
  | nil => exact Timeline.yields_pure nofun
  | cons c cs ih =>
    refine (Timeline.yields_true _).bind fun _ _ => (Timeline.yields_true _).bind fun o _ => ?_
    dsimp only
    split
    · exact ih
    · refine Timeline.yields_pure fun r hr => ?_
      cases hr
      nofun

theorem verdict_status {device : String} {mode : ParseMode} {expect reject : Option (String × Pattern)}
    {a : Answers} (h : verdict device mode expect reject a = .ok r) : r.status ≠ .error := by
  obtain ⟨parsed, -, h⟩ := bind_eq_ok.1 h
  cases expect with
  | none =>
    cases reject with
    | none =>
      cases h
      nofun
    | some _ =>
      dsimp only at h
      split at h
      all_goals
        cases h
        nofun
  | some _ =>
    dsimp only at h
    split at h
    · cases h
      nofun
    · cases reject with
      | none =>
        cases h
        nofun
      | some _ =>
        dsimp only at h
        split at h
        all_goals
          cases h
          nofun

theorem run_yields (send : Occasion → CommandCall → Response CommandOutput) :
    ((handler send).run params scope).Yields (Keeps scope) := by
  unfold handler
  dsimp only
  split
  · exact Timeline.yields_fail _
  · refine (Timeline.yields_true _).bind fun p _ => (Timeline.yields_true _).bind fun _ _ =>
      (Timeline.yields_true _).bind fun _ _ => runAll_yields.bind fun x hx => ?_
    cases x with
    | error r => exact Timeline.yields_pure ⟨hx r rfl, rfl⟩
    | ok a =>
      exact (Timeline.yields_ofExcept fun r hr => verdict_status hr).bind fun r hr =>
        Timeline.yields_pure ⟨hr, rfl⟩

end Command

/-! ## The other handlers -/

theorem Delay.run_yields : (Delay.handler.run params scope).Yields (Keeps scope) :=
  (Timeline.yields_true _).bind fun _ _ => (Timeline.yields_true _).bind fun _ _ =>
    Timeline.yields_pure ⟨nofun, rfl⟩

theorem Notify.run_yields (relay : Occasion → Notification → Response Unit) :
    ((Notify.handler relay).run params scope).Yields (Keeps scope) :=
  (Timeline.yields_true _).bind fun _ _ => (Timeline.yields_true _).bind fun _ _ =>
    Timeline.yields_pure ⟨nofun, rfl⟩

theorem Webhook.resultOf_status {p : Webhook.Params} {request : HttpRequest} {reply : HttpReply}
    (h : Webhook.resultOf p request reply = .ok r) : r.status ≠ .error := by
  cases reply with
  | unreachable | expired => cases h
  | reply status body =>
    unfold Webhook.resultOf at h
    dsimp only at h
    split at h
    · cases h
      nofun
    · cases h

theorem Webhook.run_yields (exchange : Occasion → HttpRequest → Nat → Response HttpReply) :
    ((Webhook.handler exchange).run params scope).Yields (Keeps scope) :=
  (Timeline.yields_true _).bind fun _ _ => (Timeline.yields_true _).bind fun _ _ =>
    (Timeline.yields_true _).bind fun _ _ =>
      (Timeline.yields_ofExcept fun _ hr => Webhook.resultOf_status hr).bind fun _ hr =>
        Timeline.yields_pure ⟨hr, rfl⟩

theorem Check.run_status (h : Check.run params = .ok r) : r.status ≠ .error := by
  obtain ⟨p, -, h⟩ := bind_eq_ok.1 h
  split at h
  · cases h
  · obtain ⟨outcomes, -, h⟩ := bind_eq_ok.1 h
    split at h
    all_goals
      cases h
      nofun

theorem Check.run_yields : (Check.handler.run params scope).Yields (Keeps scope) :=
  (Timeline.yields_ofExcept fun _ hr => Check.run_status hr).bind fun _ hr =>
    Timeline.yields_pure ⟨hr, rfl⟩

theorem Code.resultOf_status (v : Json) : (Code.resultOf v).status ≠ .error := by
  unfold Code.resultOf
  split <;> nofun

/-- A script may leave any namespace. -/
theorem Code.run_yields (limits : Script.Limits) (now : Occasion → Instant) :
    ((Code.handler limits now).run params scope).Yields fun x => x.1.status ≠ .error :=
  (Timeline.yields_true _).bind fun _ _ => (Timeline.yields_true _).bind fun x _ =>
    Timeline.yields_pure (Code.resultOf_status x.1)

/-! ## All built-in handlers -/

/-- **What a built-in handler yields** is no error, and only a script leaves another namespace than it
was given. -/
theorem builtins_yield {h : Handler} (hm : h ∈ builtins w) :
    (h.run params scope).Yields fun x =>
      x.1.status ≠ .error ∧ (h.name ≠ "code" → x.2 = scope.vars) := by
  simp only [builtins, List.mem_cons, List.not_mem_nil, or_false] at hm
  rcases hm with rfl | rfl | rfl | rfl | rfl | rfl
  all_goals intro x hx
  · obtain ⟨hs, hv⟩ := Command.run_yields _ x hx
    exact ⟨hs, fun _ => hv⟩
  · obtain ⟨hs, hv⟩ := Delay.run_yields x hx
    exact ⟨hs, fun _ => hv⟩
  · obtain ⟨hs, hv⟩ := Webhook.run_yields _ x hx
    exact ⟨hs, fun _ => hv⟩
  · obtain ⟨hs, hv⟩ := Notify.run_yields _ x hx
    exact ⟨hs, fun _ => hv⟩
  · obtain ⟨hs, hv⟩ := Check.run_yields x hx
    exact ⟨hs, fun _ => hv⟩
  · exact ⟨Code.run_yields _ _ x hx, fun hn => absurd rfl hn⟩

end Runbook.Handler

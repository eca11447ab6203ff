import Runbook.Proofs.Handler.Untouched
import Runbook.Proofs.Json.Proper
import Runbook.Proofs.Json.Record

/-!
# Limits that parameters set

The types of step that talk to the outside declare `timeout_seconds`, an unsigned integer of 64 bits
(`Json.unsigned64?`). A `command` step decodes it with its other parameters
(`Command.timeout_of_decode`), so a value of another kind is refused before anything is sent, and
one of this kind goes with every command. A `notify` step looks it up beside its message and takes
its default for every value of another kind (`Notify.limit_of_none`); so there only the unsigned
integers count (`declared_seconds_used`).
-/

namespace Runbook

/-- The unsigned integer of 64 bits that a value is. -/
def Json.unsigned64? : Json → Option Nat
  | .int i => if 0 ≤ i ∧ i ≤ 18446744073709551615 then some i.toNat else none
  | _ => none

variable {fs : Fields} {v : Json} {seconds : Nat}

namespace Decode

/-- Of the integers that a value can hold, those that decode as unsigned fit 64 bits. -/
theorem unsigned_of_proper (h : v.Proper) {n : Nat} :
    unsigned v = .ok n ↔ v.unsigned64? = some n := by
  cases v with
  | int i =>
    rw [Json.Proper] at h
    rw [unsigned, Json.unsigned64?]
    by_cases hi : i < 0
    · simp [hi, Int.not_le.2 hi]
    · rw [if_neg hi, if_pos ⟨Int.not_lt.1 hi, h.2⟩]
      simp
  | _ => simp [unsigned, wrongType, Json.unsigned64?]

end Decode

namespace Handler

/-! ## Commands -/

namespace Command

variable {send : Occasion → CommandCall → Response CommandOutput} {scope : Scope}
  {device : String} {p : Params} {expect reject : Option (String × Pattern)}

/-- The limit of decoded parameters is what their object has. -/
theorem timeout_of_decode (h : decode (.obj fs) = .ok p)
    (hv : Table.get? "timeout_seconds" fs = some v) :
    Decode.optional Decode.unsigned v = .ok p.timeout := by
  obtain ⟨found, hfound, h⟩ := bind_eq_ok.1 h
  obtain ⟨command, -, h⟩ := bind_eq_ok.1 h
  obtain ⟨commands, -, h⟩ := bind_eq_ok.1 h
  obtain ⟨expect, -, h⟩ := bind_eq_ok.1 h
  obtain ⟨reject, -, h⟩ := bind_eq_ok.1 h
  obtain ⟨parse, -, h⟩ := bind_eq_ok.1 h
  obtain ⟨timeout, htimeout, h⟩ := bind_eq_ok.1 h
  cases h
  rw [Decode.getD, Decode.record_get? (by decide) hfound, hv] at htimeout
  exact htimeout

/-- A limit that is there counts in decoded parameters, and is an unsigned integer. -/
theorem unsigned64?_of_decode (h : decode (.obj fs) = .ok p)
    (hv : Table.get? "timeout_seconds" fs = some v) (hnull : v ≠ .null) (hproper : v.Proper) :
    ∃ seconds, v.unsigned64? = some seconds ∧ p.timeout = some seconds := by
  have htimeout := timeout_of_decode h hv
  cases ht : p.timeout with
  | none =>
    rw [ht] at htimeout
    unfold Decode.optional at htimeout
    split at htimeout
    · exact absurd rfl hnull
    · obtain ⟨_, -, hsome⟩ := map_eq_ok.1 htimeout
      cases hsome
  | some seconds =>
    rw [ht] at htimeout
    exact ⟨seconds, (Decode.unsigned_of_proper hproper).1 (Decode.of_optional htimeout _ rfl), rfl⟩

/-- Parameters that do not decode are refused on the device before anything is sent. -/
theorem run_of_not_decode (hd : scope.device = some device)
    (h : ∀ p, decode (.obj fs) ≠ .ok p) :
    ∃ d, (handler send).run (.obj fs) scope = .fail (.invalidParams d) := by
  cases hx : decode (.obj fs) with
  | ok p => exact absurd hx (h p)
  | error e =>
    refine ⟨"Invalid command params: " ++ e.message, ?_⟩
    have hread : readParams (.obj fs) =
        .error (.invalidParams ("Invalid command params: " ++ e.message)) := by
      rw [readParams, decodeParams, hx]
      rfl
    unfold handler
    simp only [hd, hread, Timeline.ofExcept_error_bind]

/-- A step that accepts its parameters calls its first commands with their limit. -/
theorem calls_of_accepts (send : Occasion → CommandCall → Response CommandOutput)
    (h : Accepts (.obj fs) scope device p expect reject) :
    ∃ n, ((handler send).run (.obj fs) scope).calls =
      (p.all.take (n + 1)).map fun c => .command ⟨device, c, p.timeout⟩ := by
  obtain ⟨outputs, -, hcalls, -⟩ := run_transcript send h
  refine ⟨outputs.length, ?_⟩
  rw [hcalls, ← List.map_take, List.map_map]
  rfl

end Command

/-! ## Notifications -/

namespace Notify

variable {relay : Occasion → Notification → Response Unit} {scope : Scope}

theorem limit_of_some (hv : Table.get? "timeout_seconds" fs = some v)
    (hseconds : v.unsigned64? = some seconds) : limit (.obj fs) = seconds := by
  have hget : (Json.obj fs).get? "timeout_seconds" = some v := hv
  rw [limit, hget]
  cases v with
  | int i =>
    rw [Json.unsigned64?] at hseconds
    split at hseconds
    · rename_i hi
      have hneg : ¬i < 0 := Int.not_lt.2 hi.1
      dsimp only
      rw [if_neg hneg]
      exact Option.some.inj hseconds
    · cases hseconds
  | _ => cases hseconds

/-- The default stands in for every value that is no unsigned integer. -/
theorem limit_of_none (hv : Table.get? "timeout_seconds" fs = some v) (hproper : v.Proper)
    (hnone : v.unsigned64? = none) : limit (.obj fs) = defaultSeconds := by
  have hget : (Json.obj fs).get? "timeout_seconds" = some v := hv
  rw [limit, hget]
  cases v with
  | int i =>
    rw [Json.Proper] at hproper
    rw [Json.unsigned64?] at hnone
    have hneg : i < 0 := by
      by_contra hi
      rw [if_pos ⟨Int.not_lt.1 hi, hproper.2⟩] at hnone
      cases hnone
    dsimp only
    rw [if_pos hneg]
  | _ => rfl

/-- Parameters without a message are refused before anything is handed over. -/
theorem run_of_not_decode (h : ∀ n, Notification.decode (.obj fs) ≠ .ok n) :
    ∃ d, (handler relay).run (.obj fs) scope = .fail (.invalidParams d) := by
  cases hx : Notification.decode (.obj fs) with
  | ok n => exact absurd hx (h n)
  | error e =>
    refine ⟨"Invalid notify params: " ++ e.message, ?_⟩
    have hdecode : decodeParams "notify" Notification.decode (.obj fs) =
        .error (.invalidParams ("Invalid notify params: " ++ e.message)) := by
      rw [decodeParams, hx]
      rfl
    unfold handler
    simp only [hdecode, Timeline.ofExcept_error_bind]

/-- A fault of the parameters is one of the message. -/
theorem run_eq_fail_iff :
    (∃ d, (handler relay).run (.obj fs) scope = .fail (.invalidParams d)) ↔
      ∀ n, Notification.decode (.obj fs) ≠ .ok n := by
  refine ⟨fun ⟨d, hd⟩ n hn => ?_, run_of_not_decode⟩
  have hcalls : ((handler relay).run (.obj fs) scope).calls = [.notice n] := calls_of_decode hn
  rw [hd] at hcalls
  cases hcalls

end Notify

/-- **A declared limit** that is an unsigned integer is the one that is used: it goes with every
command, and so long a delivery may take. One that is not makes a `command` step refuse its
parameters before anything is sent. A `notify` step looks at its message alone: where that can be
read, the default is used in place of such a limit. -/
theorem declared_seconds_used (transport : Occasion → CommandCall → Response CommandOutput)
    (relay : Occasion → Notification → Response Unit) (scope : Scope)
    (hv : Table.get? "timeout_seconds" fs = some v) (hnull : v ≠ .null) (hproper : v.Proper) :
    let command := (Command.handler transport).run (.obj fs) scope
    let notify := (Notify.handler relay).run (.obj fs) scope
    let delivery := fun n => Notify.delivery n scope.vars (relay (scope.occasion 0) n)
    match v.unsigned64? with
    | none =>
      (∀ device, scope.device = some device → ∃ d, command = .fail (.invalidParams d)) ∧
      (scope.device = none → command = .fail (.missingDevice "command")) ∧
      ((∃ d, notify = .fail (.invalidParams d)) ↔ ∀ n, Notification.decode (.obj fs) ≠ .ok n) ∧
      ∀ n, Notification.decode (.obj fs) = .ok n → notify = delivery n 30
    | some seconds =>
      (command.calls = [] ∨
        ∃ device p expect reject, Command.Accepts (.obj fs) scope device p expect reject) ∧
      (∀ device p expect reject, Command.Accepts (.obj fs) scope device p expect reject →
        ∃ n, command.calls =
          (p.all.take (n + 1)).map fun c => .command ⟨device, c, some seconds⟩) ∧
      ∀ n, Notification.decode (.obj fs) = .ok n → notify = delivery n seconds := by
  intro command notify delivery
  cases hseconds : v.unsigned64? with
  | none =>
    refine ⟨fun device hd => Command.run_of_not_decode hd fun p hp => ?_, fun hd => ?_,
      Notify.run_eq_fail_iff, fun n hn => ?_⟩
    · obtain ⟨seconds, hsome, -⟩ := Command.unsigned64?_of_decode hp hv hnull hproper
      rw [hseconds] at hsome
      cases hsome
    · simp only [command, Command.handler, hd]
    · have hlimit : Notify.limit (.obj fs) = 30 := Notify.limit_of_none hv hproper hseconds
      rw [← hlimit]
      exact Notify.run_of_decode relay scope hn
  | some seconds =>
    refine ⟨Command.calls_eq_nil_or_accepts transport (.obj fs) scope,
      fun device p expect reject h => ?_, fun n hn => ?_⟩
    · obtain ⟨s, hsome, htimeout⟩ := Command.unsigned64?_of_decode h.params hv hnull hproper
      obtain rfl : seconds = s := Option.some.inj (hseconds.symm.trans hsome)
      rw [← htimeout]
      exact Command.calls_of_accepts transport h
    · have hlimit : Notify.limit (.obj fs) = seconds := Notify.limit_of_some hv hseconds
      rw [← hlimit]
      exact Notify.run_of_decode relay scope hn

/-- A limit below zero keeps a command from being sent, and a message for which there are zero
seconds is cut off at once. -/
theorem declared_seconds_used_ends :
    let fs (i : Int) : Fields :=
      [("body", .str "done"), ("command", .str "reload"), ("timeout_seconds", .int i)]
    let scope : Scope := { (default : Scope) with device := some "r1" }
    let slow : Occasion → Notification → Response Unit := fun _ _ => ⟨1, .value ()⟩
    (∀ i : Int, Table.get? "timeout_seconds" (fs i) = some (.int i) ∧ Json.int i ≠ .null) ∧
      Json.Proper (.int (-1)) ∧ Json.Proper (.int 0) ∧
      (∃ d, (Command.handler Command.unruly).run (.obj (fs (-1))) scope =
        .fail (.invalidParams d)) ∧
      ((Notify.handler slow).run (.obj (fs 0)) scope).outcome = .fault (.timeout 0) := by
  intro fs scope slow
  have hget (i : Int) : Table.get? "timeout_seconds" (fs i) = some (.int i) := rfl
  have hnull (i : Int) : Json.int i ≠ .null := nofun
  have hnegative : Json.Proper (.int (-1)) := by simp [Json.Proper]
  have hzero : Json.Proper (.int 0) := by simp [Json.Proper]
  refine ⟨fun i => ⟨hget i, hnull i⟩, hnegative, hzero, ?_, ?_⟩
  · have h := declared_seconds_used Command.unruly slow scope (hget (-1)) (hnull _) hnegative
    exact h.1 "r1" rfl
  · have h := (declared_seconds_used Command.unruly slow scope (hget 0) (hnull _) hzero).2.2
      ⟨"log", [], "", "done"⟩ rfl
    rw [h]
    rfl

/-- A message is delivered whose limit is the text of a number. -/
theorem limit_text_ignored :
    ¬∀ (relay : Occasion → Notification → Response Unit) (fs : Fields) (scope : Scope) (v : Json),
      Table.get? "timeout_seconds" fs = some v → v ≠ .null → v.Proper → v.unsigned64? = none →
      ∃ d, (Notify.handler relay).run (.obj fs) scope = .fail (.invalidParams d) := by
  intro h
  let fs : Fields := [("body", .str "done"), ("timeout_seconds", .str "5")]
  let relay : Occasion → Notification → Response Unit := fun _ _ => ⟨0, .value ()⟩
  have hdecode : Notification.decode (.obj fs) = .ok ⟨"log", [], "", "done"⟩ := rfl
  have hcalls : ((Notify.handler relay).run (.obj fs) default).calls =
      [.notice ⟨"log", [], "", "done"⟩] := Notify.calls_of_decode hdecode
  obtain ⟨d, hd⟩ := h relay fs default (.str "5") rfl nofun (.str _) rfl
  rw [hd] at hcalls
  cases hcalls

end Handler
end Runbook

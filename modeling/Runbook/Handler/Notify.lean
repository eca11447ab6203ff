import Runbook.Handler.Basic

/-!
# Notifying

A `notify` step hands a message to the relay and waits until it is delivered, for a limited time.
-/

namespace Runbook.Handler.Notify

/-- The seconds a delivery may take when the parameters do not say. -/
def defaultSeconds : Nat := 30

/-- The seconds that the parameters allow for the delivery. -/
def limit (params : Json) : Nat :=
  match params.get? "timeout_seconds" with
  | some (.int i) => if i < 0 then defaultSeconds else i.toNat
  | _ => defaultSeconds

/-- The handler of `notify` steps over a relay. -/
def handler (relay : Occasion → Notification → Response Unit) : Handler where
  name := "notify"
  description := "Send a notification through the message relay"
  params :=
    [⟨"body", .string, true, "Message body"⟩,
     ⟨"subject", .string, false, "Subject line"⟩,
     ⟨"recipients", .array, false, "Recipients"⟩,
     ⟨"channel", .string, false, "Relay channel (default: log)"⟩,
     ⟨"timeout_seconds", .integer, false, "Delivery timeout (default 30)"⟩]
  run params scope := do
    let n ← Timeline.ofExcept (decodeParams "notify" Notification.decode params)
    let seconds := limit params
    let delivery : Timeline Unit := do
      Timeline.emit (.notice n)
      Timeline.await (relay (scope.occasion 0) n)
    delivery.within (seconds * 1000) (.fault (.timeout seconds))
    return (.success ("Notification sent via " ++ n.channel ++ " to " ++
      toString n.recipients.length ++ " recipient(s)") n.toJson, scope.vars)

end Runbook.Handler.Notify

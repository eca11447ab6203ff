import Runbook.Json.Decode

/-!
# Notifications

A notification is a message for a channel of the relay, which delivers it to its recipients.
-/

namespace Runbook

/-- A message for the relay. -/
structure Notification where
  channel : String
  recipients : List String
  subject : String
  body : String
  deriving Repr, BEq, DecidableEq, Inhabited

namespace Notification

/-- The channel of a message that names none. -/
def defaultChannel : String := "log"

/-- The message as a value. -/
def toJson (n : Notification) : Json :=
  .ofFields [("channel", .str n.channel), ("recipients", .ofStrings n.recipients),
    ("subject", .str n.subject), ("body", .str n.body)]

/-- Reads a message; only the body has to be there. -/
def decode : Decoder Notification := fun v => do
  let fs ← Decode.record "Notification"
    [Decode.field "channel" .defaulted Decode.text,
     Decode.field "recipients" .defaulted (Decode.list Decode.text),
     Decode.field "subject" .defaulted Decode.text,
     Decode.field "body" .required Decode.text] v
  let channel ← Decode.getD fs "channel" Decode.text defaultChannel
  let recipients ← Decode.getD fs "recipients" (Decode.list Decode.text) []
  let subject ← Decode.getD fs "subject" Decode.text ""
  let body ← Decode.get fs "body" Decode.text
  return ⟨channel, recipients, subject, body⟩

end Notification
end Runbook

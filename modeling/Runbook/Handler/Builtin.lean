import Runbook.Handler.Check
import Runbook.Handler.Code
import Runbook.Handler.Command
import Runbook.Handler.Delay
import Runbook.Handler.Notify
import Runbook.Handler.Webhook
import Runbook.Registry

/-!
# The handlers that are always there

`Registry.ofWorld` holds the handlers of all built-in types of steps over what they reach: the
transport of commands, the relay of notifications, the exchange of requests, the limits of scripts
and the moments that scripts see. What a call meets may depend on its occasion; `Registry.builtin`
is for an outside that answers every call in the same way whenever it is made.
-/

namespace Runbook

/-- What the built-in handlers reach outside of a run, as it behaves from occasion to occasion. -/
structure World where
  transport : Occasion → CommandCall → Response CommandOutput
  relay : Occasion → Notification → Response Unit
  exchange : Occasion → HttpRequest → Nat → Response HttpReply
  limits : Script.Limits
  now : Occasion → Instant

/-- What the built-in handlers reach outside of a run, when it does not matter who makes a call and
when. -/
structure Outside where
  transport : CommandCall → Timeline CommandOutput
  relay : Notification → Timeline Unit
  exchange : HttpRequest → Nat → Timeline HttpReply
  limits : Script.Limits
  now : Instant

/-- The world that behaves alike on all occasions. -/
def Outside.world (o : Outside) : World where
  transport _ c := (o.transport c).response
  relay _ n := (o.relay n).response
  exchange _ r seconds := (o.exchange r seconds).response
  limits := o.limits
  now _ := o.now

/-- The built-in handlers. -/
def Handler.builtins (w : World) : List Handler :=
  [Command.handler w.transport, Delay.handler, Webhook.handler w.exchange, Notify.handler w.relay,
   Check.handler, Code.handler w.limits w.now]

/-- The registry of the built-in handlers. -/
def Registry.ofWorld (w : World) : Registry :=
  ⟨Table.ofList ((Handler.builtins w).map fun h => (h.name, h))⟩

/-- The registry of the built-in handlers over an outside. -/
def Registry.builtin (o : Outside) : Registry := .ofWorld o.world

end Runbook

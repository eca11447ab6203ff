import Runbook.Handler.Basic
import Runbook.Http.Url
import Runbook.Json.Reader

/-!
# Calling webhooks

A `webhook` step sends one request. A reply with a status from 200 to 299 is a success, and any
other reply a fault; a reply's body is read as JSON where it is JSON.
-/

namespace Runbook

/-- A request. -/
structure HttpRequest where
  method : String
  url : Url
  headers : List (String × String)
  body : Option String
  deriving Repr, BEq, DecidableEq, Inhabited

/-- What a request meets: a reply with its status and its body, nobody, or silence until the limit
is over. -/
inductive HttpReply where
  | reply (status : Nat) (body : String)
  | unreachable
  | expired
  deriving Repr, BEq, DecidableEq, Inhabited

namespace Handler.Webhook

/-- The methods by name. -/
def methods : List (String × String) :=
  ["GET", "POST", "PUT", "PATCH", "DELETE"].map fun m => (m, m)

/-- The parameters of a `webhook` step. -/
structure Params where
  url : String
  method : String
  headers : List (String × String)
  body : Option Json
  query : List (String × String)
  timeout : Nat

/-- The seconds a request may take when the parameters do not say. -/
def defaultSeconds : Nat := 30

/-- Reads the parameters. -/
def decode : Decoder Params := fun v => do
  let method := Decode.variant methods
  let texts := Decode.table Decode.text
  let body := Decode.optional Decode.any
  let fs ← Decode.record "WebhookConfig"
    [Decode.field "url" .required Decode.text,
     Decode.field "method" .defaulted method,
     Decode.field "headers" .defaulted texts,
     Decode.field "body" .optional body,
     Decode.field "params" .defaulted texts,
     Decode.field "timeout_seconds" .defaulted Decode.unsigned] v
  let url ← Decode.get fs "url" Decode.text
  let method ← Decode.getD fs "method" method "POST"
  let headers ← Decode.getD fs "headers" texts []
  let body ← Decode.getD fs "body" body none
  let query ← Decode.getD fs "params" texts []
  let timeout ← Decode.getD fs "timeout_seconds" Decode.unsigned defaultSeconds
  return { url, method, headers, body, query, timeout }

/-- Whether a text is the name of a header. -/
def isHeaderName (s : String) : Bool :=
  !s.isEmpty && s.toList.all fun c => c.isAlphanum || "!#$%&'*+-.^_\x60|~".toList.contains c

/-- Whether a text is the value of a header. -/
def isHeaderValue (s : String) : Bool :=
  s.toList.all fun c => c == '\t' || (32 ≤ c.toNat && c.toNat != 127)

/-- The content type that a body needs: a text goes as it is, any other value as JSON. -/
def contentType (p : Params) : List (String × String) :=
  let given := p.headers.any fun (k, _) => k.map Char.toLower == "content-type"
  match p.body with
  | none => []
  | some (.str _) => []
  | some _ => if given then [] else [("content-type", "application/json")]

/-- The request that the parameters ask for. -/
def request (p : Params) : Except StepFault HttpRequest :=
  match Url.parse p.url with
  | none => .error (.http "builder error")
  | some url =>
    let url := url.withQuery p.query
    if !p.headers.all fun (k, v) => isHeaderName k && isHeaderValue v then
      .error (.http "builder error")
    else if !url.isWeb then .error (.http ("builder error for url (" ++ url.text ++ ")"))
    else
      let body := p.body.map fun
        | .str s => s
        | v => v.compact
      .ok ⟨p.method, url, p.headers ++ contentType p, body⟩

/-- The first characters of a text. -/
def truncated (n : Nat) (s : String) : String := String.ofList (s.toList.take n)

/-- The result of a reply. -/
def resultOf (p : Params) (r : HttpRequest) : HttpReply → Except StepFault StepResult
  | .unreachable => .error (.http ("error sending request for url (" ++ r.url.text ++ ")"))
  | .expired => .error (.timeout p.timeout)
  | .reply status body =>
    if 200 ≤ status && status ≤ 299 then
      let data := match Json.read body with
        | .ok v => v
        | .error _ => .str body
      .ok (.success (p.url ++ " returned " ++ toString status)
        (.ofFields [("status_code", .ofNat status), ("body", data)]))
    else
      .error (.http (p.url ++ " returned " ++ toString status ++ ": " ++ truncated 200 body))

/-- The handler of `webhook` steps over an exchange of requests for replies, which is told the
seconds that it may take. -/
def handler (exchange : Occasion → HttpRequest → Nat → Response HttpReply) : Handler where
  name := "webhook"
  description := "Send an HTTP request to an integration endpoint"
  params :=
    [⟨"url", .string, true, "Target URL"⟩,
     ⟨"method", .string, false, "GET, POST, PUT, PATCH or DELETE"⟩,
     ⟨"headers", .object, false, "Request headers"⟩,
     ⟨"body", .any, false, "Request body"⟩,
     ⟨"params", .object, false, "Query parameters"⟩,
     ⟨"timeout_seconds", .integer, false, "Request timeout (default 30)"⟩]
  run params scope := do
    let p ← Timeline.ofExcept (decodeParams "webhook" decode params)
    let r ← Timeline.ofExcept (request p)
    let reply ← Timeline.await (exchange (scope.occasion 0) r p.timeout)
    let result ← Timeline.ofExcept (resultOf p r reply)
    return (result, scope.vars)

end Handler.Webhook
end Runbook

import Runbook.Text.Base64
import Runbook.Text.Quoted

/-!
# Addresses

The address of a request, taken apart and written in its normal form: scheme and host in lower
case, no default port, no dot segments, and characters that have no place in a part as percent
escapes.
-/

namespace Runbook

/-- An address. -/
structure Url where
  scheme : String
  host : String
  port : Option Nat
  path : String
  query : Option String
  fragment : Option String
  deriving Repr, BEq, DecidableEq, Inhabited

namespace Url

/-- The escape of a byte. -/
def escapeByte (b : Nat) : List Char := '%' :: (Text.hexPadded 2 b).map Char.toUpper

/-- The escapes of the bytes of a character. -/
def escapeChar (c : Char) : List Char := (Text.Base64.bytesOf c.toString).flatMap escapeByte

/-- The characters with those of a set, the controls and those outside of ASCII escaped. -/
def escaped (bad : List Char) (cs : List Char) : List Char :=
  cs.flatMap fun c =>
    if c.toNat < 33 || 126 < c.toNat || bad.contains c then escapeChar c else [c]

/-- Characters that a path holds as escapes only. -/
def badInPath : List Char := "\"<>\x60#?\x7b\x7d^".toList

/-- Characters that a query holds as escapes only. -/
def badInQuery : List Char := "\"<>#'".toList

/-- Characters that a fragment holds as escapes only. -/
def badInFragment : List Char := "\"<>\x60".toList

/-- Characters that no host holds. -/
def badInHost : List Char := " #/:<>?@[\\]^|%".toList

/-- The text without blanks and controls at its ends and without tabs and breaks. -/
def cleaned (cs : List Char) : List Char :=
  let isEdge (c : Char) : Bool := c.toNat ≤ 32
  let inner := ((cs.dropWhile isEdge).reverse.dropWhile isEdge).reverse
  inner.filter fun c => c != '\t' && c != '\n' && c != '\r'

/-- The scheme in front of a colon, and what follows. -/
def splitScheme (cs : List Char) : Option (String × List Char) :=
  let name := cs.takeWhile fun c => c.isAlphanum || c == '+' || c == '-' || c == '.'
  match name, cs.drop name.length with
  | c :: _, ':' :: rest =>
    if c.isAlpha then some (String.ofList (name.map Char.toLower), rest) else none
  | _, _ => none

/-- The default port of a scheme. -/
def defaultPort : String → Option Nat
  | "http" => some 80
  | "https" => some 443
  | "ws" => some 80
  | "wss" => some 443
  | "ftp" => some 21
  | _ => none

/-- The host and the port of an authority, without the name of a user. -/
def splitAuthority (cs : List Char) : List Char × Option (List Char) :=
  let afterUser := if cs.contains '@' then (cs.reverse.takeWhile (· ≠ '@')).reverse else cs
  match afterUser with
  | '[' :: _ =>
    let host := afterUser.takeWhile (· ≠ ']')
    match afterUser.drop host.length with
    | ']' :: ':' :: port => (host ++ [']'], some port)
    | ']' :: _ => (host ++ [']'], none)
    | _ => (afterUser, none)
  | _ =>
    let host := afterUser.takeWhile (· ≠ ':')
    match afterUser.drop host.length with
    | _ :: port => (host, some port)
    | [] => (host, none)

/-- The number of a port; no digits stand for the default. -/
def readPort (scheme : String) : Option (List Char) → Option (Option Nat)
  | none => some none
  | some [] => some none
  | some ds =>
    if ds.all Char.isDigit then
      let n := ds.foldl (fun n c => min (n * 10 + (c.toNat - 48)) 65536) 0
      if 65535 < n then none else if defaultPort scheme == some n then some none else some (some n)
    else none

/-- A host in its normal form. -/
def readHost (cs : List Char) : Option String :=
  match cs with
  | [] => none
  | '[' :: _ => if cs.getLast? == some ']' then some (String.ofList (cs.map Char.toLower)) else none
  | _ =>
    if cs.any fun c => c.toNat ≤ 32 || 126 < c.toNat || badInHost.contains c then none
    else some (String.ofList (cs.map Char.toLower))

/-- The segments of a path. -/
def segments : List Char → List (List Char)
  | [] => [[]]
  | c :: cs =>
    if c == '/' || c == '\\' then [] :: segments cs
    else match segments cs with
      | [] => [[c]]
      | s :: ss => (c :: s) :: ss

/-- The segments without those that stand for the current or the parent folder; `before` holds
those already kept, the last first. -/
def withoutDots (before : List (List Char)) : List (List Char) → List (List Char)
  | [] => before.reverse
  | s :: ss =>
    let last := ss.isEmpty
    if s == ['.'] then withoutDots (if last then [] :: before else before) ss
    else if s == ['.', '.'] then
      withoutDots (if last then [] :: before.tail else before.tail) ss
    else withoutDots (s :: before) ss

/-- A path in its normal form. -/
def readPath (cs : List Char) : String :=
  let body := match cs with
    | c :: rest => if c == '/' || c == '\\' then rest else cs
    | [] => []
  let kept := withoutDots [] (segments body)
  String.ofList (kept.flatMap fun s => '/' :: escaped badInPath s)

/-- The address that a text stands for. -/
def parse (s : String) : Option Url := do
  let (scheme, rest) ← splitScheme (cleaned s.toList)
  if (defaultPort scheme).isNone then none
  let rest := rest.dropWhile fun c => c == '/' || c == '\\'
  let authority := rest.takeWhile fun c => c != '/' && c != '\\' && c != '?' && c != '#'
  let rest := rest.drop authority.length
  let (host, port) := splitAuthority authority
  let host ← readHost host
  let port ← readPort scheme port
  let path := rest.takeWhile fun c => c != '?' && c != '#'
  let rest := rest.drop path.length
  let query := rest.takeWhile (· ≠ '#')
  let fragment := rest.drop query.length
  let text (bad : List Char) : List Char → Option String
    | [] => none
    | _ :: cs => some (String.ofList (escaped bad cs))
  return ⟨scheme, host, port, readPath path, text badInQuery query, text badInFragment fragment⟩

/-- An address as text. -/
def text (u : Url) : String :=
  u.scheme ++ "://" ++ u.host ++ (u.port.elim "" fun p => ":" ++ toString p) ++ u.path ++
    (u.query.elim "" fun q => "?" ++ q) ++ (u.fragment.elim "" fun f => "#" ++ f)

/-- A text as the key or the value of a form. -/
def formEncoded (s : String) : String :=
  String.ofList <| (Text.Base64.bytesOf s).flatMap fun b =>
    let c := Char.ofNat b
    if b < 128 && (c.isAlphanum || "*-._".toList.contains c) then [c]
    else if c == ' ' then ['+']
    else escapeByte b

/-- The address with pairs added to its query. -/
def withQuery (u : Url) (pairs : List (String × String)) : Url :=
  if pairs.isEmpty then u
  else
    let added := String.intercalate "&" <| pairs.map fun (k, v) =>
      formEncoded k ++ "=" ++ formEncoded v
    { u with
      query := some (match u.query with
        | none => added
        | some "" => added
        | some q => q ++ "&" ++ added) }

/-- Whether requests can be sent to an address. -/
def isWeb (u : Url) : Bool := u.scheme == "http" || u.scheme == "https"

end Url
end Runbook

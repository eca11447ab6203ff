import Runbook.Pattern.CharSet

/-!
# Patterns

A pattern describes stretches of a text: single characters of a set, places with a property of
their surroundings, and what sequence, choice and repetition make of them. `Pattern.Matches` says
which stretches a pattern describes, `Pattern.ends` computes where they end, and `Pattern.occursIn`
decides whether a text holds one.
-/

namespace Runbook

/-- A property of the place between two characters. -/
inductive Anchor where
  | textStart
  | textEnd
  | lineStart (crlf : Bool)
  | lineEnd (crlf : Bool)
  | wordEdge (wide : Bool)
  | wordInside (wide : Bool)
  | wordStart (wide : Bool)
  | wordEnd (wide : Bool)
  | wordStartHalf (wide : Bool)
  | wordEndHalf (wide : Bool)
  deriving Repr, BEq, DecidableEq

/-- A pattern. `rep p n extra` is `p` at least `n` times and then up to `extra` times more, or any
number of times more without `extra`. -/
inductive Pattern where
  | empty
  | one (s : CharSet)
  | place (a : Anchor)
  | seq (p q : Pattern)
  | alt (p q : Pattern)
  | rep (p : Pattern) (least : Nat) (extra : Option Nat)
  deriving Repr, BEq, DecidableEq

namespace Anchor

/-- Whether the character next to a place belongs to a word. -/
def wordAt (wide : Bool) : Option Char → Bool
  | some c => (CharSet.word wide).mem c
  | none => false

/-- Whether an anchor holds between two characters, each of which is missing at the ends. -/
def holds : Anchor → Option Char → Option Char → Bool
  | .textStart, before, _ => before.isNone
  | .textEnd, _, after => after.isNone
  | .lineStart false, before, _ => before.isNone || before == some '\n'
  | .lineStart true, before, after =>
    before.isNone || before == some '\n' || (before == some '\r' && after != some '\n')
  | .lineEnd false, _, after => after.isNone || after == some '\n'
  | .lineEnd true, before, after =>
    after.isNone || after == some '\r' || (after == some '\n' && before != some '\r')
  | .wordEdge w, before, after => wordAt w before != wordAt w after
  | .wordInside w, before, after => wordAt w before == wordAt w after
  | .wordStart w, before, after => !wordAt w before && wordAt w after
  | .wordEnd w, before, after => wordAt w before && !wordAt w after
  | .wordStartHalf w, before, _ => !wordAt w before
  | .wordEndHalf w, _, after => !wordAt w after

/-- Where an anchor holds in a text that follows `before`: one answer per place, from the place
before the first character to the one after the last. -/
def along (a : Anchor) (before : Option Char) : List Char → List Bool
  | [] => [a.holds before none]
  | c :: cs => a.holds before (some c) :: along a (some c) cs

end Anchor

namespace Pattern

/-- `Matches cs p i j`: the stretch of `cs` from place `i` to place `j` is one that `p`
describes. -/
inductive Matches (cs : List Char) : Pattern → Nat → Nat → Prop where
  | empty {i : Nat} (h : i ≤ cs.length) : Matches cs .empty i i
  | one {s : CharSet} {i : Nat} {c : Char} (h : cs[i]? = some c) (hc : s.mem c = true) :
      Matches cs (.one s) i (i + 1)
  | place {a : Anchor} {i : Nat} (h : i ≤ cs.length)
      (ha : a.holds (if i = 0 then none else cs[i - 1]?) cs[i]? = true) :
      Matches cs (.place a) i i
  | seq {p q : Pattern} {i j k : Nat} (hp : Matches cs p i j) (hq : Matches cs q j k) :
      Matches cs (.seq p q) i k
  | left {p q : Pattern} {i j : Nat} (hp : Matches cs p i j) : Matches cs (.alt p q) i j
  | right {p q : Pattern} {i j : Nat} (hq : Matches cs q i j) : Matches cs (.alt p q) i j
  | done {p : Pattern} {extra : Option Nat} {i : Nat} (h : i ≤ cs.length) :
      Matches cs (.rep p 0 extra) i i
  | needed {p : Pattern} {n : Nat} {extra : Option Nat} {i j k : Nat} (hp : Matches cs p i j)
      (hr : Matches cs (.rep p n extra) j k) : Matches cs (.rep p (n + 1) extra) i k
  | more {p : Pattern} {i j k : Nat} (hp : Matches cs p i j)
      (hr : Matches cs (.rep p 0 none) j k) : Matches cs (.rep p 0 none) i k
  | upTo {p : Pattern} {n : Nat} {i j k : Nat} (hp : Matches cs p i j)
      (hr : Matches cs (.rep p 0 (some n)) j k) : Matches cs (.rep p 0 (some (n + 1))) i k

/-! ## Sets of places

A set of places of a text of `n` characters is a list of `n + 1` truth values. -/

/-- The union of two sets of places. -/
def join : List Bool → List Bool → List Bool
  | a :: as, b :: bs => (a || b) :: join as bs
  | _, _ => []

/-- The places common to two sets. -/
def meet : List Bool → List Bool → List Bool
  | a :: as, b :: bs => (a && b) :: meet as bs
  | _, _ => []

/-- The places one character of a set after those of `from_`. -/
def advance (s : CharSet) (carry : Bool) : List Char → List Bool → List Bool
  | c :: cs, b :: bs => carry :: advance s (b && s.mem c) cs bs
  | _, _ => [carry]

/-- The places any number of characters of a set after those of `from_`. -/
def sweep (s : CharSet) (carry : Bool) : List Char → List Bool → List Bool
  | c :: cs, b :: bs => (b || carry) :: sweep s ((b || carry) && s.mem c) cs bs
  | _, b :: _ => [b || carry]
  | _, [] => []

/-- `step` applied `n` times. -/
def iterate (step : List Bool → List Bool) : Nat → List Bool → List Bool
  | 0, ps => ps
  | n + 1, ps => iterate step n (step ps)

/-- The places reached from `ps` by at most `n` times `step`; stops when there is nothing new. -/
def closure (step : List Bool → List Bool) : Nat → List Bool → List Bool
  | 0, ps => ps
  | n + 1, ps =>
    let next := join ps (step ps)
    if next == ps then ps else closure step n next

/-- The places where a stretch that a pattern describes may end when it starts in `ps`. -/
def ends (cs : List Char) : Pattern → List Bool → List Bool
  | .empty, ps => ps
  | .one s, ps => advance s false cs ps
  | .place a, ps => meet (a.along none cs) ps
  | .seq p q, ps => ends cs q (ends cs p ps)
  | .alt p q, ps => join (ends cs p ps) (ends cs q ps)
  | .rep (.one s) n none, ps => sweep s false cs (iterate (advance s false cs) n ps)
  | .rep p n none, ps => closure (ends cs p) (cs.length + 1) (iterate (ends cs p) n ps)
  | .rep p n (some k), ps => closure (ends cs p) k (iterate (ends cs p) n ps)

/-- Whether a list of characters holds a stretch that a pattern describes. -/
def occursInChars (p : Pattern) (cs : List Char) : Bool :=
  (ends cs p (true :: cs.map fun _ => true)).contains true

/-- Whether a text holds a stretch that a pattern describes. -/
def occursIn (p : Pattern) (s : String) : Bool := occursInChars p s.toList

end Pattern
end Runbook

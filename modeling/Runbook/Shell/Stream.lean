import Runbook.Text.Base64
import Runbook.Text.Utf8

/-!
# Streams of bytes

What a program reads or writes: bytes, and possibly a stretch of bytes that repeats for ever after
them. Only finitely many bytes of a stream that never ends can be taken.
-/

namespace Runbook.Shell

/-- Bytes, followed by a stretch that repeats for ever unless it is empty. -/
structure Stream where
  bytes : List Nat := []
  cycle : List Nat := []
  deriving Repr, BEq, DecidableEq, Inhabited

namespace Stream

/-- The bytes of a text. -/
def ofText (s : String) : Stream := ⟨Text.Base64.bytesOf s, []⟩

/-- Whether the stream never ends. -/
def isEndless (s : Stream) : Bool := !s.cycle.isEmpty

/-- One stream after another. -/
def append (s t : Stream) : Stream := if s.isEndless then s else ⟨s.bytes ++ t.bytes, t.cycle⟩

instance : Append Stream := ⟨append⟩

/-- The first bytes of a stretch that repeats. -/
def repeated (cycle : List Nat) (n : Nat) : List Nat :=
  (List.range n).map fun i => cycle.getD (i % cycle.length) 0

/-- The first bytes. -/
def take (s : Stream) (n : Nat) : List Nat :=
  let head := s.bytes.take n
  if s.isEndless then head ++ repeated s.cycle (n - head.length) else head

/-- Every byte replaced by some. -/
def flatMap (s : Stream) (f : Nat → List Nat) : Stream := ⟨s.bytes.flatMap f, s.cycle.flatMap f⟩

/-- The stream as text; bytes that are no UTF-8 are replaced. -/
def text (s : Stream) : String := Text.Utf8.decodeLossy s.bytes

end Stream

/-- A byte that ends a line. -/
def lineFeed : Nat := 10

/-- The lines of bytes, each with its end; only the last may lack it. -/
def linesOf : List Nat → List (List Nat)
  | [] => []
  | b :: rest =>
    if b == lineFeed then [b] :: linesOf rest
    else match linesOf rest with
      | [] => [[b]]
      | l :: ls => (b :: l) :: ls

end Runbook.Shell

import Runbook.Decimal.Exact
import Runbook.Handler.Basic

/-!
# Waiting

A `delay` step waits for a number of seconds, rounded to the nanosecond, or of milliseconds.
-/

namespace Runbook.Handler.Delay

/-- A length of time in nanoseconds that a number of seconds does not give. -/
inductive Fault where
  | negative
  | unrepresentable

/-- The wording of a fault. -/
def Fault.message : Fault → String
  | .negative => "cannot convert float seconds to Duration: value is negative"
  | .unrepresentable => "cannot convert float seconds to Duration: value is either too big or NaN"

/-- The nearest integer to `num / den`; a tie goes to the even one. -/
def roundToEven (num den : Nat) : Nat :=
  let q := num / den
  let r := num % den
  if 2 * r < den then q
  else if 2 * r > den then q + 1
  else if q % 2 == 0 then q else q + 1

/-- The nanoseconds in a number of seconds. The whole seconds have to fit 64 bits. -/
def nanosOf (seconds : Float) : Except Fault Nat :=
  if seconds < 0.0 then .error .negative
  else if !Decimal.isFinite seconds then .error .unrepresentable
  else
    let e := Decimal.exactOfBits seconds.toBits
    let nanos := roundToEven (e.num * 1000000000) e.den
    if nanos < Nat.pow 2 64 * 1000000000 then .ok nanos else .error .unrepresentable

/-- The parameters of a `delay` step. -/
structure Params where
  seconds : Option Float
  milliseconds : Option Nat

/-- Reads the parameters. -/
def decode : Decoder Params := fun v => do
  let secondsOf := Decode.optional Decode.double
  let millisOf := Decode.optional Decode.unsigned
  let fs ← Decode.record "DelayConfig"
    [Decode.field "seconds" .defaulted secondsOf,
     Decode.field "milliseconds" .defaulted millisOf] v
  let seconds ← Decode.getD fs "seconds" secondsOf none
  let milliseconds ← Decode.getD fs "milliseconds" millisOf none
  return { seconds, milliseconds }

/-- The nanoseconds to wait for. -/
def duration (params : Json) : Except StepFault Nat := do
  let p ← decodeParams "delay" decode params
  match p.seconds, p.milliseconds with
  | some s, _ =>
    match nanosOf s with
    | .ok n => return n
    | .error f =>
      throw (.invalidParams ("Invalid delay of " ++ Decimal.write Decimal.messageStyle s ++
        " seconds: " ++ f.message))
  | none, some ms => return ms * 1000000
  | none, none => throw (.invalidParams "delay step needs 'seconds' or 'milliseconds'")

/-- The handler of `delay` steps. A wait ends with the first millisecond that is not too early. -/
def handler : Handler where
  name := "delay"
  description := "Wait for a fixed duration"
  params :=
    [⟨"seconds", .number, false, "Seconds to wait"⟩,
     ⟨"milliseconds", .integer, false, "Milliseconds to wait"⟩]
  run params scope := do
    let nanos ← Timeline.ofExcept (duration params)
    Timeline.sleep ((nanos + 999999) / 1000000)
    let ms := nanos / 1000000
    return (.success ("Waited " ++ toString ms ++ " ms")
      (.ofFields [("waited_ms", .ofNat (ms % Nat.pow 2 64))]), scope.vars)

end Runbook.Handler.Delay

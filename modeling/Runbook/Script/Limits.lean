import Runbook.Json.Decode

/-!
# Limits of scripts

How much a script may use. Zero stands for no limit, except for calls, where it allows none, and
for time, where it leaves none.
-/

namespace Runbook.Script

/-- How much a script may use. -/
structure Limits where
  operations : Nat := 1000000
  calls : Nat := 32
  depth : Nat := 64
  textSize : Nat := 1048576
  listSize : Nat := 10000
  mapSize : Nat := 10000
  seconds : Nat := 60
  deriving Repr, BEq, DecidableEq, Inhabited

/-- Reads limits; what is missing keeps its usual value. -/
def Limits.decode : Decoder Limits := fun v => do
  let number := Decode.unsigned
  let fs ← Decode.record "SandboxConfig"
    (["max_operations", "max_call_levels", "max_expr_depth", "max_string_size", "max_array_size",
      "max_map_size", "max_duration_secs"].map fun n => Decode.field n .defaulted number) v
  let usual : Limits := {}
  return {
    operations := ← Decode.getD fs "max_operations" number usual.operations
    calls := ← Decode.getD fs "max_call_levels" number usual.calls
    depth := ← Decode.getD fs "max_expr_depth" number usual.depth
    textSize := ← Decode.getD fs "max_string_size" number usual.textSize
    listSize := ← Decode.getD fs "max_array_size" number usual.listSize
    mapSize := ← Decode.getD fs "max_map_size" number usual.mapSize
    seconds := ← Decode.getD fs "max_duration_secs" number usual.seconds }

end Runbook.Script

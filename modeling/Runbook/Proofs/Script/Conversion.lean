import Mathlib
import Runbook.Handler.Code
import Runbook.Proofs.Decimal.Value
import Runbook.Proofs.Json.Decode
import Runbook.Proofs.Json.Proper
import Runbook.Proofs.Script.Variables

/-!
# Values on their way through a script

A script has integers of 64 bits with a sign only. A proper value comes back from a script as it
was when all its integers are of that kind (`Json.Signed`), and only then: an integer beyond them
comes back as a double (`Script.Value.toJson_ofJson_iff`). The namespace of an invocation goes this
way whether the script mentions it or not, so a script that does not mention it leaves it as it was
exactly when its integers have a sign (`Handler.Code.run_keeps_vars_iff`).
-/

namespace Runbook

/-! ## Values -/

mutual
/-- All integers in the value fit 64 bits with a sign. -/
def Json.Signed : Json → Prop
  | .null | .bool _ | .double _ | .str _ => True
  | .int i => Script.Value.fits i = true
  | .arr xs => ItemsSigned xs
  | .obj fs => FieldsSigned fs

/-- All integers in the items do. -/
def ItemsSigned : List Json → Prop
  | [] => True
  | x :: xs => x.Signed ∧ ItemsSigned xs

/-- All integers in the values of the fields do. -/
def FieldsSigned : List (String × Json) → Prop
  | [] => True
  | (_, x) :: fs => x.Signed ∧ FieldsSigned fs
end

namespace Script.Value

mutual
/-- A proper value comes back as it was when its integers have a sign, and only then. -/
theorem toJson_ofJson_iff : ∀ v : Json, v.Proper → ((ofJson v).toJson = v ↔ v.Signed)
  | .null, _ | .bool _, _ | .str _, _ => by simp only [ofJson, toJson, Json.Signed]
  | .int i, _ => by
    rw [ofJson, Json.Signed]
    cases hi : fits i with
    | true => simp [toJson]
    | false =>
      rw [if_neg Bool.false_ne_true, toJson]
      split <;> simp
  | .double x, h => by
    rw [Json.Proper] at h
    have hx : Decimal.isFinite x = true := by rw [Decimal.isFinite_eq, h.1, h.2]; rfl
    rw [ofJson, toJson, if_pos hx, Json.Signed]
    exact iff_of_true rfl trivial
  | .arr xs, h => by
    rw [Json.Proper] at h
    rw [ofJson, toJson, Json.Signed, Json.arr.injEq]
    exact toJsonItems_ofJsonItems_iff xs h
  | .obj fs, h => by
    rw [ofJson, toJson, Json.Signed, Json.obj.injEq]
    exact toJsonFields_ofJsonFields_iff fs (Json.Proper.obj_iff.1 h).2

theorem toJsonItems_ofJsonItems_iff : ∀ xs : List Json, ItemsProper xs →
    (toJsonItems (ofJsonItems xs) = xs ↔ ItemsSigned xs)
  | [], _ => by simp only [ofJsonItems, toJsonItems, ItemsSigned]
  | x :: xs, h => by
    rw [ItemsProper] at h
    rw [ofJsonItems, toJsonItems, ItemsSigned, List.cons.injEq]
    exact and_congr (toJson_ofJson_iff x h.1) (toJsonItems_ofJsonItems_iff xs h.2)

theorem toJsonFields_ofJsonFields_iff : ∀ fs : Fields, FieldsProper fs →
    (toJsonFields (ofJsonFields fs) = fs ↔ FieldsSigned fs)
  | [], _ => by simp only [ofJsonFields, toJsonFields, FieldsSigned]
  | (k, v) :: fs, h => by
    rw [FieldsProper] at h
    rw [ofJsonFields, toJsonFields, FieldsSigned, List.cons.injEq, Prod.mk.injEq]
    simp only [true_and]
    exact and_congr (toJson_ofJson_iff v h.1) (toJsonFields_ofJsonFields_iff fs h.2)
end

end Script.Value

/-! ## Namespaces -/

namespace Handler.Code

variable {limits : Script.Limits} {now : Instant} {scope : Scope} {p : Params} {v : Json}
  {vars : Fields}

/-- The innermost variable of a name has the value that all variables of the name have. -/
theorem varsOf_withValue {slots : List Script.Slot} {w : Script.Value}
    (h : varsOf (slots.map (Script.Slot.withValue "vars" w)) = .ok vars) :
    ∃ fs, w = .map fs ∧ vars = Script.Value.toJsonFields fs := by
  unfold varsOf at h
  split at h
  · rename_i name constant fs hfind
    cases h
    obtain ⟨s, -, hs⟩ := List.mem_map.1 (List.mem_of_find?_eq_some hfind)
    have hname : (s.name == "vars") = true := by
      have := List.find?_some hfind
      rwa [← hs, Script.Slot.name_withValue] at this
    rw [Script.Slot.withValue, if_pos hname] at hs
    cases hs
    exact ⟨fs, rfl, rfl⟩
  · cases h

/-- A script that does not mention the namespace leaves it as it comes back from a script. -/
theorem run_vars (hm : Script.Omits limits "vars" p.code)
    (h : run limits now scope p = .ok (v, vars)) :
    vars = Script.Value.toJsonFields (Script.Value.ofJsonFields scope.vars) := by
  -- Giving the variable the value it has changes no slot, so what the script leaves is the same
  -- with that value in it.
  have hslots : (slots scope p.args).map
      (Script.Slot.withValue "vars" (Script.Value.ofJson (.obj scope.vars))) =
        slots scope p.args := by
    simp [slots, Script.Slot.withValue]
  have hrun := Script.run_withValue hm now (Script.Value.ofJson (.obj scope.vars))
    (slots scope p.args)
  rw [hslots] at hrun
  obtain ⟨-, -, h⟩ := bind_eq_ok.1 h
  cases hr : Script.run limits now (slots scope p.args) p.code with
  | error f => rw [hr] at h; cases h
  | ok r =>
    obtain ⟨w, after⟩ := r
    rw [hr] at h hrun
    obtain ⟨left, hleft, hret⟩ := bind_eq_ok.1 h
    cases hret
    have hsame : after = after.map (Script.Slot.withValue "vars" _) :=
      congrArg Prod.snd (Except.ok.inj hrun)
    rw [hsame] at hleft
    obtain ⟨fs, hfs, rfl⟩ := varsOf_withValue hleft
    rw [Script.Value.ofJson] at hfs
    cases hfs
    rfl

/-- **A namespace that a script does not mention.** A proper value comes back from a script as it
was exactly when its integers have a sign; and so a script that succeeds and does not mention the
namespace leaves it as it was exactly when the integers in it have a sign. -/
theorem run_keeps_vars_iff (limits : Script.Limits) (now : Instant) (scope : Scope) (p : Params) :
    (∀ v : Json, v.Proper → ((Script.Value.ofJson v).toJson = v ↔ v.Signed)) ∧
      ∀ v vars, Json.Proper (.obj scope.vars) → Script.Omits limits "vars" p.code →
        run limits now scope p = .ok (v, vars) →
        (vars = scope.vars ↔ Json.Signed (.obj scope.vars)) := by
  refine ⟨Script.Value.toJson_ofJson_iff, fun v vars hp hm h => ?_⟩
  rw [run_vars hm h, Json.Signed]
  exact Script.Value.toJsonFields_ofJsonFields_iff _ (Json.Proper.obj_iff.1 hp).2

/-! ### Counters -/

/-- A scope whose namespace holds a counter. -/
def counterScope (octets : Int) : Scope :=
  .new .nil "count" none (.ofGlobals [("octets", .int octets)])

theorem one_omits_vars : Script.Omits {} "vars" "1" := by
  have h : (match Script.Source.parse 64 1048576 "1" with
    | .ok s => !Script.stmtsMention "vars" s.body
    | .error _ => false) = true := by decide +kernel
  intro s hs
  rw [hs] at h
  simpa using h

/-- A script that only counts to one succeeds. -/
theorem exists_run_one (octets : Int)
    (h : (run {} .epoch (counterScope octets) ⟨"1", .null⟩).toBool) :
    ∃ v vars, run {} .epoch (counterScope octets) ⟨"1", .null⟩ = .ok (v, vars) := by
  cases hr : run {} .epoch (counterScope octets) ⟨"1", .null⟩ with
  | error f => rw [hr] at h; cases h
  | ok r => exact ⟨r.1, r.2, rfl⟩

theorem counterScope_vars (octets : Int) :
    (counterScope octets).vars = [("octets", .int octets)] := rfl

theorem counterScope_proper (octets : Int)
    (h : -9223372036854775808 ≤ octets ∧ octets ≤ 18446744073709551615) :
    Json.Proper (.obj (counterScope octets).vars) := by
  rw [counterScope_vars]
  refine Json.Proper.obj_iff.2 ⟨List.pairwise_singleton _ _, ?_, trivial⟩
  rwa [Json.Proper]

theorem counterScope_signed {octets : Int} :
    Json.Signed (.obj (counterScope octets).vars) ↔ Script.Value.fits octets = true := by
  simp [counterScope_vars, Json.Signed, FieldsSigned]

theorem run_keeps_vars_iff_count :
    (Script.Value.ofJson (.int (-1))).toJson = .int (-1) ∧
      ∃ v, run {} .epoch (counterScope 3) ⟨"1", .null⟩ = .ok (v, (counterScope 3).vars) := by
  have hproper : Json.Proper (.int (-1)) := by rw [Json.Proper]; decide
  have hsigned : Json.Signed (.int (-1)) := by rw [Json.Signed]; decide
  obtain ⟨v, vars, h⟩ := exists_run_one 3 (by decide +kernel)
  obtain ⟨hvalues, hkeeps⟩ := run_keeps_vars_iff {} .epoch (counterScope 3) ⟨"1", .null⟩
  have hvars := hkeeps v vars (counterScope_proper 3 (by decide)) one_omits_vars h
  obtain rfl := hvars.2 (counterScope_signed.2 (by decide))
  exact ⟨(hvalues _ hproper).2 hsigned, v, h⟩

/-- The largest counter of 64 bits comes back as a double, also from a script that does not mention
it. -/
theorem counter_altered :
    (Script.Value.ofJson (.int 18446744073709551615)).toJson ≠ .int 18446744073709551615 ∧
      ∃ v vars, run {} .epoch (counterScope 18446744073709551615) ⟨"1", .null⟩ = .ok (v, vars) ∧
        vars ≠ (counterScope 18446744073709551615).vars := by
  have hfits : ¬ Script.Value.fits 18446744073709551615 = true := by decide
  have hint : Json.Proper (.int 18446744073709551615) := by rw [Json.Proper]; decide
  have hproper := counterScope_proper 18446744073709551615 (by decide)
  obtain ⟨v, vars, h⟩ := exists_run_one 18446744073709551615 (by decide +kernel)
  refine ⟨?_, v, vars, h, ?_⟩
  · rw [Ne, Script.Value.toJson_ofJson_iff _ hint, Json.Signed]
    exact hfits
  · rw [run_vars (p := ⟨"1", .null⟩) one_omits_vars h, Ne,
      Script.Value.toJsonFields_ofJsonFields_iff _ (Json.Proper.obj_iff.1 hproper).2]
    intro hsigned
    rw [← Json.Signed, counterScope_signed] at hsigned
    exact hfits hsigned

end Handler.Code
end Runbook

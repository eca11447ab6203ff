import Runbook.Proofs.Procedure.Report
import Runbook.Proofs.Run.Merge

/-!
# The store of results

A context keeps the result of an invocation under its step and a key for its target: the device, or
`Context.noDevice` when there is none. After any recordings, the result under a step and a key is
that of the last recording with this step and key (`under?_recordAll`), and a step's entry in
the tree that templates and scripts see has the result for the invocation's own device, else the one
without a device (`resultSeen?_eq`). So the store tells targets apart as long as no device has the
name of that key (`recorded_results_kept`). Nothing keeps a procedure from listing such a device
(`violations_listing`), and then targets are confused (`recorded_results_confused`).
-/

namespace Runbook

/-- One result and what it is recorded for. -/
structure Recording where
  step : String
  device : Option String
  result : StepResult

namespace Recording

/-- The result of the last of some recordings that is for a step and a target. -/
def lastFor? (rs : List Recording) (step : String) (device : Option String) : Option StepResult :=
  (rs.filter fun r => r.step == step && r.device == device).getLast?.map (·.result)

/-- The result of the last of some recordings that is for a step and any target with a key. -/
def lastUnder? (rs : List Recording) (step key : String) : Option StepResult :=
  (rs.filter fun r => r.step == step && r.device.getD Context.noDevice == key).getLast?.map
    (·.result)

theorem lastUnder?_append {rs : List Recording} {r : Recording} {step key : String} :
    lastUnder? (rs ++ [r]) step key =
      if r.step = step ∧ r.device.getD Context.noDevice = key then some r.result
      else lastUnder? rs step key := by
  rw [lastUnder?, List.filter_append, List.filter_singleton]
  split
  · rename_i h
    simp [h]
  · rename_i h
    have hp : (r.step == step && r.device.getD Context.noDevice == key) = false := by simpa using h
    rw [hp, cond_false, List.append_nil, lastUnder?]

/-- Targets have keys of their own unless a device has the name of the key for none. -/
theorem key_inj {d d' : Option String} (hd : d ≠ some Context.noDevice)
    (hd' : d' ≠ some Context.noDevice) :
    d.getD Context.noDevice = d'.getD Context.noDevice ↔ d = d' := by
  cases d <;> cases d' <;> simp_all [eq_comm]

theorem lastUnder?_key {rs : List Recording} (hn : ∀ r ∈ rs, r.device ≠ some Context.noDevice)
    {step : String} {device : Option String} (hd : device ≠ some Context.noDevice) :
    lastUnder? rs step (device.getD Context.noDevice) = lastFor? rs step device := by
  refine congrArg (fun rs => (List.getLast? rs).map _) (List.filter_congr fun r hr => ?_)
  rw [Bool.eq_iff_iff]
  simp only [Bool.and_eq_true, beq_iff_eq, key_inj (hn r hr) hd]

end Recording

namespace Context

open Recording

variable {c : Context} {rs : List Recording} {step key : String} {device : Option String}

/-- The context after some recordings. -/
def recordAll (c : Context) (rs : List Recording) : Context :=
  rs.foldl (fun c r => c.recordResult r.step r.device r.result) c

theorem recordAll_append {r : Recording} :
    c.recordAll (rs ++ [r]) = (c.recordAll rs).recordResult r.step r.device r.result := by
  rw [recordAll, List.foldl_append, List.foldl_cons, List.foldl_nil, ← recordAll]

/-- The result of a step under a key. -/
def under? (c : Context) (step key : String) : Option StepResult :=
  (Table.get? step c.stepResults).bind (Table.get? key)

theorem under?_recordResult {other : String} {r : StepResult} :
    (c.recordResult step device r).under? other key =
      if step = other ∧ device.getD noDevice = key then some r else c.under? other key := by
  simp only [under?, recordResult, Table.get?_insert]
  by_cases hs : step = other
  · subst hs
    by_cases hk : device.getD noDevice = key
    · simp [hk]
    · cases h : Table.get? step c.stepResults <;> simp [hk, Table.get?_insert, Table.get?]
  · simp [hs]

/-- **What is stored** under a step and a key is what was recorded for them last. -/
theorem under?_recordAll :
    (c.recordAll rs).under? step key = (lastUnder? rs step key).or (c.under? step key) := by
  induction rs using List.reverseRec with
  | nil => rfl
  | append_singleton rs r ih =>
    rw [recordAll_append, under?_recordResult, lastUnder?_append, ih]
    split <;> rfl

/-! ## The tree of steps -/

/-- What an invocation for a device finds as the result of a step in the tree. -/
def resultSeen? (c : Context) (device : Option String) (step : String) : Option Json :=
  ((c.stepsTree device).get? step).bind (Json.get? "result")

theorem get?_stepEntry {ofStep : Table StepResult} :
    (c.stepEntry device step ofStep).get? "result" =
      (ownResult? ofStep device).map StepResult.toJson := by
  cases hs : Table.get? step c.stepStatus <;> cases hr : ownResult? ofStep device <;>
    simp [stepEntry, hs, hr, Json.ofFields, Json.get?, Table.ofList, Table.get?_insert, Table.get?]

/-- An invocation finds the result under its device, else the one under the key for none. -/
theorem resultSeen?_eq :
    c.resultSeen? device step =
      ((device.bind fun d => c.under? step d).or (c.under? step noDevice)).map
        StepResult.toJson := by
  unfold resultSeen? stepsTree
  rw [Json.get?, Table.get?_map (f := fun step ofStep => c.stepEntry device step ofStep)]
  simp only [under?]
  cases h : Table.get? step c.stepResults with
  | none => cases device <;> rfl
  | some ofStep =>
    rw [Option.map_some, Option.bind_some, get?_stepEntry]
    cases device <;> rfl

/-- **Recorded results are kept apart**, as long as no device has the name of the key for none. The
result of a step and a target is the last one recorded for exactly these, and there is none before;
an invocation for a device finds its own latest result of a step, else that of the invocation
without a device. -/
theorem recorded_results_kept (globals : Fields) (rs : List Recording)
    (hn : ∀ r ∈ rs, r.device ≠ some noDevice) (step : String) :
    (∀ device, device ≠ some noDevice →
      ((ofGlobals globals).recordAll rs).resultFor? step device = lastFor? rs step device) ∧
    ∀ device, ((ofGlobals globals).recordAll rs).resultSeen? (some device) step =
      ((lastFor? rs step (some device)).or (lastFor? rs step none)).map StepResult.toJson := by
  have hstored (key : String) :
      ((ofGlobals globals).recordAll rs).under? step key = lastUnder? rs step key := by
    rw [under?_recordAll]
    exact Option.or_none
  refine ⟨fun device hd => ?_, fun device => ?_⟩
  · rw [← lastUnder?_key hn hd, ← hstored]
    rfl
  · have hnone : lastUnder? rs step noDevice = lastFor? rs step none :=
      @lastUnder?_key rs hn step none nofun
    rw [resultSeen?_eq, Option.bind_some, hstored, hstored, hnone]
    by_cases hd : device = noDevice
    · -- nothing was recorded for a device of this name
      subst hd
      have hno : lastFor? rs step (some noDevice) = none := by
        rw [lastFor?, List.filter_eq_nil_iff.2 fun r hr => by simp [hn r hr]]
        rfl
      rw [hno, hnone, Option.or_self, Option.none_or]
    · have hown : lastUnder? rs step device = lastFor? rs step (some device) :=
        @lastUnder?_key rs hn step (some device) (by simpa using hd)
      rw [hown]

/-- The results of a survey of two devices and of one step without a device. -/
def surveyRecordings : List Recording :=
  [⟨"show", some "r1", .failed "down" .null⟩, ⟨"notify", none, .success "sent" .null⟩,
   ⟨"show", some "r1", .success "up" .null⟩, ⟨"show", some "r2", .success "slow" .null⟩]

theorem recorded_results_kept_survey :
    ((ofGlobals []).recordAll surveyRecordings).resultFor? "show" (some "r1") =
        some (.success "up" .null) ∧
      ((ofGlobals []).recordAll surveyRecordings).resultSeen? (some "r3") "notify" =
        some (StepResult.success "sent" .null).toJson := by
  have hn : ∀ r ∈ surveyRecordings, r.device ≠ some noDevice := by
    decide +revert
  exact ⟨(recorded_results_kept [] surveyRecordings hn "show").1 (some "r1") (by decide),
    (recorded_results_kept [] surveyRecordings hn "notify").2 "r3"⟩

/-! ## A device with the name of the key for none -/

/-- A procedure with one step for one device. -/
def listing (device : String) : ProcedureDefinition where
  name := "listing"
  devices := [device]
  steps := [{ name := "show", stepType := "command" }]

/-- A procedure may list any device. -/
theorem violations_listing (device : String) : (listing device).violations = [] := rfl

/-- A device that a procedure may list is taken for no device: its result is found where no result
was recorded, and other devices see it as that of the step without a device. -/
theorem recorded_results_confused :
    let rs : List Recording := [⟨"show", some noDevice, .success "up" .null⟩]
    (listing noDevice).violations = [] ∧ noDevice ∈ (listing noDevice).devices ∧
      lastFor? rs "show" none = none ∧ lastFor? rs "show" (some "r1") = none ∧
      ((ofGlobals []).recordAll rs).resultFor? "show" none = some (.success "up" .null) ∧
      ((ofGlobals []).recordAll rs).resultSeen? (some "r1") "show" =
        some (StepResult.success "up" .null).toJson :=
  ⟨violations_listing noDevice, List.mem_singleton.2 rfl, rfl, rfl, rfl, rfl⟩

end Context
end Runbook

import Runbook.Proofs.Run.Invoke
import Runbook.Proofs.Run.Merge
import Runbook.Run.Walk

/-!
# Devices do not influence each other

What a visit comes to for a device is determined by the step, by the context before it and by what
the calls of the device's own invocation are answered. The main statement compares two visits of a
step over worlds that agree on these answers, and on nothing else (`Engine.device_isolated`): the
record, the result and the namespace of the device are the same, whatever other devices are there
and whatever becomes of them.
-/

namespace Runbook.Engine

variable {e e' : Engine} {w w' : World} {g g' : ProcedureGraph} {id d : String}
  {s s' : StepDefinition} {c : Context} {v v' : StepVisit}

/-- **Devices do not influence each other.** Two visits of a step from one context, for targets that
may differ, give a device the same record, result and namespace, when the calls of its own
invocation are answered alike in both and it runs no script that reads the clock. -/
theorem device_isolated (h : Counterparts w w' e e')
    (hs : g.step? id = some s) (hs' : g'.step? id = some s')
    (hsame : s' = { s with devices := s'.devices })
    (hd : some d ∈ g.targets s) (hd' : some d ∈ g'.targets s')
    (hclock : s.ReadsNoClock w.limits)
    (ha : w.AnswerAlike w' (e.scopeFor id c (some d))
      (e.invoke s (e.scopeFor id c (some d))).events)
    (hv : Admits e g id s c v) (hv' : Admits e' g' id s' c v') (began began' : Nat) :
    ∃ r vars,
      (v.records id).filter (fun r => r.device = some d) = [⟨id, some d, r⟩] ∧
      (v'.records id).filter (fun r => r.device = some d) = [⟨id, some d, r⟩] ∧
      (e.merge id began v c).resultFor? id (some d) = some r ∧
      (e'.merge id began' v' c).resultFor? id (some d) = some r ∧
      (e.merge id began v c).device? d = some vars ∧
      (e'.merge id began' v' c).device? d = some vars := by
  have hm := step?_mem hs
  have hm' := step?_mem hs'
  have he : e'.settled id s' c (some d) = e.settled id s c (some d) := h.settled_eq hsame hclock ha
  refine ⟨_, _, hv.records_filter hm hd, ?_, hv.resultFor?_merge hm hd, ?_,
    hv.device?_merge hm hd, ?_⟩
  · rw [hv'.records_filter hm' hd', he]
    rfl
  · rw [hv'.resultFor?_merge hm' hd', he]
  · rw [hv'.device?_merge hm' hd', he]

/-! ## An instance -/

/-- A world in which the device `a` answers every command, and all others in some other way. -/
def worldOfOthers (others : Response CommandOutput) : World where
  transport o _ := if o.device = some "a" then ⟨1, .value { output := "up" }⟩ else others
  relay _ _ := ⟨0, .value ()⟩
  exchange _ _ _ := ⟨0, .value .unreachable⟩
  limits := {}
  now _ := default

/-- An engine over such a world. -/
def engineOfOthers (others : Response CommandOutput) : Engine where
  registry := .ofWorld (worldOfOthers others)
  config := {}
  execution := default
  startedAt := default

/-- The other devices answer too. -/
def calmEngine : Engine := engineOfOthers ⟨0, .value { output := "up" }⟩

/-- The calls to the other devices break down. -/
def brokenEngine : Engine := engineOfOthers ⟨9, .panic "lost"⟩

/-- A step that sends one command to each device. -/
def probe : StepDefinition :=
  { name := "Probe", id := some "probe", stepType := "command", params := [("command", .str "show")] }

/-- The step for one device. -/
def probeOne : ProcedureGraph := ⟨{ name := "P", devices := ["a"], steps := [probe] }, by decide⟩

/-- The step for two devices. -/
def probeBoth : ProcedureGraph :=
  ⟨{ name := "P", devices := ["b", "a"], steps := [probe] }, by decide⟩

theorem device_isolated_from_panic :
    (calmEngine.merge "probe" 0 (calmEngine.visit probeOne "probe" probe {}) {}).device? "a" =
      (brokenEngine.merge "probe" 0 (brokenEngine.visit probeBoth "probe" probe {}) {}).device? "a" := by
  have h : Counterparts (worldOfOthers ⟨0, .value { output := "up" }⟩)
      (worldOfOthers ⟨9, .panic "lost"⟩) calmEngine brokenEngine := ⟨rfl, rfl, rfl, rfl, rfl⟩
  have hs : probeOne.step? "probe" = some probe := rfl
  have hs' : probeBoth.step? "probe" = some probe := rfl
  have hd : some "a" ∈ probeOne.targets probe := by decide
  have hd' : some "a" ∈ probeBoth.targets probe := by decide
  have hclock : probe.ReadsNoClock {} := fun hc => absurd hc (by decide)
  obtain ⟨_, _, -, -, -, -, hv, hv'⟩ := device_isolated h hs hs' rfl hd hd' hclock
    ⟨fun _ => rfl, fun _ => rfl, fun _ _ => rfl⟩ visit_admits visit_admits 0 0
  exact hv.trans hv'.symm

end Runbook.Engine

import Runbook.Proofs.Run.Scheduling
import Runbook.Proofs.Script.Variables
import Runbook.Proofs.Template.Mention

/-!
# Runs under another identifier

An execution is told its identifier in two places: a template and a script may read it. A step whose
parameters and script come to the same under every identifier (`StepDefinition.ReadsNoIdentifier`),
as those do that never mention `execution_id` (`ReadsNoIdentifier.of_omits`), does the same under
every identifier (`Engine.invoke_withExecution`). So a run of such steps has the same executions
under every identifier, up to the identifier in them (`Schedules.withExecution`).
-/

namespace Runbook

/-- The scope of the same invocation in a run with another identifier. -/
def Scope.withExecution (s : Scope) (id : Identifier) : Scope := { s with execution := id }

theorem Scope.occasion_withExecution (s : Scope) (id : Identifier) (n : Nat) :
    (s.withExecution id).occasion n = s.occasion n := rfl

/-- What a script comes to in a `code` step does not depend on the identifier of the run. -/
def Script.ReadsNoIdentifier (limits : Script.Limits) (code : String) : Prop :=
  ∀ now args scope id, Handler.Code.run limits now (Scope.withExecution scope id) ⟨code, args⟩ =
    Handler.Code.run limits now scope ⟨code, args⟩

theorem Script.ReadsNoIdentifier.run_eq {limits : Script.Limits} {p : Handler.Code.Params}
    (h : Script.ReadsNoIdentifier limits p.code) (now : Instant) (scope : Scope) (id : Identifier) :
    Handler.Code.run limits now (scope.withExecution id) p = Handler.Code.run limits now scope p :=
  h now p.args scope id

/-- What the parameters and the script of a step come to does not depend on the identifier of the
run. -/
structure StepDefinition.ReadsNoIdentifier (w : World) (s : StepDefinition) : Prop where
  params : ∀ h ∈ Handler.builtins w, h.name = s.stepType → ∀ scope id,
    Template.resolveParams (.obj s.params) (Scope.withExecution scope id) h.raw =
      Template.resolveParams (.obj s.params) scope h.raw
  script : s.stepType = "code" → ∀ code, Table.get? "code" s.params = some (.str code) →
    Script.ReadsNoIdentifier w.limits code

/-! ## Steps that do not mention the identifier -/

namespace Handler

variable {w : World} {h : Handler} {params : Json} {scope : Scope} {id : Identifier}

/-- Only a script can make a built-in handler depend on the identifier of the run. -/
theorem run_withExecution (hm : h ∈ builtins w) (hc : h.name = "code" →
    ∀ p, Code.decode params = .ok p → Script.ReadsNoIdentifier w.limits p.code) :
    h.run params (scope.withExecution id) = h.run params scope := by
  simp only [builtins, List.mem_cons, List.not_mem_nil, or_false] at hm
  rcases hm with rfl | rfl | rfl | rfl | rfl | rfl
  · rfl
  · rfl
  · rfl
  · rfl
  · rfl
  · unfold Code.handler
    dsimp only
    cases hp : decodeParams "code" Code.decode params with
    | error f => rw [Timeline.ofExcept_error_bind, Timeline.ofExcept_error_bind]
    | ok p =>
      have hcode : Script.ReadsNoIdentifier w.limits p.code := hc rfl p (decodeParams_eq_ok.1 hp)
      rw [Timeline.ofExcept_ok_bind, Timeline.ofExcept_ok_bind, Scope.occasion_withExecution,
        hcode.run_eq]

end Handler

namespace Engine

variable {e : Engine} {w : World} {s : StepDefinition} {scope : Scope} {id : Identifier}
  {g : ProcedureGraph} {overrides : Fields} {cancelFrom : Option Nat} {step : String}
  {c : Context} {v : StepVisit} {a b : Walk} {t : Turn} {ending : Ending} {x : Execution}

/-- The engine of a run with another identifier. -/
def withExecution (e : Engine) (id : Identifier) : Engine := { e with execution := id }

/-- **An invocation** does the same under another identifier, if its step does not read it. -/
theorem invoke_withExecution (he : e.registry = .ofWorld w) (hs : s.ReadsNoIdentifier w) :
    e.invoke s (scope.withExecution id) = e.invoke s scope := by
  unfold invoke
  rw [he, Registry.resolve_ofWorld]
  cases hf : (Handler.builtins w).find? (·.name == s.stepType) with
  | none =>
    rw [Option.elim_none, Timeline.ofExcept_error_bind, Timeline.ofExcept_error_bind]
  | some h =>
    have hm := List.mem_of_find?_eq_some hf
    have hn : h.name = s.stepType := by simpa using List.find?_some hf
    simp only [Option.elim_some, Timeline.ofExcept_ok_bind]
    rw [hs.params h hm hn]
    cases hp : Template.resolveParams (.obj s.params) scope h.raw with
    | error f => rw [Timeline.ofExcept_error_bind, Timeline.ofExcept_error_bind]
    | ok params =>
      rw [Timeline.ofExcept_ok_bind, Timeline.ofExcept_ok_bind, Handler.run_withExecution hm]
      intro hc p hd
      obtain ⟨ps, rfl, hraw⟩ := Template.get?_resolveParams hp
      refine hs.script (hn ▸ hc) p.code ?_
      rw [← hraw "code" (Handler.code_mem_raw hm hc), Handler.Code.decode_code hd]

theorem invocation_withExecution (he : e.registry = .ofWorld w) (hs : s.ReadsNoIdentifier w)
    (id : Identifier) : (e.withExecution id).invocation step s c = e.invocation step s c := by
  funext d start
  have ht : e.invoke s ((e.scopeFor step c d).withExecution id) = e.invoke s (e.scopeFor step c d) :=
    invoke_withExecution he hs
  unfold invocation
  rw [← ht]
  rfl

theorem Admits.withExecution (he : e.registry = .ofWorld w) (hs : s.ReadsNoIdentifier w)
    (h : Admits e g step s c v) (id : Identifier) : Admits (e.withExecution id) g step s c v where
  started := by
    rw [invocation_withExecution he hs]
    exact h.started
  ended := h.ended

section
variable (he : e.registry = .ofWorld w) (hg : ∀ s ∈ g.definition.steps, s.ReadsNoIdentifier w)
include he hg

theorem Turns.withExecution (h : Turns e g cancelFrom step a t) (id : Identifier) :
    Turns (e.withExecution id) g cancelFrom step a t := by
  cases h with
  | refused hx => exact .refused hx
  | visited hs hv =>
    have hm := (List.of_mem_zip (step?_mem (enter_eq_ok.1 hs).step)).2
    exact .visited hs (hv.withExecution he (hg _ hm) id)

theorem Walks.withExecution (h : Walks e g cancelFrom step a ending b) (id : Identifier) :
    Walks (e.withExecution id) g cancelFrom step a ending b := by
  induction h with
  | stop ht => exact .stop (ht.withExecution he hg id)
  | next ht _ ih => exact .next (ht.withExecution he hg id) ih

/-- **A run** comes to the same executions under another identifier, up to the identifier in them, if
its procedure does not read it. -/
theorem Schedules.withExecution (h : Schedules e g overrides cancelFrom x) (id : Identifier) :
    Schedules (e.withExecution id) g overrides cancelFrom { x with id } := by
  obtain ⟨ending, b, hw, rfl⟩ := h
  exact ⟨ending, b, hw.withExecution he hg id, rfl⟩

end

end Engine
end Runbook

import Runbook.Proofs.Handler.Untouched
import Runbook.Proofs.Run.Fault

/-!
# Deliveries of notifications

Two limits lie around the delivery of a message: the one that its parameters set and the one of its
step. Together they are the smaller one (`Engine.invoke_delivery`): what comes of the message up to
then is the result of the invocation, and later the result is that this limit is over. The message
is handed over once in either case (`Engine.notification_delivered_once`).
-/

namespace Runbook

open Handler

theorem Notify.limit_of_absent {params : Json} (h : params.get? "timeout_seconds" = none) :
    Notify.limit params = 30 := by
  rw [Notify.limit, h]
  rfl

theorem Notify.limit_of_seconds {params : Json} {t : Nat}
    (h : params.get? "timeout_seconds" = some (.int t)) : Notify.limit params = t := by
  rw [Notify.limit, h]
  simp

namespace Handler.Notify

variable {n : Notification} {vars : Fields} {answer : Response Unit} {t u : Nat}

/-- **Of two limits** the smaller one counts. -/
theorem delivery_within : (delivery n vars answer t).within (u * 1000) (.fault (.timeout u)) =
    delivery n vars answer (min t u) := by
  have helapsed : (delivery n vars answer t).elapsed = min answer.elapsed (t * 1000) := rfl
  rw [Timeline.within, helapsed]
  rcases Nat.lt_or_ge u t with hut | htu
  · have hlimit : u * 1000 < t * 1000 := by omega
    rw [Nat.min_eq_right hut.le]
    by_cases hd : answer.elapsed ≤ u * 1000
    · have ht : answer.elapsed ≤ t * 1000 := hd.trans hlimit.le
      rw [Nat.min_eq_left ht, if_pos hd, delivery, delivery, if_pos ht, if_pos hd,
        Nat.min_eq_left ht, Nat.min_eq_left hd]
    · have hlt : ¬min answer.elapsed (t * 1000) ≤ u * 1000 :=
        Nat.not_le.2 (Nat.lt_min.2 ⟨Nat.not_le.1 hd, hlimit⟩)
      rw [if_neg hlt, delivery, delivery, if_neg hd, Nat.min_eq_right (Nat.le_of_not_le hd)]
      simp
  · -- The delivery is over by the later limit in any case.
    have hle : min answer.elapsed (t * 1000) ≤ u * 1000 :=
      (Nat.min_le_right _ _).trans (Nat.mul_le_mul_right 1000 htu)
    rw [if_pos hle, Nat.min_eq_left htu]

/-- What becomes of a message, as a result. -/
def own (n : Notification) : Outcome Unit → StepResult
  | .value _ => sent n
  | .fault f => f.result
  | .panic m => (StepFault.panic m).result

theorem resultOf_delivery : Invocation.resultOf (delivery n vars answer t) =
    if answer.elapsed ≤ t * 1000 then own n answer.outcome else (StepFault.timeout t).result := by
  rw [Invocation.resultOf, delivery]
  by_cases hl : answer.elapsed ≤ t * 1000
  · simp only [if_pos hl]
    cases answer.outcome <;> rfl
  · simp only [if_neg hl]

end Handler.Notify

namespace Engine

variable {e : Engine} {g : ProcedureGraph} {id : String} {s : StepDefinition} {scope : Scope}
  {c : Context} {a : Walk} {v : StepVisit} {i : Invocation} {w : World} {params : Json}
  {n : Notification}

/-- The invocation has a message for the relay. -/
structure Notifies (e : Engine) (w : World) (s : StepDefinition) (scope : Scope) (params : Json)
    (n : Notification) : Prop where
  registry : e.registry = .ofWorld w
  stepType : s.stepType = "notify"
  resolves : Template.resolveParams (.obj s.params) scope [] = .ok params
  decodes : Notification.decode params = .ok n

theorem Notifies.calls (h : Notifies e w s scope params n) :
    Calls e s scope (Notify.handler w.relay) params where
  handler := by
    rw [h.registry, h.stepType]
    exact Registry.resolve_builtin (h := Notify.handler w.relay) (by simp [builtins])
  params := h.resolves

theorem invoke_delivery (h : Notifies e w s scope params n) :
    e.invoke s scope = Notify.delivery n scope.vars (w.relay (scope.occasion 0) n)
      (min (Notify.limit params) (e.timeout s)) := by
  rw [h.calls.invoke_eq, Notify.run_of_decode w.relay scope h.decodes, Notify.delivery_within]

/-! ## Invocations of a visit -/

/-- The invocations of a visit are those of its step. -/
theorem Admits.invocation_eq (h : Admits e g id s c v) (hi : i ∈ v.started) :
    i = e.invocation id s c i.device i.start := by
  obtain ⟨starts, -, hs⟩ := h.started
  obtain ⟨n, hn⟩ := List.mem_iff_getElem?.1 (hs.subset hi)
  obtain ⟨d, start, -, -, rfl⟩ := List.getElem?_zipWith_eq_some.1 hn
  rfl

theorem Admits.record_mem (h : Admits e g id s c v) (hi : i ∈ v.started) :
    i.record id ∈ v.records id :=
  List.mem_map_of_mem (List.mem_mergeSort.2 (h.ended.symm.subset hi))

/-- **A notification is delivered once.** The relay is called when the invocation starts and not
again, whatever comes of it. Its own answer is the result when it comes within the smaller of the
two limits, at the limit itself too, and else the result says that this limit is over. -/
theorem notification_delivered_once (hv : Admits e g id s a.context v) (hi : i ∈ v.started)
    (h : Notifies e w s (e.scopeFor id a.context i.device) params n) :
    let answer := w.relay ((e.scopeFor id a.context i.device).occasion 0) n
    let own := (Notify.own n answer.outcome).withDuration answer.elapsed
    let seconds := min (Notify.limit params) (e.timeout s)
    i.events = [(i.start, .notice n)] ∧
      i.record id ∈ (e.advance id v a).log ∧ (i.record id).result = i.result ∧
      (i.result = own ↔ answer.elapsed ≤ seconds * 1000) ∧
      (i.result ≠ own → i.result = ⟨.error,
        "Execution timed out after " ++ toString seconds ++ " seconds", .null, seconds * 1000⟩) ∧
      (params.get? "timeout_seconds" = none → Notify.limit params = 30) ∧
      ∀ t : Nat, params.get? "timeout_seconds" = some (.int t) → Notify.limit params = t := by
  intro answer own seconds
  have hinvocation := hv.invocation_eq hi
  rw [invocation, invoke_delivery h] at hinvocation
  have hevents : i.events = [(i.start, .notice n)] := by
    refine (congrArg Invocation.events hinvocation).trans ?_
    simp [Invocation.ofTimeline, Notify.delivery, Timeline.later]
  have hresult : i.result =
      (if answer.elapsed ≤ seconds * 1000 then Notify.own n answer.outcome
        else (StepFault.timeout seconds).result).withDuration
        (min answer.elapsed (seconds * 1000)) := by
    refine (congrArg Invocation.result hinvocation).trans ?_
    change (Invocation.resultOf _).withDuration _ = _
    rw [Notify.resultOf_delivery]
    rfl
  have hlog : i.record id ∈ (e.advance id v a).log :=
    List.mem_append_right _ (hv.record_mem hi)
  have hlate (hd : ¬answer.elapsed ≤ seconds * 1000) :
      i.result = (StepFault.timeout seconds).result.withDuration (seconds * 1000) := by
    rw [hresult, if_neg hd, Nat.min_eq_right (Nat.le_of_not_le hd)]
  have hintime (hd : answer.elapsed ≤ seconds * 1000) : i.result = own := by
    rw [hresult, if_pos hd, Nat.min_eq_left hd]
  refine ⟨hevents, hlog, rfl, ⟨fun he => ?_, hintime⟩, fun hne => ?_, Notify.limit_of_absent,
    fun _ => Notify.limit_of_seconds⟩
  · -- A result after the limit has another duration.
    by_contra hd
    have hduration := congrArg StepResult.durationMs (he.symm.trans (hlate hd))
    exact hd (Nat.le_of_eq hduration)
  · exact hlate fun hd => hne (hintime hd)

/-! ## An instance -/

/-- A world whose relay takes its time. -/
def lazyWorld (ms : Nat) : World where
  transport _ _ := ⟨0, .value { output := "" }⟩
  relay _ _ := ⟨ms, .value ()⟩
  exchange _ _ _ := ⟨0, .value .unreachable⟩
  limits := {}
  now _ := default

/-- An engine over this world. -/
def lazyEngine (ms : Nat) : Engine where
  registry := .ofWorld (lazyWorld ms)
  config := {}
  execution := default
  startedAt := default

/-- A step that tells of something, for a second at most. -/
def tell : StepDefinition where
  name := "Tell"
  id := some "tell"
  stepType := "notify"
  devices := some []
  params := [("body", .str "done"), ("timeout_seconds", .int 1)]

/-- A procedure that does nothing else. -/
def telling : ProcedureGraph := ⟨{ name := "Telling", steps := [tell] }, by decide⟩

theorem lazyEngine_notifies (ms : Nat) (scope : Scope) :
    Notifies (lazyEngine ms) (lazyWorld ms) tell scope (.obj tell.params)
      ⟨"log", [], "", "done"⟩ where
  registry := rfl
  stepType := rfl
  resolves := rfl
  decodes := rfl

/-- A second is enough for a relay that takes a second, and too short for one that takes longer. -/
theorem notification_delivered_once_tell :
    let start : Walk := { context := telling.initialContext [] }
    let visit := fun ms => (lazyEngine ms).visit telling "tell" tell start.context
    (∃ i ∈ (visit 1000).started, i.events = [(0, .notice ⟨"log", [], "", "done"⟩)] ∧
        i.result.status = .success) ∧
      ∃ i ∈ (visit 1001).started, i.events = [(0, .notice ⟨"log", [], "", "done"⟩)] ∧
        i.result.message = "Execution timed out after 1 seconds" := by
  intro start visit
  have hmem (ms : Nat) :
      (lazyEngine ms).invocation "tell" tell start.context none 0 ∈ (visit ms).started :=
    List.mem_singleton.2 rfl
  have hfacts (ms : Nat) := notification_delivered_once (a := start) visit_admits (hmem ms)
    (lazyEngine_notifies ms _)
  refine ⟨⟨_, hmem 1000, (hfacts 1000).1, ?_⟩, ⟨_, hmem 1001, (hfacts 1001).1, ?_⟩⟩
  · obtain ⟨-, -, -, htime, -⟩ := hfacts 1000
    rw [htime.2 (by decide)]
    rfl
  · obtain ⟨-, -, -, htime, hlate, -⟩ := hfacts 1001
    rw [hlate fun ho => absurd (htime.1 ho) (by decide)]
    rfl

end Engine
end Runbook

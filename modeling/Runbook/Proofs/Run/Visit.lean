import Runbook.Proofs.Procedure.Valid
import Runbook.Run.Step

/-!
# What a visit comes to

The invocations of a visit may start and end in any order (`Engine.Admits`); the visits that an
engine makes are among those (`visit_admits`). What is merged of an invocation is its device, its
result and its namespace (`Invocation.settled`), and of every visit that is admitted these are the
same, in the order of the devices (`Admits.merged_settled`). So the records, the status and the
context after a visit depend on its step and on the context before it alone (`Admits.records_eq`,
`Admits.status_eq`, `Admits.commits_eq`).
-/

namespace Runbook

/-! ## The order of targets -/

theorem targetNotAfter_some {a b : String} : targetNotAfter (some a) (some b) ↔ a ≤ b := by
  simp only [targetNotAfter, Bool.not_eq_true', decide_eq_false_iff_not]
  exact Iff.rfl

theorem targetNotAfter_trans (a b c : Option String) (hab : targetNotAfter a b)
    (hbc : targetNotAfter b c) : targetNotAfter a c := by
  match a, b, c with
  | none, _, _ => rfl
  | some _, none, _ => cases hab
  | some _, some _, none => cases hbc
  | some _, some _, some _ =>
    rw [targetNotAfter_some] at hab hbc ⊢
    exact String.le_trans hab hbc

theorem targetNotAfter_total (a b : Option String) : targetNotAfter a b || targetNotAfter b a := by
  match a, b with
  | none, _ => rfl
  | some _, none => rfl
  | some a, some b =>
    rw [Bool.or_eq_true, targetNotAfter_some, targetNotAfter_some]
    exact String.le_total a b

theorem targetNotAfter_antisymm {a b : Option String} (hab : targetNotAfter a b)
    (hba : targetNotAfter b a) : a = b := by
  match a, b with
  | none, none => rfl
  | none, some _ => cases hba
  | some _, none => cases hab
  | some _, some _ =>
    rw [targetNotAfter_some] at hab hba
    rw [String.le_antisymm hab hba]

namespace ProcedureGraph

/-- The targets of a step in the order in which its invocations are merged. -/
def order (g : ProcedureGraph) (s : StepDefinition) : List (Option String) :=
  (g.targets s).mergeSort targetNotAfter

variable {g : ProcedureGraph} {id : String} {s : StepDefinition}

theorem order_perm : (g.order s).Perm (g.targets s) := List.mergeSort_perm _ _

theorem order_pairwise : (g.order s).Pairwise (targetNotAfter · ·) :=
  List.pairwise_mergeSort targetNotAfter_trans targetNotAfter_total _

@[simp] theorem length_order : (g.order s).length = (g.targets s).length := order_perm.length_eq

@[simp] theorem mem_order {d : Option String} : d ∈ g.order s ↔ d ∈ g.targets s :=
  order_perm.mem_iff

/-- A list of targets in order is the order of the targets. -/
theorem eq_order {ds : List (Option String)} (hp : ds.Perm (g.targets s))
    (hs : ds.Pairwise (targetNotAfter · ·)) : ds = g.order s :=
  (hp.trans order_perm.symm).eq_of_pairwise (fun _ _ _ _ => targetNotAfter_antisymm) hs
    order_pairwise

theorem some_mem_targets {d : String} : some d ∈ g.targets s ↔ d ∈ g.devicesFor s := by
  unfold targets
  split
  · rename_i hd
    simp [hd]
  · simp

theorem none_mem_targets : none ∈ g.targets s ↔ g.devicesFor s = [] := by
  unfold targets
  split
  · rename_i hd
    simp [hd]
  · rename_i hd
    simpa using hd

theorem targets_ne_nil : g.targets s ≠ [] := by
  unfold targets
  split
  · exact List.cons_ne_nil _ _
  · simpa

/-- No target of a declared step occurs twice. -/
theorem targets_nodup (h : (id, s) ∈ g.definition.identified) : (g.targets s).Nodup := by
  have hn := devicesFor_nodup h
  unfold targets
  split
  · simp
  · exact hn.map fun _ _ h => Option.some.inj h

theorem order_nodup (h : (id, s) ∈ g.definition.identified) : (g.order s).Nodup :=
  order_perm.nodup_iff.2 (targets_nodup h)

theorem order_ne_nil : g.order s ≠ [] := fun h =>
  targets_ne_nil (h ▸ order_perm.symm).eq_nil

end ProcedureGraph

/-! ## Schedules -/

namespace Schedule

theorem length_startsFrom (slots : Nat) (busy ds : List Nat) :
    (startsFrom slots busy ds).length = ds.length := by
  induction ds generalizing busy with
  | nil => rfl
  | cons d ds ih => simp [startsFrom, ih]

@[simp] theorem length_starts (slots : Nat) (ds : List Nat) :
    (starts slots ds).length = ds.length := length_startsFrom _ _ _

end Schedule

/-- The invocation without the part of the schedule in it: when it starts and when it does what. -/
def Invocation.settled (i : Invocation) : Invocation := { i with start := 0, events := [] }

@[simp] theorem Invocation.settled_device (i : Invocation) : i.settled.device = i.device := rfl

namespace Engine

variable {e : Engine} {g : ProcedureGraph} {id : String} {s : StepDefinition} {c : Context}
  {v : StepVisit}

/-- The invocation of a step for one target that starts at some moment. -/
def invocation (e : Engine) (id : String) (s : StepDefinition) (c : Context)
    (device : Option String) (start : Nat) : Invocation :=
  .ofTimeline device (e.scopeFor id c device).vars start (e.invoke s (e.scopeFor id c device))

/-- What there is to merge of the invocation of a step for one target. -/
def settled (e : Engine) (id : String) (s : StepDefinition) (c : Context)
    (device : Option String) : Invocation := (e.invocation id s c device 0).settled

theorem invocation_settled (device : Option String) (start : Nat) :
    (e.invocation id s c device start).settled = e.settled id s c device := rfl

/-- A visit of a step that some schedule gives: each target has one invocation, which starts at any
moment, and the invocations end in any order. -/
structure Admits (e : Engine) (g : ProcedureGraph) (id : String) (s : StepDefinition)
    (c : Context) (v : StepVisit) : Prop where
  started : ∃ starts : List Nat, starts.length = (g.targets s).length ∧
    v.started.Perm (List.zipWith (e.invocation id s c) (g.targets s) starts)
  ended : v.ended.Perm v.started

theorem invocations_eq : e.invocations g id s c =
    List.zipWith (e.invocation id s c) (g.targets s)
      (Schedule.starts e.slots ((e.timelines g id s c).map (·.elapsed))) := by
  refine List.ext_getElem ?_ fun i h₁ h₂ => ?_
  · simp [invocations, timelines]
  · simp [invocations, timelines, invocation]

/-- The visits that an engine makes are admitted. -/
theorem visit_admits : Admits e g id s c (e.visit g id s c) where
  started := by
    refine ⟨Schedule.starts e.slots ((e.timelines g id s c).map (·.elapsed)), ?_, ?_⟩
    · simp [timelines]
    · rw [← invocations_eq]
      exact .refl _
  ended := List.mergeSort_perm _ _

namespace Admits

theorem merged_perm (h : Admits e g id s c v) :
    (v.merged.map Invocation.settled).Perm ((g.targets s).map (e.settled id s c)) := by
  obtain ⟨starts, hl, hs⟩ := h.started
  have hm : v.merged.Perm v.ended := List.mergeSort_perm _ _
  refine (((hm.trans h.ended).trans hs).map Invocation.settled).trans (List.Perm.of_eq ?_)
  refine List.ext_getElem (by simp [hl]) fun i h₁ h₂ => ?_
  simp [invocation_settled]

/-- **What is merged of a visit** does not depend on its schedule. -/
theorem merged_settled (h : Admits e g id s c v) :
    v.merged.map Invocation.settled = (g.order s).map (e.settled id s c) := by
  have hp := h.merged_perm
  have hd : v.merged.map (·.device) = g.order s := by
    refine ProcedureGraph.eq_order ?_ ?_
    · simpa [Function.comp_def, settled, invocation, Invocation.ofTimeline] using
        hp.map (·.device)
    · rw [StepVisit.merged, List.map_mergeSort (s := targetNotAfter) (fun _ _ _ _ => rfl)]
      exact List.pairwise_mergeSort targetNotAfter_trans targetNotAfter_total _
  have hi : ∀ i ∈ v.merged, i.settled = e.settled id s c i.device := by
    intro i hm
    obtain ⟨d, -, hd⟩ := List.mem_map.1 (hp.subset (List.mem_map_of_mem hm))
    rw [← hd, show i.device = d from (congrArg (·.device) hd).symm]
  rw [← hd, List.map_map]
  exact List.map_congr_left hi

theorem records_eq (h : Admits e g id s c v) :
    v.records id = (g.order s).map fun d => (e.settled id s c d).record id := by
  calc v.records id = (v.merged.map Invocation.settled).map (Invocation.record id) := by
        rw [List.map_map]; rfl
    _ = _ := by rw [h.merged_settled, List.map_map]; rfl

theorem status_eq (h : Admits e g id s c v) :
    v.status = .aggregate ((g.order s).map fun d => (e.settled id s c d).result.status) := by
  calc v.status = .aggregate ((v.merged.map Invocation.settled).map (·.result.status)) := by
        rw [List.map_map]; rfl
    _ = _ := by rw [h.merged_settled, List.map_map]; rfl

theorem commits_eq (h : Admits e g id s c v) (c' : Context) :
    v.merged.foldl (Context.commit id) c' =
      (g.order s).foldl (fun c' d => c'.commit id (e.settled id s c d)) c' := by
  calc v.merged.foldl (Context.commit id) c' =
        (v.merged.map Invocation.settled).foldl (Context.commit id) c' := by
        rw [List.foldl_map]; rfl
    _ = _ := by rw [h.merged_settled, List.foldl_map]

end Admits
end Engine
end Runbook

import Runbook.Proofs.Run.Consistency
import Runbook.Proofs.Run.Fault

/-!
# What a recorder is told

A recorder is told of the start and the completion of each invocation; those of one visit go on at
the same time, so what it is told of them comes in any order that keeps each start before its
completion (`StepVisit.MayTell`). `Engine.MayTell e g overrides cancelFrom x cs`: a run may come to
the execution `x` and have told its recorder `cs`. The main statement is that all of this is nested
(`Engine.run_callbacks_nested`): the whole run around its visits, these one after the other, and in
each visit the start and the completion of each target, with the result that the log has of it.
-/

namespace Runbook

/-! ## Interleavings -/

/-- The third list has the elements of the first two, those of each in their order. -/
inductive Shuffle {α : Type} : List α → List α → List α → Prop
  | nil : Shuffle [] [] []
  | left {x : α} {xs ys zs : List α} : Shuffle xs ys zs → Shuffle (x :: xs) ys (x :: zs)
  | right {y : α} {xs ys zs : List α} : Shuffle xs ys zs → Shuffle xs (y :: ys) (y :: zs)

/-- A list has the elements of some lanes, those of each in their order. -/
inductive Interleaves {α : Type} : List (List α) → List α → Prop
  | nil : Interleaves [] []
  | cons {lane ys zs : List α} {lanes : List (List α)} : Interleaves lanes ys →
      Shuffle lane ys zs → Interleaves (lane :: lanes) zs

namespace Shuffle

variable {α : Type} {xs ys zs : List α}

theorem nil_left (ys : List α) : Shuffle [] ys ys := by
  induction ys with
  | nil => exact .nil
  | cons y ys ih => exact ih.right

theorem append_right (h : Shuffle xs ys zs) (us : List α) : Shuffle xs (us ++ ys) (us ++ zs) := by
  induction us with
  | nil => exact h
  | cons u us ih => exact ih.right

theorem perm (h : Shuffle xs ys zs) : zs.Perm (xs ++ ys) := by
  induction h with
  | nil => exact .refl _
  | left _ ih => exact ih.cons _
  | right _ ih => exact (ih.cons _).trans List.perm_middle.symm

theorem filter (h : Shuffle xs ys zs) (p : α → Bool) :
    Shuffle (xs.filter p) (ys.filter p) (zs.filter p) := by
  induction h with
  | nil => exact .nil
  | left _ ih =>
    simp only [List.filter_cons]
    split
    · exact ih.left
    · exact ih
  | right _ ih =>
    simp only [List.filter_cons]
    split
    · exact ih.right
    · exact ih

theorem eq_of_left_nil (h : Shuffle [] ys zs) : zs = ys := by
  induction ys generalizing zs with
  | nil =>
    cases h
    rfl
  | cons y ys ih =>
    cases h with
    | right h => rw [ih h]

theorem eq_of_right_nil (h : Shuffle xs [] zs) : zs = xs := by
  induction xs generalizing zs with
  | nil =>
    cases h
    rfl
  | cons x xs ih =>
    cases h with
    | left h => rw [ih h]

end Shuffle

namespace Interleaves

variable {α : Type} {lane cs : List α} {lanes before after : List (List α)}

theorem perm (h : Interleaves lanes cs) : cs.Perm lanes.flatten := by
  induction h with
  | nil => exact .refl _
  | cons _ hs ih => exact hs.perm.trans (ih.append_left _)

theorem filter (h : Interleaves lanes cs) (p : α → Bool) :
    Interleaves (lanes.map (List.filter p)) (cs.filter p) := by
  induction h with
  | nil => exact .nil
  | cons _ hs ih => exact .cons ih (hs.filter p)

/-- If all lanes but one are empty, the list is this one. -/
theorem eq_of_single (h : Interleaves (before ++ lane :: after) cs) (hb : ∀ l ∈ before, l = [])
    (ha : ∀ l ∈ after, l = []) : cs = lane := by
  induction before generalizing cs with
  | nil =>
    cases h with
    | @cons _ ys _ _ h hs =>
      have hy : ys = [] := by
        rw [← List.perm_nil, ← List.flatten_eq_nil_iff.2 ha]
        exact h.perm
      rw [hy] at hs
      exact hs.eq_of_right_nil
  | cons l before ih =>
    obtain ⟨hl, hrest⟩ := List.forall_mem_cons.1 hb
    cases h with
    | cons h hs =>
      rw [hl] at hs
      rw [hs.eq_of_left_nil, ih h hrest]

/-- All the first elements of lanes of two, and then all the second ones in any order. -/
theorem of_pairs {β : Type} (f f' : β → α) {is js : List β} (h : js.Perm is) :
    Interleaves (is.map fun i => [f i, f' i]) (is.map f ++ js.map f') := by
  induction is generalizing js with
  | nil =>
    rw [h.eq_nil]
    exact .nil
  | cons i is ih =>
    -- The first lane goes around the first elements of the others and the second ones in `us`.
    obtain ⟨us, vs, rfl⟩ := List.append_of_mem (h.mem_iff.2 List.mem_cons_self)
    have hrest := ih (List.perm_middle.symm.trans h).cons_inv
    rw [List.map_append, ← List.append_assoc] at hrest
    refine .cons hrest ?_
    have hs := ((Shuffle.nil_left (vs.map f')).left (x := f' i)).append_right
      (is.map f ++ us.map f')
    simpa using hs.left (x := f i)

end Interleaves

/-! ## Visits -/

/-- What a recorder is told of an invocation. -/
def Invocation.callbacks (step : String) (i : Invocation) : List Callback :=
  [.stepStart step i.device, .stepComplete step i.device i.result]

/-- What a recorder may be told of a visit, whose invocations go on at the same time. -/
def StepVisit.MayTell (step : String) (v : StepVisit) (cs : List Callback) : Prop :=
  Interleaves (v.started.map (Invocation.callbacks step)) cs

/-- The step and the target that a callback is about. -/
def Callback.about? : Callback → Option (String × Option String)
  | .stepStart step device | .stepComplete step device _ => some (step, device)
  | .executionStart _ | .executionComplete _ => none

/-- The callbacks of a visit: of the target of each record one start and then one completion, which
has the result of the record, and nothing else. -/
structure LoggedVisit.Brackets (v : LoggedVisit) (cs : List Callback) : Prop where
  targets : ∀ r ∈ v.records, (cs.filter fun c => c.about? = some (v.step, r.device)) =
    [.stepStart v.step r.device, .stepComplete v.step r.device r.result]
  only : ∀ c ∈ cs, ∃ r ∈ v.records, c.about? = some (v.step, r.device)

namespace Engine

variable {e : Engine} {g : ProcedureGraph} {overrides : Fields} {cancelFrom : Option Nat}
  {id next : String} {s : StepDefinition} {c : Context} {v : StepVisit} {cs : List Callback}
  {a b : Walk} {ending : Ending} {x : Execution}

namespace Admits

theorem merged_started (h : Admits e g id s c v) : v.merged.Perm v.started :=
  (List.mergeSort_perm _ _).trans h.ended

theorem mayTell (h : Admits e g id s c v) : v.MayTell id (v.callbacks id) :=
  .of_pairs _ _ h.merged_started

/-- No target is started twice in a visit. -/
theorem started_nodup (h : Admits e g id s c v) (hs : (id, s) ∈ g.definition.identified) :
    (v.started.map (·.device)).Nodup := by
  have hd : v.merged.map (·.device) = g.order s := by
    rw [← h.devices_eq, StepVisit.records, List.map_map]
    rfl
  rw [← (h.merged_started.map _).nodup_iff, hd]
  exact ProcedureGraph.order_nodup hs

/-- **The callbacks of a visit** have a start and a completion for each of its records. -/
theorem brackets (h : Admits e g id s c v) (hs : (id, s) ∈ g.definition.identified)
    (hc : v.MayTell id cs) : LoggedVisit.Brackets ⟨id, v.records id⟩ cs where
  targets := by
    intro r hr
    obtain ⟨i, hi, rfl⟩ := List.mem_map.1 hr
    obtain ⟨before, after, hst⟩ := List.append_of_mem (h.merged_started.mem_iff.1 hi)
    have hn := h.started_nodup hs
    rw [hst, List.map_append, List.map_cons, List.nodup_middle, List.nodup_cons,
      ← List.map_append] at hn
    -- The callbacks about the target of `i` are all in the lane of `i`.
    have hother : ∀ j ∈ before ++ after, ((Invocation.callbacks id j).filter fun c =>
        c.about? = some (id, i.device)) = [] := by
      intro j hj
      have hne : j.device ≠ i.device := fun he => hn.1 (he ▸ List.mem_map_of_mem hj)
      simp [Invocation.callbacks, Callback.about?, hne]
    have hf := hc.filter fun c => c.about? = some (id, i.device)
    rw [hst, List.map_append, List.map_append, List.map_cons, List.map_cons, List.map_map,
      List.map_map] at hf
    have hown : ((Invocation.callbacks id i).filter fun c => c.about? = some (id, i.device)) =
        Invocation.callbacks id i := by simp [Invocation.callbacks, Callback.about?]
    refine (hf.eq_of_single ?_ ?_).trans hown
    · rintro _ hl
      obtain ⟨j, hj, rfl⟩ := List.mem_map.1 hl
      exact hother j (List.mem_append_left _ hj)
    · rintro _ hl
      obtain ⟨j, hj, rfl⟩ := List.mem_map.1 hl
      exact hother j (List.mem_append_right _ hj)
  only := by
    intro c' hc'
    obtain ⟨lane, hl, hm⟩ := List.mem_flatten.1 (hc.perm.mem_iff.1 hc')
    obtain ⟨i, hi, rfl⟩ := List.mem_map.1 hl
    refine ⟨i.record id, List.mem_map_of_mem (h.merged_started.mem_iff.2 hi), ?_⟩
    rcases List.mem_pair.1 hm with rfl | rfl <;> rfl

end Admits

/-! ## Runs -/

/-- How a walk may end that goes on when the step `id` is due, and what a recorder may be told until
then. -/
inductive Tells (e : Engine) (g : ProcedureGraph) (cancelFrom : Option Nat) :
    String → Walk → Ending → Walk → List Callback → Prop
  | refused {id : String} {a : Walk} {ending : Ending} :
      e.enter g cancelFrom id a = .error ending → Tells e g cancelFrom id a ending a []
  | last {id : String} {a b : Walk} {ending : Ending} {s : StepDefinition} {v : StepVisit}
      {cs : List Callback} : e.enter g cancelFrom id a = .ok s → Admits e g id s a.context v →
      v.MayTell id cs → e.leave id s v a = .stop ending b → Tells e g cancelFrom id a ending b cs
  | next {id next : String} {a b c : Walk} {ending : Ending} {s : StepDefinition} {v : StepVisit}
      {cs ds : List Callback} : e.enter g cancelFrom id a = .ok s → Admits e g id s a.context v →
      v.MayTell id cs → e.leave id s v a = .next next b →
      Tells e g cancelFrom next b ending c ds → Tells e g cancelFrom id a ending c (cs ++ ds)

/-- A run may come to the execution `x` and have told its recorder `cs`. -/
def MayTell (e : Engine) (g : ProcedureGraph) (overrides : Fields) (cancelFrom : Option Nat)
    (x : Execution) (cs : List Callback) : Prop :=
  ∃ ending b ds,
    Tells e g cancelFrom g.entry { context := g.initialContext overrides } ending b ds ∧
    x = e.report g ending b ∧
    cs = .executionStart g.name :: ds ++ [.executionComplete ending.runStatus]

theorem Tells.walks (h : Tells e g cancelFrom id a ending b cs) :
    Walks e g cancelFrom id a ending b := by
  induction h with
  | refused hx => exact .stop (.refused hx)
  | last hs hv _ hb => exact .stop (hb ▸ .visited hs hv)
  | next hs hv _ hb _ ih => exact .next (hb ▸ .visited hs hv) ih

theorem MayTell.schedules (h : MayTell e g overrides cancelFrom x cs) :
    Schedules e g overrides cancelFrom x := by
  obtain ⟨ending, b, ds, hw, rfl, -⟩ := h
  exact ⟨ending, b, hw.walks, rfl⟩

/-- What the engine tells in a walk is what may be told. -/
theorem walk_tells (e : Engine) (g : ProcedureGraph) (cancelFrom : Option Nat) (id : String)
    (a : Walk) :
    ∃ cs, Tells e g cancelFrom id a (e.walk g cancelFrom id a).1 (e.walk g cancelFrom id a).2 cs ∧
      (e.walk g cancelFrom id a).2.callbacks = a.callbacks ++ cs := by
  induction hn : e.room g a.visited using Nat.strongRecOn generalizing id a with
  | ind n ih =>
    cases h : e.turn g cancelFrom id a with
    | stop ending b =>
      rw [walk_stop h]
      unfold turn at h
      split at h
      · rename_i hx
        cases h
        exact ⟨[], .refused hx, (List.append_nil _).symm⟩
      · rename_i s hs
        obtain ⟨-, -, rfl⟩ := leave_stop h
        exact ⟨_, .last hs visit_admits visit_admits.mayTell h, rfl⟩
    | next next b =>
      obtain ⟨s, hs, he, rfl⟩ := turn_next h
      obtain ⟨ds, hw, hds⟩ := ih _ (hn ▸ room_lt h) next _ rfl
      rw [walk_next h]
      refine ⟨_, .next hs visit_admits visit_admits.mayTell ?_ hw, ?_⟩
      · simp only [leave, he]
      · rw [hds, advance, List.append_assoc]

/-- **A walk** tells of its visits one after the other. -/
theorem Tells.brackets {visits : List LoggedVisit} (h : Tells e g cancelFrom id a ending b cs)
    (hf : Followed e g a visits) (hd : g.Due visits id) :
    ∃ later chunks, Followed e g b (visits ++ later) ∧ cs = chunks.flatten ∧
      List.Forall₂ LoggedVisit.Brackets later chunks := by
  induction h generalizing visits with
  | refused _ => exact ⟨[], [], by rwa [List.append_nil], rfl, .nil⟩
  | @last id a b ending s v cs hs hv hc hb =>
    have hs := enter_eq_ok.1 hs
    obtain ⟨-, -, rfl⟩ := leave_stop hb
    exact ⟨[⟨id, v.records id⟩], [cs], hf.advance_of_admits hd hs hv, List.append_nil _ |>.symm,
      .cons (hv.brackets (step?_mem hs.step) hc) .nil⟩
  | @next id next a b c ending s v cs ds hs hv hc hb _ ih =>
    have hs := enter_eq_ok.1 hs
    obtain ⟨he, rfl⟩ := leave_next hb
    have hd' : g.Due (visits ++ [⟨id, v.records id⟩]) next := by
      simpa [ProcedureGraph.Due] using hv.leadsTo hs.step he
    obtain ⟨later, chunks, hl, rfl, hb⟩ := ih (hf.advance_of_admits hd hs hv) hd'
    rw [List.append_assoc] at hl
    exact ⟨_, _, hl, rfl, .cons (hv.brackets (step?_mem hs.step) hc) hb⟩

end Engine

/-- The callbacks of a run, nested: the start and the completion of the whole, with its final
status, are around those of its visits, which come one after the other. No other callback is about
the whole, and none is about a step that was not visited. -/
structure Execution.Nests (x : Execution) (g : ProcedureGraph) (cs : List Callback) : Prop where
  whole : x.Whole g
  visits : ∃ chunks, List.Forall₂ LoggedVisit.Brackets (x.visits g) chunks ∧
    cs = .executionStart x.procedure :: chunks.flatten ++ [.executionComplete x.status]
  ends : (cs.filter fun c => c.about? = none) =
    [.executionStart x.procedure, .executionComplete x.status]
  steps : ∀ c ∈ cs, ∀ step device, c.about? = some (step, device) → step ∈ x.visited

/-- What is told of some visits is about their steps. -/
theorem LoggedVisit.Brackets.exists_about {visits : List LoggedVisit}
    {chunks : List (List Callback)} (h : List.Forall₂ LoggedVisit.Brackets visits chunks)
    {c : Callback} (hc : c ∈ chunks.flatten) :
    ∃ v ∈ visits, ∃ device, c.about? = some (v.step, device) := by
  induction h with
  | nil => cases hc
  | @cons v chunk visits chunks hv _ ih =>
    rcases List.mem_append.1 (List.flatten_cons ▸ hc) with hc | hc
    · obtain ⟨r, -, hr⟩ := hv.only c hc
      exact ⟨v, List.mem_cons_self, r.device, hr⟩
    · obtain ⟨u, hu, hd⟩ := ih hc
      exact ⟨u, List.mem_cons_of_mem _ hu, hd⟩

namespace Engine

theorem MayTell.nests (h : MayTell e g overrides cancelFrom x cs) : x.Nests g cs := by
  have hwhole := h.schedules.whole
  obtain ⟨ending, b, ds, hw, rfl, rfl⟩ := h
  obtain ⟨visits, chunks, hf, rfl, hb⟩ := hw.brackets .start rfl
  obtain rfl : visits = (e.report g ending b).visits g := hf.visits_eq.symm
  refine ⟨hwhole, ⟨chunks, hb, rfl⟩, ?_, ?_⟩
  · have hnone : (chunks.flatten.filter fun c => c.about? = none) = [] := by
      refine List.filter_eq_nil_iff.2 fun c hc => ?_
      obtain ⟨v, -, device, hd⟩ := LoggedVisit.Brackets.exists_about hb hc
      simp [hd]
    simp only [List.filter_append, List.filter_cons, hnone]
    rfl
  · intro c hc step device hd
    rcases List.mem_append.1 hc with hc | hc
    · rcases List.mem_cons.1 hc with rfl | hc
      · cases hd
      · obtain ⟨v, hv, device', hd'⟩ := LoggedVisit.Brackets.exists_about hb hc
        obtain ⟨rfl, -⟩ := Prod.mk.inj (Option.some.inj (hd'.symm.trans hd))
        rw [← hwhole.steps]
        exact List.mem_map_of_mem hv
    · obtain rfl := List.mem_singleton.1 hc
      cases hd

/-- **The callbacks of a run are nested**, however it ends and in whatever order the invocations of
each visit start and complete. -/
theorem run_callbacks_nested (e : Engine) (g : ProcedureGraph) (overrides : Fields)
    (cancelFrom : Option Nat) :
    let r := e.run g overrides cancelFrom
    MayTell e g overrides cancelFrom r.execution r.callbacks ∧
      ∀ x cs, MayTell e g overrides cancelFrom x cs → x.Nests g cs := by
  refine ⟨?_, fun x cs h => h.nests⟩
  let start : Walk := { context := g.initialContext overrides }
  obtain ⟨ds, hw, hds⟩ := walk_tells e g cancelFrom g.entry start
  have hcallbacks : (e.outcome g overrides cancelFrom).2.callbacks = ds := hds
  exact ⟨_, _, ds, hw, rfl, by rw [← hcallbacks]; rfl⟩

end Engine
end Runbook

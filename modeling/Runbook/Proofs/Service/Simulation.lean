import Mathlib.Logic.Relation
import Runbook.Proofs.Service.Hub

/-!
# The service on its clock

What the service does on its clock is what a hub may do (`Service.performs_mirrored`). The service knows
the whole course of a run from its begin on, and shows as much of it as has happened: the moments of
the run before `Service.ahead` are past. A task stands where the run then is (`Submission.At`). When
the clock moves on, the task goes on to where the run is at the later moment (`At.exists_moves`); when
the run is cancelled, its course up to now stays as it was, and so does all of it if the run is over
(`At.cancel`).
-/

namespace Runbook

/-! ## The course of a run -/

namespace Engine

variable {e : Engine} {g : ProcedureGraph} {overrides : Fields} {cancelFrom : Option Nat}
  {id : String} {s : StepDefinition} {w : Walk} {n : Nat}

/-- A run that is cancelled later takes the same turn now. -/
theorem turn_some (h : w.elapsed < n) : e.turn g (some n) id w = e.turn g none id w := by
  have he : e.enter g (some n) id w = e.enter g none id w := by
    simp only [enter, Option.any_some, Option.any_none, decide_eq_true_eq, Nat.not_le.2 h, if_false,
      Bool.false_eq_true]
  rw [turn, he, turn]

theorem turn_elapsed_le {next : String} {w' : Walk} (h : e.turn g cancelFrom id w = .next next w') :
    w.elapsed ≤ w'.elapsed := by
  obtain ⟨s, -, -, rfl⟩ := turn_next h
  exact Nat.le_add_right _ _

theorem Reaches.some (h : Reaches e g overrides none id w) (hn : w.elapsed < n) :
    Reaches e g overrides (some n) id w := by
  induction h with
  | start => exact .start
  | next _ ht ih =>
    have hw := (turn_elapsed_le ht).trans_lt hn
    exact (ih hw).next ((turn_some hw).trans ht)

theorem le_elapsed_walk (e : Engine) (g : ProcedureGraph) (cancelFrom : Option Nat) (id : String)
    (w : Walk) : w.elapsed ≤ (e.walk g cancelFrom id w).2.elapsed := by
  induction hn : e.room g w.visited using Nat.strongRecOn generalizing id w with
  | ind n ih =>
    cases ht : e.turn g cancelFrom id w with
    | stop ending w' =>
      rw [walk_stop ht]
      rcases turn_stop ht with ⟨-, rfl⟩ | ⟨s, -, -, -, rfl⟩
      · exact Nat.le_refl _
      · exact Nat.le_add_right _ _
    | next next w' =>
      rw [walk_next ht]
      exact (turn_elapsed_le ht).trans (ih _ (hn ▸ room_lt ht) next w' rfl)

/-- A run is not over before the visit is that it is at. -/
theorem Reaches.le_elapsed (hr : Reaches e g overrides cancelFrom id w)
    (he : Enters e g cancelFrom id w s) :
    w.elapsed + (e.visit g id s w.context).elapsed ≤ (e.run g overrides cancelFrom).elapsed := by
  change _ ≤ (e.outcome g overrides cancelFrom).2.elapsed
  rw [hr.outcome_eq]
  have hturn : e.turn g cancelFrom id w = e.leave id s (e.visit g id s w.context) w := by
    rw [turn, enter_eq_ok.2 he]
  cases hl : e.leave id s (e.visit g id s w.context) w with
  | stop ending w' =>
    obtain ⟨-, -, rfl⟩ := leave_stop hl
    rw [walk_stop (hturn.trans hl)]
    exact Nat.le_refl _
  | next next w' =>
    obtain ⟨-, rfl⟩ := leave_next hl
    rw [walk_next (hturn.trans hl)]
    exact le_elapsed_walk e g cancelFrom next (e.advance id (e.visit g id s w.context) w)

/-- A run that is over does not notice that it is cancelled. -/
theorem run_some (h : (e.run g overrides none).elapsed < n) :
    e.run g overrides (some n) = e.run g overrides none := by
  have ho : e.outcome g overrides (some n) = e.outcome g overrides none := by
    obtain ⟨id, w, hr, ht⟩ := outcome_stops e g overrides none
    have hw : w.elapsed < n := by
      have hle := le_elapsed_walk e g none id w
      rw [← hr.outcome_eq] at hle
      exact hle.trans_lt h
    rw [(hr.some hw).outcome_eq, walk_stop ((turn_some hw).trans ht)]
  rw [run, ho, run]

end Engine

/-! ## Where a run is -/

namespace Submission

variable {e : Engine} {engine : Instant → Engine} {ahead later : Nat} {r : Submission} {t : Task}
  {step : String} {w : Walk} {s : StepDefinition}

/-- The course of a run on an engine. -/
def course (r : Submission) (e : Engine) : Run := e.run r.graph r.overrides r.cancelFrom

/-- Where a run is, on an engine, when the moments before `ahead` of it are past, and what callers
can see of it then. -/
inductive Stands (e : Engine) (ahead : Nat) (r : Submission) : Stage → Progress → Prop
  | ready : r.begun = false → ahead = 0 → Stands e ahead r .ready { status := .pending }
  | visiting {step : String} {s : StepDefinition} {w : Walk} : r.begun = true →
      e.Reaches r.graph r.overrides r.cancelFrom step w →
      e.Enters r.graph r.cancelFrom step w s → w.elapsed < ahead →
      ahead ≤ w.elapsed + (e.visit r.graph step s w.context).elapsed →
      Stands e ahead r (.visiting e.startedAt step s w) { status := .running }
  | done : r.begun = true → (r.course e).elapsed < ahead →
      Stands e ahead r .done
        { status := (r.course e).execution.status, execution := some (r.course e).execution }

/-- The task of a run. -/
structure Owns (r : Submission) (t : Task) : Prop where
  graph : t.graph = r.graph
  overrides : t.overrides = r.overrides
  cancelled : t.cancelled = r.cancelFrom.isSome

/-- If the run is cancelled, it is so from the moment `n` on at the latest. -/
def CancelledBy (r : Submission) (n : Nat) : Prop := ∀ c ∈ r.cancelFrom, c ≤ n

theorem CancelledBy.mono {m n : Nat} (h : r.CancelledBy m) (hle : m ≤ n) : r.CancelledBy n :=
  fun c hc => (h c hc).trans hle

/-- A task stands where its run is when the moments before `ahead` are past. A run that is cancelled
was cancelled at one of these or is just now. -/
structure At (e : Engine) (ahead : Nat) (r : Submission) (t : Task) : Prop extends r.Owns t where
  cancelledBy : r.CancelledBy ahead
  stands : r.Stands e ahead t.stage t.progress

theorem At.new (g : ProcedureGraph) (overrides : Fields) (moment : Nat) :
    At e 0 { graph := g, overrides, moment } { graph := g, overrides } :=
  ⟨⟨rfl, rfl, rfl⟩, nofun, .ready rfl rfl⟩

/-! ## Time passes -/

/-- A task comes to stand where its run is when the moments before `later` are past. -/
def Moves (engine : Instant → Engine) (e : Engine) (later : Nat) (r : Submission) (t : Task) : Prop :=
  ∃ t', Relation.ReflTransGen (Task.Goes engine) t t' ∧ r.At e later t'

theorem At.moves (h : r.At e later t) : r.Moves engine e later t := ⟨t, .refl, h⟩

theorem Moves.head {u : Task} (hg : t.Goes engine u) (h : r.Moves engine e later u) :
    r.Moves engine e later t := by
  obtain ⟨t', hu, hat⟩ := h
  exact ⟨t', .head hg hu, hat⟩

/-- When a step is due, a task that is cancelled by then does what its run does. -/
theorem Owns.enter_eq (h : r.Owns t) (hc : r.CancelledBy w.elapsed) :
    e.enter t.graph t.cancelFrom step w = e.enter r.graph r.cancelFrom step w := by
  rw [h.graph, Task.cancelFrom, h.cancelled]
  cases hr : r.cancelFrom with
  | none => rfl
  | some c =>
    have : c ≤ w.elapsed := hc c (by rw [hr]; rfl)
    simp [Engine.enter, this]

/-- A run that stops has come to its execution. -/
theorem course_of_turn {ending : Ending} {w' : Walk}
    (hr : e.Reaches r.graph r.overrides r.cancelFrom step w)
    (ht : e.turn r.graph r.cancelFrom step w = .stop ending w') :
    (r.course e).execution = e.report r.graph ending w' ∧ (r.course e).elapsed = w'.elapsed := by
  have ho : e.outcome r.graph r.overrides r.cancelFrom = (ending, w') :=
    hr.outcome_eq.trans (Engine.walk_stop ht)
  rw [course, Engine.run, ho]
  exact ⟨rfl, rfl⟩

section
variable (hengine : engine e.startedAt = e) (hbegun : r.begun = true)
include hengine hbegun

theorem Owns.at_finished {ending : Ending} {w' : Walk} (h : r.Owns t)
    (hr : e.Reaches r.graph r.overrides r.cancelFrom step w)
    (ht : e.turn r.graph r.cancelFrom step w = .stop ending w') (hlater : w'.elapsed < later)
    (hc : r.CancelledBy w'.elapsed) :
    r.At e later (t.finished ((engine e.startedAt).report t.graph ending w')) := by
  obtain ⟨hx, hel⟩ := course_of_turn hr ht
  refine ⟨⟨h.graph, h.overrides, h.cancelled⟩, fun c hm => (hc c hm).trans hlater.le, ?_⟩
  rw [hengine, h.graph, ← hx]
  exact .done hbegun (hel ▸ hlater)

/-- From a visit on: it goes on, or what follows it is due. -/
theorem Owns.moves_visiting (h : r.Owns t) (hp : t.progress = { status := .running })
    (hs : t.stage = .visiting e.startedAt step s w)
    (hr : e.Reaches r.graph r.overrides r.cancelFrom step w)
    (he : e.Enters r.graph r.cancelFrom step w s) (hw : w.elapsed < later)
    (hc : r.CancelledBy later)
    (hc' : r.CancelledBy (w.elapsed + (e.visit r.graph step s w.context).elapsed))
    (hdue : ∀ next w', e.turn r.graph r.cancelFrom step w = .next next w' → w'.elapsed < later →
      r.CancelledBy w'.elapsed →
        r.Moves engine e later { t with stage := .due e.startedAt next w' }) :
    r.Moves engine e later t := by
  have hturn : e.turn r.graph r.cancelFrom step w =
      e.leave step s (e.visit r.graph step s w.context) w := by
    rw [Engine.turn, Engine.enter_eq_ok.2 he]
  by_cases hover : later ≤ w.elapsed + (e.visit r.graph step s w.context).elapsed
  · refine At.moves ⟨h, hc, ?_⟩
    rw [hs, hp]
    exact .visiting hbegun hr he hw hover
  · have hadmits : (engine e.startedAt).Admits t.graph step s w.context
        (e.visit r.graph step s w.context) := by
      rw [hengine, h.graph]
      exact Engine.visit_admits
    cases hl : e.leave step s (e.visit r.graph step s w.context) w with
    | next next w' =>
      obtain ⟨-, rfl⟩ := Engine.leave_next hl
      refine .head (.leaves hs hadmits (by rw [hengine]; exact hl)) ?_
      exact hdue next _ (hturn.trans hl) (by simpa [Engine.advance] using hover) hc'
    | stop ending w' =>
      obtain ⟨-, -, rfl⟩ := Engine.leave_stop hl
      refine .head (.ends hs hadmits (by rw [hengine]; exact hl)) (At.moves ?_)
      exact h.at_finished hengine hbegun hr (hturn.trans hl)
        (by simpa [Engine.advance] using hover) hc'

/-- From a step that is due on. -/
theorem Owns.moves_due (h : r.Owns t) (hp : t.progress = { status := .running })
    (hs : t.stage = .due e.startedAt step w)
    (hr : e.Reaches r.graph r.overrides r.cancelFrom step w) (hw : w.elapsed < later)
    (hc : r.CancelledBy w.elapsed) : r.Moves engine e later t := by
  -- The budget leaves less room with every visit.
  induction hn : e.room r.graph w.visited using Nat.strongRecOn generalizing step w t with
  | ind n ih =>
    have henter : (engine e.startedAt).enter t.graph t.cancelFrom step w =
        e.enter r.graph r.cancelFrom step w := by rw [hengine, h.enter_eq hc]
    cases he : e.enter r.graph r.cancelFrom step w with
    | error ending =>
      have hturn : e.turn r.graph r.cancelFrom step w = .stop ending w := by rw [Engine.turn, he]
      refine .head (.stops hs (henter.trans he)) (At.moves ?_)
      exact h.at_finished hengine hbegun hr hturn hw hc
    | ok s =>
      refine .head (.enters hs (henter.trans he)) ?_
      refine Owns.moves_visiting hengine hbegun ⟨h.graph, h.overrides, h.cancelled⟩ hp rfl hr
        (Engine.enter_eq_ok.1 he) hw (hc.mono hw.le) (hc.mono (Nat.le_add_right _ _)) ?_
      intro next w' hturn hw' hc'
      exact ih _ (hn ▸ Engine.room_lt hturn) ⟨h.graph, h.overrides, h.cancelled⟩ hp rfl
        (hr.next hturn) hw' hc' rfl

end

/-- **A task goes on with the clock** to where its run is at a later moment. -/
theorem At.exists_moves (h : r.At e ahead t) (hengine : engine e.startedAt = e)
    (hle : ahead ≤ later) (hpos : 0 < later) :
    Moves engine e later { r with begun := true } t := by
  have howns : Owns { r with begun := true } t := ⟨h.graph, h.overrides, h.cancelled⟩
  have hc : CancelledBy { r with begun := true } later := h.cancelledBy.mono hle
  have hstands := h.stands
  generalize hs : t.stage = stage at hstands
  generalize hp : t.progress = progress at hstands
  cases hstands with
  | ready _ hzero =>
    refine .head (.begins e.startedAt hs) ?_
    refine Owns.moves_due hengine rfl ⟨h.graph, h.overrides, h.cancelled⟩ rfl rfl ?_ hpos ?_
    · rw [h.graph, h.overrides]
      exact .start
    · exact hzero ▸ h.cancelledBy
  | visiting _ hr he hw hahead =>
    exact howns.moves_visiting hengine rfl hp hs hr he (hw.trans_le hle) hc
      (h.cancelledBy.mono hahead) fun next w' hturn hw' hc' =>
        Owns.moves_due hengine rfl ⟨h.graph, h.overrides, h.cancelled⟩ hp rfl
          (hr.next hturn) hw' hc'
  | done _ hover =>
    refine At.moves ⟨howns, hc, ?_⟩
    rw [hs, hp]
    exact .done rfl (hover.trans_le hle)

/-! ## A run is cancelled -/

/-- The run cancelled from the moment `ahead` on, if it was not before. -/
def cancel (r : Submission) (ahead : Nat) : Submission :=
  { r with cancelFrom := some ((r.cancelFrom.map (min ahead)).getD ahead) }

/-- **A run that is cancelled** is where it was. -/
theorem At.cancel (h : r.At e ahead t) : (r.cancel ahead).At e ahead { t with cancelled := true } := by
  cases hc : r.cancelFrom with
  | some c =>
    have hmin : min ahead c = c := min_eq_right (h.cancelledBy c hc)
    have hr : r.cancel ahead = r := by
      unfold Submission.cancel
      rw [hc, Option.map_some, Option.getD_some, hmin, ← hc]
    rw [hr]
    refine ⟨⟨h.graph, h.overrides, ?_⟩, h.cancelledBy, h.stands⟩
    rw [hc]
    rfl
  | none =>
    have hr : r.cancel ahead = { r with cancelFrom := some ahead } := by
      unfold Submission.cancel
      rw [hc, Option.map_none, Option.getD_none]
    rw [hr]
    refine ⟨⟨h.graph, h.overrides, rfl⟩, fun c hm => (Option.some.inj hm).ge, ?_⟩
    have hstands := h.stands
    change Stands e ahead _ t.stage t.progress
    generalize t.stage = stage at hstands
    generalize t.progress = progress at hstands
    cases hstands with
    | ready hb hz => exact .ready hb hz
    | visiting hb hr he hw hahead =>
      rw [hc] at hr he
      refine .visiting hb (hr.some hw) ⟨?_, he.step, he.room⟩ hw hahead
      rintro ⟨c, hm, hle⟩
      cases hm
      omega
    | done hb hover =>
      have heq : course { r with cancelFrom := some ahead } e = r.course e := by
        unfold course at hover ⊢
        rw [hc] at hover ⊢
        exact Engine.run_some hover
      rw [← heq] at hover ⊢
      exact .done hb hover

/-! ## What callers see -/

/-- What callers see of a task is what its run shows. -/
theorem At.progress_eq (h : r.At e ahead t) : t.progress =
    if r.begun = false then { status := .pending }
    else if (r.course e).elapsed < ahead then
      { status := (r.course e).execution.status, execution := some (r.course e).execution }
    else { status := .running } := by
  have hstands := h.stands
  generalize t.stage = stage at hstands
  generalize t.progress = progress at hstands
  cases hstands with
  | ready hb _ => simp [hb]
  | visiting hb hr he _ hahead =>
    have : ¬(r.course e).elapsed < ahead := (hahead.trans (hr.le_elapsed he)).not_gt
    simp [hb, this]
  | done hb hover => simp [hb, hover]

end Submission

/-! ## Many tasks go on -/

namespace Hub

variable {f f' f'' : Hub} {id : Identifier} {t t' : Task} {as : List Action}

/-- What a hub does while no caller takes part. -/
def Idles (f f' : Hub) : Prop := ∃ as, Trace f as f' ∧ as.filter Action.isVisible = []

theorem Idles.refl (f : Hub) : f.Idles f := ⟨[], .nil, rfl⟩

theorem Idles.trans (h : f.Idles f') (h' : f'.Idles f'') : f.Idles f'' := by
  obtain ⟨as, ht, ha⟩ := h
  obtain ⟨bs, ht', hb⟩ := h'
  exact ⟨as ++ bs, ht.append ht', by rw [List.filter_append, ha, hb]; rfl⟩

theorem idles_put (ht : f.tasks id = some t)
    (hg : Relation.ReflTransGen (Task.Goes (f.engine id)) t t') : f.Idles (f.put id t') := by
  induction hg with
  | refl =>
    rw [put_eq_self ht]
    exact .refl f
  | @tail u v _ hg ih =>
    have hstep : Step (f.put id u) (.goes id) ((f.put id u).put id v) := .goes tasks_put_self hg
    rw [put_put] at hstep
    exact ih.trans ⟨_, .cons hstep .nil, rfl⟩

/-- The tasks of some runs go on, and nothing else changes. -/
theorem exists_idles {α : Type} {P : Identifier → α → Task → Prop} {xs : List (Identifier × α)}
    (hn : (xs.map (·.1)).Nodup)
    (h : ∀ x ∈ xs, ∃ t t', f.tasks x.1 = some t ∧
      Relation.ReflTransGen (Task.Goes (f.engine x.1)) t t' ∧ P x.1 x.2 t') :
    ∃ f', f.Idles f' ∧ (∃ tasks, f' = { f with tasks }) ∧
      (∀ x ∈ xs, ∃ t', f'.tasks x.1 = some t' ∧ P x.1 x.2 t') ∧
        ∀ k, k ∉ xs.map (·.1) → f'.tasks k = f.tasks k := by
  induction xs with
  | nil => exact ⟨f, .refl f, ⟨_, rfl⟩, nofun, fun _ _ => rfl⟩
  | cons x xs ih =>
    obtain ⟨hx, hn⟩ := List.nodup_cons.1 hn
    obtain ⟨g, hi, ⟨tasks, rfl⟩, hdone, hkept⟩ := ih hn fun y hy => h y (List.mem_cons_of_mem _ hy)
    obtain ⟨t, t', ht, hg, hp⟩ := h x List.mem_cons_self
    refine ⟨_, hi.trans (idles_put ((hkept x.1 hx).trans ht) hg), ⟨_, rfl⟩, ?_, ?_⟩
    · rintro y (_ | ⟨_, hy⟩)
      · exact ⟨t', tasks_put_self, hp⟩
      · have hne : y.1 ≠ x.1 := fun heq => hx (List.mem_map.2 ⟨y, hy, heq⟩)
        obtain ⟨u, hu, hpu⟩ := hdone y hy
        exact ⟨u, (tasks_put_of_ne hne).trans hu, hpu⟩
    · intro k hk
      rw [List.map_cons, List.mem_cons, not_or] at hk
      exact (tasks_put_of_ne hk.1).trans (hkept k hk.2)

end Hub

/-! ## The service -/

namespace Service

variable {s : Service} {f f' : Hub} {id : Identifier} {r : Submission} {t : Task} {n moment : Nat}
  {settled : Bool}

/-- The first moment of a run that is not past. -/
def ahead (s : Service) (r : Submission) : Nat :=
  if r.begun then s.clock - r.moment + (if s.settled then 1 else 0) else 0

theorem isPast_iff (hb : r.begun = true) (hm : r.moment ≤ s.clock) :
    s.isPast (r.moment + n) = true ↔ n < s.ahead r := by
  simp only [isPast, ahead, hb, if_true, Bool.or_eq_true, Bool.and_eq_true, decide_eq_true_eq,
    beq_iff_eq]
  cases s.settled <;> simp <;> omega

/-- The runs of the service stand where the tasks of the hub do. -/
structure Follows (s : Service) (f : Hub) : Prop where
  registry : f.registry = s.registry
  config : f.config = s.config
  tracked : f.tracked = s.runs.map (·.1)
  nodup : (s.runs.map (·.1)).Nodup
  issued : ∀ id t, f.tasks id = some t → id.bits ≤ s.count
  moments : ∀ x ∈ s.runs, x.2.moment ≤ s.clock
  tasks : ∀ x ∈ s.runs, ∃ t, f.tasks x.1 = some t ∧
    x.2.At (s.engine x.1 x.2.moment) (s.ahead x.2) t

theorem Follows.new (registry : Registry) (config : Config) (origin : Instant) :
    Follows { registry, config, origin } { registry, config } where
  registry := rfl
  config := rfl
  tracked := rfl
  nodup := List.nodup_nil
  issued _ _ h := by cases h
  moments _ h := by cases h
  tasks _ h := by cases h

theorem find_eq_ok (h : (s.runs.map (·.1)).Nodup) : s.find id = .ok r ↔ (id, r) ∈ s.runs := by
  unfold find
  refine ⟨fun hf => ?_, fun hm => ?_⟩
  · split at hf
    · rename_i k q hq
      cases hf
      have hk : k = id := by simpa using List.find?_some hq
      exact hk ▸ List.mem_of_find?_eq_some hq
    · cases hf
  · have hsome : (s.runs.find? fun r => r.1 == id).isSome :=
      List.find?_isSome.2 ⟨(id, r), hm, by simp⟩
    obtain ⟨x, hx⟩ := Option.isSome_iff_exists.1 hsome
    have hxid : x.1 = id := by simpa using List.find?_some hx
    have heq : x = (id, r) := List.inj_on_of_nodup_map h (List.mem_of_find?_eq_some hx) hm hxid
    rw [hx, heq]

theorem find_eq_error {x : ServiceFault} (h : s.find id = .error x) :
    x = .notFound id ∧ id ∉ s.runs.map (·.1) := by
  unfold find at h
  split at h
  · cases h
  · rename_i hn
    cases h
    refine ⟨rfl, fun hm => ?_⟩
    obtain ⟨y, hy, rfl⟩ := List.mem_map.1 hm
    simpa using List.find?_eq_none.1 hn y hy

namespace Follows

theorem engine_eq (h : s.Follows f) (id : Identifier) (moment : Nat) :
    f.engine id (s.engine id moment).startedAt = s.engine id moment := by
  unfold Hub.engine engine
  rw [h.registry, h.config]

/-- The service finds the runs whose tasks the hub finds. -/
theorem find (h : s.Follows f) (hr : s.find id = .ok r) :
    ∃ t, f.find id = .ok t ∧ r.moment ≤ s.clock ∧ r.At (s.engine id r.moment) (s.ahead r) t := by
  have hm := (find_eq_ok h.nodup).1 hr
  obtain ⟨t, ht, hat⟩ := h.tasks _ hm
  refine ⟨t, Hub.find_eq_ok.2 ⟨?_, ht⟩, h.moments _ hm, hat⟩
  rw [h.tracked]
  exact List.mem_map_of_mem hm

theorem find_eq_error (h : s.Follows f) {x : ServiceFault} (hx : s.find id = .error x) :
    f.find id = .error x := by
  obtain ⟨rfl, hm⟩ := Service.find_eq_error hx
  exact Hub.find_of_not_mem (h.tracked ▸ hm)

/-- The service shows the status that the task shows. -/
theorem status_eq (h : s.Follows f) (hr : s.find id = .ok r) (ht : f.find id = .ok t) :
    t.progress.status = s.statusOf id r := by
  obtain ⟨u, hu, hm, hat⟩ := h.find hr
  cases hu.symm.trans ht
  rw [hat.progress_eq, statusOf]
  cases hb : r.begun with
  | false => rfl
  | true =>
    have hover : s.isOver id r = true ↔ (r.course (s.engine id r.moment)).elapsed < s.ahead r := by
      rw [isOver, hb, Bool.true_and, finish, isPast_iff hb hm]
      rfl
    by_cases hlt : (r.course (s.engine id r.moment)).elapsed < s.ahead r
    · rw [if_pos (hover.2 hlt)]
      simp only [hlt, if_true]
      rfl
    · rw [if_neg (mt hover.1 hlt)]
      simp only [hlt, if_false]
      rfl

/-- When a run is over, its task shows its execution. -/
theorem execution_eq (h : s.Follows f) (hr : s.find id = .ok r) (ht : f.find id = .ok t)
    (hover : s.isOver id r = true) :
    t.progress.execution = some (s.course id r).execution := by
  obtain ⟨u, hu, hm, hat⟩ := h.find hr
  cases hu.symm.trans ht
  rw [isOver, Bool.and_eq_true] at hover
  have hlt : (r.course (s.engine id r.moment)).elapsed < s.ahead r :=
    (isPast_iff hover.1 hm).1 hover.2
  rw [hat.progress_eq, hover.1]
  simp only [hlt, if_true]
  rfl

end Follows

/-! ## What the service does -/

/-- **While time passes**, the tasks go on to where their runs then are. -/
theorem Follows.waitUntil (h : s.Follows f)
    (hmoves : s.clock < n ∨ s.clock ≤ n ∧ settled = true) :
    ∃ f', f.Idles f' ∧ f'.waiting = f.waiting ∧ (s.waitUntil n settled).Follows f' := by
  let s' := s.waitUntil n settled
  have hahead (r : Submission) (hr : r.moment ≤ s.clock) :
      s.ahead r ≤ s'.ahead { r with begun := true } ∧ 0 < s'.ahead { r with begun := true } := by
    simp only [ahead, s', Service.waitUntil, if_true]
    cases r.begun <;> cases s.settled <;> cases settled <;> simp <;> simp at hmoves <;> omega
  have htasks (x : Identifier × Submission) (hx : x ∈ s.runs) : ∃ t t', f.tasks x.1 = some t ∧
      Relation.ReflTransGen (Task.Goes (f.engine x.1)) t t' ∧
        Submission.At (s'.engine x.1 x.2.moment) (s'.ahead { x.2 with begun := true })
          { x.2 with begun := true } t' := by
    obtain ⟨t, ht, hat⟩ := h.tasks x hx
    obtain ⟨hle, hpos⟩ := hahead x.2 (h.moments x hx)
    obtain ⟨t', hg, hat'⟩ := hat.exists_moves (h.engine_eq x.1 x.2.moment) hle hpos
    exact ⟨t, t', ht, hg, hat'⟩
  obtain ⟨f', hi, ⟨tasks, rfl⟩, hdone, hkept⟩ := Hub.exists_idles (P := fun id r t' =>
    Submission.At (s'.engine id r.moment) (s'.ahead { r with begun := true })
      { r with begun := true } t') h.nodup htasks
  have hkeys : s'.runs.map (·.1) = s.runs.map (·.1) := by
    simp [s', Service.waitUntil, Function.comp_def]
  refine ⟨_, hi, rfl, h.registry, h.config, hkeys ▸ h.tracked, hkeys ▸ h.nodup, ?_, ?_, ?_⟩
  · intro id t ht
    by_cases hid : id ∈ s.runs.map (·.1)
    · obtain ⟨x, hx, rfl⟩ := List.mem_map.1 hid
      obtain ⟨u, hu, -⟩ := h.tasks x hx
      exact h.issued _ u hu
    · exact h.issued id t ((hkept id hid).symm.trans ht)
  · intro y hy
    obtain ⟨x, hx, rfl⟩ := List.mem_map.1 hy
    have := h.moments x hx
    change x.2.moment ≤ n
    omega
  · intro y hy
    obtain ⟨x, hx, rfl⟩ := List.mem_map.1 hy
    exact hdone x hx

/-- What a caller does with the service: a call, or to let time pass. -/
inductive Operation where
  | submit (g : ProcedureGraph) (overrides : Fields)
  | cancel (id : Identifier)
  | status (id : Identifier)
  | wait (id : Identifier)
  | forget (id : Identifier)
  | run (g : ProcedureGraph) (overrides : Fields)
  | advance (ms : Nat)

/-- The service after an operation, and what the caller sees of the submitted runs. -/
def perform (s : Service) : Operation → Service × List Action
  | .submit g overrides =>
    match s.submit g overrides with
    | .ok (id, s') => (s', [.submit g overrides (.ok id)])
    | .error x => (s, [.submit g overrides (.error x)])
  | .cancel id =>
    match s.cancel id with
    | .ok s' => (s', [.cancel id (.ok ())])
    | .error x => (s, [.cancel id (.error x)])
  | .status id => (s, [.status id (s.status id)])
  | .wait id =>
    match s.wait id with
    | .ok (x, s') => (s', [.wait id (.ok ()), .returns id x])
    | .error x => (s, [.wait id (.error x)])
  | .forget id =>
    match s.forget id with
    | .ok s' => (s', [.forget id (.ok ())])
    | .error x => (s, [.forget id (.error x)])
  | .run g overrides =>
    match s.run g overrides with
    | .ok (_, s') => (s', [])
    | .error _ => (s, [])
  | .advance ms => (s.advance ms, [])

/-- The service after some operations, and what the caller sees of the submitted runs. -/
def performs (s : Service) : List Operation → Service × List Action
  | [] => (s, [])
  | o :: os =>
    let (s', seen) := s.perform o
    let (s'', later) := s'.performs os
    (s'', seen ++ later)

theorem performs_cons (o : Operation) (os : List Operation) : s.performs (o :: os) =
    (((s.perform o).1.performs os).1, (s.perform o).2 ++ ((s.perform o).1.performs os).2) := rfl

section
variable {g : ProcedureGraph} {overrides : Fields} {x : ServiceFault}

theorem accept_eq_ok : s.accept g = .ok () ↔ g.handlerViolations s.registry = [] := by
  unfold accept
  cases g.handlerViolations s.registry <;> simp

theorem submit_ok (h : s.accept g = .ok ()) : s.submit g overrides =
    .ok (s.fresh, { s with
      runs := (s.fresh, { graph := g, overrides, moment := s.clock }) :: s.runs
      count := s.count + 1 }) := by
  rw [submit, h]
  rfl

theorem submit_error (h : s.accept g = .error x) : s.submit g overrides = .error x := by
  rw [submit, h]
  rfl

theorem run_ok (h : s.accept g = .ok ()) : s.run g overrides =
    let r := (s.engine s.fresh s.clock).run g overrides none
    .ok (r.execution, { s.advance r.elapsed with count := s.count + 1 }) := by
  rw [run, h]
  rfl

theorem run_error (h : s.accept g = .error x) : s.run g overrides = .error x := by
  rw [run, h]
  rfl

theorem cancel_ok (h : s.find id = .ok r) : s.cancel id = .ok { s with
    runs := s.runs.map fun (k, q) => if k == id then (k, r.cancel (s.ahead r)) else (k, q) } := by
  rw [cancel, h]
  rfl

theorem cancel_error (h : s.find id = .error x) : s.cancel id = .error x := by
  rw [cancel, h]
  rfl

theorem status_ok (h : s.find id = .ok r) : s.status id = .ok (s.statusOf id r) := by
  rw [status, h]
  rfl

theorem status_error (h : s.find id = .error x) : s.status id = .error x := by
  rw [status, h]
  rfl

theorem wait_ok (h : s.find id = .ok r) : s.wait id =
    .ok ((s.course id r).execution,
      if s.isOver id r then s else s.waitUntil (max s.clock (s.finish id r)) true) := by
  rw [wait, h]
  cases hover : s.isOver id r <;> simp [bind, Except.bind, hover] <;> rfl

theorem wait_error (h : s.find id = .error x) : s.wait id = .error x := by
  rw [wait, h]
  rfl

theorem forget_ok (h : s.find id = .ok r) : s.forget id =
    .ok (if (s.statusOf id r).isTerminal then { s with runs := s.runs.filter fun q => q.1 != id }
      else s) := by
  rw [forget, h]
  cases hterm : (s.statusOf id r).isTerminal <;> simp [bind, Except.bind, hterm] <;> rfl

theorem forget_error (h : s.find id = .error x) : s.forget id = .error x := by
  rw [forget, h]
  rfl

end

theorem advance_count (ms : Nat) : (s.advance ms).count = s.count := by
  unfold advance
  split <;> rfl

/-- A hub can do what is seen, and then stands where the service does. -/
def Mirrored (f : Hub) (s' : Service) (seen : List Action) : Prop :=
  ∃ as f', Hub.Trace f as f' ∧ as.filter Action.isVisible = seen ∧ s'.Follows f'

namespace Mirrored

variable {s' s'' : Service} {seen seen' : List Action} {a : Action}

theorem nil (h : s.Follows f) : Mirrored f s [] := ⟨[], f, .nil, rfl, h⟩

theorem step (hs : Hub.Step f a f') (ha : a.isVisible = true) (h : Mirrored f' s' seen) :
    Mirrored f s' (a :: seen) := by
  obtain ⟨as, f'', ht, hseen, hf⟩ := h
  exact ⟨a :: as, f'', .cons hs ht, by rw [List.filter_cons_of_pos ha, hseen], hf⟩

theorem idles (hi : f.Idles f') (h : Mirrored f' s' seen) : Mirrored f s' seen := by
  obtain ⟨as, ht, ha⟩ := hi
  obtain ⟨bs, f'', ht', hseen, hf⟩ := h
  exact ⟨as ++ bs, f'', ht.append ht', by rw [List.filter_append, ha, hseen]; rfl, hf⟩

theorem append (h : Mirrored f s' seen) (h' : ∀ f', s'.Follows f' → Mirrored f' s'' seen') :
    Mirrored f s'' (seen ++ seen') := by
  obtain ⟨as, f', ht, ha, hf⟩ := h
  obtain ⟨bs, f'', ht', hb, hf'⟩ := h' f' hf
  exact ⟨as ++ bs, f'', ht.append ht', by rw [List.filter_append, ha, hb], hf'⟩

end Mirrored

namespace Follows

theorem accept_eq (h : s.Follows f) (g : ProcedureGraph) : f.accept g = s.accept g :=
  congrArg (fun registry => Hub.accept { registry, config := s.config } g) h.registry

theorem ne_fresh (h : s.Follows f) (ht : f.tasks id = some t) : id ≠ s.fresh := by
  rintro rfl
  have : s.count + 1 ≤ s.count := h.issued _ t ht
  omega

theorem submitted (h : s.Follows f) (g : ProcedureGraph) (overrides : Fields) :
    Follows { s with
        runs := (s.fresh, { graph := g, overrides, moment := s.clock }) :: s.runs
        count := s.count + 1 }
      { f.put s.fresh { graph := g, overrides } with tracked := s.fresh :: f.tracked } := by
  have hne (x : Identifier × Submission) (hx : x ∈ s.runs) : x.1 ≠ s.fresh := by
    obtain ⟨t, ht, -⟩ := h.tasks x hx
    exact h.ne_fresh ht
  refine ⟨h.registry, h.config, congrArg (s.fresh :: ·) h.tracked, ?_, ?_, ?_, ?_⟩
  · refine List.nodup_cons.2 ⟨fun hm => ?_, h.nodup⟩
    obtain ⟨x, hx, hid⟩ := List.mem_map.1 hm
    exact hne x hx hid
  · intro id t ht
    by_cases hid : id = s.fresh
    · subst hid
      exact Nat.le_refl (s.count + 1)
    · exact (h.issued id t ((Hub.tasks_put_of_ne hid).symm.trans ht)).trans (Nat.le_succ _)
  · rintro x (_ | ⟨_, hx⟩)
    · exact Nat.le_refl _
    · exact h.moments x hx
  · rintro x (_ | ⟨_, hx⟩)
    · exact ⟨_, Hub.tasks_put_self, .new g overrides s.clock⟩
    · obtain ⟨t, ht, hat⟩ := h.tasks x hx
      exact ⟨t, (Hub.tasks_put_of_ne (hne x hx)).trans ht, hat⟩

theorem cancelled (h : s.Follows f) (hr : s.find id = .ok r) (ht : f.find id = .ok t) :
    Follows { s with
        runs := s.runs.map fun (k, q) => if k == id then (k, r.cancel (s.ahead r)) else (k, q) }
      (f.put id { t with cancelled := true }) := by
  obtain ⟨u, hu, hmoment, hat⟩ := h.find hr
  cases hu.symm.trans ht
  have htask := (Hub.find_eq_ok.1 ht).2
  have hkeys : (s.runs.map fun (k, q) =>
      if k == id then (k, r.cancel (s.ahead r)) else (k, q)).map (·.1) = s.runs.map (·.1) := by
    rw [List.map_map]
    refine List.map_congr_left fun x _ => ?_
    dsimp only [Function.comp_apply]
    split <;> rfl
  refine ⟨h.registry, h.config, hkeys ▸ h.tracked, hkeys ▸ h.nodup, ?_, ?_, ?_⟩
  · intro k u hu
    by_cases hk : k = id
    · exact h.issued k t (hk ▸ htask)
    · exact h.issued k u ((Hub.tasks_put_of_ne hk).symm.trans hu)
  · intro y hy
    obtain ⟨x, hx, rfl⟩ := List.mem_map.1 hy
    dsimp only
    split
    · exact hmoment
    · exact h.moments x hx
  · intro y hy
    obtain ⟨x, hx, rfl⟩ := List.mem_map.1 hy
    by_cases hk : x.1 = id
    · simp only [hk, beq_self_eq_true, if_true]
      exact ⟨_, Hub.tasks_put_self, hat.cancel⟩
    · simp only [beq_eq_false_iff_ne.2 hk, Bool.false_eq_true, if_false]
      obtain ⟨u, hu, hatx⟩ := h.tasks x hx
      exact ⟨u, (Hub.tasks_put_of_ne hk).trans hu, hatx⟩

theorem forgotten (h : s.Follows f) (id : Identifier) :
    Follows { s with runs := s.runs.filter fun q => q.1 != id }
      { f with tracked := f.tracked.filter (· != id) } where
  registry := h.registry
  config := h.config
  tracked := by
    rw [h.tracked, List.filter_map]
    rfl
  nodup := (List.filter_sublist.map _).nodup h.nodup
  issued := h.issued
  moments x hx := h.moments x (List.mem_filter.1 hx).1
  tasks x hx := h.tasks x (List.mem_filter.1 hx).1

theorem advance (h : s.Follows f) (ms : Nat) :
    ∃ f', f.Idles f' ∧ (s.advance ms).Follows f' := by
  unfold Service.advance
  split
  · exact ⟨f, .refl f, h⟩
  · rename_i hms
    have hlt : s.clock < s.clock + ms := by
      rw [beq_iff_eq] at hms
      omega
    obtain ⟨f', hi, -, hf⟩ := h.waitUntil (.inl hlt)
    exact ⟨f', hi, hf⟩

theorem counted (h : s.Follows f) (hn : s.count ≤ n) : Follows { s with count := n } f where
  registry := h.registry
  config := h.config
  tracked := h.tracked
  nodup := h.nodup
  issued id t ht := (h.issued id t ht).trans hn
  moments := h.moments
  tasks := h.tasks

/-- Who waits does not matter to the service. -/
theorem waiting (h : s.Follows f) (ids : List Identifier) : s.Follows { f with waiting := ids } where
  registry := h.registry
  config := h.config
  tracked := h.tracked
  nodup := h.nodup
  issued := h.issued
  moments := h.moments
  tasks := h.tasks

/-- When a run is over, those that wait for it are told its execution. -/
theorem mirrored_returns (h : s.Follows f) (hr : s.find id = .ok r) (hover : s.isOver id r = true)
    (hw : id ∈ f.waiting) : Mirrored f s [.returns id (s.course id r).execution] := by
  obtain ⟨t, ht, -⟩ := h.find hr
  have hx := h.execution_eq hr ht hover
  exact .step (.returns hw (Hub.find_eq_ok.1 ht).2 hx) rfl (.nil (h.waiting _))

theorem mirrored_submit (h : s.Follows f) (g : ProcedureGraph) (overrides : Fields) :
    Mirrored f (s.perform (.submit g overrides)).1 (s.perform (.submit g overrides)).2 := by
  have haccept := h.accept_eq g
  cases ha : s.accept g with
  | error x =>
    rw [perform, submit_error ha]
    exact .step (.reject (haccept.trans ha)) rfl (.nil h)
  | ok _ =>
    have hnone : f.tasks s.fresh = none := by
      by_contra hn
      obtain ⟨t, ht⟩ := Option.ne_none_iff_exists'.1 hn
      exact h.ne_fresh ht rfl
    rw [perform, submit_ok ha]
    exact .step (.submit hnone (haccept.trans ha)) rfl (.nil (h.submitted g overrides))

theorem mirrored_cancel (h : s.Follows f) (id : Identifier) :
    Mirrored f (s.perform (.cancel id)).1 (s.perform (.cancel id)).2 := by
  cases hr : s.find id with
  | error x =>
    rw [perform, cancel_error hr]
    exact .step (.unknown (h.find_eq_error hr) (.head _)) rfl (.nil h)
  | ok r =>
    obtain ⟨t, ht, hm, hat⟩ := h.find hr
    rw [perform, cancel_ok hr]
    exact .step (.cancel ht) rfl (.nil (h.cancelled hr ht))

theorem mirrored_status (h : s.Follows f) (id : Identifier) :
    Mirrored f (s.perform (.status id)).1 (s.perform (.status id)).2 := by
  cases hr : s.find id with
  | error x =>
    rw [perform, status_error hr]
    exact .step (.unknown (h.find_eq_error hr) (.tail _ (.head _))) rfl (.nil h)
  | ok r =>
    obtain ⟨t, ht, -⟩ := h.find hr
    rw [perform, status_ok hr, ← h.status_eq hr ht]
    exact .step (.status ht) rfl (.nil h)

theorem mirrored_forget (h : s.Follows f) (id : Identifier) :
    Mirrored f (s.perform (.forget id)).1 (s.perform (.forget id)).2 := by
  cases hr : s.find id with
  | error x =>
    rw [perform, forget_error hr]
    exact .step (.unknown (h.find_eq_error hr) (by simp [Action.refusals])) rfl (.nil h)
  | ok r =>
    obtain ⟨t, ht, hm, hat⟩ := h.find hr
    have hst := h.status_eq hr ht
    rw [perform, forget_ok hr, ← hst]
    cases hterm : t.progress.status.isTerminal with
    | false => exact .step (.keep ht hterm) rfl (.nil h)
    | true => exact .step (.forget ht hterm) rfl (.nil (h.forgotten id))

theorem mirrored_wait (h : s.Follows f) (id : Identifier) :
    Mirrored f (s.perform (.wait id)).1 (s.perform (.wait id)).2 := by
  cases hr : s.find id with
  | error x =>
    rw [perform, wait_error hr]
    exact .step (.unknown (h.find_eq_error hr) (by simp [Action.refusals])) rfl (.nil h)
  | ok r =>
    obtain ⟨t, ht, hm, -⟩ := h.find hr
    rw [perform, wait_ok hr]
    refine .step (.wait ht) rfl ?_
    cases hover : s.isOver id r with
    | true => exact (h.waiting _).mirrored_returns hr hover List.mem_cons_self
    | false =>
      let s' := s.waitUntil (max s.clock (s.finish id r)) true
      have hmoves : s.clock < max s.clock (s.finish id r) ∨
          s.clock ≤ max s.clock (s.finish id r) ∧ true = true := .inr ⟨Nat.le_max_left _ _, rfl⟩
      obtain ⟨f', hi, hw, hf⟩ := (h.waiting (id :: f.waiting)).waitUntil hmoves
      have hr' : s'.find id = .ok { r with begun := true } :=
        (find_eq_ok hf.nodup).2 (List.mem_map_of_mem ((find_eq_ok h.nodup).1 hr))
      have hpast : s'.isPast (s.finish id r) = true := by
        have hle := Nat.le_max_right s.clock (s.finish id r)
        simp only [isPast, s', Service.waitUntil, Bool.or_eq_true, decide_eq_true_eq,
          Bool.and_true, beq_iff_eq]
        omega
      have hreturns := hf.mirrored_returns hr' (Bool.and_eq_true_iff.2 ⟨rfl, hpast⟩)
        (hw ▸ List.mem_cons_self)
      exact .idles hi hreturns

theorem mirrored_run (h : s.Follows f) (g : ProcedureGraph) (overrides : Fields) :
    Mirrored f (s.perform (.run g overrides)).1 (s.perform (.run g overrides)).2 := by
  cases ha : s.accept g with
  | error x =>
    rw [perform, run_error ha]
    exact .nil h
  | ok _ =>
    obtain ⟨f', hi, hf⟩ := h.advance ((s.engine s.fresh s.clock).run g overrides none).elapsed
    rw [perform, run_ok ha]
    exact .idles hi (.nil (hf.counted (by rw [advance_count]; exact Nat.le_succ _)))

/-- **Each operation** of the service is mirrored by the hub. -/
theorem mirrored_perform (h : s.Follows f) (o : Operation) :
    Mirrored f (s.perform o).1 (s.perform o).2 := by
  cases o with
  | submit g overrides => exact h.mirrored_submit g overrides
  | cancel id => exact h.mirrored_cancel id
  | status id => exact h.mirrored_status id
  | wait id => exact h.mirrored_wait id
  | forget id => exact h.mirrored_forget id
  | run g overrides => exact h.mirrored_run g overrides
  | advance ms =>
    obtain ⟨f', hi, hf⟩ := h.advance ms
    exact .idles hi (.nil hf)

theorem mirrored_performs (h : s.Follows f) (os : List Operation) :
    Mirrored f (s.performs os).1 (s.performs os).2 := by
  induction os generalizing s f with
  | nil => exact .nil h
  | cons o os ih => exact (h.mirrored_perform o).append fun f' hf => ih hf

end Follows

/-- **What callers see of the service** is what those of a hub may see, and the runs of the service then
stand where the tasks of the hub do. -/
theorem performs_mirrored (registry : Registry) (config : Config) (origin : Instant)
    (os : List Operation) :
    Mirrored { registry, config } (performs { registry, config, origin } os).1
      (performs { registry, config, origin } os).2 :=
  (Follows.new registry config origin).mirrored_performs os

end Service
end Runbook

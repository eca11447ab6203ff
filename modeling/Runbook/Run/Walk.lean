import Runbook.Run.Step

/-!
# Runs

A run walks a graph from its entry, one step at a time, and follows the edge for the status of each
step until there is none (`Engine.walk`). Before each step it looks whether it has been cancelled,
and no step is entered more often than the budget allows (`Engine.enter`), so every walk comes to an
end (`Engine.room_lt`). `Engine.run` makes the record of the whole run: its execution, what a
recorder is told, and the calls to the outside.
-/

namespace Runbook

/-- Why a run is given up. -/
inductive RunFault where
  | unknownTarget (source target : String)
  | budgetExceeded (step : String) (visits budget : Nat)
  deriving Repr, BEq, DecidableEq

/-- The wording of a fault. -/
def RunFault.message : RunFault → String
  | .unknownTarget s t => "Step '" ++ s ++ "' transitions to unknown step '" ++ t ++ "'"
  | .budgetExceeded s n b =>
    "Step '" ++ s ++ "' reached " ++ toString n ++ " times, budget is " ++ toString b

/-- What a recorder is told during a run. -/
inductive Callback where
  | executionStart (procedure : String)
  | stepStart (step : String) (device : Option String)
  | stepComplete (step : String) (device : Option String) (result : StepResult)
  | executionComplete (status : RunStatus)
  deriving Inhabited

/-- How a run ends: with a status or with a fault. -/
inductive Ending where
  | status (s : RunStatus)
  | fault (f : RunFault)
  deriving Repr, BEq, DecidableEq

/-- The status that an execution gets. -/
def Ending.runStatus : Ending → RunStatus
  | .status s => s
  | .fault _ => .failed

/-- The reason that an execution gets. -/
def Ending.reason? : Ending → Option String
  | .status _ => none
  | .fault f => some f.message

/-- How far a run has come. -/
structure Walk where
  context : Context
  log : List StepRecord := []
  visited : List String := []
  callbacks : List Callback := []
  events : List (Nat × Event) := []
  elapsed : Nat := 0
  deriving Inhabited

namespace StepVisit

/-- What a recorder is told of a visit: the starts in their order, then the ends in the order of the
devices. -/
def callbacks (step : String) (v : StepVisit) : List Callback :=
  v.started.map (fun i => .stepStart step i.device) ++
    v.merged.map fun i => .stepComplete step i.device i.result

end StepVisit

/-- The edge of a step for a status. -/
def StepDefinition.edge? (s : StepDefinition) (status : Status) : Option String :=
  if status.isSuccess then s.onSuccess else s.onFailure

namespace Engine

/-- How often a step may be entered. -/
def budget (e : Engine) : Nat := max 1 e.config.maxStepVisits

/-- The walk after a visit of a step. -/
def advance (e : Engine) (id : String) (v : StepVisit) (w : Walk) : Walk :=
  { context := e.merge id w.elapsed v w.context
    log := w.log ++ v.records id
    visited := w.visited ++ [id]
    callbacks := w.callbacks ++ v.callbacks id
    events := w.events ++ Timeline.later w.elapsed v.events
    elapsed := w.elapsed + v.elapsed }

/-- The step that a walk enters, or how the run ends instead. A run that is cancelled enters no step
that is due at the moment `cancelFrom` after its start or later. -/
def enter (e : Engine) (g : ProcedureGraph) (cancelFrom : Option Nat) (id : String) (w : Walk) :
    Except Ending StepDefinition :=
  if cancelFrom.any fun t => t ≤ w.elapsed then .error (.status .cancelled)
  else
    match g.step? id with
    | none => .error (.fault (.unknownTarget (w.visited.getLast?.getD "") id))
    | some s =>
      let count := w.visited.count id + 1
      if e.budget < count then .error (.fault (.budgetExceeded id count e.budget)) else .ok s

/-- What a walk does when a step is due: it goes on to another, or it ends. -/
inductive Turn where
  | next (id : String) (w : Walk)
  | stop (ending : Ending) (w : Walk)

/-- What follows a visit of the step `s`. -/
def leave (e : Engine) (id : String) (s : StepDefinition) (v : StepVisit) (w : Walk) : Turn :=
  match s.edge? v.status with
  | some next => .next next (e.advance id v w)
  | none => .stop (.status (RunStatus.ofStep v.status)) (e.advance id v w)

/-- What a walk does when the step `id` is due. -/
def turn (e : Engine) (g : ProcedureGraph) (cancelFrom : Option Nat) (id : String) (w : Walk) :
    Turn :=
  match e.enter g cancelFrom id w with
  | .error ending => .stop ending w
  | .ok s => e.leave id s (e.visit g id s w.context) w

/-! ## The end of a walk -/

/-- How many visits a budget leaves for some steps. -/
def roomFor (budget : Nat) (visited : List String) : List String → Nat
  | [] => 0
  | i :: ids => (budget - visited.count i) + roomFor budget visited ids

/-- How many visits the budget leaves. -/
def room (e : Engine) (g : ProcedureGraph) (visited : List String) : Nat :=
  roomFor e.budget visited g.definition.stepIds

theorem enter_ok {e : Engine} {g : ProcedureGraph} {cancelFrom : Option Nat} {id : String}
    {w : Walk} {s : StepDefinition} (h : e.enter g cancelFrom id w = .ok s) :
    cancelFrom.any (fun t => t ≤ w.elapsed) = false ∧ g.step? id = some s ∧
      w.visited.count id < e.budget := by
  unfold enter at h
  split at h
  · cases h
  · rename_i hc
    split at h
    · cases h
    · rename_i t ht
      dsimp only at h
      split at h
      · cases h
      · cases h
        exact ⟨by simpa using hc, ht, by omega⟩

theorem roomFor_le (budget : Nat) (id : String) (visited ids : List String) :
    roomFor budget (visited ++ [id]) ids ≤ roomFor budget visited ids := by
  induction ids with
  | nil => exact Nat.le_refl _
  | cons i ids ih =>
    simp only [roomFor, List.count_append]
    omega

/-- A visit takes one of the visits that the budget leaves for its step. -/
theorem roomFor_lt {budget : Nat} {id : String} {visited ids : List String}
    (hb : visited.count id < budget) (hm : id ∈ ids) :
    roomFor budget (visited ++ [id]) ids < roomFor budget visited ids := by
  induction ids with
  | nil => cases hm
  | cons i ids ih =>
    have hle := roomFor_le budget id visited ids
    simp only [roomFor, List.count_append]
    rcases List.mem_cons.1 hm with rfl | hm
    · simp only [List.count_singleton_self]
      omega
    · have := ih hm
      omega

theorem step?_mem {g : ProcedureGraph} {id : String} {s : StepDefinition}
    (h : g.step? id = some s) : (id, s) ∈ g.definition.identified := by
  obtain ⟨⟨i, t⟩, hf, rfl⟩ := Option.map_eq_some_iff.1 h
  have hi : i = id := by simpa using List.find?_some hf
  exact hi ▸ List.mem_of_find?_eq_some hf

theorem step?_mem_stepIds {g : ProcedureGraph} {id : String} {s : StepDefinition}
    (h : g.step? id = some s) : id ∈ g.definition.stepIds :=
  (List.of_mem_zip (step?_mem h)).1

theorem turn_next {e : Engine} {g : ProcedureGraph} {cancelFrom : Option Nat} {id next : String}
    {w w' : Walk} (h : e.turn g cancelFrom id w = .next next w') :
    ∃ s, e.enter g cancelFrom id w = .ok s ∧
      s.edge? (e.visit g id s w.context).status = some next ∧
      w' = e.advance id (e.visit g id s w.context) w := by
  unfold turn at h
  split at h
  · cases h
  · next s hs =>
    unfold leave at h
    split at h
    · next he => cases h; exact ⟨s, hs, he, rfl⟩
    · cases h

theorem room_lt {e : Engine} {g : ProcedureGraph} {cancelFrom : Option Nat} {id next : String}
    {w w' : Walk} (h : e.turn g cancelFrom id w = .next next w') :
    e.room g w'.visited < e.room g w.visited := by
  obtain ⟨s, hs, -, rfl⟩ := turn_next h
  obtain ⟨-, hid, hb⟩ := enter_ok hs
  exact roomFor_lt hb (step?_mem_stepIds hid)

/-- Walks on to the step `id` and from there to the end. Every visit leaves less room for others, so
the walk comes to an end. -/
def walk (e : Engine) (g : ProcedureGraph) (cancelFrom : Option Nat) (id : String) (w : Walk) :
    Ending × Walk :=
  match _h : e.turn g cancelFrom id w with
  | .stop ending w => (ending, w)
  | .next next w => walk e g cancelFrom next w
termination_by e.room g w.visited
decreasing_by exact room_lt _h

end Engine

/-- The context that a run starts with: the variables of the procedure with others over them, and
an empty namespace for every device that a step can have. -/
def ProcedureGraph.initialContext (g : ProcedureGraph) (overrides : Fields) : Context :=
  let p := g.definition
  let globals := overrides.foldl (fun acc (k, v) => Table.insert k v acc) (p.vars.getD [])
  let devices := p.devices ++ p.steps.flatMap fun s => s.devices.getD []
  devices.foldl (fun c d => if (c.device? d).isSome then c else c.setDevice d [])
    (Context.ofGlobals globals)

/-- How the walk from the entry of a graph ends, and how far it comes. -/
def Engine.outcome (e : Engine) (g : ProcedureGraph) (overrides : Fields)
    (cancelFrom : Option Nat) : Ending × Walk :=
  e.walk g cancelFrom g.entry { context := g.initialContext overrides }

/-- The record of a run. -/
structure Run where
  execution : Execution
  /-- What a recorder was told. -/
  callbacks : List Callback
  /-- The calls to the outside, in order. -/
  events : List (Nat × Event)
  /-- How long the run took. -/
  elapsed : Nat
  deriving Inhabited

/-- The execution of a run that ends in some way, once its walk has come as far as it does. -/
def Engine.report (e : Engine) (g : ProcedureGraph) (ending : Ending) (w : Walk) : Execution where
  id := e.execution
  procedure := g.name
  status := ending.runStatus
  startedAt := some e.startedAt
  completedAt := some (e.startedAt.addMillis w.elapsed)
  log := w.log
  visited := w.visited
  error := ending.reason?
  context := w.context

/-- Runs a graph; when it is cancelled, it enters no step from the moment `cancelFrom` on. -/
def Engine.run (e : Engine) (g : ProcedureGraph) (overrides : Fields) (cancelFrom : Option Nat) :
    Run :=
  let (ending, w) := e.outcome g overrides cancelFrom
  { execution := e.report g ending w
    callbacks :=
      .executionStart g.name :: w.callbacks ++ [.executionComplete ending.runStatus]
    events := w.events
    elapsed := w.elapsed }

end Runbook

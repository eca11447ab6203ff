import Runbook.Script.Eval

/-!
# Properties of all that a script does

A property of computations is `Compositional` when the basic computations have it and the ways to
put computations together keep it. Then all that a script does has it, by one induction over the
evaluation (`Compositional.evaluation`). The property may be one of the computations that leave the
variables of some names alone; then what does not mention these names has it (`Expr.mentions`). The
functions of a script may use the names, for a call has variables of its own.

A variable is set only after the innermost one of its name has been found to be no constant. So what
follows the look at a variable is held to a second property, over the variables of that moment, and
a constant that something is called on stays (`Yields.follow`).
-/

namespace Runbook.Script

/-! ## Names -/

mutual
/-- Whether an expression mentions a variable. -/
def Expr.mentions (x : String) : Expr → Bool
  | .lit _ | .this => false
  | .var y => y == x
  | .text parts => exprsMention x parts
  | .list items => exprsMention x items
  | .map fields => fieldsMention x fields
  | .chain base links => base.mentions x || linksMention x links
  | .call _ args => exprsMention x args
  | .unary _ e => e.mentions x
  | .binary _ l r | .and l r | .or l r | .orElse l r | .isIn _ l r | .range l r _ =>
    l.mentions x || r.mentions x
  | .run s => s.mentions x

/-- Whether one of some expressions does. -/
def exprsMention (x : String) : List Expr → Bool
  | [] => false
  | e :: es => e.mentions x || exprsMention x es

/-- Whether one of the values of some fields does. -/
def fieldsMention (x : String) : List (String × Expr) → Bool
  | [] => false
  | (_, e) :: rest => e.mentions x || fieldsMention x rest

/-- Whether an expression that may be there does. -/
def optionMentions (x : String) : Option Expr → Bool
  | none => false
  | some e => e.mentions x

/-- Whether a link does. -/
def Link.mentions (x : String) : Link → Bool
  | .property _ _ => false
  | .item e _ => e.mentions x
  | .method _ args _ => exprsMention x args

/-- Whether one of some links does. -/
def linksMention (x : String) : List Link → Bool
  | [] => false
  | l :: ls => l.mentions x || linksMention x ls

/-- Whether a statement mentions a variable or has one of that name for itself. -/
def Stmt.mentions (x : String) : Stmt → Bool
  | .expr e => e.mentions x
  | .declare y _ e => y == x || optionMentions x e
  | .leave e | .give e | .throw e => optionMentions x e
  | .assign target _ e => target.mentions x || e.mentions x
  | .block body => stmtsMention x body
  | .branch c yes no => c.mentions x || stmtsMention x yes || stmtsMention x no
  | .choose subject cases default =>
    subject.mentions x || casesMention x cases || defaultMentions x default
  | .loop c body => optionMentions x c || stmtsMention x body
  | .after body c _ => stmtsMention x body || c.mentions x
  | .each y counter source body =>
    y == x || counter == some x || source.mentions x || stmtsMention x body
  | .next => false
  | .attempt body caught handler =>
    stmtsMention x body || caught == some x || stmtsMention x handler

/-- Whether one of some statements does. -/
def stmtsMention (x : String) : List Stmt → Bool
  | [] => false
  | s :: ss => s.mentions x || stmtsMention x ss

/-- Whether the default of a `switch` does. -/
def defaultMentions (x : String) : Option Stmt → Bool
  | none => false
  | some s => s.mentions x

/-- Whether a case of a `switch` does. -/
def Case.mentions (x : String) : Case → Bool
  | .mk _ guard s => optionMentions x guard || s.mentions x

/-- Whether one of some cases does. -/
def casesMention (x : String) : List Case → Bool
  | [] => false
  | c :: cs => c.mentions x || casesMention x cs
end

section
variable {x : String}

theorem exprsMention_iff {es : List Expr} :
    exprsMention x es = false ↔ ∀ e ∈ es, e.mentions x = false := by
  induction es with
  | nil => simp [exprsMention]
  | cons e es ih => simp [exprsMention, ih]

theorem fieldsMention_iff {fields : List (String × Expr)} :
    fieldsMention x fields = false ↔ ∀ e ∈ fields, e.2.mentions x = false := by
  induction fields with
  | nil => simp [fieldsMention]
  | cons e fields ih => simp [fieldsMention, ih]

theorem linksMention_iff {ls : List Link} :
    linksMention x ls = false ↔ ∀ l ∈ ls, l.mentions x = false := by
  induction ls with
  | nil => simp [linksMention]
  | cons l ls ih => simp [linksMention, ih]

theorem stmtsMention_iff {ss : List Stmt} :
    stmtsMention x ss = false ↔ ∀ s ∈ ss, s.mentions x = false := by
  induction ss with
  | nil => simp [stmtsMention]
  | cons s ss ih => simp [stmtsMention, ih]

theorem casesMention_iff {cs : List Case} :
    casesMention x cs = false ↔ ∀ c ∈ cs, c.mentions x = false := by
  induction cs with
  | nil => simp [casesMention]
  | cons c cs ih => simp [casesMention, ih]

end

/-! ## Computations -/

/-- The machines have the same variables, whatever their values, and are in the same call. -/
def Machine.Alike (m m' : Machine) : Prop :=
  m.slots.map Slot.name = m'.slots.map Slot.name ∧ m.receiver = m'.receiver ∧ m.depth = m'.depth

namespace Eval

variable {α β : Type}

/-- A computation that goes on with another one when it ends with a signal. -/
def catching (body : Eval α) (k : Signal → Eval α) : Eval α := fun m =>
  match body m with
  | .ok a t => .ok a t
  | .error e t => k e t

theorem bind_eq (act : Eval α) (k : α → Eval β) (m : Machine) :
    (act >>= k) m = match act m with
      | .ok a t => k a t
      | .error e t => .error e t := by
  change EStateM.bind act k m = _
  unfold EStateM.bind
  cases act m <;> rfl

theorem slot_bind_eq (name : String) (k : Slot → Eval α) (m : Machine) :
    (slot name >>= k) m = match m.slots.find? fun s => s.name == name with
      | some s => k s m
      | none => .error (.fault (.unknownVariable name)) m := by
  have hget : (get : Eval Machine) m = .ok m m := rfl
  rw [slot, bind_assoc, bind_eq, hget]
  dsimp only
  cases m.slots.find? fun s => s.name == name <;> rfl

theorem round_eq (body : Eval Value) : round body =
    catching (body >>= fun _ => pure none) fun
      | .leave v => pure (some v)
      | .next => pure none
      | e => throw e := by
  funext m
  rw [round, catching, bind_eq]
  cases body m with
  | ok v t => rfl
  | error e t => cases e <;> rfl

theorem bounded_eq (name : String) (body : Eval Value) : bounded name body =
    catching body fun
      | .give v => pure v
      | .fault f => throw (.fault (if f.isLimit then f else .inFunction name f))
      | e => throw e := by
  funext m
  rw [bounded, catching]
  cases body m with
  | ok v t => rfl
  | error e t => cases e <;> rfl

theorem handled_eq (body : Eval Value) (handler : Fault → Eval Value) : handled body handler =
    catching body fun
      | .fault f =>
        if f.isLimit then throw (.fault f)
        else
          catching (handler f >>= fun _ => pure .unit) fun
            | .fault (.thrown .unit) => throw (.fault f)
            | e => throw e
      | e => throw e := by
  funext m
  rw [handled, catching]
  cases body m with
  | ok v t => rfl
  | error e t =>
    cases e with
    | fault f =>
      dsimp only
      split
      · rfl
      · rw [catching, bind_eq]
        cases handler f t with
        | ok v u => rfl
        | error e u =>
          cases e with
          | fault g =>
            cases g with
            | thrown v => cases v <;> rfl
            | _ => rfl
          | _ => rfl
    | _ => rfl

theorem repeated_succ (n : Nat) (body : Eval (Option Value)) : repeated (n + 1) body =
    body >>= fun
      | none => repeated n body
      | some v => pure v := by
  funext m
  simp only [repeated, bind_eq]
  cases body m with
  | ok o t => cases o <;> rfl
  | error e t => rfl

theorem overItems_cons (body : Value → Nat → Eval (Option Value)) (v : Value) (vs : List Value)
    (i : Nat) : overItems body (v :: vs) i =
    body v i >>= fun
      | none => overItems body vs (i + 1)
      | some v => pure v := by
  funext m
  simp only [overItems, bind_eq]
  cases body v i m with
  | ok o t => cases o <;> rfl
  | error e t => rfl

theorem overCount_succ (body : Nat → Eval (Option Value)) (n i : Nat) : overCount body (n + 1) i =
    body i >>= fun
      | none => overCount body n (i + 1)
      | some v => pure v := by
  funext m
  simp only [overCount, bind_eq]
  cases body i m with
  | ok o t => cases o <;> rfl
  | error e t => rfl

/-! ## Receivers that must stay -/

/-- The values that a computation may give. -/
def Yields (act : Eval α) (P : α → Prop) : Prop := ∀ m a t, act m = .ok a t → P a

namespace Yields

variable {P : α → Prop} {Q : β → Prop} {v : Value}

theorem pure {a : α} (h : P a) : Yields (pure a) P := by
  intro m b t hb
  cases hb
  exact h

theorem fail (f : Fault) : Yields (fail f : Eval α) P := nofun

theorem bind {act : Eval α} {k : α → Eval β} (ha : Yields act P)
    (hk : ∀ a, P a → Yields (k a) Q) : Yields (act >>= k) Q := by
  intro m b t hb
  rw [bind_eq] at hb
  cases hr : act m with
  | ok a u =>
    rw [hr] at hb
    exact hk a (ha m a u hr) u b t hb
  | error e u =>
    rw [hr] at hb
    cases hb

theorem after {act : Eval α} {k : α → Eval β} (hk : ∀ a, Yields (k a) Q) : Yields (act >>= k) Q :=
  bind (P := fun _ => True) (fun _ _ _ _ => trivial) fun a _ => hk a

/-- A method leaves a receiver that must stay. -/
theorem method {h : Host} {fuel : Nat} {name : String} {args : List Value} :
    Yields (method h fuel true v name args) (·.2 = none) := by
  cases fuel with
  | zero =>
    unfold Eval.method
    exact fail _
  | succ fuel =>
    unfold Eval.method
    split
    · exact after fun r => pure rfl
    · refine after fun r => ?_
      obtain ⟨r, changed⟩ := r
      cases changed with
      | none => exact pure rfl
      | some c => exact fail _

/-- So does a chain of links. -/
theorem follow {call : Place.Call}
    (hcall : ∀ v name args, Yields (call true v name args) (·.2 = none))
    (ps : List Place) : Yields (Place.follow call true v ps) (·.2 = none) := by
  induction ps generalizing v with
  | nil =>
    unfold Place.follow
    exact pure rfl
  | cons p ps ih =>
    unfold Place.follow
    split
    · exact pure rfl
    · cases p with
      | property n g =>
        refine after fun w => ih.bind fun r hr => ?_
        obtain ⟨r, changed⟩ := r
        obtain rfl : changed = none := hr
        exact pure rfl
      | item i g =>
        refine after fun w => ih.bind fun r hr => ?_
        obtain ⟨r, changed⟩ := r
        obtain rfl : changed = none := hr
        exact pure rfl
      | method n args g =>
        refine (hcall _ _ _).bind fun r hr => ?_
        obtain ⟨r, changed⟩ := r
        obtain rfl : changed = none := hr
        exact after fun _ => pure rfl

end Yields

/-! ## Properties of computations -/

/-- A property of computations that the basic ones have and that the ways to put them together keep,
where no variable of a hidden name is looked at, set or declared. What follows the look at a
variable has it already when it has the second property, over the variables of that moment. -/
structure Compositional (hidden : String → Prop) (P : ∀ {α : Type}, Eval α → Prop)
    (Over : List Slot → ∀ {α : Type}, Eval α → Prop) : Prop where
  pure {α : Type} (a : α) : P (Pure.pure a : Eval α)
  throw {α : Type} (e : Signal) : P (throw e : Eval α)
  bindOf {α β : Type} {Q : α → Prop} {act : Eval α} {k : α → Eval β} :
    P act → Yields act Q → (∀ a, Q a → P (k a)) → P (act >>= k)
  catching {α : Type} {body : Eval α} {k : Signal → Eval α} :
    P body → (∀ e, P (k e)) → P (catching body k)
  reads {α : Type} {k : Machine → Eval α} :
    (∀ m m', m.Alike m' → k m = k m') → (∀ m, P (k m)) → P (get >>= k)
  tick (h : Host) : P (tick h)
  receiver (v : Value) : P (modify fun m : Machine => { m with receiver := some v })
  inScope {α : Type} {act : Eval α} : P act → P (inScope act)
  framed {α : Type} (slots : List Slot) (r : Option Value) (act : Eval α) : P (framed slots r act)
  declare {name : String} (constant : Bool) (v : Value) :
    ¬hidden name → P (declare name constant v)
  slot {α : Type} {name : String} {k : Slot → Eval α} : ¬hidden name →
    (∀ before s, before.find? (fun s => s.name == name) = some s → Over before (k s)) →
    P (slot name >>= k)
  toOver {α : Type} {act : Eval α} (before : List Slot) : P act → Over before act
  overBind {α β : Type} {before : List Slot} {act : Eval α} {k : α → Eval β} :
    Over before act → (∀ a, Over before (k a)) → Over before (act >>= k)
  store {before : List Slot} {s : Slot} {name : String} (v : Value) : ¬hidden name →
    before.find? (fun s => s.name == name) = some s → s.constant = false →
    Over before (store name v)

namespace Compositional

variable {hidden : String → Prop} {P : ∀ {α : Type}, Eval α → Prop}
  {Over : List Slot → ∀ {α : Type}, Eval α → Prop} {h : Host} {v : Value}

section
variable (hc : Compositional hidden P Over)
include hc

theorem bind {act : Eval α} {k : α → Eval β} (ha : P act) (hk : ∀ a, P (k a)) : P (act >>= k) :=
  hc.bindOf (Q := fun _ => True) ha (fun _ _ _ _ => trivial) fun a _ => hk a

theorem ticked {k : Unit → Eval α} (hk : P (k ())) : P (Eval.tick h >>= k) :=
  hc.bind (hc.tick h) fun _ => hk

theorem fail (f : Fault) : P (fail f : Eval α) := hc.throw _

theorem ofExcept (r : Except Fault α) : P (ofExcept r) := by
  cases r with
  | ok a => exact hc.pure a
  | error f => exact hc.fail f

theorem overPure (before : List Slot) (a : α) : Over before (Pure.pure a : Eval α) :=
  hc.toOver before (hc.pure a)

theorem mapM {f : α → Eval β} {xs : List α} (hf : ∀ a ∈ xs, P (f a)) : P (xs.mapM f) := by
  induction xs with
  | nil => exact hc.pure []
  | cons a xs ih =>
    rw [List.mapM_cons]
    exact hc.bind (hf a List.mem_cons_self) fun b =>
      hc.bind (ih fun c hm => hf c (List.mem_cons_of_mem _ hm)) fun bs => hc.pure (b :: bs)

theorem foldlM {f : β → α → Eval β} {xs : List α} (hf : ∀ b, ∀ a ∈ xs, P (f b a)) (b : β) :
    P (xs.foldlM f b) := by
  induction xs generalizing b with
  | nil => exact hc.pure b
  | cons a xs ih =>
    rw [List.foldlM_cons]
    exact hc.bind (hf b a List.mem_cons_self) fun b =>
      ih (fun b c hm => hf b c (List.mem_cons_of_mem _ hm)) b

theorem sized (v : Value) : P (Eval.sized h v) := by
  unfold Eval.sized
  dsimp only
  split
  · exact hc.fail _
  · split
    · exact hc.fail _
    · split
      · exact hc.fail _
      · exact hc.pure _

theorem truth (v : Value) : P (Eval.truth v) := by
  unfold Eval.truth
  split
  · exact hc.pure _
  · exact hc.fail _

/-! ### Loops and handlers -/

theorem round {body : Eval Value} (hb : P body) : P (round body) := by
  rw [round_eq]
  refine hc.catching (hc.bind hb fun _ => hc.pure _) fun e => ?_
  split
  · exact hc.pure _
  · exact hc.pure _
  · exact hc.throw _

theorem bounded {name : String} {body : Eval Value} (hb : P body) : P (bounded name body) := by
  rw [bounded_eq]
  refine hc.catching hb fun e => ?_
  split
  · exact hc.pure _
  · exact hc.throw _
  · exact hc.throw _

theorem handled {body : Eval Value} {handler : Fault → Eval Value} (hb : P body)
    (hh : ∀ f, P (handler f)) : P (handled body handler) := by
  rw [handled_eq]
  refine hc.catching hb fun e => ?_
  split
  · split
    · exact hc.throw _
    · refine hc.catching (hc.bind (hh _) fun _ => hc.pure _) fun e => ?_
      split <;> exact hc.throw _
  · exact hc.throw _

theorem repeated {body : Eval (Option Value)} (hb : P body) (n : Nat) : P (repeated n body) := by
  induction n with
  | zero => exact hc.fail _
  | succ n ih =>
    rw [repeated_succ]
    refine hc.bind hb fun o => ?_
    cases o with
    | none => exact ih
    | some v => exact hc.pure v

theorem overItems {body : Value → Nat → Eval (Option Value)} (hb : ∀ v i, P (body v i))
    (vs : List Value) (i : Nat) : P (overItems body vs i) := by
  induction vs generalizing i with
  | nil => exact hc.pure _
  | cons v vs ih =>
    rw [overItems_cons]
    refine hc.bind (hb v i) fun o => ?_
    cases o with
    | none => exact ih (i + 1)
    | some v => exact hc.pure v

theorem overCount {body : Nat → Eval (Option Value)} (hb : ∀ i, P (body i)) (n i : Nat) :
    P (overCount body n i) := by
  induction n generalizing i with
  | zero => exact hc.pure _
  | succ n ih =>
    rw [overCount_succ]
    refine hc.bind (hb i) fun o => ?_
    cases o with
    | none => exact ih (i + 1)
    | some v => exact hc.pure v

/-! ### Parts of values -/

theorem propertyOf (v : Value) (n : String) : P (Place.propertyOf v n) := by
  unfold Place.propertyOf
  split
  · exact hc.pure _
  · exact hc.ofExcept _

theorem follow {call : Place.Call} {fixed : Bool}
    (hcall : ∀ fixed v name args, P (call fixed v name args)) (v : Value) (ps : List Place) :
    P (Place.follow call fixed v ps) := by
  induction ps generalizing fixed v with
  | nil =>
    unfold Place.follow
    exact hc.pure _
  | cons p ps ih =>
    unfold Place.follow
    split
    · exact hc.pure _
    · cases p with
      | property n g =>
        refine hc.bind (hc.propertyOf v n) fun r => hc.bind (ih r) fun r => ?_
        dsimp only
        split <;> exact hc.pure _
      | item i g =>
        refine hc.bind (hc.ofExcept _) fun r => hc.bind (ih r) fun r => ?_
        dsimp only
        split
        · exact hc.bind (hc.ofExcept _) fun w => hc.pure _
        · exact hc.pure _
      | method n args g =>
        exact hc.bind (hcall _ _ _ _) fun r => hc.bind (ih _) fun _ => hc.pure _

theorem update {call : Place.Call} {new : Value → Eval Value}
    (hcall : ∀ fixed v name args, P (call fixed v name args)) (hn : ∀ v, P (new v)) (v : Value)
    (ps : List Place) : P (Place.update call new v ps) := by
  induction ps generalizing v with
  | nil =>
    unfold Place.update
    exact hn v
  | cons p ps ih =>
    unfold Place.update
    split
    · exact hc.pure _
    · cases p with
      | property n g =>
        cases v with
        | map fs => exact hc.bind (ih _) fun w => hc.pure _
        | _ =>
          dsimp only
          split
          · exact hc.fail _
          · exact hc.bind (hc.propertyOf _ n) fun r => hc.bind (ih r) fun _ => hc.pure _
      | item i g =>
        dsimp only
        split
        · exact hc.bind (ih _) fun w => hc.pure _
        · exact hc.bind (hc.ofExcept _) fun r => hc.bind (ih r) fun w => hc.ofExcept _
      | method n args g =>
        exact hc.bind (hcall _ _ _ _) fun r => hc.bind (ih _) fun _ => hc.pure _

/-! ### Calls -/

theorem builtin (name : String) (args : List Value) : P (Eval.builtin h name args) := by
  unfold Eval.builtin
  refine hc.bind (hc.ofExcept _) fun r => hc.bind (hc.sized _) fun v => ?_
  split
  · exact hc.bind (hc.sized _) fun c => hc.pure _
  · exact hc.pure _

theorem reserved {name : String} {args : List Value} {act : Eval Value}
    (ha : reserved? h name args = some act) : P act := by
  unfold reserved? at ha
  split at ha <;> cases ha
  · rename_i n
    refine hc.reads (fun m m' halike => ?_) fun m => hc.pure _
    have hany (slots : List Slot) : (slots.any fun s => s.name == n) =
        (slots.map Slot.name).any (· == n) := by
      rw [List.any_map]
      rfl
    rw [hany, hany, halike.1]
  · exact hc.pure _
  · exact hc.throw _
  · exact hc.throw _

theorem call (fuel : Nat) (f : Function) (args : List Value) (receiver : Option Value) :
    P (Eval.call h fuel f args receiver) := by
  cases fuel with
  | zero =>
    unfold Eval.call
    exact hc.fail _
  | succ fuel =>
    unfold Eval.call
    refine hc.ticked (hc.reads (fun m m' halike => ?_) fun m => ?_)
    · rw [halike.2.2]
    · split
      · exact hc.fail _
      · exact hc.framed _ _ _

theorem method (fuel : Nat) (fixed : Bool) (v : Value) (name : String) (args : List Value) :
    P (Eval.method h fuel fixed v name args) := by
  cases fuel with
  | zero =>
    unfold Eval.method
    exact hc.fail _
  | succ fuel =>
    unfold Eval.method
    split
    · exact hc.bind (hc.call _ _ _ _) fun r => hc.pure _
    · refine hc.bind (hc.builtin _ _) fun r => ?_
      dsimp only
      split
      · exact hc.fail _
      · exact hc.pure _

/-! ### Choices -/

theorem firstOpen {guard : Option Expr → Eval Bool} {cases : List Case} {k : Option Stmt → Eval α}
    (hg : ∀ ls g s, Case.mk ls g s ∈ cases → P (guard g))
    (hk : ∀ ls g s, Case.mk ls g s ∈ cases → P (k (some s))) (hn : P (k none)) :
    P (firstOpen guard cases >>= k) := by
  induction cases with
  | nil =>
    rw [Eval.firstOpen, pure_bind]
    exact hn
  | cons c cases ih =>
    obtain ⟨ls, g, s⟩ := c
    rw [Eval.firstOpen, bind_assoc]
    refine hc.bind (hg ls g s List.mem_cons_self) fun b => ?_
    cases b with
    | true =>
      rw [if_pos rfl, pure_bind]
      exact hk ls g s List.mem_cons_self
    | false =>
      exact ih (fun ls g s hm => hg ls g s (List.mem_cons_of_mem _ hm))
        fun ls g s hm => hk ls g s (List.mem_cons_of_mem _ hm)

theorem chosen {guard : Option Expr → Eval Bool} {cases : List Case} {default : Option Stmt}
    {k : Option Stmt → Eval α} (hg : ∀ ls g s, Case.mk ls g s ∈ cases → P (guard g))
    (hk : ∀ ls g s, Case.mk ls g s ∈ cases → P (k (some s))) (hd : P (k default)) :
    P (chosen guard v cases default >>= k) := by
  unfold Eval.chosen
  rw [bind_assoc]
  refine hc.firstOpen (fun ls g s h => hg ls g s (mem_of_mem_candidates h)) (fun ls g s h => ?_) ?_
  · rw [pure_bind]
    exact hk ls g s (mem_of_mem_candidates h)
  · rw [pure_bind]
    exact hd

/-! ### Statements -/

/-- The value that an assignment stores. -/
theorem assigned (op : Option BinOp) (v old : Value) : P (match op with
    | none => Pure.pure v
    | some op => do Eval.sized h (← Eval.ofExcept (Value.update op old v))) := by
  cases op with
  | none => exact hc.pure _
  | some op => exact hc.bind (hc.ofExcept _) fun w => hc.sized _

/-- A round of a loop over items, with what it says first. -/
theorem counted {name : String} {counter : Option String} {body : Eval Value} (v : Value) (i : Nat)
    (hn : ¬hidden name) (hcounter : ∀ c ∈ counter, ¬hidden c) (hbody : P body) :
    P (Eval.round (Eval.inScope do
      match counter with
      | some c => Eval.declare c false (.int i)
      | none => Pure.pure ()
      Eval.declare name false v
      body)) := by
  refine hc.round (hc.inScope ?_)
  have hrest : P (do Eval.declare name false v; body) := hc.bind (hc.declare _ _ hn) fun _ => hbody
  cases counter with
  | none => exact hrest
  | some c => exact hc.bind (hc.declare _ _ (hcounter c rfl)) fun _ => hrest

end

/-! ## Evaluation -/

/-- With some fuel, what mentions no hidden name has the property. -/
structure Evaluation (hidden : String → Prop) (P : ∀ {α : Type}, Eval α → Prop) (h : Host)
    (fuel : Nat) : Prop where
  expr : ∀ e : Expr, (∀ x, hidden x → e.mentions x = false) → P (expr h fuel e)
  place : ∀ l : Link, (∀ x, hidden x → l.mentions x = false) → P (place h fuel l)
  stmt : ∀ s : Stmt, (∀ x, hidden x → s.mentions x = false) → P (stmt h fuel s)

theorem or_eq_false {p q : String → Bool} : (∀ x, hidden x → (p x || q x) = false) ↔
    (∀ x, hidden x → p x = false) ∧ ∀ x, hidden x → q x = false := by
  simp only [Bool.or_eq_false_iff, imp_and, forall_and]

theorem beq_eq_false {y : String} : (∀ x, hidden x → (y == x) = false) ↔ ¬hidden y := by
  refine ⟨fun hm hy => by simpa using hm y hy, fun hy x hx => beq_eq_false_iff_ne.2 ?_⟩
  rintro rfl
  exact hy hx

theorem some_beq_eq_false {o : Option String} :
    (∀ x, hidden x → (o == some x) = false) ↔ ∀ y ∈ o, ¬hidden y := by
  refine ⟨fun hm y hy hh => ?_, fun ho x hx => beq_eq_false_iff_ne.2 ?_⟩
  · simpa [Option.mem_def.1 hy] using hm y hh
  · rintro rfl
    exact ho x rfl hx

namespace Evaluation

variable {fuel : Nat}

theorem zero (hc : Compositional hidden P Over) : Evaluation hidden P h 0 where
  expr _ _ := by
    unfold Eval.expr
    exact hc.fail _
  place _ _ := by
    unfold Eval.place
    exact hc.fail _
  stmt _ _ := by
    unfold Eval.stmt
    exact hc.fail _

section
variable (hi : Evaluation hidden P h fuel) (hc : Compositional hidden P Over)
include hi hc

theorem exprs {es : List Expr} (hm : ∀ x, hidden x → exprsMention x es = false) :
    P (es.mapM (Eval.expr h fuel)) :=
  hc.mapM fun e he => hi.expr e fun x hx => exprsMention_iff.1 (hm x hx) e he

theorem links {ls : List Link} (hm : ∀ x, hidden x → linksMention x ls = false) :
    P (ls.mapM (Eval.place h fuel)) :=
  hc.mapM fun l hl => hi.place l fun x hx => linksMention_iff.1 (hm x hx) l hl

theorem stmts {ss : List Stmt} (hm : ∀ x, hidden x → stmtsMention x ss = false) :
    P (ss.foldlM (fun _ s => Eval.stmt h fuel s) Value.unit) :=
  hc.foldlM (fun _ s hs => hi.stmt s fun x hx => stmtsMention_iff.1 (hm x hx) s hs) _

theorem block {body : List Stmt} (hm : ∀ x, hidden x → stmtsMention x body = false) :
    P (Eval.inScope (body.foldlM (fun _ s => Eval.stmt h fuel s) Value.unit)) :=
  hc.inScope (hi.stmts hc hm)

theorem place_succ (l : Link) (hm : ∀ x, hidden x → l.mentions x = false) :
    P (Eval.place h (fuel + 1) l) := by
  cases l with
  | property n g =>
    simp only [Eval.place]
    exact hc.pure _
  | item e g =>
    simp only [Link.mentions] at hm
    simp only [Eval.place]
    exact hc.bind (hi.expr e hm) fun v => hc.pure _
  | method n args g =>
    simp only [Link.mentions] at hm
    simp only [Eval.place]
    exact hc.bind (hi.exprs hc hm) fun vs => hc.pure _

/-- A variable at the head of a chain is set when what the chain comes to changes it. -/
theorem chain {base : Expr} {links : List Link}
    (hm : ∀ x, hidden x → (Expr.chain base links).mentions x = false) :
    P (Eval.expr h (fuel + 1) (.chain base links)) := by
  simp only [Expr.mentions, or_eq_false] at hm
  simp only [Eval.expr]
  refine hc.ticked (hc.bind (hi.links hc hm.2) fun ps => ?_)
  split
  · simp only [Expr.mentions, beq_eq_false] at hm
    refine hc.slot hm.1 fun before s hs => ?_
    cases hconstant : s.constant with
    | true =>
      -- what becomes of the variable is nothing: a constant stays, whatever is called on it
      refine hc.toOver before (hc.bindOf (hc.follow (hc.method fuel) _ _)
        (Yields.follow (fun _ _ _ => .method) ps) fun r hr => ?_)
      rw [hr]
      exact hc.pure _
    | false =>
      refine hc.overBind (hc.toOver before (hc.follow (hc.method fuel) _ _)) fun r => ?_
      split
      · exact hc.overBind (hc.toOver before (hc.sized _)) fun w =>
          hc.overBind (hc.store w hm.1 hs hconstant) fun _ => hc.overPure before _
      · exact hc.overPure before _
  · refine hc.bind (hi.expr _ hm.1) fun v => hc.bind (hc.follow (hc.method fuel) _ _) fun r => ?_
    split
    · exact hc.bind (hc.receiver _) fun _ => hc.pure _
    · exact hc.pure _
  · exact hc.bind (hi.expr _ hm.1) fun v => hc.bind (hc.follow (hc.method fuel) _ _) fun r =>
      hc.pure _

/-- A built-in function may change the variable that is its first argument. -/
theorem named {name : String} {args : List Expr}
    (hm : ∀ x, hidden x → (Expr.call name args).mentions x = false) :
    P (Eval.expr h (fuel + 1) (.call name args)) := by
  simp only [Expr.mentions] at hm
  simp only [Eval.expr]
  refine hc.ticked (hc.bind (hi.exprs hc hm) fun vs => ?_)
  split
  · exact hc.reserved ‹_›
  · split
    · exact hc.bind (hc.call _ _ _ _) fun r => hc.pure _
    · refine hc.bind (hc.builtin _ _) fun r => ?_
      split
      · rename_i y v hy _
        obtain ⟨es, rfl⟩ : ∃ es, args = .var y :: es := by
          cases args with
          | nil => cases hy
          | cons e es =>
            cases hy
            exact ⟨es, rfl⟩
        simp only [exprsMention, Expr.mentions, or_eq_false, beq_eq_false] at hm
        refine hc.slot hm.1 fun before s hs => ?_
        cases hconstant : s.constant with
        | true => exact hc.overPure before _
        | false => exact hc.overBind (hc.store v hm.1 hs hconstant) fun _ => hc.overPure before _
      · exact hc.pure _

theorem expr_succ (e : Expr) (hm : ∀ x, hidden x → e.mentions x = false) :
    P (Eval.expr h (fuel + 1) e) := by
  cases e with
  | lit v =>
    simp only [Eval.expr]
    exact hc.ticked (hc.pure v)
  | var y =>
    simp only [Expr.mentions, beq_eq_false] at hm
    simp only [Eval.expr]
    exact hc.ticked (hc.slot hm fun before s _ => hc.overPure before _)
  | this =>
    simp only [Eval.expr]
    refine hc.ticked (hc.reads (fun m m' halike => ?_) fun m => ?_)
    · rw [halike.2.1]
    · split
      · exact hc.pure _
      · exact hc.fail _
  | text parts | list parts =>
    simp only [Expr.mentions] at hm
    simp only [Eval.expr]
    exact hc.ticked (hc.bind (hi.exprs hc hm) fun vs => hc.sized _)
  | map fields =>
    simp only [Expr.mentions] at hm
    simp only [Eval.expr]
    refine hc.ticked (hc.bind (hc.mapM fun f hf => ?_) fun vs => hc.sized _)
    exact hc.bind (hi.expr _ fun x hx => fieldsMention_iff.1 (hm x hx) f hf) fun v => hc.pure _
  | chain base links => exact hi.chain hc hm
  | call name args => exact hi.named hc hm
  | unary op e =>
    simp only [Expr.mentions] at hm
    simp only [Eval.expr]
    exact hc.ticked (hc.bind (hi.expr e hm) fun v => hc.ofExcept _)
  | binary op l r =>
    simp only [Expr.mentions, or_eq_false] at hm
    simp only [Eval.expr]
    exact hc.ticked (hc.bind (hi.expr l hm.1) fun a => hc.bind (hi.expr r hm.2) fun b =>
      hc.bind (hc.ofExcept _) fun v => hc.sized _)
  | and l r =>
    simp only [Expr.mentions, or_eq_false] at hm
    simp only [Eval.expr]
    refine hc.ticked (hc.bind (hi.expr l hm.1) fun a => hc.bind (hc.truth _) fun b => ?_)
    split
    · exact hc.bind (hi.expr r hm.2) fun v => hc.bind (hc.truth _) fun c => hc.pure _
    · exact hc.pure _
  | or l r =>
    simp only [Expr.mentions, or_eq_false] at hm
    simp only [Eval.expr]
    refine hc.ticked (hc.bind (hi.expr l hm.1) fun a => hc.bind (hc.truth _) fun b => ?_)
    split
    · exact hc.pure _
    · exact hc.bind (hi.expr r hm.2) fun v => hc.bind (hc.truth _) fun c => hc.pure _
  | orElse l r =>
    simp only [Expr.mentions, or_eq_false] at hm
    simp only [Eval.expr]
    refine hc.ticked (hc.bind (hi.expr l hm.1) fun a => ?_)
    split
    · exact hi.expr r hm.2
    · exact hc.pure _
  | isIn negated l r =>
    simp only [Expr.mentions, or_eq_false] at hm
    simp only [Eval.expr]
    exact hc.ticked (hc.bind (hi.expr l hm.1) fun a => hc.bind (hi.expr r hm.2) fun b =>
      hc.bind (hc.ofExcept _) fun v => hc.pure _)
  | range l r closed =>
    simp only [Expr.mentions, or_eq_false] at hm
    simp only [Eval.expr]
    refine hc.ticked (hc.bind (hi.expr l hm.1) fun a => hc.bind (hi.expr r hm.2) fun b => ?_)
    split
    · exact hc.pure _
    · exact hc.ofExcept _
  | run s =>
    simp only [Expr.mentions] at hm
    simp only [Eval.expr]
    exact hc.ticked (hi.stmt s hm)

/-- The value of an expression that may be there. -/
theorem value {e : Option Expr} (hm : ∀ x, hidden x → optionMentions x e = false) :
    P (match e with
      | some e => Eval.expr h fuel e
      | none => Pure.pure Value.unit) := by
  cases e with
  | none => exact hc.pure _
  | some e => exact hi.expr e hm

/-- What is assigned is worked out between the look at a variable and the setting of it, so all of
this goes by the variables of that look. -/
theorem assign {target e : Expr} {op : Option BinOp}
    (hm : ∀ x, hidden x → (target.mentions x || e.mentions x) = false) :
    P (Eval.stmt h (fuel + 1) (.assign target op e)) := by
  rw [or_eq_false] at hm
  simp only [Eval.stmt]
  refine hc.ticked (hc.bind (hi.expr e hm.2) fun v => ?_)
  have hnew (old : Value) := hc.assigned (h := h) op v old
  split
  · simp only [Expr.mentions, beq_eq_false] at hm
    refine hc.slot hm.1 fun before s hs => ?_
    cases hconstant : s.constant with
    | true => exact hc.toOver before (hc.bind (hc.fail _) fun _ => hc.pure _)
    | false =>
      exact hc.overBind (hc.toOver before (hnew _)) fun w =>
        hc.overBind (hc.store w hm.1 hs hconstant) fun _ => hc.overPure before _
  · exact hc.bind (hi.expr _ hm.1) fun old => hc.bind (hnew _) fun w =>
      hc.bind (hc.receiver _) fun _ => hc.pure _
  · simp only [Expr.mentions, or_eq_false, beq_eq_false] at hm
    refine hc.bind (hi.links hc hm.1.2) fun ps => hc.slot hm.1.1 fun before s hs => ?_
    cases hconstant : s.constant with
    | true => exact hc.toOver before (hc.bind (hc.fail _) fun _ => hc.pure _)
    | false =>
      exact hc.overBind (hc.toOver before (hc.update (hc.method fuel) hnew _ _)) fun u =>
        hc.overBind (hc.toOver before (hc.sized _)) fun w =>
          hc.overBind (hc.store w hm.1.1 hs hconstant) fun _ => hc.overPure before _
  · simp only [Expr.mentions, or_eq_false] at hm
    exact hc.bind (hi.links hc hm.1.2) fun ps => hc.bind (hi.expr .this fun _ _ => rfl) fun old =>
      hc.bind (hc.update (hc.method fuel) hnew _ _) fun u => hc.bind (hc.sized _) fun w =>
        hc.bind (hc.receiver _) fun _ => hc.pure _
  · exact hc.bind (hc.fail _) fun _ => hc.pure _

theorem stmt_succ (s : Stmt) (hm : ∀ x, hidden x → s.mentions x = false) :
    P (Eval.stmt h (fuel + 1) s) := by
  cases s with
  | expr e =>
    simp only [Stmt.mentions] at hm
    simp only [Eval.stmt]
    exact hc.ticked (hi.expr e hm)
  | declare y constant e =>
    simp only [Stmt.mentions, or_eq_false, beq_eq_false] at hm
    simp only [Eval.stmt]
    exact hc.ticked (hc.bind (hi.value hc hm.2) fun v =>
      hc.bind (hc.declare _ _ hm.1) fun _ => hc.pure _)
  | leave e | give e =>
    simp only [Stmt.mentions] at hm
    simp only [Eval.stmt]
    exact hc.ticked (hc.bind (hi.value hc hm) fun v => hc.throw _)
  | throw e =>
    simp only [Stmt.mentions] at hm
    simp only [Eval.stmt]
    exact hc.ticked (hc.bind (hi.value hc hm) fun v => hc.fail _)
  | assign target op e =>
    simp only [Stmt.mentions] at hm
    exact hi.assign hc hm
  | block body =>
    simp only [Stmt.mentions] at hm
    simp only [Eval.stmt]
    exact hc.ticked (hi.block hc hm)
  | branch c yes no =>
    simp only [Stmt.mentions, or_eq_false] at hm
    simp only [Eval.stmt]
    refine hc.ticked (hc.bind (hi.expr c hm.1.1) fun v => hc.bind (hc.truth _) fun b => ?_)
    split
    · exact hi.block hc hm.1.2
    · exact hi.block hc hm.2
  | choose subject cases default =>
    simp only [Stmt.mentions, or_eq_false] at hm
    simp only [Eval.stmt]
    have hcase {ls : List CaseLabel} {g : Option Expr} {s : Stmt} (hmem : Case.mk ls g s ∈ cases) :
        (∀ x, hidden x → optionMentions x g = false) ∧ ∀ x, hidden x → s.mentions x = false := by
      simpa only [Case.mentions, or_eq_false] using
        fun x hx => casesMention_iff.1 (hm.1.2 x hx) _ hmem
    refine hc.ticked (hc.bind (hi.expr subject hm.1.1) fun v => ?_)
    refine hc.chosen (fun ls g s hmem => ?_) (fun ls g s hmem => hi.stmt s (hcase hmem).2) ?_
    · cases g with
      | none => exact hc.pure _
      | some g => exact hc.bind (hi.expr g (hcase hmem).1) fun v => hc.truth _
    · cases default with
      | none => exact hc.pure _
      | some s => exact hi.stmt s hm.2
  | loop c body =>
    simp only [Stmt.mentions, or_eq_false] at hm
    have hround (b : Bool) : P (if b then Eval.round (Eval.inScope (body.foldlM
        (fun _ s => Eval.stmt h fuel s) Value.unit)) else Pure.pure (some Value.unit)) := by
      split
      · exact hc.round (hi.block hc hm.2)
      · exact hc.pure _
    cases c with
    | none =>
      simp only [Eval.stmt]
      exact hc.ticked (hc.repeated (hc.ticked (hc.bind (hc.pure _) hround)) _)
    | some c =>
      simp only [Eval.stmt]
      exact hc.ticked (hc.repeated (hc.bind (hi.expr c hm.1) fun v =>
        hc.bind (hc.truth _) hround) _)
  | after body c negated =>
    simp only [Stmt.mentions, or_eq_false] at hm
    simp only [Eval.stmt]
    refine hc.ticked (hc.repeated (hc.bind (hc.round (hi.block hc hm.1)) fun o => ?_) _)
    split
    · exact hc.pure _
    · refine hc.bind (hi.expr c hm.2) fun v => hc.bind (hc.truth _) fun b => ?_
      split <;> exact hc.pure _
  | each name counter source body =>
    simp only [Stmt.mentions, or_eq_false, beq_eq_false, some_beq_eq_false] at hm
    simp only [Eval.stmt]
    refine hc.ticked (hc.bind (hi.expr source hm.1.2) fun v => ?_)
    have hround (u : Value) (i : Nat) := hc.counted u i hm.1.1.1 hm.1.1.2 (hi.block hc hm.2)
    split
    · split
      · exact hc.pure _
      · exact hc.overItems hround _ _
    · split
      · exact hc.pure _
      · exact hc.overItems hround _ _
    · split
      · exact hc.pure _
      · exact hc.overCount (fun i => hround _ i) _ _
    · exact hc.fail _
  | next =>
    simp only [Eval.stmt]
    exact hc.ticked (hc.throw _)
  | attempt body caught handler =>
    simp only [Stmt.mentions, or_eq_false, some_beq_eq_false] at hm
    simp only [Eval.stmt]
    refine hc.ticked (hc.handled (hi.block hc hm.1.1) fun f => hc.inScope ?_)
    cases caught with
    | none => exact hi.block hc hm.2
    | some n => exact hc.bind (hc.declare _ _ (hm.1.2 n rfl)) fun _ => hi.block hc hm.2

end

end Evaluation

/-- **All that a script does** has a compositional property, where it mentions no hidden name. -/
theorem evaluation (hc : Compositional hidden P Over) (h : Host) (fuel : Nat) :
    Evaluation hidden P h fuel := by
  induction fuel with
  | zero => exact .zero hc
  | succ fuel ih => exact ⟨ih.expr_succ hc, ih.place_succ hc, ih.stmt_succ hc⟩

end Compositional
end Eval
end Runbook.Script

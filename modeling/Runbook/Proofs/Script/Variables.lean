import Mathlib.Data.List.Forall2
import Runbook.Proofs.Script.Compositional

/-!
# Variables that a script leaves alone

A script that does not mention a variable (`Omits`) comes to the same whatever the variable holds,
and leaves it as it is (`run_withValue`). For to ignore a variable is a property that the parts of
a script pass on to the whole, as far as they do not mention it (`Eval.ignores_compositional`).

A script cannot change a constant. Whatever it does to the variables, the ones that it was given are
there at its end, below those that it has declared, and the constants among them have their values
(`Kept`, `run_keeps`). To keep them, whether it ends well or not, is passed on from the parts of a
script to the whole as well (`Eval.keeps_compositional`), for blocks and calls take their own
variables away again. A variable is set only after the innermost one of its name has been found to
be no constant; what happens in between may have declared another one over it, and then that one is
set (`Kept.replaced`).
-/

namespace Runbook.Script

/-! ## Variables that are not mentioned -/

/-- The variable with another value, if it has that name. -/
def Slot.withValue (x : String) (w : Value) (s : Slot) : Slot :=
  if s.name == x then { s with value := w } else s

/-- The machine with another value in all variables of a name. -/
def Machine.withValue (x : String) (w : Value) (m : Machine) : Machine :=
  { m with slots := m.slots.map (Slot.withValue x w) }

section
variable {x y : String} {w : Value}

@[simp] theorem Slot.name_withValue (s : Slot) : (s.withValue x w).name = s.name := by
  unfold withValue
  split <;> rfl

theorem Slot.withValue_eq {s : Slot} (h : (s.name == x) = false) : s.withValue x w = s := by
  rw [withValue, h]
  rfl

theorem find?_withValue (hy : (y == x) = false) (slots : List Slot) :
    ((slots.map (Slot.withValue x w)).find? fun s => s.name == y) =
      slots.find? fun s => s.name == y := by
  induction slots with
  | nil => rfl
  | cons s slots ih =>
    rw [List.map_cons, List.find?_cons, List.find?_cons, Slot.name_withValue, ih]
    cases hs : s.name == y with
    | false => rfl
    | true =>
      dsimp only
      rw [Slot.withValue_eq (by rw [beq_iff_eq.1 hs, hy])]

theorem replaced_withValue (hy : (y == x) = false) (v : Value) (slots : List Slot) :
    Eval.replaced y v (slots.map (Slot.withValue x w)) =
      (Eval.replaced y v slots).map (Slot.withValue x w) := by
  induction slots with
  | nil => rfl
  | cons s slots ih =>
    rw [List.map_cons, Eval.replaced, Eval.replaced, Slot.name_withValue, ih]
    cases hs : s.name == y with
    | false => rfl
    | true =>
      have hn : (s.name == x) = false := by rw [beq_iff_eq.1 hs, hy]
      rw [if_pos rfl, if_pos rfl, List.map_cons, Slot.withValue_eq hn]
      exact congrArg (· :: _) (Slot.withValue_eq (s := { s with value := v }) hn).symm

theorem Machine.alike_withValue (m : Machine) : (m.withValue x w).Alike m := by
  refine ⟨?_, rfl, rfl⟩
  simp only [withValue, List.map_map]
  exact List.map_congr_left fun s _ => Slot.name_withValue s

end

namespace Eval

variable {α β : Type} {x : String}

/-- What a computation comes to, with another value in the variables. -/
def Outcome.withValue (x : String) (w : Value) :
    EStateM.Result Signal Machine α → EStateM.Result Signal Machine α
  | .ok a m => .ok a (m.withValue x w)
  | .error e m => .error e (m.withValue x w)

/-- A computation neither reads nor changes the values of the variables of a name. -/
def Ignores (x : String) (act : Eval α) : Prop :=
  ∀ w m, act (m.withValue x w) = Outcome.withValue x w (act m)

theorem Ignores.modifies {f : Machine → Machine}
    (hf : ∀ w m, f (m.withValue x w) = (f m).withValue x w) : Ignores x (modify f) := by
  intro w m
  change EStateM.Result.ok () (f (m.withValue x w)) = .ok () ((f m).withValue x w)
  rw [hf]

theorem Ignores.bindOf {P : α → Prop} {act : Eval α} {k : α → Eval β} (ha : Ignores x act)
    (hP : Yields act P) (hk : ∀ a, P a → Ignores x (k a)) : Ignores x (act >>= k) := by
  intro w m
  rw [bind_eq, bind_eq, ha w m]
  cases hr : act m with
  | ok a t => exact hk a (hP m a t hr) w t
  | error e t => rfl

/-- To ignore a variable is passed on by all that does not look at it, set it or declare it. -/
theorem ignores_compositional (x : String) :
    Compositional (· = x) (Ignores x) fun _ => Ignores x where
  pure _ _ _ := rfl
  throw _ _ _ := rfl
  bindOf := .bindOf
  catching {_ body k} hb hk w m := by
    unfold catching
    rw [hb w m]
    cases body m with
    | ok a t => rfl
    | error e t => exact hk e w t
  reads {_ k} hk h w m := by
    change k (m.withValue x w) (m.withValue x w) = Outcome.withValue x w (k m m)
    rw [hk _ m m.alike_withValue, h]
  tick h w m := by
    simp only [tick, Machine.withValue]
    rw [apply_ite (Outcome.withValue x w), apply_ite (Outcome.withValue x w)]
    rfl
  receiver _ := .modifies fun _ _ => rfl
  inScope {_ act} ha w m := by
    simp only [inScope]
    rw [ha w m]
    cases act m <;> simp [Outcome.withValue, Machine.withValue, List.map_drop]
  framed slots r act w m := by
    simp only [framed, Machine.withValue]
    cases act { m with slots, receiver := r, depth := m.depth + 1 } <;> rfl
  declare {name} constant v hn := by
    refine .modifies fun w m => ?_
    have : Slot.withValue x w ⟨name, constant, v⟩ = ⟨name, constant, v⟩ :=
      Slot.withValue_eq (beq_eq_false_iff_ne.2 hn)
    simp only [Machine.withValue, List.map_cons, this]
  slot {_ name k} hn hk w m := by
    have hfind : ((m.withValue x w).slots.find? fun s => s.name == name) =
        m.slots.find? fun s => s.name == name :=
      find?_withValue (beq_eq_false_iff_ne.2 hn) m.slots
    rw [slot_bind_eq, slot_bind_eq, hfind]
    cases hs : m.slots.find? fun s => s.name == name with
    | some s => exact hk m.slots s hs w m
    | none => rfl
  toOver _ ha := ha
  overBind ha hk := ha.bindOf (P := fun _ => True) (fun _ _ _ _ => trivial) fun a _ => hk a
  store v hn _ _ :=
    .modifies fun _ m => congrArg (Machine.mk · _ _ _)
      (replaced_withValue (beq_eq_false_iff_ne.2 hn) v m.slots)

end Eval

/-- The text of a script does not mention a variable, outside its functions. -/
def Omits (limits : Limits) (x code : String) : Prop :=
  ∀ script, Source.parse limits.depth limits.textSize code = .ok script →
    stmtsMention x script.body = false

/-- **A script that does not mention a variable** comes to the same whatever the variable holds, and
leaves it as it is. -/
theorem run_withValue {limits : Limits} {x code : String} (hm : Omits limits x code) (now : Instant)
    (w : Value) (slots : List Slot) :
    run limits now (slots.map (Slot.withValue x w)) code =
      (run limits now slots code).map fun r => (r.1, r.2.map (Slot.withValue x w)) := by
  unfold run
  cases hp : Source.parse limits.depth limits.textSize code with
  | error d => rfl
  | ok script =>
    let h : Host := ⟨script.functions, limits, now⟩
    let m : Machine := ⟨slots, none, 0, 0⟩
    have hc := Eval.ignores_compositional x
    have hi := hc.evaluation h (8 * (code.length + 4) * (limits.calls + 2))
    have hb := hi.stmts hc (fun _ hx => hx ▸ hm script hp) w m
    simp only [Machine.withValue] at hb
    dsimp only
    rw [hb]
    cases script.body.foldlM (fun _ s => Eval.stmt h _ s) Value.unit m with
    | ok v t => rfl
    | error e t => cases e <;> rfl

/-! ## Constants -/

/-- The variable after a while: still of that name and constant or not, and a constant with its
value. -/
def Slot.Same (a b : Slot) : Prop :=
  b.name = a.name ∧ b.constant = a.constant ∧ (a.constant = true → b.value = a.value)

/-- The variables after a while: the ones from before, below others. -/
def Kept (before after : List Slot) : Prop :=
  ∃ added kept, after = added ++ kept ∧ List.Forall₂ Slot.Same before kept

section
variable {a b c : List Slot} {s : Slot} {name : String} {v : Value}

theorem Slot.Same.refl (s : Slot) : s.Same s := ⟨rfl, rfl, fun _ => rfl⟩

theorem Slot.Same.trans {s t u : Slot} (h : s.Same t) (h' : t.Same u) : s.Same u :=
  ⟨h'.1.trans h.1, h'.2.1.trans h.2.1, fun hs =>
    (h'.2.2 (h.2.1.trans hs)).trans (h.2.2 hs)⟩

theorem forall₂_same_refl (a : List Slot) : List.Forall₂ Slot.Same a a :=
  List.forall₂_same.2 fun s _ => .refl s

theorem forall₂_same_trans (h : List.Forall₂ Slot.Same a b) (h' : List.Forall₂ Slot.Same b c) :
    List.Forall₂ Slot.Same a c := by
  induction h generalizing c with
  | nil => exact h'
  | cons hs _ ih =>
    obtain ⟨u, c, hu, hc, rfl⟩ := List.forall₂_cons_left_iff.1 h'
    exact .cons (hs.trans hu) (ih hc)

/-- The innermost variable of a name is set, when it is no constant. -/
theorem forall₂_same_replaced (h : List.Forall₂ Slot.Same a b)
    (hs : a.find? (fun s => s.name == name) = some s) (hc : s.constant = false) :
    List.Forall₂ Slot.Same a (Eval.replaced name v b) := by
  induction h with
  | nil => cases hs
  | @cons t u a b htu hab ih =>
    rw [List.find?_cons] at hs
    rw [Eval.replaced, htu.1]
    cases ht : t.name == name with
    | true =>
      rw [ht] at hs
      cases hs
      rw [if_pos rfl]
      exact .cons ⟨rfl, htu.2.1, fun htrue => by simp [hc] at htrue⟩ hab
    | false =>
      rw [ht] at hs
      exact .cons htu (ih hs)

theorem replaced_append (name : String) (v : Value) (a b : List Slot) :
    Eval.replaced name v (a ++ b) = Eval.replaced name v a ++ b ∨
      Eval.replaced name v (a ++ b) = a ++ Eval.replaced name v b := by
  induction a with
  | nil => exact .inr rfl
  | cons s a ih =>
    rw [List.cons_append, Eval.replaced, Eval.replaced]
    cases s.name == name with
    | true => exact .inl rfl
    | false => exact ih.imp (congrArg (s :: ·)) (congrArg (s :: ·))

namespace Kept

theorem refl (a : List Slot) : Kept a a := ⟨[], a, rfl, forall₂_same_refl a⟩

theorem cons (s : Slot) (a : List Slot) : Kept a (s :: a) := ⟨[s], a, rfl, forall₂_same_refl a⟩

theorem trans (h : Kept a b) (h' : Kept b c) : Kept a c := by
  obtain ⟨added, kept, rfl, hkept⟩ := h
  obtain ⟨added', kept', rfl, hkept'⟩ := h'
  refine ⟨added' ++ kept'.take added.length, kept'.drop added.length, ?_, ?_⟩
  · rw [List.append_assoc, List.take_append_drop]
  · have hdrop := List.forall₂_drop added.length hkept'
    rw [List.drop_left] at hdrop
    exact forall₂_same_trans hkept hdrop

/-- Without what was declared since, the variables are as many as before. -/
theorem drop (h : Kept a b) : Kept a (b.drop (b.length - a.length)) := by
  obtain ⟨added, kept, rfl, hkept⟩ := h
  have hlength : (added ++ kept).length - a.length = added.length := by
    rw [List.length_append, hkept.length_eq, Nat.add_sub_cancel]
  rw [hlength, List.drop_left]
  exact ⟨[], kept, rfl, hkept⟩

/-- Some variable of the name of an innermost one that is kept is there. -/
theorem exists_find? (h : Kept (s :: a) b) : ∃ t, b.find? (fun t => t.name == s.name) = some t := by
  obtain ⟨added, kept, rfl, hkept⟩ := h
  obtain ⟨t, rest, hst, -, rfl⟩ := List.forall₂_cons_left_iff.1 hkept
  refine Option.isSome_iff_exists.1 (List.find?_isSome.2 ⟨t, by simp, ?_⟩)
  rw [hst.1, beq_self_eq_true]

theorem replaced (h : Kept a b) (hs : a.find? (fun s => s.name == name) = some s)
    (hc : s.constant = false) : Kept a (Eval.replaced name v b) := by
  obtain ⟨added, kept, rfl, hkept⟩ := h
  rcases replaced_append name v added kept with heq | heq
  · exact ⟨_, kept, heq, hkept⟩
  · exact ⟨added, _, heq, forall₂_same_replaced hkept hs hc⟩

end Kept
end

namespace Eval

variable {α β : Type}

/-- The machine that a computation leaves. -/
def left : EStateM.Result Signal Machine α → Machine
  | .ok _ m | .error _ m => m

/-- A computation keeps the variables. -/
def Keeps (act : Eval α) : Prop := ∀ m, Kept m.slots (left (act m)).slots

/-- A computation keeps some variables of before, wherever they are kept when it starts. -/
def KeepsOver (before : List Slot) (act : Eval α) : Prop :=
  ∀ m, Kept before m.slots → Kept before (left (act m)).slots

theorem Keeps.over {act : Eval α} (h : Keeps act) (before : List Slot) : KeepsOver before act :=
  fun m hm => hm.trans (h m)

/-- What follows goes on from where the computation ends. -/
theorem KeepsOver.bindOf {before : List Slot} {P : α → Prop} {act : Eval α} {k : α → Eval β}
    (ha : KeepsOver before act) (hP : Yields act P) (hk : ∀ a, P a → KeepsOver before (k a)) :
    KeepsOver before (act >>= k) := by
  intro m hm
  have hleft := ha m hm
  rw [bind_eq]
  cases hr : act m with
  | ok a t =>
    rw [hr] at hleft
    exact hk a (hP m a t hr) t hleft
  | error e t =>
    rw [hr] at hleft
    exact hleft

theorem Keeps.of_over {act : Eval α} (h : ∀ before, KeepsOver before act) : Keeps act :=
  fun m => h m.slots m (.refl m.slots)

/-- To keep the variables is passed on by all that a script does; what follows the look at a
variable may set it when it was no constant. -/
theorem keeps_compositional :
    Compositional (fun _ => False) Keeps fun before => KeepsOver before where
  pure _ m := .refl m.slots
  throw _ m := .refl m.slots
  bindOf ha hP hk := .of_over fun before =>
    (ha.over before).bindOf hP fun a h => (hk a h).over before
  catching {_ body k} hb hk m := by
    have hm := hb m
    unfold catching
    cases hr : body m with
    | ok a t =>
      rw [hr] at hm
      exact hm
    | error e t =>
      rw [hr] at hm
      exact hm.trans (hk e t)
  reads _ hk m := hk m m
  tick h m := by
    unfold tick
    dsimp only
    split
    · exact .refl _
    · split <;> exact .refl _
  receiver _ m := .refl m.slots
  inScope {_ act} ha m := by
    have hm := (ha m).drop
    unfold inScope
    cases hr : act m <;> rw [hr] at hm <;> exact hm
  framed slots r act m := by
    unfold framed
    cases act { m with slots, receiver := r, depth := m.depth + 1 } <;> exact .refl _
  declare constant v _ m := .cons ⟨_, constant, v⟩ m.slots
  slot {_ name k} _ hk m := by
    rw [slot_bind_eq]
    cases hs : m.slots.find? fun s => s.name == name with
    | some s => exact hk m.slots s hs m (.refl m.slots)
    | none => exact .refl m.slots
  toOver before ha := ha.over before
  overBind ha hk := ha.bindOf (P := fun _ => True) (fun _ _ _ _ => trivial) fun a _ => hk a
  store _ _ hs hconstant _ hm := hm.replaced hs hconstant

end Eval

/-- **A script cannot change a constant**: the variables that it was given are there at its end,
the constants among them with their values. -/
theorem run_keeps {limits : Limits} {now : Instant} {slots after : List Slot} {code : String}
    {v : Value} (hr : run limits now slots code = .ok (v, after)) : Kept slots after := by
  unfold run at hr
  cases hp : Source.parse limits.depth limits.textSize code with
  | error d => rw [hp] at hr; cases hr
  | ok script =>
    let h : Host := ⟨script.functions, limits, now⟩
    have hc := Eval.keeps_compositional
    have hi := hc.evaluation h (8 * (code.length + 4) * (limits.calls + 2))
    have hnone : ∀ x, False → stmtsMention x script.body = false := nofun
    have hk := hi.stmts hc hnone ⟨slots, none, 0, 0⟩
    rw [hp] at hr
    dsimp only at hr hk
    -- however the body ends, the variables returned are those of the machine that it leaves
    cases hb : script.body.foldlM (fun _ s => Eval.stmt h _ s) Value.unit ⟨slots, none, 0, 0⟩ with
    | ok u m =>
      rw [hb] at hr hk
      cases hr
      exact hk
    | error e m =>
      rw [hb] at hr hk
      cases e <;> cases hr <;> exact hk

end Runbook.Script

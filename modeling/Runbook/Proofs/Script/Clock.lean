import Runbook.Script.Eval

/-!
# Scripts that do not read the clock

Three functions without arguments tell a script the time. A script that calls none of them
(`Source.readsClock`) comes to the same at every moment (`run_eq_of_readsNoClock`): its evaluation
reaches the clock in no other way, since a method has its receiver as an argument
(`Builtin.invoke_eq`).
-/

namespace Runbook.Script

/-! ## Calls that read the clock -/

/-- The functions that tell the time. -/
def clockFunctions : List String := ["timestamp", "timestamp_ms", "now_iso"]

/-- Whether a call with a number of arguments reads the clock, where a script has functions of its
own. -/
def isClockCall (functions : List Function) (name : String) (count : Nat) : Bool :=
  count == 0 && clockFunctions.contains name &&
    !functions.any fun f => f.name == name && f.params.length == 0

mutual
/-- Whether an expression has a call that reads the clock. -/
def Expr.readsClock (fs : List Function) : Expr → Bool
  | .lit _ | .var _ | .this => false
  | .text parts => exprsReadClock fs parts
  | .list items => exprsReadClock fs items
  | .map fields => fieldsReadClock fs fields
  | .chain base links => base.readsClock fs || linksReadClock fs links
  | .call name args => isClockCall fs name args.length || exprsReadClock fs args
  | .unary _ e => e.readsClock fs
  | .binary _ l r | .and l r | .or l r | .orElse l r | .isIn _ l r | .range l r _ =>
    l.readsClock fs || r.readsClock fs
  | .run s => s.readsClock fs

/-- Whether one of some expressions has such a call. -/
def exprsReadClock (fs : List Function) : List Expr → Bool
  | [] => false
  | e :: es => e.readsClock fs || exprsReadClock fs es

/-- Whether one of the values of some fields has such a call. -/
def fieldsReadClock (fs : List Function) : List (String × Expr) → Bool
  | [] => false
  | (_, e) :: rest => e.readsClock fs || fieldsReadClock fs rest

/-- Whether an expression that may be there has such a call. -/
def optionReadsClock (fs : List Function) : Option Expr → Bool
  | none => false
  | some e => e.readsClock fs

/-- Whether a link has such a call. -/
def Link.readsClock (fs : List Function) : Link → Bool
  | .property _ _ => false
  | .item e _ => e.readsClock fs
  | .method _ args _ => exprsReadClock fs args

/-- Whether one of some links has such a call. -/
def linksReadClock (fs : List Function) : List Link → Bool
  | [] => false
  | l :: ls => l.readsClock fs || linksReadClock fs ls

/-- Whether a statement has such a call. -/
def Stmt.readsClock (fs : List Function) : Stmt → Bool
  | .expr e => e.readsClock fs
  | .declare _ _ e | .leave e | .give e | .throw e => optionReadsClock fs e
  | .assign target _ e => target.readsClock fs || e.readsClock fs
  | .block body => stmtsReadClock fs body
  | .branch c yes no => c.readsClock fs || stmtsReadClock fs yes || stmtsReadClock fs no
  | .choose subject cases default =>
    subject.readsClock fs || casesReadClock fs cases || defaultReadsClock fs default
  | .loop c body => optionReadsClock fs c || stmtsReadClock fs body
  | .after body c _ => stmtsReadClock fs body || c.readsClock fs
  | .each _ _ source body => source.readsClock fs || stmtsReadClock fs body
  | .next => false
  | .attempt body _ handler => stmtsReadClock fs body || stmtsReadClock fs handler

/-- Whether one of some statements has such a call. -/
def stmtsReadClock (fs : List Function) : List Stmt → Bool
  | [] => false
  | s :: ss => s.readsClock fs || stmtsReadClock fs ss

/-- Whether the default of a `switch` has such a call. -/
def defaultReadsClock (fs : List Function) : Option Stmt → Bool
  | none => false
  | some s => s.readsClock fs

/-- Whether a case of a `switch` has such a call. -/
def Case.readsClock (fs : List Function) : Case → Bool
  | .mk _ guard s => optionReadsClock fs guard || s.readsClock fs

/-- Whether one of some cases has such a call. -/
def casesReadClock (fs : List Function) : List Case → Bool
  | [] => false
  | c :: cs => c.readsClock fs || casesReadClock fs cs
end

/-- Whether a script has a call that reads the clock. -/
def Source.readsClock (s : Source) : Bool :=
  stmtsReadClock s.functions s.body || s.functions.any fun f => stmtsReadClock s.functions f.body

section
variable {fs : List Function}

theorem exprsReadClock_iff {es : List Expr} :
    exprsReadClock fs es = false ↔ ∀ e ∈ es, e.readsClock fs = false := by
  induction es with
  | nil => simp [exprsReadClock]
  | cons e es ih => simp [exprsReadClock, ih]

theorem fieldsReadClock_iff {fields : List (String × Expr)} :
    fieldsReadClock fs fields = false ↔ ∀ x ∈ fields, x.2.readsClock fs = false := by
  induction fields with
  | nil => simp [fieldsReadClock]
  | cons x fields ih => simp [fieldsReadClock, ih]

theorem linksReadClock_iff {ls : List Link} :
    linksReadClock fs ls = false ↔ ∀ l ∈ ls, l.readsClock fs = false := by
  induction ls with
  | nil => simp [linksReadClock]
  | cons l ls ih => simp [linksReadClock, ih]

theorem stmtsReadClock_iff {ss : List Stmt} :
    stmtsReadClock fs ss = false ↔ ∀ s ∈ ss, s.readsClock fs = false := by
  induction ss with
  | nil => simp [stmtsReadClock]
  | cons s ss ih => simp [stmtsReadClock, ih]

theorem casesReadClock_iff {cs : List Case} :
    casesReadClock fs cs = false ↔ ∀ c ∈ cs, c.readsClock fs = false := by
  induction cs with
  | nil => simp [casesReadClock]
  | cons c cs ih => simp [casesReadClock, ih]

end

/-! ## Built-in functions -/

/-- A built-in function that does not tell the time comes to the same at every moment. -/
theorem Builtin.invoke_eq {name : String} {args : List Value} (now now' : Instant)
    (hc : args = [] → name ∉ clockFunctions) :
    Builtin.invoke now' name args = Builtin.invoke now name args := by
  have hg : general now' name args = general now name args := by
    match args with
    | [] =>
      have := hc rfl
      simp only [clockFunctions, List.mem_cons, List.not_mem_nil, or_false, not_or] at this
      unfold general
      dsimp only
      split
      · exact absurd rfl this.1
      · exact absurd rfl this.2.1
      · exact absurd rfl this.2.2
      · rfl
      · rfl
      · simp
    | [_] | [_, _] | _ :: _ :: _ :: _ => rfl
  unfold Builtin.invoke Builtin.answer
  rw [hg]

/-! ## Evaluation -/

namespace Eval

variable {α β : Type} {h : Host} {now : Instant}

theorem function?_now {name : String} {count : Nat} :
    function? { h with now } name count = function? h name count := rfl

theorem reserved?_now {name : String} {args : List Value} :
    reserved? { h with now } name args = reserved? h name args := rfl

theorem builtin_eq {name : String} {args : List Value} (hc : args = [] → name ∉ clockFunctions) :
    builtin { h with now } name args = builtin h name args := by
  unfold builtin
  rw [Builtin.invoke_eq h.now now hc]
  rfl

theorem mapM_congr {f g : α → Eval β} {xs : List α} (hfg : ∀ x ∈ xs, f x = g x) :
    xs.mapM f = xs.mapM g := by
  induction xs with
  | nil => rfl
  | cons x xs ih =>
    rw [List.mapM_cons, List.mapM_cons, hfg x List.mem_cons_self,
      ih fun y hy => hfg y (List.mem_cons_of_mem _ hy)]

theorem foldlM_congr {f g : β → α → Eval β} {xs : List α} {b : β}
    (hfg : ∀ b, ∀ x ∈ xs, f b x = g b x) : xs.foldlM f b = xs.foldlM g b := by
  induction xs generalizing b with
  | nil => rfl
  | cons x xs ih =>
    rw [List.foldlM_cons, List.foldlM_cons, hfg b x List.mem_cons_self]
    exact congrArg _ (funext fun c => ih fun b y hy => hfg b y (List.mem_cons_of_mem _ hy))

theorem mapM_bind_congr {γ : Type} {f : α → Eval β} {xs : List α} {k k' : List β → Eval γ}
    (hk : ∀ ys, (ys = [] → xs = []) → k ys = k' ys) : xs.mapM f >>= k = xs.mapM f >>= k' := by
  cases xs with
  | nil =>
    rw [List.mapM_nil, pure_bind, pure_bind]
    exact hk [] fun _ => rfl
  | cons x xs =>
    simp only [List.mapM_cons, bind_assoc, pure_bind]
    refine congrArg (f x >>= ·) (funext fun y => ?_)
    exact congrArg (List.mapM f xs >>= ·) (funext fun ys => hk (y :: ys) nofun)

section
variable {γ : Type} {guard guard' : Option Expr → Eval Bool} {k k' : Option Stmt → Eval γ}
  {cases : List Case} {default : Option Stmt} {v : Value}

theorem firstOpen_congr (hg : ∀ ls g s, Case.mk ls g s ∈ cases → guard g = guard' g)
    (hk : ∀ ls g s, Case.mk ls g s ∈ cases → k (some s) = k' (some s)) (hn : k none = k' none) :
    firstOpen guard cases >>= k = firstOpen guard' cases >>= k' := by
  induction cases with
  | nil =>
    rw [firstOpen, firstOpen, pure_bind, pure_bind]
    exact hn
  | cons c cases ih =>
    obtain ⟨ls, g, s⟩ := c
    rw [firstOpen, firstOpen, hg ls g s List.mem_cons_self, bind_assoc, bind_assoc]
    refine congrArg (guard' g >>= ·) (funext fun b => ?_)
    cases b with
    | true => simpa using hk ls g s List.mem_cons_self
    | false =>
      exact ih (fun ls g s hm => hg ls g s (List.mem_cons_of_mem _ hm))
        fun ls g s hm => hk ls g s (List.mem_cons_of_mem _ hm)

theorem chosen_congr (hg : ∀ ls g s, Case.mk ls g s ∈ cases → guard g = guard' g)
    (hk : ∀ ls g s, Case.mk ls g s ∈ cases → k (some s) = k' (some s))
    (hd : k default = k' default) :
    chosen guard v cases default >>= k = chosen guard' v cases default >>= k' := by
  unfold chosen
  rw [bind_assoc, bind_assoc]
  refine firstOpen_congr (fun ls g s h => hg ls g s (mem_of_mem_candidates h)) (fun ls g s h => ?_) ?_
  · rw [pure_bind, pure_bind]
    exact hk ls g s (mem_of_mem_candidates h)
  · rw [pure_bind, pure_bind]
    exact hd

end

/-- A function that a script does not have of its own tells no time when its call does not. -/
theorem not_clock {name : String} (hc : isClockCall h.functions name 0 = false)
    (hf : function? h name 0 = none) : name ∉ clockFunctions := by
  intro hm
  have hn : (h.functions.any fun f => f.name == name && f.params.length == 0) = false := by
    rw [List.any_eq_false]
    simpa [function?] using hf
  simp [isClockCall, hm, hn] at hc

/-- With some fuel, what does not read the clock comes to the same at another moment. -/
structure AgreesAt (h : Host) (now : Instant) (fuel : Nat) : Prop where
  expr : ∀ e : Expr, e.readsClock h.functions = false →
    expr { h with now } fuel e = expr h fuel e
  place : ∀ l : Link, l.readsClock h.functions = false →
    place { h with now } fuel l = place h fuel l
  call : ∀ f ∈ h.functions, call { h with now } fuel f = call h fuel f
  method : method { h with now } fuel = method h fuel
  stmt : ∀ s : Stmt, s.readsClock h.functions = false →
    stmt { h with now } fuel s = stmt h fuel s

namespace AgreesAt

variable {fuel : Nat}

theorem zero : AgreesAt h now 0 where
  expr _ _ := by simp only [Eval.expr]
  place _ _ := by simp only [Eval.place]
  call _ _ := by funext args receiver; simp only [Eval.call]
  method := by funext fixed v name args; simp only [Eval.method]
  stmt _ _ := by simp only [Eval.stmt]

theorem exprs (ha : AgreesAt h now fuel) {es : List Expr}
    (hc : exprsReadClock h.functions es = false) :
    es.mapM (Eval.expr { h with now } fuel) = es.mapM (Eval.expr h fuel) :=
  mapM_congr fun e he => ha.expr e (exprsReadClock_iff.1 hc e he)

theorem links (ha : AgreesAt h now fuel) {ls : List Link}
    (hc : linksReadClock h.functions ls = false) :
    ls.mapM (Eval.place { h with now } fuel) = ls.mapM (Eval.place h fuel) :=
  mapM_congr fun l hl => ha.place l (linksReadClock_iff.1 hc l hl)

theorem stmts (ha : AgreesAt h now fuel) {ss : List Stmt}
    (hc : stmtsReadClock h.functions ss = false) :
    ss.foldlM (fun _ s => Eval.stmt { h with now } fuel s) Value.unit =
      ss.foldlM (fun _ s => Eval.stmt h fuel s) Value.unit :=
  foldlM_congr fun _ s hs => ha.stmt s (stmtsReadClock_iff.1 hc s hs)

theorem place_succ (ha : AgreesAt h now fuel) (l : Link) (hc : l.readsClock h.functions = false) :
    Eval.place { h with now } (fuel + 1) l = Eval.place h (fuel + 1) l := by
  cases l with
  | property n g => simp only [Eval.place]
  | item e g =>
    simp only [Eval.place]
    rw [ha.expr e (by simpa [Link.readsClock] using hc)]
  | method n args g =>
    simp only [Eval.place]
    rw [ha.exprs (by simpa [Link.readsClock] using hc)]

theorem expr_succ (ha : AgreesAt h now fuel) (e : Expr) (hc : e.readsClock h.functions = false) :
    Eval.expr { h with now } (fuel + 1) e = Eval.expr h (fuel + 1) e := by
  cases e with
  | lit _ | var _ | this => simp only [Eval.expr]; rfl
  | text items | list items =>
    simp only [Expr.readsClock] at hc
    simp only [Eval.expr, ha.exprs hc]
    rfl
  | map fields =>
    simp only [Expr.readsClock] at hc
    simp only [Eval.expr]
    rw [mapM_congr fun x hx => by rw [ha.expr _ (fieldsReadClock_iff.1 hc x hx)]]
    rfl
  | chain base links =>
    simp only [Expr.readsClock, Bool.or_eq_false_iff] at hc
    simp only [Eval.expr, ha.links hc.2, ha.method]
    cases base with
    | var _ => rfl
    | _ => simp only [ha.expr _ hc.1]; rfl
  | call name args =>
    simp only [Expr.readsClock, Bool.or_eq_false_iff] at hc
    simp only [Eval.expr, ha.exprs hc.2]
    refine congrArg (tick h >>= ·) (funext fun _ => mapM_bind_congr fun vs hvs => ?_)
    rw [reserved?_now, function?_now]
    cases reserved? h name vs with
    | some act => rfl
    | none =>
      dsimp only
      cases hf : function? h name vs.length with
      | some f =>
        dsimp only
        rw [ha.call f (List.mem_of_find?_eq_some hf)]
      | none =>
        have hn : vs = [] → name ∉ clockFunctions := by
          rintro rfl
          rw [hvs rfl] at hc
          exact not_clock hc.1 hf
        dsimp only
        rw [builtin_eq hn]
  | unary op e =>
    simp only [Expr.readsClock] at hc
    simp only [Eval.expr, ha.expr _ hc]
    rfl
  | binary _ l r | and l r | or l r | orElse l r | isIn _ l r | range l r _ =>
    simp only [Expr.readsClock, Bool.or_eq_false_iff] at hc
    simp only [Eval.expr, ha.expr _ hc.1, ha.expr _ hc.2]
    rfl
  | run s =>
    simp only [Expr.readsClock] at hc
    simp only [Eval.expr, ha.stmt _ hc]
    rfl

theorem call_succ (ha : AgreesAt h now fuel)
    (hf : ∀ f ∈ h.functions, stmtsReadClock h.functions f.body = false) (f : Function)
    (hm : f ∈ h.functions) :
    Eval.call { h with now } (fuel + 1) f = Eval.call h (fuel + 1) f := by
  funext args receiver
  simp only [Eval.call, ha.stmts (hf f hm)]
  rfl

theorem method_succ (ha : AgreesAt h now fuel) :
    Eval.method { h with now } (fuel + 1) = Eval.method h (fuel + 1) := by
  funext fixed v name args
  simp only [Eval.method]
  rw [function?_now]
  cases hf : function? h name args.length with
  | some f =>
    dsimp only
    rw [ha.call f (List.mem_of_find?_eq_some hf)]
  | none =>
    dsimp only
    rw [builtin_eq fun he : v :: args = [] => nomatch he]

theorem stmt_succ (ha : AgreesAt h now fuel) (s : Stmt) (hc : s.readsClock h.functions = false) :
    Eval.stmt { h with now } (fuel + 1) s = Eval.stmt h (fuel + 1) s := by
  cases s with
  | expr e =>
    simp only [Stmt.readsClock] at hc
    simp only [Eval.stmt, ha.expr _ hc]
    rfl
  | declare _ _ e | leave e | give e | throw e =>
    cases e with
    | none => simp only [Eval.stmt]; rfl
    | some e =>
      simp only [Stmt.readsClock, optionReadsClock] at hc
      simp only [Eval.stmt, ha.expr _ hc]
      rfl
  | assign target op e =>
    simp only [Stmt.readsClock, Bool.or_eq_false_iff] at hc
    simp only [Eval.stmt, ha.expr _ hc.2, ha.method]
    cases target with
    | this =>
      simp only [ha.expr _ hc.1]
      rfl
    | chain base links =>
      simp only [Expr.readsClock, Bool.or_eq_false_iff] at hc
      cases base with
      | var x =>
        simp only [ha.links hc.1.2]
        rfl
      | this =>
        simp only [ha.links hc.1.2, ha.expr _ hc.1.1]
        rfl
      | _ => rfl
    | _ => rfl
  | block body =>
    simp only [Stmt.readsClock] at hc
    simp only [Eval.stmt, ha.stmts hc]
    rfl
  | branch c yes no =>
    simp only [Stmt.readsClock, Bool.or_eq_false_iff] at hc
    simp only [Eval.stmt, ha.expr _ hc.1.1, ha.stmts hc.1.2, ha.stmts hc.2]
    rfl
  | choose subject cases default =>
    simp only [Stmt.readsClock, Bool.or_eq_false_iff] at hc
    simp only [Eval.stmt, ha.expr _ hc.1.1]
    refine congrArg (tick h >>= ·) (funext fun _ => congrArg (Eval.expr h fuel subject >>= ·)
      (funext fun v => ?_))
    refine chosen_congr (fun ls g s hm => ?_) (fun ls g s hm => ?_) ?_
    · have := casesReadClock_iff.1 hc.1.2 _ hm
      simp only [Case.readsClock, Bool.or_eq_false_iff] at this
      cases g with
      | none => rfl
      | some g =>
        simp only [optionReadsClock] at this
        simp only [ha.expr _ this.1]
    · have := casesReadClock_iff.1 hc.1.2 _ hm
      simp only [Case.readsClock, Bool.or_eq_false_iff] at this
      exact ha.stmt _ this.2
    · cases default with
      | none => rfl
      | some s => exact ha.stmt _ hc.2
  | loop c body =>
    simp only [Stmt.readsClock, Bool.or_eq_false_iff] at hc
    cases c with
    | none => simp only [Eval.stmt, ha.stmts hc.2]; rfl
    | some c =>
      simp only [optionReadsClock] at hc
      simp only [Eval.stmt, ha.expr _ hc.1, ha.stmts hc.2]
      rfl
  | after body c negated =>
    simp only [Stmt.readsClock, Bool.or_eq_false_iff] at hc
    simp only [Eval.stmt, ha.stmts hc.1, ha.expr _ hc.2]
    rfl
  | each name counter source body =>
    simp only [Stmt.readsClock, Bool.or_eq_false_iff] at hc
    simp only [Eval.stmt, ha.expr _ hc.1, ha.stmts hc.2]
    rfl
  | next => simp only [Eval.stmt]; rfl
  | attempt body caught handler =>
    simp only [Stmt.readsClock, Bool.or_eq_false_iff] at hc
    simp only [Eval.stmt, ha.stmts hc.1, ha.stmts hc.2]
    rfl

end AgreesAt

/-- What a script comes to that does not read the clock is the same at every moment. -/
theorem agreesAt (now : Instant) (hf : ∀ f ∈ h.functions, stmtsReadClock h.functions f.body = false)
    (fuel : Nat) : AgreesAt h now fuel := by
  induction fuel with
  | zero => exact .zero
  | succ fuel ih =>
    exact ⟨ih.expr_succ, ih.place_succ, ih.call_succ hf, ih.method_succ, ih.stmt_succ⟩

end Eval

/-- The text of a script has no call that reads the clock. -/
def ReadsNoClock (limits : Limits) (code : String) : Prop :=
  ∀ script, Source.parse limits.depth limits.textSize code = .ok script → script.readsClock = false

/-- **A script that does not read the clock** comes to the same at every moment. -/
theorem run_eq_of_readsNoClock {limits : Limits} {code : String} (hc : ReadsNoClock limits code)
    (now now' : Instant) (slots : List Slot) :
    run limits now' slots code = run limits now slots code := by
  unfold run
  cases hp : Source.parse limits.depth limits.textSize code with
  | error d => rfl
  | ok script =>
    have hs := hc script hp
    simp only [Source.readsClock, Bool.or_eq_false_iff, List.any_eq_false] at hs
    have hf (f : Function) (hm : f ∈ script.functions) :
        stmtsReadClock script.functions f.body = false := by simpa using hs.2 f hm
    let h : Host := ⟨script.functions, limits, now⟩
    have hb := (Eval.agreesAt (h := h) now' hf
      (8 * (code.length + 4) * (limits.calls + 2))).stmts hs.1
    dsimp only at hb ⊢
    rw [hb]

end Runbook.Script

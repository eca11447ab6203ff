import Runbook.Proofs.Table
import Runbook.Template.Resolver

/-!
# What a template reads

A template reads its context at the names that it mentions and nowhere else. Contexts that differ
at most under a name (`Env.AlikeBut`) give the same value to an expression that does not mention it
(`Expr.eval_eq`), and the same text to a template (`Node.render_alike`). So parameters without the
name resolve to the same over both (`resolveParams_eq`).
-/

namespace Runbook.Template

/-! ## Names -/

mutual
/-- Whether an expression mentions a name. -/
def Expr.mentions (x : String) : Expr → Bool
  | .none | .bool _ | .int _ | .float _ | .str _ => false
  | .name y => y == x
  | .attr e _ | .neg e | .not e => e.mentions x
  | .item e i => e.mentions x || i.mentions x
  | .slice e a b c =>
    e.mentions x || optionMentions x a || optionMentions x b || optionMentions x c
  | .bin _ a b | .and a b | .or a b => a.mentions x || b.mentions x
  | .ifElse c t f => c.mentions x || t.mentions x || optionMentions x f
  | .filter e _ args | .test e _ args | .method e _ args | .apply e args =>
    e.mentions x || exprsMention x args
  | .call y args => y == x || exprsMention x args
  | .list es => exprsMention x es
  | .map es => entriesMention x es

/-- Whether one of some expressions mentions it. -/
def exprsMention (x : String) : List Expr → Bool
  | [] => false
  | e :: es => e.mentions x || exprsMention x es

/-- Whether an expression that may be there mentions it. -/
def optionMentions (x : String) : Option Expr → Bool
  | none => false
  | some e => e.mentions x

/-- Whether one of the entries of a map mentions it. -/
def entriesMention (x : String) : List (Expr × Expr) → Bool
  | [] => false
  | (k, v) :: es => k.mentions x || v.mentions x || entriesMention x es
end

mutual
/-- Whether a piece of a template mentions a name. -/
def Node.mentions (x : String) : Node → Bool
  | .text _ => false
  | .output e | .assign _ e => e.mentions x
  | .cond e yes no => e.mentions x || nodesMention x yes || nodesMention x no
  | .loop _ e keep body empty =>
    e.mentions x || optionMentions x keep || nodesMention x body || nodesMention x empty
  | .capture _ body => nodesMention x body

/-- Whether one of some pieces mentions it. -/
def nodesMention (x : String) : List Node → Bool
  | [] => false
  | n :: ns => n.mentions x || nodesMention x ns
end

/-! ## Environments -/

variable {x : String} {env env' : Env}

/-- The environments differ at most in what their contexts have under the name `x`. -/
structure Env.AlikeBut (x : String) (env env' : Env) : Prop where
  frames : env'.frames = env.frames
  context : ∀ y, y ≠ x → Value.attribute? env'.context y = Value.attribute? env.context y

namespace Env.AlikeBut

theorem lookup?_eq (h : AlikeBut x env env') {y : String} (hy : (y == x) = false) :
    env'.lookup? y = env.lookup? y := by
  rw [lookup?, lookup?, h.frames, h.context y (by simpa using hy)]

theorem bind (h : AlikeBut x env env') (y : String) (v : Value) :
    AlikeBut x (env.bind y v) (env'.bind y v) := by
  obtain ⟨frames, context⟩ := env
  obtain ⟨frames', context'⟩ := env'
  obtain rfl : frames' = frames := h.frames
  cases frames' <;> exact ⟨rfl, h.context⟩

theorem push (h : AlikeBut x env env') : AlikeBut x env.push env'.push :=
  ⟨congrArg ([] :: ·) h.frames, h.context⟩

end Env.AlikeBut

/-! ## Expressions -/

mutual
/-- **An expression** that does not mention the name has the same value. -/
theorem Expr.eval_eq (h : env.AlikeBut x env') : ∀ e : Expr, e.mentions x = false →
    e.eval env' = e.eval env
  | .none, _ | .bool _, _ | .int _, _ | .float _, _ | .str _, _ => by simp only [Expr.eval]
  | .name y, hm => by
    simp only [Expr.mentions] at hm
    simp only [Expr.eval, h.lookup?_eq hm]
  | .attr e _, hm | .neg e, hm | .not e, hm => by
    simp only [Expr.mentions] at hm
    simp only [Expr.eval, Expr.eval_eq h e hm]
  | .item e i, hm => by
    simp only [Expr.mentions, Bool.or_eq_false_iff] at hm
    simp only [Expr.eval, Expr.eval_eq h e hm.1, Expr.eval_eq h i hm.2]
  | .slice e a b c, hm => by
    simp only [Expr.mentions, Bool.or_eq_false_iff] at hm
    simp only [Expr.eval, Expr.eval_eq h e hm.1.1.1, evalOption_eq h a hm.1.1.2,
      evalOption_eq h b hm.1.2, evalOption_eq h c hm.2]
  | .bin _ a b, hm | .and a b, hm | .or a b, hm => by
    simp only [Expr.mentions, Bool.or_eq_false_iff] at hm
    simp only [Expr.eval, Expr.eval_eq h a hm.1, Expr.eval_eq h b hm.2]
  | .ifElse c t f, hm => by
    simp only [Expr.mentions, Bool.or_eq_false_iff] at hm
    simp only [Expr.eval, Expr.eval_eq h c hm.1.1, Expr.eval_eq h t hm.1.2, evalElse_eq h f hm.2]
  | .filter e _ args, hm | .test e _ args, hm | .method e _ args, hm | .apply e args, hm => by
    simp only [Expr.mentions, Bool.or_eq_false_iff] at hm
    simp only [Expr.eval, Expr.eval_eq h e hm.1, evalList_eq h args hm.2]
  | .call y args, hm => by
    simp only [Expr.mentions, Bool.or_eq_false_iff] at hm
    simp only [Expr.eval, h.lookup?_eq hm.1, evalList_eq h args hm.2]
  | .list es, hm => by
    simp only [Expr.mentions] at hm
    simp only [Expr.eval, evalList_eq h es hm]
  | .map es, hm => by
    simp only [Expr.mentions] at hm
    simp only [Expr.eval, evalEntries_eq h es hm]

theorem evalList_eq (h : env.AlikeBut x env') : ∀ es : List Expr, exprsMention x es = false →
    evalList env' es = evalList env es
  | [], _ => by simp only [evalList]
  | e :: es, hm => by
    simp only [exprsMention, Bool.or_eq_false_iff] at hm
    simp only [evalList, Expr.eval_eq h e hm.1, evalList_eq h es hm.2]

theorem evalOption_eq (h : env.AlikeBut x env') : ∀ e : Option Expr, optionMentions x e = false →
    evalOption env' e = evalOption env e
  | none, _ => by simp only [evalOption]
  | some e, hm => by
    simp only [optionMentions] at hm
    simp only [evalOption, Expr.eval_eq h e hm]

theorem evalElse_eq (h : env.AlikeBut x env') : ∀ e : Option Expr, optionMentions x e = false →
    evalElse env' e = evalElse env e
  | none, _ => by simp only [evalElse]
  | some e, hm => by
    simp only [optionMentions] at hm
    simp only [evalElse, Expr.eval_eq h e hm]

theorem evalEntries_eq (h : env.AlikeBut x env') : ∀ es : List (Expr × Expr),
    entriesMention x es = false → ∀ {before}, evalEntries env' before es = evalEntries env before es
  | [], _, _ => by simp only [evalEntries]
  | (k, v) :: es, hm, _ => by
    simp only [entriesMention, Bool.or_eq_false_iff] at hm
    simp only [evalEntries, Expr.eval_eq h k hm.1.1, Expr.eval_eq h v hm.1.2,
      evalEntries_eq h es hm.2]
end

/-! ## Templates -/

/-- Two computations fail alike, or they come to values that belong together. -/
inductive Alike {α : Type} (R : α → α → Prop) : Except Fault α → Except Fault α → Prop
  | error (f : Fault) : Alike R (.error f) (.error f)
  | ok {a b : α} : R a b → Alike R (.ok a) (.ok b)

mutual
theorem Target.bind_alike {env env' : Env} (h : env.AlikeBut x env') (v : Value) :
    ∀ t : Target, Alike (Env.AlikeBut x) (t.bind env v) (t.bind env' v)
  | .name y => by
    unfold Target.bind
    exact .ok (h.bind y v)
  | .tuple parts => by
    unfold Target.bind
    split
    · split
      · exact bindAll_alike h _ parts
      · exact .error _
    · exact .error _

theorem bindAll_alike {env env' : Env} (h : env.AlikeBut x env') (vs : List Value) :
    ∀ ts : List Target, Alike (Env.AlikeBut x) (bindAll env vs ts) (bindAll env' vs ts)
  | [] => by
    simp only [bindAll]
    exact .ok h
  | t :: ts => by
    cases vs with
    | nil =>
      simp only [bindAll]
      exact .ok h
    | cons v vs =>
      have ht := Target.bind_alike h v t
      simp only [bindAll]
      generalize t.bind env v = r, t.bind env' v = r' at ht
      cases ht with
      | error f => exact .error f
      | ok h => exact bindAll_alike h vs ts
end

/-- Rounds whose bodies give the same text. -/
theorem rounds_eq {env env' : Env} (h : env.AlikeBut x env')
    {body body' : Env → Value → Value → Except Fault String}
    (hb : ∀ env env', env.AlikeBut x env' → ∀ info v, body' env' info v = body env info v)
    {depth index : Nat} {before : Option Value} {out : String} {vs : List Value} :
    rounds env' body' depth index before out vs = rounds env body depth index before out vs := by
  induction vs generalizing index before out with
  | nil => simp only [rounds]
  | cons v vs ih => simp only [rounds, hb _ _ h.push, ih]

/-- The environments after two renderings are alike and the texts are the same. -/
def Rendered (x : String) (a b : Env × String) : Prop := a.1.AlikeBut x b.1 ∧ a.2 = b.2

theorem Alike.text_eq {r r' : Except Fault (Env × String)} (h : Alike (Rendered x) r r') :
    r'.map Prod.snd = r.map Prod.snd := by
  cases h with
  | error f => rfl
  | ok h => exact congrArg Except.ok h.2.symm

mutual
/-- **A piece** that does not mention the name gives the same text. -/
theorem Node.render_alike : ∀ n : Node, n.mentions x = false → ∀ {depth : Nat} {env env' : Env},
    env.AlikeBut x env' → Alike (Rendered x) (n.render depth env) (n.render depth env')
  | .text s, _, depth, env, env', h => by
    simp only [Node.render]
    exact .ok ⟨h, rfl⟩
  | .output e, hm, depth, env, env', h => by
    simp only [Node.mentions] at hm
    simp only [Node.render, Expr.eval_eq h e hm]
    split
    · exact .error _
    · split
      · exact .error _
      · exact .ok ⟨h, rfl⟩
  | .cond e yes no, hm, depth, env, env', h => by
    simp only [Node.mentions, Bool.or_eq_false_iff] at hm
    simp only [Node.render, Expr.eval_eq h e hm.1.1]
    split
    · exact .error _
    · split
      · exact .error _
      · exact renderAll_alike yes hm.1.2 h
      · exact renderAll_alike no hm.2 h
  | .loop target e keep body empty, hm, depth, env, env', h => by
    simp only [Node.mentions, Bool.or_eq_false_iff] at hm
    simp only [Node.render, Expr.eval_eq h e hm.1.1.1]
    split
    · exact .error _
    · split
      · exact .error _
      · -- the condition of the loop keeps the same items
        generalize hk : kept _ _ = ks, hk' : kept _ _ = ks'
        obtain rfl : ks' = ks := by
          rw [← hk, ← hk']
          refine congrArg (kept · _) (funext fun v => ?_)
          cases keep with
          | none => rfl
          | some c =>
            have ht := Target.bind_alike h.push v target
            dsimp only
            generalize target.bind env.push v = r, target.bind env'.push v = r' at ht ⊢
            cases ht with
            | error f => rfl
            | ok h =>
              dsimp only
              rw [Expr.eval_eq h c hm.1.1.2]
        clear hk hk'
        split
        · exact .error _
        · exact renderAll_alike empty hm.2 h
        · -- and each of them gives the same text
          generalize hr : rounds env _ _ _ _ _ _ = out, hr' : rounds env' _ _ _ _ _ _ = out'
          obtain rfl : out' = out := by
            rw [← hr, ← hr']
            refine rounds_eq h fun env env' h info v => ?_
            have ht := Target.bind_alike (h.bind "loop" info) v target
            generalize target.bind (env.bind "loop" info) v = r,
              target.bind (env'.bind "loop" info) v = r' at ht ⊢
            cases ht with
            | error f => rfl
            | ok h => exact (renderAll_alike body hm.1.2 h).text_eq
          split
          · exact .error _
          · exact .ok ⟨h, rfl⟩
  | .assign target e, hm, depth, env, env', h => by
    simp only [Node.mentions] at hm
    simp only [Node.render, Expr.eval_eq h e hm]
    split
    · exact .error _
    · have ht := Target.bind_alike h ‹_› target
      generalize target.bind env _ = r, target.bind env' _ = r' at ht ⊢
      cases ht with
      | error f => exact .error f
      | ok h => exact .ok ⟨h, rfl⟩
  | .capture target body, hm, depth, env, env', h => by
    simp only [Node.mentions] at hm
    have hb : Alike (Rendered x) (renderAll depth env.push "" body)
        (renderAll depth env'.push "" body) := renderAll_alike body hm h.push
    simp only [Node.render]
    generalize renderAll depth env.push "" body = r, renderAll depth env'.push "" body = r' at hb ⊢
    cases hb with
    | error f => exact .error f
    | @ok a b hr =>
      obtain ⟨_, s⟩ := a
      obtain ⟨_, _⟩ := b
      obtain rfl : s = _ := hr.2
      have ht := Target.bind_alike h (.str s) target
      dsimp only
      generalize target.bind env (.str s) = r, target.bind env' (.str s) = r' at ht ⊢
      cases ht with
      | error f => exact .error f
      | ok h => exact .ok ⟨h, rfl⟩

theorem renderAll_alike : ∀ ns : List Node, nodesMention x ns = false → ∀ {depth : Nat}
    {out : String} {env env' : Env}, env.AlikeBut x env' →
    Alike (Rendered x) (renderAll depth env out ns) (renderAll depth env' out ns)
  | [], _, depth, out, env, env', h => by
    simp only [renderAll]
    exact .ok ⟨h, rfl⟩
  | n :: ns, hm, depth, out, env, env', h => by
    simp only [nodesMention, Bool.or_eq_false_iff] at hm
    have hn : Alike (Rendered x) (n.render depth env) (n.render depth env') :=
      n.render_alike hm.1 h
    simp only [renderAll]
    generalize n.render depth env = r, n.render depth env' = r' at hn ⊢
    cases hn with
    | error f => exact .error f
    | @ok a b hr =>
      obtain ⟨env, s⟩ := a
      obtain ⟨env', s'⟩ := b
      obtain ⟨h, rfl⟩ : env.AlikeBut x env' ∧ s = s' := hr
      exact renderAll_alike ns hm.2 h
end

/-! ## Contexts -/

theorem Value.order_str (a b : String) : Value.order (.str a) (.str b) = compare a b := by
  simp only [Value.order, Value.pair?]

theorem Value.lookupEntry_ofJsonFields (y : String) (fs : Fields) :
    lookupEntry (.str y) (ofJsonFields fs) = (Table.get? y fs).map ofJson := by
  induction fs with
  | nil => rfl
  | cons e fs ih =>
    obtain ⟨k, v⟩ := e
    simp only [ofJsonFields, lookupEntry, Table.get?, order_str, beq_iff_eq, ih,
      Std.compare_eq_iff_eq]
    by_cases hk : k = y
    · rw [if_pos hk.symm, if_pos hk]
      rfl
    · rw [if_neg (Ne.symm hk), if_neg hk]

/-- Trees that differ at most under a name. -/
theorem Env.AlikeBut.ofContext {fs fs' : Fields} (h : Table.SameBut x fs fs') :
    AlikeBut x (ofContext (.obj fs)) (ofContext (.obj fs')) where
  frames := rfl
  context y hy := by
    simp only [Env.ofContext, Value.ofJson, Value.attribute?, Value.lookupEntry_ofJsonFields,
      h.get?_eq hy]

/-! ## Parameters -/

/-- Whether a text mentions a name in its templates. -/
def textMentions (x s : String) : Bool :=
  isTemplate s &&
    match singleExpression? s with
    | some expr =>
      match Expr.parse expr with
      | .ok e => e.mentions x
      | .error _ => false
    | none =>
      match Node.parse s with
      | .ok nodes => nodesMention x nodes
      | .error _ => false

mutual
/-- Whether one of the texts in a value does. -/
def valueMentions (x : String) : Json → Bool
  | .str s => textMentions x s
  | .arr xs => itemsMention x xs
  | .obj fs => fieldsMention x fs
  | _ => false

/-- Whether one of the texts in the items of a sequence does. -/
def itemsMention (x : String) : List Json → Bool
  | [] => false
  | v :: vs => valueMentions x v || itemsMention x vs

/-- Whether one of the texts in the values of an object does. -/
def fieldsMention (x : String) : List (String × Json) → Bool
  | [] => false
  | (_, v) :: fs => valueMentions x v || fieldsMention x fs
end

variable {c c' : Json}

theorem resolveText_eq (h : (Env.ofContext c).AlikeBut x (Env.ofContext c')) {s : String}
    (hm : textMentions x s = false) : resolveText s c' = resolveText s c := by
  unfold resolveText
  unfold textMentions at hm
  cases ht : isTemplate s with
  | false => rfl
  | true =>
    rw [ht, Bool.true_and] at hm
    rw [if_pos rfl, if_pos rfl]
    cases hs : singleExpression? s with
    | some expr =>
      rw [hs] at hm
      dsimp only at hm ⊢
      unfold lookup
      cases hp : Expr.parse expr with
      | error e => rfl
      | ok e =>
        rw [hp] at hm
        dsimp only at hm ⊢
        rw [Expr.eval_eq h e hm]
    | none =>
      rw [hs] at hm
      dsimp only at hm ⊢
      unfold render
      cases hp : Node.parse s with
      | error e => rfl
      | ok nodes =>
        rw [hp] at hm
        have hr : Alike (Rendered x) (renderAll 0 (Env.ofContext c) "" nodes)
            (renderAll 0 (Env.ofContext c') "" nodes) := renderAll_alike nodes hm h
        dsimp only
        generalize renderAll 0 (Env.ofContext c) "" nodes = r,
          renderAll 0 (Env.ofContext c') "" nodes = r' at hr ⊢
        cases hr with
        | error f => rfl
        | ok hr => exact congrArg (Except.ok <| Json.str ·) hr.2.symm

mutual
/-- **A value** that does not mention the name resolves to the same. -/
theorem resolve_eq (h : (Env.ofContext c).AlikeBut x (Env.ofContext c')) :
    ∀ v : Json, valueMentions x v = false → resolve c' v = resolve c v
  | .null, _ | .bool _, _ | .int _, _ | .double _, _ => by simp only [resolve]
  | .str s, hm => by
    simp only [valueMentions] at hm
    simp only [resolve, resolveText_eq h hm]
  | .arr xs, hm => by
    simp only [valueMentions] at hm
    simp only [resolve, resolveItems_eq h xs hm]
  | .obj fs, hm => by
    simp only [valueMentions] at hm
    simp only [resolve, resolveFields_eq h fs hm]

theorem resolveItems_eq (h : (Env.ofContext c).AlikeBut x (Env.ofContext c')) :
    ∀ vs : List Json, itemsMention x vs = false → resolveItems c' vs = resolveItems c vs
  | [], _ => by simp only [resolveItems]
  | v :: vs, hm => by
    simp only [itemsMention, Bool.or_eq_false_iff] at hm
    simp only [resolveItems, resolve_eq h v hm.1, resolveItems_eq h vs hm.2]

theorem resolveFields_eq (h : (Env.ofContext c).AlikeBut x (Env.ofContext c')) :
    ∀ fs : List (String × Json), fieldsMention x fs = false →
      resolveFields c' fs = resolveFields c fs
  | [], _ => by simp only [resolveFields]
  | (k, v) :: fs, hm => by
    simp only [fieldsMention, Bool.or_eq_false_iff] at hm
    simp only [resolveFields, resolve_eq h v hm.1, resolveFields_eq h fs hm.2]
end

end Runbook.Template

import Runbook.Proofs.Json.Decode
import Runbook.Proofs.Json.Integral
import Runbook.Proofs.Json.Place
import Runbook.Proofs.Json.Record
import Runbook.Proofs.Template.Inline

/-!
# Parameters are resolved in one pass

Resolving goes through a value once. Each part of it is resolved on its own, or left when its key is
exempt, and stands in the same place of the result (`resolveExempt_child?`, `resolveExempt_at?`).
Where a value does not resolve, the first part of it that does not gives the error
(`FirstPart`), and so, all the way down, does the first template
(`firstFault_of_error`); there is only one such template (`FirstFault.unique`).
`resolveParams_single_pass` says so of the parameters of an invocation, and that what comes in from
the scope is not resolved once more.
-/

namespace Runbook

namespace Json.Proper

variable {xs : List Json} {v w : Json} {step : Json.Step}

theorem item (h : ItemsProper xs) : ∀ x ∈ xs, x.Proper := by
  induction xs with
  | nil => nofun
  | cons x xs ih =>
    rw [ItemsProper] at h
    exact List.forall_mem_cons.2 ⟨h.1, ih h.2⟩

theorem child? (h : v.Proper) (hw : v.child? step = some w) : w.Proper := by
  obtain ⟨fs, k, rfl, rfl, hw⟩ | ⟨xs, i, rfl, rfl, hw⟩ := child?_eq_some.1 hw
  · exact h.get? hw
  · rw [Json.Proper] at h
    exact item h w (List.mem_of_getElem? hw)

end Json.Proper

namespace Template

open Json

variable {context v w r : Json} {raw : List String} {step : Json.Step} {p q : List Json.Step}
  {e : StepFault} {s t : String}

/-! ## Resolving under exempt keys -/

/-- What becomes of a part one step down: under an exempt key it is left as it is. -/
def resolvePart (context : Json) (raw : List String) : Json.Step → Json → Except StepFault Json
  | .key k, w => if raw.contains k then .ok w else resolve context w
  | .item _, w => resolve context w

/-- A field, resolved unless its key is exempt. -/
def resolveEntry (context : Json) (raw : List String) (entry : String × Json) :
    Except StepFault (String × Json) :=
  (resolvePart context raw (.key entry.1) entry.2).map fun u => (entry.1, u)

/-- The value resolved over a context; at its top the fields under exempt keys are left. -/
def resolveExempt (context : Json) (raw : List String) : Json → Except StepFault Json
  | .obj fs => (fs.mapM (resolveEntry context raw)).map .obj
  | v => resolve context v

theorem resolveParams_exempt (params : Json) (scope : Scope) (raw : List String) :
    resolveParams params scope raw = resolveExempt scope.templateContext raw params := by
  cases params with
  | obj fs =>
    have hmapM {f : String × Json → Except StepFault (String × Json)}
        (hf : ∀ k v, f (k, v) = resolveEntry scope.templateContext raw (k, v)) :
        (fs.mapM f >>= fun r => .ok (.obj r)) =
          resolveExempt scope.templateContext raw (.obj fs) := by
      obtain rfl : f = resolveEntry scope.templateContext raw := funext fun e => hf e.1 e.2
      rw [resolveExempt]
      cases fs.mapM (resolveEntry scope.templateContext raw) <;> rfl
    refine hmapM fun k v => ?_
    simp only [resolveEntry, resolvePart]
    split
    · rfl
    · cases resolve scope.templateContext v <;> rfl
  | _ => rfl

theorem resolveItems_mapM (xs : List Json) :
    resolveItems context xs = xs.mapM (resolve context) := by
  induction xs with
  | nil => rfl
  | cons x xs ih => rw [resolveItems, List.mapM_cons, ih]

theorem resolveExempt_items (xs : List Json) :
    resolveExempt context raw (.arr xs) = (xs.mapM (resolve context)).map .arr := by
  rw [← resolveItems_mapM]
  rfl

theorem resolveFields_mapM (fs : Fields) :
    resolveFields context fs = fs.mapM (resolveEntry context []) := by
  induction fs with
  | nil => rfl
  | cons entry fs ih =>
    obtain ⟨k, v⟩ := entry
    rw [resolveFields, List.mapM_cons, ih]
    change _ = ((resolve context v).map fun u => (k, u)) >>= _
    cases resolve context v <;> rfl

/-- Below the top no key is exempt. -/
theorem resolve_exempt_nil (v : Json) : resolve context v = resolveExempt context [] v := by
  cases v with
  | obj fs => rw [resolve, resolveExempt, resolveFields_mapM]
  | _ => rfl

/-- A place below an exempt key. -/
def Exempt (raw : List String) : List Json.Step → Prop
  | .key k :: _ => k ∈ raw
  | _ => False

theorem not_exempt_nil : ¬Exempt [] p := by
  cases p with
  | nil => exact id
  | cons step p => cases step <;> simp [Exempt]

theorem resolvePart_exempt (h : Exempt raw (step :: p)) :
    resolvePart context raw step w = .ok w := by
  cases step with
  | key k => exact if_pos (List.contains_iff_mem.2 h)
  | item i => exact h.elim

theorem resolvePart_not_exempt (h : ¬Exempt raw (step :: p)) :
    resolvePart context raw step w = resolve context w := by
  cases step with
  | key k => exact if_neg fun hk => h (List.contains_iff_mem.1 hk)
  | item i => rfl

theorem not_exempt_of_error (h : resolvePart context raw step w = .error e) :
    ¬Exempt raw (step :: p) := by
  intro hexempt
  rw [resolvePart_exempt hexempt] at h
  cases h

/-! ## One step down -/

theorem get?_of_forall₂ {fs gs : Fields} {k : String}
    (h : List.Forall₂ (fun a b => resolveEntry context raw a = .ok b) fs gs)
    (hw : Table.get? k fs = some w) :
    ∃ u, resolvePart context raw (.key k) w = .ok u ∧ Table.get? k gs = some u := by
  induction h with
  | nil => cases hw
  | @cons a b fs gs hab h ih =>
    obtain ⟨l, v⟩ := a
    obtain ⟨u, hu, rfl⟩ := map_eq_ok.1 hab
    simp only [Table.get?] at hw ⊢
    split at hw
    · rename_i hk
      cases hw
      exact ⟨u, hk ▸ hu, if_pos hk⟩
    · rename_i hk
      rw [if_neg hk]
      exact ih hw

theorem resolveExempt_arr {xs : List Json} (h : resolveExempt context raw (.arr xs) = .ok r) :
    ∃ ys, r = .arr ys ∧ List.Forall₂ (fun x y => resolve context x = .ok y) xs ys := by
  rw [resolveExempt_items] at h
  obtain ⟨ys, hys, rfl⟩ := map_eq_ok.1 h
  exact ⟨ys, rfl, mapM_eq_ok_iff.1 hys⟩

theorem resolveExempt_obj {fs : Fields} (h : resolveExempt context raw (.obj fs) = .ok r) :
    ∃ gs, r = .obj gs ∧ List.Forall₂ (fun a b => resolveEntry context raw a = .ok b) fs gs := by
  obtain ⟨gs, hgs, rfl⟩ := map_eq_ok.1 h
  exact ⟨gs, rfl, mapM_eq_ok_iff.1 hgs⟩

/-- Where a value resolves, each of its parts does, and the result has it in the same place. -/
theorem resolveExempt_child? (h : resolveExempt context raw v = .ok r)
    (hw : v.child? step = some w) :
    ∃ u, resolvePart context raw step w = .ok u ∧ r.child? step = some u := by
  obtain ⟨fs, k, rfl, rfl, hw⟩ | ⟨xs, i, rfl, rfl, hw⟩ := child?_eq_some.1 hw
  · obtain ⟨gs, rfl, hgs⟩ := resolveExempt_obj h
    exact get?_of_forall₂ hgs hw
  · obtain ⟨ys, rfl, hys⟩ := resolveExempt_arr h
    obtain ⟨hi, rfl⟩ := List.getElem?_eq_some_iff.1 hw
    have hi' : i < ys.length := hys.length_eq ▸ hi
    exact ⟨ys[i], hys.get hi hi', List.getElem?_eq_getElem hi'⟩

/-- The first part one step down that does not resolve gives the error. -/
def FirstPart (context v : Json) (raw : List String) (e : StepFault) : Prop :=
  ∃ step w, v.child? step = some w ∧ resolvePart context raw step w = .error e ∧
    ∀ step' w', v.child? step' = some w' → step'.Less step →
      ∃ u, resolvePart context raw step' w' = .ok u

theorem firstPart_items {xs : List Json} (h : resolveExempt context raw (.arr xs) = .error e) :
    FirstPart context (.arr xs) raw e := by
  rw [resolveExempt_items] at h
  obtain ⟨before, x, after, rfl, hbefore, he⟩ := exists_first_of_mapM_eq_error (map_eq_error.1 h)
  refine ⟨.item before.length, x, by simp [child?], he, fun step' w' hw' hless => ?_⟩
  cases hless with
  | @item i _ hi =>
    refine hbefore w' (List.mem_of_getElem? (i := i) ?_)
    rwa [child?, List.getElem?_append_left hi] at hw'

/-- The keys of a proper value are in order, so a smaller key stands before. -/
theorem firstPart_fields {fs : Fields} (hv : (Json.obj fs).Proper)
    (h : resolveExempt context raw (.obj fs) = .error e) : FirstPart context (.obj fs) raw e := by
  obtain ⟨before, ⟨k, x⟩, after, rfl, hbefore, he⟩ :=
    exists_first_of_mapM_eq_error (map_eq_error.1 h)
  have hsorted : Table.Sorted (before ++ (k, x) :: after) := (Json.Proper.obj_iff.1 hv).1
  obtain ⟨-, hafter, -⟩ := List.pairwise_append.1 hsorted
  have hnodup : ((before ++ (k, x) :: after).map (·.1)).Nodup :=
    List.pairwise_map.2 (hsorted.imp fun hlt => Std.ne_of_lt hlt)
  refine ⟨.key k, x, Table.get?_of_mem hnodup (by simp), map_eq_error.1 he,
    fun step' w' hw' hless => ?_⟩
  cases hless with
  | @key l _ hl =>
    have hmem := Table.mem_of_get? (show Table.get? l _ = some w' from hw')
    rcases List.mem_append.1 hmem with hmem | hmem
    · obtain ⟨z, hz⟩ := hbefore _ hmem
      obtain ⟨u, hu, -⟩ := map_eq_ok.1 hz
      exact ⟨u, hu⟩
    · rcases List.mem_cons.1 hmem with heq | hmem
      · cases heq
        exact absurd hl Std.lt_irrefl
      · have hkl : k < l := (List.pairwise_cons.1 hafter).1 _ hmem
        exact absurd (Std.lt_trans hl hkl) Std.lt_irrefl

/-! ## All the way down -/

theorem resolve_at? (h : resolve context v = .ok r) (hw : v.at? p = some w) :
    ∃ u, resolve context w = .ok u ∧ r.at? p = some u := by
  induction p generalizing v r with
  | nil =>
    obtain rfl : v = w := by simpa using hw
    exact ⟨r, h, at?_nil⟩
  | cons step p ih =>
    obtain ⟨x, hx, hw⟩ := at?_cons_eq_some.1 hw
    rw [resolve_exempt_nil] at h
    obtain ⟨y, hy, hr⟩ := resolveExempt_child? h hx
    rw [resolvePart_not_exempt (p := p) not_exempt_nil] at hy
    obtain ⟨u, hu, hy⟩ := ih hy hw
    exact ⟨u, hu, at?_cons_eq_some.2 ⟨y, hr, hy⟩⟩

/-- What is below an exempt key stays as it is. -/
theorem resolveExempt_at?_exempt (h : resolveExempt context raw v = .ok r) (hp : Exempt raw p)
    (hw : v.at? p = some w) : r.at? p = some w := by
  cases p with
  | nil => exact hp.elim
  | cons step p =>
    obtain ⟨x, hx, hw⟩ := at?_cons_eq_some.1 hw
    obtain ⟨y, hy, hr⟩ := resolveExempt_child? h hx
    rw [resolvePart_exempt hp] at hy
    cases hy
    exact at?_cons_eq_some.2 ⟨x, hr, hw⟩

/-- Everything else is resolved on its own; only at the top there may be exempt keys. -/
theorem resolveExempt_at? (h : resolveExempt context raw v = .ok r) (hp : ¬Exempt raw p)
    (hw : v.at? p = some w) :
    ∃ u raw', resolveExempt context raw' w = .ok u ∧ r.at? p = some u := by
  cases p with
  | nil =>
    obtain rfl : v = w := by simpa using hw
    exact ⟨r, raw, h, at?_nil⟩
  | cons step p =>
    obtain ⟨x, hx, hw⟩ := at?_cons_eq_some.1 hw
    obtain ⟨y, hy, hr⟩ := resolveExempt_child? h hx
    rw [resolvePart_not_exempt hp] at hy
    obtain ⟨u, hu, hy⟩ := resolve_at? hy hw
    exact ⟨u, [], by rwa [← resolve_exempt_nil], at?_cons_eq_some.2 ⟨y, hr, hy⟩⟩

/-- A template at a place that is not exempt. -/
structure TemplateAt (v : Json) (raw : List String) (p : List Json.Step) (s : String) : Prop where
  here : v.at? p = some (.str s)
  template : isTemplate s = true
  resolved : ¬Exempt raw p

theorem TemplateAt.exists_resolved (ht : TemplateAt v raw p s)
    (h : resolveExempt context raw v = .ok r) :
    ∃ u, resolveText s context = .ok u ∧ r.at? p = some u := by
  obtain ⟨u, raw', hu, hr⟩ := resolveExempt_at? h ht.resolved ht.here
  exact ⟨u, hu, hr⟩

/-- The first template that does not resolve gives the error. -/
def FirstFault (context v : Json) (raw : List String) (e : StepFault) : Prop :=
  ∃ p s, TemplateAt v raw p s ∧ resolveText s context = .error e ∧
    ∀ q t, TemplateAt v raw q t → Before q p → ∃ u, resolveText t context = .ok u

theorem isTemplate_of_error (h : resolveText s context = .error e) : isTemplate s = true := by
  by_contra hs
  rw [resolveText, if_neg hs] at h
  cases h

theorem firstFault_str (h : resolveText s context = .error e) :
    FirstFault context (.str s) raw e :=
  ⟨[], s, ⟨at?_nil, isTemplate_of_error h, id⟩, h, fun _ _ _ hbefore =>
    absurd hbefore not_before_nil⟩

/-- The first template that does not resolve in the first part that does not is the first in the
whole value. -/
theorem FirstFault.child (h : FirstFault context w [] e) (hw : v.child? step = some w)
    (hstep : ¬Exempt raw [step])
    (hbefore : ∀ step' w', v.child? step' = some w' → step'.Less step →
      ∃ u, resolvePart context raw step' w' = .ok u) : FirstFault context v raw e := by
  obtain ⟨p, s, ht, he, hfirst⟩ := h
  have hresolved (q : List Json.Step) : ¬Exempt raw (step :: q) := by
    cases step <;> exact hstep
  refine ⟨step :: p, s, ⟨at?_cons_eq_some.2 ⟨w, hw, ht.here⟩, ht.template, hresolved p⟩, he, ?_⟩
  intro q t ht' hlt
  cases hlt with
  | @head step' _ q _ hless =>
    obtain ⟨w', hw', hthere⟩ := at?_cons_eq_some.1 ht'.here
    obtain ⟨u, hu⟩ := hbefore step' w' hw' hless
    rw [resolvePart_not_exempt ht'.resolved] at hu
    obtain ⟨x, hx, -⟩ := resolve_at? hu hthere
    exact ⟨x, hx⟩
  | @tail _ q _ hq =>
    obtain ⟨w', hw', hthere⟩ := at?_cons_eq_some.1 ht'.here
    obtain rfl : w = w' := Option.some_inj.1 (hw.symm.trans hw')
    exact hfirst q t ⟨hthere, ht'.template, not_exempt_nil⟩ hq

/-- So the first template of a value is the first one of its first part that does not resolve. -/
theorem FirstPart.firstFault (h : FirstPart context v raw e) (hv : v.Proper)
    (ih : ∀ step w, v.child? step = some w → w.Proper → resolveExempt context [] w = .error e →
      FirstFault context w [] e) : FirstFault context v raw e := by
  obtain ⟨step, w, hw, he, hbefore⟩ := h
  have hstep : ¬Exempt raw [step] := not_exempt_of_error he
  rw [resolvePart_not_exempt hstep, resolve_exempt_nil] at he
  exact (ih step w hw (hv.child? hw) he).child hw hstep hbefore

theorem firstFault_of_error (hv : v.Proper) (h : resolveExempt context raw v = .error e) :
    FirstFault context v raw e := by
  induction v using Json.induction generalizing raw e with
  | str s => exact firstFault_str h
  | arr xs ih =>
    refine (firstPart_items h).firstFault hv fun step w hw hproper he => ih w ?_ hproper he
    obtain ⟨_, _, hne, -⟩ | ⟨_, i, heq, -, hi⟩ := child?_eq_some.1 hw
    · cases hne
    · cases heq
      exact List.mem_of_getElem? hi
  | obj fs ih =>
    refine (firstPart_fields hv h).firstFault hv fun step w hw hproper he => ?_
    obtain ⟨_, k, heq, -, hk⟩ | ⟨_, _, hne, -⟩ := child?_eq_some.1 hw
    · cases heq
      exact ih k w (Table.mem_of_get? hk) hproper he
    · cases hne
  | _ => cases h

/-- There is one first template that does not resolve. -/
theorem FirstFault.unique {e' : StepFault} (h : FirstFault context v raw e)
    (h' : FirstFault context v raw e') : e = e' := by
  obtain ⟨p, s, ht, he, hfirst⟩ := h
  obtain ⟨q, t, ht', he', hfirst'⟩ := h'
  rcases before_trichotomy ht.here ht'.here with rfl | hpq | hqp
  · obtain rfl : s = t := by simpa using ht.here.symm.trans ht'.here
    exact Except.error.inj (he.symm.trans he')
  · obtain ⟨u, hu⟩ := hfirst' p s ht hpq
    rw [he] at hu
    cases hu
  · obtain ⟨u, hu⟩ := hfirst q t ht' hqp
    rw [he'] at hu
    cases hu

theorem resolveExempt_eq_error_iff (hv : v.Proper) :
    resolveExempt context raw v = .error e ↔ FirstFault context v raw e := by
  refine ⟨firstFault_of_error hv, fun h => ?_⟩
  cases hr : resolveExempt context raw v with
  | ok r =>
    obtain ⟨p, s, ht, he, -⟩ := h
    obtain ⟨u, hu, -⟩ := ht.exists_resolved hr
    rw [he] at hu
    cases hu
  | error e' => rw [(firstFault_of_error hv hr).unique h]

theorem exists_ok_iff (hv : v.Proper) :
    (∃ r, resolveExempt context raw v = .ok r) ↔
      ∀ p s, TemplateAt v raw p s → ∃ u, resolveText s context = .ok u := by
  constructor
  · rintro ⟨r, hr⟩ p s ht
    obtain ⟨u, hu, -⟩ := ht.exists_resolved hr
    exact ⟨u, hu⟩
  · intro h
    cases hr : resolveExempt context raw v with
    | ok r => exact ⟨r, rfl⟩
    | error e =>
      obtain ⟨p, s, ht, he, -⟩ := firstFault_of_error hv hr
      obtain ⟨u, hu⟩ := h p s ht
      rw [he] at hu
      cases hu

/-! ## The result -/

/-- Neither a container nor a template. -/
def IsFixed : Json → Prop
  | .arr _ | .obj _ => False
  | .str s => isTemplate s = false
  | _ => True

/-- The second value is the first with each template outside the exempt keys replaced by what it
resolves to on its own, and nothing else changed. -/
structure Filled (context v : Json) (raw : List String) (r : Json) : Prop where
  exempt : ∀ p w, Exempt raw p → v.at? p = some w → r.at? p = some w
  template : ∀ p s, TemplateAt v raw p s →
    ∃ u, resolveText s context = .ok u ∧ r.at? p = some u
  fixed : ∀ p w, IsFixed w → v.at? p = some w → r.at? p = some w
  items : ∀ p xs, v.at? p = some (.arr xs) →
    ∃ ys, r.at? p = some (.arr ys) ∧ ys.length = xs.length
  keys : ∀ p fs, v.at? p = some (.obj fs) →
    ∃ gs, r.at? p = some (.obj gs) ∧ Table.keys gs = Table.keys fs

theorem resolveExempt_isFixed (hw : IsFixed w) : resolveExempt context raw w = .ok w := by
  cases w with
  | arr | obj => exact hw.elim
  | str s => exact if_neg (by simpa [IsFixed] using hw)
  | _ => rfl

theorem keys_of_forall₂ {fs gs : Fields}
    (h : List.Forall₂ (fun a b => resolveEntry context raw a = .ok b) fs gs) :
    Table.keys gs = Table.keys fs := by
  induction h with
  | nil => rfl
  | cons hab h ih =>
    obtain ⟨u, -, rfl⟩ := map_eq_ok.1 hab
    rw [Table.keys, Table.keys, List.map_cons, List.map_cons]
    exact congrArg _ ih

theorem filled_of_ok (h : resolveExempt context raw v = .ok r) : Filled context v raw r where
  exempt p w hp hw := resolveExempt_at?_exempt h hp hw
  template p s ht := ht.exists_resolved h
  fixed p w hfixed hw := by
    by_cases hp : Exempt raw p
    · exact resolveExempt_at?_exempt h hp hw
    · obtain ⟨u, raw', hu, hr⟩ := resolveExempt_at? h hp hw
      rw [resolveExempt_isFixed hfixed] at hu
      cases hu
      exact hr
  items p xs hw := by
    by_cases hp : Exempt raw p
    · exact ⟨xs, resolveExempt_at?_exempt h hp hw, rfl⟩
    · obtain ⟨u, raw', hu, hr⟩ := resolveExempt_at? h hp hw
      obtain ⟨ys, rfl, hys⟩ := resolveExempt_arr hu
      exact ⟨ys, hr, hys.length_eq.symm⟩
  keys p fs hw := by
    by_cases hp : Exempt raw p
    · exact ⟨fs, resolveExempt_at?_exempt h hp hw, rfl⟩
    · obtain ⟨u, raw', hu, hr⟩ := resolveExempt_at? h hp hw
      obtain ⟨gs, rfl, hgs⟩ := resolveExempt_obj hu
      exact ⟨gs, hr, keys_of_forall₂ hgs⟩

/-- A reference stands for the value that it finds in the scope. -/
theorem resolveText_reference {scope : Scope} (hscope : scope.Proper) {path : Path}
    (hv : path.seen? scope = some v) :
    resolveText path.reference scope.templateContext = .ok v := by
  have hblock := path.singleExpression?_reference
  rw [resolveText, if_pos (isTemplate_of_singleExpression? hblock), hblock]
  exact lookup_seen hscope hv

/-- A text with placeholders that is no single block is its literal parts with the texts that the
placeholders find between them. -/
theorem resolveText_pieces {fs : Fields} {ps : List Piece} {filled : String}
    (htemplate : isTemplate s = true) (hblock : singleExpression? s = none)
    (hps : Token.LiteralsPlain ps) (hs : Token.dropLineEnd s.toList = source ps)
    (hfilled : filled? fs ps = some filled) :
    resolveText s (.obj fs) = .ok (.str filled) := by
  rw [resolveText, if_pos htemplate, hblock]
  dsimp only
  rw [render_source hps hfilled hs]
  rfl

/-- **Parameters are resolved in one pass.** They resolve when each template outside the exempt keys
resolves on its own over the tree of the scope, and then each is replaced by what it resolves to and
nothing else changes; else the error is that of the first template, by keys and positions, that does
not resolve. What comes in from the scope is not looked into: a reference stands for the value that
it finds, and a text with placeholders for its literal parts and the texts that they find, whether
or not there are templates in them. -/
theorem resolveParams_single_pass {params : Json} {scope : Scope} (hparams : params.Proper)
    (hscope : scope.Proper) (raw : List String) :
    ((∃ r, resolveParams params scope raw = .ok r) ↔
      ∀ p s, TemplateAt params raw p s → ∃ u, resolveText s scope.templateContext = .ok u) ∧
    (∀ r, resolveParams params scope raw = .ok r →
      Filled scope.templateContext params raw r) ∧
    (∀ e, resolveParams params scope raw = .error e ↔
      FirstFault scope.templateContext params raw e) ∧
    (∀ (path : Path) v, path.seen? scope = some v →
      resolveText path.reference scope.templateContext = .ok v) ∧
    (∀ fs ps s filled, scope.templateContext = .obj fs → isTemplate s = true →
      singleExpression? s = none → Token.LiteralsPlain ps →
      Token.dropLineEnd s.toList = source ps → filled? fs ps = some filled →
      resolveText s scope.templateContext = .ok (.str filled)) := by
  rw [resolveParams_exempt]
  refine ⟨exists_ok_iff hparams, fun r hr => filled_of_ok hr,
    fun e => resolveExempt_eq_error_iff hparams, fun path v hv => resolveText_reference hscope hv,
    fun fs ps s filled hfs htemplate hblock hps hs hfilled => ?_⟩
  rw [hfs]
  exact resolveText_pieces htemplate hblock hps hs hfilled

/-- A scope whose note holds a template. -/
def noteScope : Scope :=
  .new .nil "show" (some "r1")
    (.ofGlobals [("note", .str "\x7b\x7b secret \x7d\x7d"), ("secret", .str "s3")])

theorem noteScope_proper : noteScope.Proper := by
  have hglobals : (Json.ofFields [("note", .str "\x7b\x7b secret \x7d\x7d"),
      ("secret", .str "s3")]).Proper := .ofFields (by simp)
  exact .new (.ofGlobals hglobals) .nil "show" (some "r1")

/-- The path `note`. -/
def notePath : Path := .ofName "note" (by decide) (by decide)

/-- A script with two braces, and a list with a reference to the note. -/
def noteParams : Json :=
  .obj [("code", .str "\x7b\x7b"), ("lines", .arr [.str notePath.reference, .int 3])]

theorem noteParams_proper : noteParams.Proper := by
  refine Json.Proper.obj_iff.2 ⟨by unfold Table.Sorted; decide, ?_⟩
  simp [FieldsProper, ItemsProper, Json.Proper]

/-- The template in the note is left as it is. -/
theorem resolveParams_single_pass_note :
    noteParams.Proper ∧ noteScope.Proper ∧
    ∃ r, resolveParams noteParams noteScope ["code"] = .ok r ∧
      r.at? [.key "code"] = some (.str "\x7b\x7b") ∧
      r.at? [.key "lines", .item 0] = some (.str "\x7b\x7b secret \x7d\x7d") ∧
      isTemplate "\x7b\x7b secret \x7d\x7d" = true := by
  obtain ⟨-, hfilled, -, hreference, -⟩ :=
    resolveParams_single_pass noteParams_proper noteScope_proper ["code"]
  have hnote := hreference notePath (.str "\x7b\x7b secret \x7d\x7d") rfl
  have hlines : resolve noteScope.templateContext (.arr [.str notePath.reference, .int 3]) =
      .ok (.arr [.str "\x7b\x7b secret \x7d\x7d", .int 3]) := by
    simp [resolve, resolveItems, hnote, bind, Except.bind, pure, Except.pure, Except.map]
  have hresolves : resolveParams noteParams noteScope ["code"] =
      .ok (.obj [("code", .str "\x7b\x7b"),
        ("lines", .arr [.str "\x7b\x7b secret \x7d\x7d", .int 3])]) := by
    simp [resolveParams_exempt, noteParams, resolveExempt, resolveEntry, resolvePart, hlines, bind,
      Except.bind, pure, Except.pure, Except.map]
  have h := hfilled _ hresolves
  have htemplate : TemplateAt noteParams ["code"] [.key "lines", .item 0] notePath.reference :=
    ⟨rfl, isTemplate_of_singleExpression? notePath.singleExpression?_reference, by simp [Exempt]⟩
  obtain ⟨u, hu, hat⟩ := h.template _ _ htemplate
  rw [hnote] at hu
  cases hu
  exact ⟨noteParams_proper, noteScope_proper, _, hresolves, h.exempt _ _ (by simp [Exempt]) rfl,
    hat, by decide +kernel⟩

end Template
end Runbook

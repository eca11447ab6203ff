import Runbook.Proofs.Run.Authored
import Runbook.Proofs.Script.Conversion
import Runbook.Proofs.Script.Name
import Runbook.Proofs.Template.Reference

/-!
# Templates and scripts see the same context

A scope has a tree that templates look references up in, and constants and a variable for scripts.
Under the names that the scope itself gives (`Scope.names`) both have the same values
(`Handler.Code.find?_slots`), and the values of a scope whose integers have a sign come back from a
script as they were (`Scope.Signed.root?`). So a `code` step of a lone name ends with what a
parameter that refers to the name stands for (`Engine.name_read_alike`).
-/

namespace Runbook

/-! ## Integers with a sign -/

namespace Json.Signed

variable {fs : Fields} {key : String} {v : Json}

theorem fields_iff : FieldsSigned fs ↔ ∀ e ∈ fs, e.2.Signed := by
  induction fs with
  | nil => simp [FieldsSigned]
  | cons e fs ih => simp [FieldsSigned, ih]

theorem obj_iff : Json.Signed (.obj fs) ↔ ∀ e ∈ fs, e.2.Signed := by
  rw [Json.Signed, fields_iff]

@[simp] theorem str (s : String) : Json.Signed (.str s) := by rw [Json.Signed]; trivial

theorem ofNat {n : Nat} (h : n < 2 ^ 63) : (Json.ofNat n).Signed := by
  rw [Json.ofNat, Json.Signed, Script.Value.fits]
  simp
  omega

theorem ofFields {entries : List (String × Json)} (h : ∀ e ∈ entries, e.2.Signed) :
    (Json.ofFields entries).Signed :=
  obj_iff.2 fun e he => h e (Table.mem_of_mem_ofList he)

/-- An object made of a table has integers with a sign when the value of each entry does. -/
theorem map {α : Type} {t : Table α} {f : String → α → Json} (hf : ∀ e ∈ t, (f e.1 e.2).Signed) :
    Json.Signed (.obj (t.map fun (k, a) => (k, f k a))) :=
  obj_iff.2 (List.forall_mem_map.2 hf)

end Json.Signed

/-- All integers that a scope holds fit 64 bits with a sign. -/
structure Scope.Signed (s : Scope) : Prop where
  globals : Json.Signed (.obj s.context.globals)
  devices : ∀ e ∈ s.context.devices, Json.Signed (.obj e.2)
  results : ∀ e ∈ s.context.stepResults, ∀ r ∈ e.2, r.2.data.Signed ∧ r.2.durationMs < 2 ^ 63
  vars : Json.Signed (.obj s.vars)

theorem StepResult.signed_toJson {r : StepResult} (hdata : r.data.Signed)
    (hduration : r.durationMs < 2 ^ 63) : r.toJson.Signed := by
  refine .ofFields ?_
  simpa [Status.toJson] using ⟨hdata, .ofNat hduration⟩

namespace Scope

variable {s : Scope} {name : String} {v : Json}

theorem Signed.stepsTree (h : s.Signed) (device : Option String) :
    (s.context.stepsTree device).Signed := by
  refine .map (f := s.context.stepEntry device) fun e he => ?_
  have hresult : ∀ r ∈ e.2, r.2.toJson.Signed := fun r hr =>
    StepResult.signed_toJson (h.results e he r hr).1 (h.results e he r hr).2
  refine .ofFields fun x hx => ?_
  rcases List.mem_append.1 hx with hx | hx
  · obtain ⟨status, -, rfl⟩ := Option.map_eq_some_iff.1 (Option.mem_toList.1 hx)
    exact .str _
  · rcases List.mem_cons.1 hx with rfl | hx
    · exact .map (f := fun _ (r : StepResult) => r.toJson) hresult
    · obtain ⟨r, hown, rfl⟩ := Option.map_eq_some_iff.1 (Option.mem_toList.1 hx)
      rcases Option.or_eq_some_iff.1 hown with hown | ⟨-, hown⟩
      · obtain ⟨d, -, hown⟩ := Option.bind_eq_some_iff.1 hown
        exact hresult _ (Table.mem_of_get? hown)
      · exact hresult _ (Table.mem_of_get? hown)

/-- Whatever a name stands for in such a scope has integers with a sign. -/
theorem Signed.root? (h : s.Signed) (hv : s.root? name = some v) : v.Signed := by
  unfold Scope.root? at hv
  split at hv
  · cases hv; exact h.globals
  · cases hv; exact .map (f := fun _ (fs : Fields) => .obj fs) h.devices
  · cases hv; exact h.vars
  · cases hv; exact h.stepsTree s.device
  · cases hv; exact .str _
  · cases hv; exact .str _
  · obtain ⟨d, -, rfl⟩ := Option.map_eq_some_iff.1 hv
    exact .str d
  · exact Json.Signed.obj_iff.1 h.globals _ (Table.mem_of_get? hv)

/-! ## The names of a scope -/

/-- The names that a scope gives itself, whatever its globals are called. -/
def names (s : Scope) : List String :=
  ["globals", "devices", "steps", "vars", "step", "execution_id"] ++
    (s.device.map fun _ => "device").toList

/-- Each of these names is a word that the deny list lets pass, to templates and scripts a name and
to neither a keyword. -/
structure Plain (name : String) : Prop where
  isName : Template.isName name = true
  notKeyword : name ∉ Template.keywords
  token : Script.Token.ofScript name = [.ident name]
  passed : Script.scan name = .ok ()

theorem mem_names : name ∈ s.names ↔
    name ∈ ["globals", "devices", "steps", "vars", "step", "execution_id"] ∨
      name = "device" ∧ ∃ d, s.device = some d := by
  rw [names, List.mem_append]
  refine or_congr_right ?_
  cases s.device <;> simp

theorem plain_of_mem_names (h : name ∈ s.names) : Plain name := by
  have hplain : ∀ x ∈ ["globals", "devices", "steps", "vars", "step", "execution_id", "device"],
      Plain x := by
    intro x hx
    simp only [List.mem_cons, List.not_mem_nil, or_false] at hx
    rcases hx with rfl | rfl | rfl | rfl | rfl | rfl | rfl
    all_goals exact ⟨by decide, by decide, rfl, rfl⟩
  rcases mem_names.1 h with h | ⟨rfl, -⟩
  · exact hplain name (List.mem_append_left ["device"] h)
  · exact hplain "device" (by simp)

end Scope

/-- **The same under both.** What a name of the scope stands for in its tree is what the constants
and the variable of scripts have under this name; it is an object or a text. -/
theorem Handler.Code.find?_slots {s : Scope} {name : String} (args : Json) (h : name ∈ s.names) :
    ∃ v constant, s.root? name = some v ∧ (∀ b, v ≠ .bool b) ∧
      (slots s args).find? (fun x => x.name == name) =
        some ⟨name, constant, Script.Value.ofJson v⟩ := by
  rcases Scope.mem_names.1 h with h | ⟨rfl, d, hd⟩
  · simp only [List.mem_cons, List.not_mem_nil, or_false] at h
    rcases h with rfl | rfl | rfl | rfl | rfl | rfl
    all_goals exact ⟨_, _, rfl, nofun, rfl⟩
  · refine ⟨.str d, true, ?_, nofun, ?_⟩
    · rw [Scope.root?, hd]
      rfl
    · rw [slots, hd]
      rfl

/-- A parameter that refers to such a name stands for its value. -/
theorem Template.resolveParams_name {s : Scope} {name key : String} {raw : List String} {v : Json}
    (hs : s.Proper) (h : name ∈ s.names) (hv : s.root? name = some v) (hkey : key ∉ raw) :
    resolveParams (.obj [(key, .str ("\x7b\x7b " ++ name ++ " \x7d\x7d"))]) s raw =
      .ok (.obj [(key, v)]) := by
  have hplain := Scope.plain_of_mem_names h
  let p : Path := .ofName name hplain.isName hplain.notKeyword
  have hreference : p.reference = "\x7b\x7b " ++ name ++ " \x7d\x7d" := by
    have hchars : p.chars = name.toList := List.append_nil _
    rw [Path.reference, Path.text, hchars, String.ofList_toList]
  have hseen : p.seen? s = some v := by
    change (s.root? name).bind (walk? []) = _
    rw [hv]
    rfl
  rw [← hreference, resolveParams_singleton hkey, lookup_seen hs hseen]
  rfl

/-- The namespace of a script that changes nothing is the one from before. -/
theorem Handler.Code.varsOf_slots {s : Scope} (args : Json) (hs : s.Proper) (hi : s.Signed) :
    varsOf (slots s args) = .ok s.vars := by
  have hvars : Script.Value.toJsonFields (Script.Value.ofJsonFields s.vars) = s.vars := by
    rw [Script.Value.toJsonFields_ofJsonFields_iff _ (Json.Proper.obj_iff.1 hs.vars).2,
      ← Json.Signed]
    exact hi.vars
  rw [varsOf]
  change Except.ok (Script.Value.toJsonFields (Script.Value.ofJsonFields s.vars)) = _
  rw [hvars]

/-- A script of a lone name gives the value of the name and leaves the namespace as it was. -/
theorem Handler.Code.runIn_name {w : World} {s : Scope} {name : String} {args v : Json}
    (now : Instant) (hl : w.limits.Allow) (hs : s.Proper) (hi : s.Signed) (h : name ∈ s.names)
    (hv : s.root? name = some v) :
    runIn (.ofLimits w.limits) now s ⟨name, args⟩ = .ok (v, s.vars) := by
  have hplain := Scope.plain_of_mem_names h
  obtain ⟨u, constant, hu, -, hslot⟩ := find?_slots args h
  obtain rfl : v = u := Option.some.inj (hv.symm.trans hu)
  have hvalue : (Script.Value.ofJson v).toJson = v :=
    (Script.Value.toJson_ofJson_iff v (hs.root? hv)).2 (hi.root? hv)
  have hrun := Script.run_name now hl hplain.token hslot
  rw [runIn_accepted hplain.passed, Script.Sandbox.ofLimits]
  dsimp only
  rw [hrun]
  dsimp only
  rw [varsOf_slots args hs hi, hvalue]
  rfl

theorem Handler.Code.resultOf_of_ne {v : Json} (h : ∀ b, v ≠ .bool b) :
    resultOf v = .success "Code completed" v := by
  unfold resultOf
  split
  · exact absurd rfl (h false)
  · rfl

/-- **Templates and scripts see the same context.** A `code` step whose script is a lone name of its
scope succeeds at once. Its data are what a parameter that refers to the name stands for in the same
scope, if all integers of the scope have a sign, and it leaves the namespace as it was. -/
theorem Engine.name_read_alike {e : Engine} {w : World} {s : StepDefinition} {scope : Scope}
    {p : Handler.Code.Params} {params : Json} (he : e.registry = .ofWorld w) (hl : w.limits.Allow)
    (hcode : s.stepType = "code") (hsource : Handler.Code.decode (.obj s.params) = .ok p)
    (hargs : Template.resolveParams (.obj s.params) scope ["code"] = .ok params)
    (hs : scope.Proper) (hi : scope.Signed) (hname : p.code ∈ scope.names) :
    ∃ v, scope.root? p.code = some v ∧
      (∀ key raw, key ∉ raw → Template.resolveParams
        (.obj [(key, .str ("\x7b\x7b " ++ p.code ++ " \x7d\x7d"))]) scope raw =
          .ok (.obj [(key, v)])) ∧
      e.invoke s scope = .ofExcept (.ok (.success "Code completed" v, scope.vars)) := by
  obtain ⟨args, haccepted⟩ := (runsOnly_of_decode he hcode hargs hsource).accepted
  obtain ⟨v, constant, hv, hbool, -⟩ := Handler.Code.find?_slots args hname
  have hinvoke := haccepted (.ofLimits w.limits) (Scope.plain_of_mem_names hname).passed
  refine ⟨v, hv, fun key raw hkey => Template.resolveParams_name hs hname hv hkey, ?_⟩
  rw [← invoke_withSandbox_ofLimits he, hinvoke, Handler.Code.runIn_name _ hl hs hi hname hv]
  change Timeline.ofExcept (.ok (Handler.Code.resultOf v, scope.vars)) = _
  rw [Handler.Code.resultOf_of_ne hbool]

/-! ### A global that hides a name -/

/-- A step whose script is a lone name. -/
def naming (name : String) : StepDefinition where
  name := "Name"
  stepType := "code"
  params := [("code", .str name)]

theorem surveyScope_signed : Template.surveyScope.Signed where
  globals := by
    have hmtu : (Json.int 9000).Signed := by
      rw [Json.Signed]
      decide
    have hsite : (Json.ofFields [("mtu", .int 9000)]).Signed :=
      .ofFields (List.forall_mem_singleton.2 hmtu)
    exact Json.Signed.obj_iff.2
      (List.forall_mem_cons.2 ⟨.str "shadow", List.forall_mem_singleton.2 hsite⟩)
  devices := nofun
  results := nofun
  vars := Json.Signed.obj_iff.2 nofun

/-- The target is `r1` to both, although a global is called `device`. -/
theorem Engine.name_read_alike_device :
    Template.surveyScope.Proper ∧ Template.surveyScope.Signed ∧
      "device" ∈ Template.surveyScope.names ∧
      Template.resolveParams (.obj [("target", .str "\x7b\x7b device \x7d\x7d")])
        Template.surveyScope [] = .ok (.obj [("target", .str "r1")]) ∧
      (slowEngine 1).invoke (naming "device") Template.surveyScope =
        .ofExcept (.ok (.success "Code completed" (.str "r1"), Template.surveyScope.vars)) := by
  have hlimits : slowWorld.limits.Allow := ⟨by decide, by decide, by decide⟩
  have hname : "device" ∈ Template.surveyScope.names := by decide
  obtain ⟨v, hv, hparam, hinvoke⟩ := name_read_alike (e := slowEngine 1) (w := slowWorld)
    (s := naming "device") (p := ⟨"device", .null⟩) rfl hlimits rfl rfl rfl
    Template.surveyScope_proper surveyScope_signed hname
  cases hv
  exact ⟨Template.surveyScope_proper, surveyScope_signed, hname,
    hparam "target" [] List.not_mem_nil, hinvoke⟩

end Runbook

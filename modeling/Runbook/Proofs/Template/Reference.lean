import Runbook.Proofs.Json.Proper
import Runbook.Proofs.Template.Braces
import Runbook.Proofs.Template.Path

/-!
# References to a scope

A parameter `{{ a.b.c }}` stands for what going down the tree of its scope finds: the tree has the
reserved names at its top, and every global that none of them hides (`Scope.root?`). The value
comes back as it is, and where there is none the reference is a fault (`resolveParams_reference`).
One kind of name escapes that rule: the functions that every template knows have names of their
own, and a reference to a name that nothing is bound to may be one of them
(`resolveParams_range`).
-/

namespace Runbook

/-! ## The tree of a scope -/

/-- What a name stands for in a scope. -/
def Scope.root? (s : Scope) (name : String) : Option Json :=
  match name with
  | "globals" => some (.obj s.context.globals)
  | "devices" => some s.context.devicesJson
  | "vars" => some (.obj s.vars)
  | "steps" => some (s.context.stepsTree s.device)
  | "step" => some (.str s.step)
  | "execution_id" => some (.str s.execution.text)
  | "device" => s.device.map .str
  | name => Table.get? name s.context.globals

namespace Template

/-- What a path finds in a scope. -/
def Path.seen? (p : Path) (s : Scope) : Option Json := (s.root? p.first).bind (walk? p.keys)

end Template

namespace Scope

variable {s : Scope}

/-- The tree of a scope has under each name what the name stands for. -/
theorem exists_templateContext (hs : s.Proper) :
    ∃ fs, s.templateContext = .obj fs ∧ ∀ name, Table.get? name fs = s.root? name := by
  have hsorted : Table.Sorted s.context.globals := (Json.Proper.obj_iff.1 hs.context.globals).1
  cases hd : s.device with
  | some d =>
    refine ⟨_, by rw [templateContext, hd], fun name => ?_⟩
    unfold root?
    split <;> simp_all [Table.get?_insert, eq_comm]
  | none =>
    refine ⟨_, by rw [templateContext, hd], fun name => ?_⟩
    rw [Table.Sorted.get?_erase hsorted.insert.insert.insert.insert.insert.insert]
    by_cases hname : "device" = name
    · subst hname
      simp [root?, hd]
    · rw [if_neg hname]
      unfold root?
      split <;> simp_all [Table.get?_insert, eq_comm]

theorem Proper.root? (hs : s.Proper) {name : String} {v : Json} (hv : s.root? name = some v) :
    v.Proper := by
  unfold Scope.root? at hv
  split at hv
  · cases hv; exact hs.context.globals
  · cases hv; exact hs.context.devicesJson
  · cases hv; exact hs.vars
  · cases hv; exact hs.context.stepsTree s.device
  · cases hv; exact .str _
  · cases hv; exact .str _
  · obtain ⟨d, -, rfl⟩ := Option.map_eq_some_iff.1 hv
    exact .str d
  · exact Json.Proper.field (Json.Proper.obj_iff.1 hs.context.globals).2 hv

end Scope

namespace Template

theorem proper_walk? {ks : List String} {v w : Json} (hv : v.Proper) (h : walk? ks v = some w) :
    w.Proper := by
  induction ks generalizing v with
  | nil =>
    cases h
    exact hv
  | cons k ks ih =>
    obtain ⟨u, hu, hrest⟩ := Option.bind_eq_some_iff.1 h
    exact ih (hv.get? hu) hrest

/-! ## References -/

namespace Path

variable (p : Path)

/-- A reference: a path in double braces. -/
def reference : String := "\x7b\x7b " ++ p.text ++ " \x7d\x7d"

theorem toList_reference :
    p.reference.toList = '\x7b' :: '\x7b' :: (' ' :: (p.chars ++ [' '])) ++ ['\x7d', '\x7d'] := by
  rw [reference, String.toList_append, String.toList_append, text, String.toList_ofList]
  simp

theorem isBlank_chars {c : Char} (hc : c ∈ p.chars) : Text.isBlank c = false := by
  have := p.toNat_chars hc
  simp [Text.isBlank]
  omega

/-- A reference is a single block of its path. -/
theorem singleExpression?_reference : singleExpression? p.reference = some p.text :=
  singleExpression?_spaced p.chars_ne_nil
    ⟨fun _ hc => p.isBlank_chars (List.mem_of_mem_head? hc),
      fun _ hc => p.isBlank_chars (List.mem_of_getLast? hc)⟩
    (p.not_mem_chars (by decide)) (p.not_mem_chars (by decide))

end Path

variable {context : Json} {p : Path}

theorem lookup_missing (h : Missing (p.expr.eval (Env.ofContext context))) :
    ∃ message, lookup p.text context = .error (.resolution message) := by
  rw [lookup, p.parse_text]
  dsimp only
  rcases h with h | h <;> rw [h] <;> exact ⟨_, rfl⟩

/-- A parameter that is a reference stands for what its path finds in the tree. -/
theorem resolveParams_singleton {s : Scope} {key : String} {raw : List String} (hkey : key ∉ raw) :
    resolveParams (.obj [(key, .str p.reference)]) s raw =
      (lookup p.text s.templateContext).map fun v => .obj [(key, v)] := by
  have hraw : raw.contains key = false := by simpa using hkey
  rw [resolveParams]
  dsimp only
  rw [List.mapM_cons, List.mapM_nil, hraw, if_neg Bool.false_ne_true,
    resolve_eq_lookup p.singleExpression?_reference]
  cases lookup p.text s.templateContext <;> rfl

section Scope

variable {s : Scope} (hs : s.Proper)
include hs

theorem lookup_seen {v : Json} (hv : p.seen? s = some v) :
    lookup p.text s.templateContext = .ok v := by
  obtain ⟨fs, hfs, hroot⟩ := Scope.exists_templateContext hs
  have hfind : p.find? fs = some v := by rw [← hv, Path.find?, Path.seen?, hroot]
  have hexpr := p.eval_expr fs
  rw [hfind] at hexpr
  obtain ⟨top, htop, hwalk⟩ := Option.bind_eq_some_iff.1 hv
  have hproper : v.Proper := proper_walk? (hs.root? htop) hwalk
  have hdefined : (Value.ofJson v).isUndefined = false := by cases v <;> rfl
  rw [hfs]
  exact lookup_eq_ok_iff.2 ⟨_, _, p.parse_text, hexpr, hdefined, Value.toJson_ofJson v hproper⟩

theorem lookup_unseen (hv : p.seen? s = none) (hf : ¬(p.keys = [] ∧ p.first ∈ Env.functions)) :
    ∃ message, lookup p.text s.templateContext = .error (.resolution message) := by
  obtain ⟨fs, hfs, hroot⟩ := Scope.exists_templateContext hs
  have hfind : p.find? fs = none := by rw [← hv, Path.find?, Path.seen?, hroot]
  have hexpr := p.eval_expr fs
  rw [hfind] at hexpr
  dsimp only at hexpr
  rw [if_neg hf] at hexpr
  rw [hfs]
  exact lookup_missing hexpr

theorem lookup_function (hv : p.seen? s = none) (hf : p.keys = [] ∧ p.first ∈ Env.functions) :
    lookup p.text s.templateContext = .ok (.str (Value.functionPath p.first)) := by
  obtain ⟨fs, hfs, hroot⟩ := Scope.exists_templateContext hs
  have hfind : p.find? fs = none := by rw [← hv, Path.find?, Path.seen?, hroot]
  have hexpr := p.eval_expr fs
  rw [hfind] at hexpr
  dsimp only at hexpr
  rw [if_pos hf] at hexpr
  rw [hfs]
  exact lookup_eq_ok_iff.2 ⟨_, _, p.parse_text, hexpr, rfl, rfl⟩

end Scope

/-- **A reference means what its scope has.** Where going down the tree of the scope finds a value,
the parameter is this value; where it finds nothing it is a fault, unless the reference is the lone
name of a function that every template knows: then it is the text that this function is written
as. -/
theorem resolveParams_reference {s : Scope} (hs : s.Proper) (p : Path) {key : String}
    {raw : List String} (hkey : key ∉ raw) :
    (∀ v, p.seen? s = some v →
      resolveParams (.obj [(key, .str p.reference)]) s raw = .ok (.obj [(key, v)])) ∧
    (p.seen? s = none → ¬(p.keys = [] ∧ p.first ∈ Env.functions) →
      ∃ message,
        resolveParams (.obj [(key, .str p.reference)]) s raw = .error (.resolution message)) ∧
    (p.seen? s = none → p.keys = [] ∧ p.first ∈ Env.functions →
      resolveParams (.obj [(key, .str p.reference)]) s raw =
        .ok (.obj [(key, .str (Value.functionPath p.first))])) := by
  rw [resolveParams_singleton hkey]
  refine ⟨fun v hv => ?_, fun hv hf => ?_, fun hv hf => ?_⟩
  · rw [lookup_seen hs hv]
    rfl
  · obtain ⟨message, h⟩ := lookup_unseen hs hv hf
    exact ⟨message, by rw [h]; rfl⟩
  · rw [lookup_function hs hv hf]
    rfl

/-- The scope of an invocation for a device, with a nested global and one of a reserved name. -/
def surveyScope : Scope :=
  .new .nil "show" (some "r1")
    (.ofGlobals [("device", .str "shadow"), ("site", .ofFields [("mtu", .int 9000)])])

theorem surveyScope_proper : surveyScope.Proper := by
  have hsite : (Json.ofFields [("mtu", .int 9000)]).Proper :=
    .ofFields fun e he => by
      obtain rfl := List.mem_singleton.1 he
      rw [Json.Proper]
      decide
  have hglobals : (Json.ofFields [("device", .str "shadow"),
      ("site", .ofFields [("mtu", .int 9000)])]).Proper :=
    .ofFields (by simpa using hsite)
  exact .new (.ofGlobals hglobals) .nil "show" (some "r1")

/-- The path `site.mtu`. -/
def mtuPath : Path := ⟨"site", ["mtu"], by decide, by decide, by decide⟩

theorem resolveParams_reference_mtu :
    surveyScope.Proper ∧ "size" ∉ ["code"] ∧ mtuPath.reference = "\x7b\x7b site.mtu \x7d\x7d" ∧
      resolveParams (.obj [("size", .str mtuPath.reference)]) surveyScope ["code"] =
        .ok (.obj [("size", .int 9000)]) :=
  ⟨surveyScope_proper, by decide, by decide,
    (resolveParams_reference surveyScope_proper mtuPath (by decide)).1 _ rfl⟩

/-- The name of a function that every template knows, bound to nothing, is no fault. -/
theorem resolveParams_range :
    let p : Path := .ofName "range" (by decide) (by decide)
    p.reference = "\x7b\x7b range \x7d\x7d" ∧ p.seen? surveyScope = none ∧
      resolveParams (.obj [("size", .str p.reference)]) surveyScope [] =
        .ok (.obj [("size", .str "minijinja::functions::builtins::range")]) := by
  intro p
  have hparam : resolveParams (.obj [("size", .str p.reference)]) surveyScope [] =
      (lookup p.text surveyScope.templateContext).map fun v => .obj [("size", v)] :=
    resolveParams_singleton List.not_mem_nil
  rw [lookup_function surveyScope_proper rfl ⟨rfl, by decide⟩] at hparam
  exact ⟨by decide, rfl, hparam⟩

end Template

end Runbook

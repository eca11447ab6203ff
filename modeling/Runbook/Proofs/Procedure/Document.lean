import Runbook.Procedure.Document
import Runbook.Procedure.Graph
import Runbook.Proofs.Procedure.Entries
import Runbook.Proofs.Yaml.Decode

/-!
# Definitions through documents

A definition that is read of a text holds only what a document can hold (`held_of_ofText`), and such
a definition is read of the node of its document (`ofNode_document`). So it is read back from the
document that is written of it (`ofText_write`), and from its form in JSON (`ofText_jsonText`)
unless this holds characters that JSON leaves as they are and a document does not.
-/

namespace Runbook

open Yaml Yaml.NodeDecoder

variable {style : String → Style} {depth : Nat} {path : String} {n : Node}

/-! ## Steps -/

namespace StepDefinition

variable {s : StepDefinition}

/-- A step that a document holds, with parameters nested no deeper than `depth`. -/
structure Held (depth : Nat) (s : StepDefinition) : Prop where
  params : Json.Held depth (.obj s.params)
  timeout : ∀ t ∈ s.timeoutSeconds, t < 2 ^ 64

/-- A step that is read is held. -/
theorem held_of_ofNode (h : StepDefinition.ofNode path (depth + 2) n = .ok s) :
    s.Held (depth + 1) := by
  obtain ⟨r, hr, h⟩ := bind_eq_ok.1 h
  obtain ⟨_, -, h⟩ := bind_eq_ok.1 h
  obtain ⟨_, -, h⟩ := bind_eq_ok.1 h
  obtain ⟨_, -, h⟩ := bind_eq_ok.1 h
  obtain ⟨params, hparams, h⟩ := bind_eq_ok.1 h
  obtain ⟨_, -, h⟩ := bind_eq_ok.1 h
  obtain ⟨_, -, h⟩ := bind_eq_ok.1 h
  obtain ⟨_, -, h⟩ := bind_eq_ok.1 h
  obtain ⟨timeout, htimeout, h⟩ := bind_eq_ok.1 h
  cases h
  constructor
  · rcases of_getD hr hparams with rfl | ⟨_, below, _, hdepth, hobject⟩
    · exact .obj Table.sorted_nil nofun
    · obtain rfl : below = depth + 1 := by omega
      exact held_of_object hobject
  · rcases of_getD hr htimeout with rfl | ⟨_, _, _, -, hnumber⟩
    · nofun
    · rintro t rfl
      exact unsigned_lt (of_optional hnumber)

/-- **A step that is held** is that of its node. -/
theorem ofNode_document (hs : Faithful style) (h : s.Held (depth + 1))
    (hint : Json.isIntegral (.obj s.params) = true) (path : String) :
    StepDefinition.ofNode path (depth + 2) (Node.ofJson style s.document) = .ok s := by
  have hkeys := nodup_entries s
  obtain ⟨⟨hname, hid, htype, hparams⟩, hsuccess, hfailure, hdevices, htimeout⟩ := get?_entries s
  have htext (t : String) :
      Takes style (depth + 1) documentText (.str t) t ∧ IsThere style (.str t) :=
    ⟨takes_text, isThere_str hs⟩
  have hobject : Takes style (depth + 1) object (.obj s.params) s.params :=
    takes_object hs h.params hint
  have htexts (ts : List String) :
      Takes style (depth + 1) (list documentText) (.ofStrings ts) ts ∧
        IsThere style (.ofStrings ts) :=
    ⟨takes_list fun _ _ => takes_text, isThere_arr⟩
  have hnumber (t : Nat) (ht : t ∈ s.timeoutSeconds) :
      Takes style (depth + 1) unsigned (.ofNat t) t ∧ IsThere style (.ofNat t) :=
    ⟨takes_unsigned (h.timeout t ht), isThere_ofNat (h.timeout t ht)⟩
  refine bind_eq_ok.2 ⟨_, record_ofJson hkeys (fun k v hkv => ?_) ?_,
    bind_eq_ok.2 ⟨_, getD_recordOf hkeys hname takes_text,
    bind_eq_ok.2 ⟨_, getD_optional hkeys hid fun t _ => htext t,
    bind_eq_ok.2 ⟨_, getD_recordOf hkeys htype takes_text,
    bind_eq_ok.2 ⟨_, getD_recordOf hkeys hparams hobject,
    bind_eq_ok.2 ⟨_, getD_optional hkeys hsuccess fun t _ => htext t,
    bind_eq_ok.2 ⟨_, getD_optional hkeys hfailure fun t _ => htext t,
    bind_eq_ok.2 ⟨_, getD_optional hkeys hdevices fun ts _ => htexts ts,
    bind_eq_ok.2 ⟨_, getD_optional hkeys htimeout hnumber, rfl⟩⟩⟩⟩⟩⟩⟩⟩⟩
  · simp only [entries, List.mem_append, List.mem_cons, List.not_mem_nil, or_false, Prod.mk.injEq,
      mem_optionalField] at hkv
    rcases hkv with ((((((⟨rfl, rfl⟩ | ⟨rfl, t, -, rfl⟩) | ⟨rfl, rfl⟩ | ⟨rfl, rfl⟩) |
      ⟨rfl, t, -, rfl⟩) | ⟨rfl, t, -, rfl⟩) | ⟨rfl, ts, -, rfl⟩) | ⟨rfl, t, ht, rfl⟩)
    · exact ⟨_, rfl, takes_text.check⟩
    · exact ⟨_, rfl, ((htext t).1.optional (htext t).2).check⟩
    · exact ⟨_, rfl, takes_text.check⟩
    · exact ⟨_, rfl, hobject.check⟩
    · exact ⟨_, rfl, ((htext t).1.optional (htext t).2).check⟩
    · exact ⟨_, rfl, ((htext t).1.optional (htext t).2).check⟩
    · exact ⟨_, rfl, ((htexts ts).1.optional (htexts ts).2).check⟩
    · exact ⟨_, rfl, ((hnumber t ht).1.optional (hnumber t ht).2).check⟩
  · simp [field, entries]

/-- A step has no doubles when its parameters have none. -/
theorem isIntegral_params (h : s.document.isIntegral = true) :
    Json.isIntegral (.obj s.params) = true := by
  rw [document_eq, Json.isIntegral, Json.haveIntegral_iff] at h
  exact h "params" _ (by simp [entries])

end StepDefinition

/-! ## Procedures -/

namespace ProcedureDefinition

variable {p : ProcedureDefinition}

/-- A procedure that a document holds, with parameters nested no deeper than `depth`. -/
structure Held (depth : Nat) (p : ProcedureDefinition) : Prop where
  vars : ∀ fs ∈ p.vars, Json.Held (depth + 2) (.obj fs)
  steps : ∀ s ∈ p.steps, s.Held depth

/-- A procedure that is read is held. -/
theorem held_of_ofNode (h : ProcedureDefinition.ofNode path (depth + 4) n = .ok p) :
    p.Held (depth + 1) := by
  obtain ⟨r, hr, h⟩ := bind_eq_ok.1 h
  obtain ⟨_, -, h⟩ := bind_eq_ok.1 h
  obtain ⟨_, -, h⟩ := bind_eq_ok.1 h
  obtain ⟨_, -, h⟩ := bind_eq_ok.1 h
  obtain ⟨vars, hvars, h⟩ := bind_eq_ok.1 h
  obtain ⟨steps, hsteps, h⟩ := bind_eq_ok.1 h
  cases h
  constructor
  · rcases of_getD hr hvars with rfl | ⟨_, below, _, hdepth, hobject⟩
    · nofun
    · rintro fs rfl
      obtain rfl : below = depth + 3 := by omega
      exact held_of_object (of_optional hobject)
  · rcases of_getD hr hsteps with rfl | ⟨_, below, _, hdepth, hlist⟩
    · nofun
    · intro s hs
      obtain ⟨_, below', _, hdepth', hstep⟩ := of_list hlist s hs
      obtain rfl : below' = depth + 2 := by omega
      exact StepDefinition.held_of_ofNode hstep

/-- **A procedure that is held** is that of its node. -/
theorem ofNode_document (hs : Faithful style) (h : p.Held (depth + 1))
    (hint : p.document.isIntegral = true) (path : String) :
    ProcedureDefinition.ofNode path (depth + 4) (Node.ofJson style p.document) = .ok p := by
  have hkeys := nodup_entries p StepDefinition.document
  obtain ⟨hname, hdescription, hdevices, hvars, hsteps⟩ := get?_entries p StepDefinition.document
  rw [document_eq, Json.isIntegral, Json.haveIntegral_iff] at hint
  have htext (t : String) :
      Takes style (depth + 3) documentText (.str t) t ∧ IsThere style (.str t) :=
    ⟨takes_text, isThere_str hs⟩
  have htexts : Takes style (depth + 3) (list documentText) (.ofStrings p.devices) p.devices :=
    takes_list fun _ _ => takes_text
  have hobject (fs : Fields) (hfs : fs ∈ p.vars) :
      Takes style (depth + 3) object (.obj fs) fs ∧ IsThere style (.obj fs) := by
    have hintegral := hint "variables" (.obj fs) (by
      simp only [entries, List.mem_append, mem_optionalField]
      exact .inl (.inr ⟨trivial, fs, hfs, rfl⟩))
    exact ⟨takes_object hs (h.vars fs hfs) hintegral, isThere_obj⟩
  have hlist : Takes style (depth + 3) (list StepDefinition.ofNode)
      (.arr (p.steps.map StepDefinition.document)) p.steps := by
    have hintegral := hint "steps" (.arr (p.steps.map StepDefinition.document)) (by simp [entries])
    rw [Json.isIntegral, Json.areIntegral_iff] at hintegral
    exact takes_list fun s hmem => StepDefinition.ofNode_document hs (h.steps s hmem)
      (StepDefinition.isIntegral_params (hintegral _ (List.mem_map_of_mem hmem)))
  refine bind_eq_ok.2 ⟨_, record_ofJson hkeys (fun k v hkv => ?_) ?_,
    bind_eq_ok.2 ⟨_, getD_recordOf hkeys hname takes_text,
    bind_eq_ok.2 ⟨_, getD_optional hkeys hdescription fun t _ => htext t,
    bind_eq_ok.2 ⟨_, getD_recordOf hkeys hdevices htexts,
    bind_eq_ok.2 ⟨_, getD_optional hkeys hvars hobject,
    bind_eq_ok.2 ⟨_, getD_recordOf hkeys hsteps hlist, rfl⟩⟩⟩⟩⟩⟩
  · simp only [entries, List.mem_append, List.mem_cons, List.not_mem_nil, or_false, Prod.mk.injEq,
      mem_optionalField] at hkv
    rcases hkv with (((⟨rfl, rfl⟩ | ⟨rfl, t, -, rfl⟩) | ⟨rfl, rfl⟩) | ⟨rfl, fs, hfs, rfl⟩) |
      ⟨rfl, rfl⟩
    · exact ⟨_, rfl, takes_text.check⟩
    · exact ⟨_, rfl, ((htext t).1.optional (htext t).2).check⟩
    · exact ⟨_, rfl, htexts.check⟩
    · exact ⟨_, rfl, ((hobject fs hfs).1.optional (hobject fs hfs).2).check⟩
    · exact ⟨_, rfl, hlist.check⟩
  · simp [field, entries]

/-! ## Texts -/

/-- What is read of a text is held. -/
theorem held_of_ofText {text : String} (h : ofText text = .ok p) : p.Held 125 := by
  unfold ofText at h
  split at h
  · cases h
  · extract_lets n at h
    split at h
    · rename_i hn
      cases h
      exact held_of_ofNode hn
    · cases h

theorem ofText_of_node {text : String} (hs : Faithful style) (h : p.Held 125)
    (hint : p.document.isIntegral = true)
    (hnode : Node.ofText text = .ok (some (Node.ofJson style p.document))) :
    ofText text = .ok p := by
  have hp : ofNode "" Node.maxDepth (Node.ofJson style p.document) = .ok p :=
    ofNode_document hs h hint ""
  rw [ofText, hnode]
  dsimp only [Option.getD_some]
  rw [hp]

/-- A procedure with one script. -/
def scriptText : String :=
  "name: \"on\"\ndevices: [r1, \"2\"]\nvariables: {limit: 10}\nsteps:\n" ++
  "- name: Sum\n  type: code\n  params:\n    \"no\": [null, true, -3]\n    code: |\n" ++
  "      let x = 1;\n\n      x\n"

/-- What is checked of a definition that a text is read as. -/
theorem exists_of_check {text : String} {check : ProcedureDefinition → Bool}
    (h : (ofText text).toOption.any check = true) : ∃ p, ofText text = .ok p ∧ check p = true := by
  cases hp : ofText text with
  | error f => rw [hp] at h; cases h
  | ok p => exact ⟨p, rfl, by rwa [hp] at h⟩

theorem ofText_scriptText : ∃ p, ofText scriptText = .ok p ∧ p.document.isIntegral = true ∧
    isCommon p.document = true ∧ p.violations = [] := by
  obtain ⟨p, h, hp⟩ : ∃ p, ofText scriptText = .ok p ∧
      (p.document.isIntegral && isCommon p.document && p.violations.isEmpty) = true := by
    refine exists_of_check ?_
    -- The list of the characters is faster to evaluate than the text is.
    rw [ofText, Node.ofText, Token.ofText]
    generalize hcs : scriptText.toList = cs
    delta scriptText at hcs
    rw [String.toList_append, String.toList_append, String.toList_ofList, String.toList_ofList,
      String.toList_ofList] at hcs
    subst hcs
    decide +kernel
  rw [Bool.and_eq_true, Bool.and_eq_true, List.isEmpty_iff] at hp
  exact ⟨p, h, hp.1.1, hp.1.2, hp.2⟩

/-- **Through a document.** A definition that was read of some text, and has no doubles, is written
as a text that is read as the same definition; so what the graph of the definition is written as is
read as a definition with the same graph, down to its identifiers, steps, devices and edges. -/
theorem ofText_write {text : String} (h : ofText text = .ok p)
    (hint : p.document.isIntegral = true) :
    ofText (write p.document) = .ok p ∧
      ∀ g, ProcedureGraph.ofDefinition p = .ok g →
        ∃ q, ofText (write g.definition.document) = .ok q ∧
          ProcedureGraph.ofDefinition q = .ok g := by
  have hread : ofText (write p.document) = .ok p :=
    ofText_of_node faithful_writtenStyle (held_of_ofText h) hint (Node.ofText_write_obj hint)
  refine ⟨hread, fun g hg => ⟨p, ?_, hg⟩⟩
  have hdefinition : g.definition = p := by
    unfold ProcedureGraph.ofDefinition at hg
    split at hg
    · exact congrArg ProcedureGraph.definition (Except.ok.inj hg).symm
    · cases hg
  rw [hdefinition, hread]

/-- A script in a literal block, under names that have to be quoted. -/
theorem ofText_write_script : ∃ p g, ofText scriptText = .ok p ∧ p.document.isIntegral = true ∧
    ProcedureGraph.ofDefinition p = .ok g ∧ ofText (write p.document) = .ok p ∧
    ∃ q, ofText (write g.definition.document) = .ok q ∧ ProcedureGraph.ofDefinition q = .ok g := by
  obtain ⟨p, h, hint, -, hvalid⟩ := ofText_scriptText
  have hgraph : ProcedureGraph.ofDefinition p = .ok ⟨p, hvalid⟩ := dif_pos hvalid
  obtain ⟨hread, hsame⟩ := ofText_write h hint
  exact ⟨p, ⟨p, hvalid⟩, h, hint, hgraph, hread, hsame _ hgraph⟩

/-- **Through JSON.** A definition that was read of some text, and has no doubles, is read back from
its form in JSON where its texts are the same in a document as in JSON; but this form is no document
when it holds a character that no document may hold. -/
theorem ofText_jsonText {text : String} (h : ofText text = .ok p)
    (hint : p.document.isIntegral = true) :
    (isCommon p.document = true → ofText p.jsonText = .ok p) ∧
      ((∃ c ∈ p.jsonText.toList, isAllowed c = false) →
        ofText p.jsonText = .error .notAValue) := by
  refine ⟨fun hcommon => ?_, fun hrefused => ?_⟩
  · exact ofText_of_node faithful_quotedStyle (held_of_ofText h) hint
      (Node.ofText_pretty_obj hint hcommon)
  · have hnode : Node.ofText p.jsonText = .error .character := Node.ofText_pretty_refused hrefused
    rw [ofText, hnode]

/-- The script again, in JSON. -/
theorem ofText_jsonText_script : ∃ p, ofText scriptText = .ok p ∧ p.document.isIntegral = true ∧
    isCommon p.document = true ∧ ofText p.jsonText = .ok p := by
  obtain ⟨p, h, hint, hcommon, -⟩ := ofText_scriptText
  exact ⟨p, h, hint, hcommon, (ofText_jsonText h hint).1 hcommon⟩

/-- The delete character has no escape in JSON, but no document may hold it. -/
theorem jsonText_delete : ∃ p, ofText "name: \"\\x7f\"\n" = .ok p ∧ p.document.isIntegral = true ∧
    ofText p.jsonText ≠ .ok p := by
  obtain ⟨p, h, hp⟩ : ∃ p, ofText "name: \"\\x7f\"\n" = .ok p ∧
      (p.document.isIntegral && (ofText p.jsonText).toOption.isNone) = true :=
    exists_of_check (by decide +kernel)
  rw [Bool.and_eq_true] at hp
  exact ⟨p, h, hp.1, fun heq => by simp [heq, Except.toOption] at hp⟩

end ProcedureDefinition
end Runbook

import Runbook.Execution
import Runbook.Proofs.Execution.Identifier
import Runbook.Proofs.Json.Record
import Runbook.Proofs.Procedure.Entries
import Runbook.Proofs.Time.Reading

/-!
# Records of runs and definitions through values

Whatever is written as a value is decoded as it was: one lemma for each record, from the statuses and
results of steps up to contexts, executions and definitions. A record is written as entries of which
each is read as the field of the record (`Decode.ReadsAs`), so its proof says what the entries have
under each name and how that is read. An execution is read back when its identifier has 128 bits and
its times can be written (`Execution.Proper`), and what is decoded of any value is such an execution
(`Execution.proper_of_decode`); so both go through values unchanged (`roundTrip`).
-/

namespace Runbook

open Decode

/-! ## Steps -/

theorem Status.decode_toJson (s : Status) : Status.decode s.toJson = .ok s := by
  cases s <;> rfl

namespace StepResult

theorem decode_toJson (r : StepResult) : decode r.toJson = .ok r := by
  obtain ⟨entries, hentries⟩ : ∃ entries, [("status", r.status.toJson), ("message", .str r.message),
    ("data", r.data), ("duration_ms", Json.ofNat r.durationMs)] = entries := ⟨_, rfl⟩
  obtain ⟨hstatus, hmessage, hdata, hduration⟩ :
      Table.get? "status" entries = some r.status.toJson ∧
        Table.get? "message" entries = some (.str r.message) ∧
        Table.get? "data" entries = some r.data ∧
        Table.get? "duration_ms" entries = some (.ofNat r.durationMs) := by
    simp [← hentries, Table.get?]
  have hstatus : ReadsAs entries "status" Status.decode none r.status :=
    .of_some hstatus r.status.decode_toJson
  have hmessage : ReadsAs entries "message" text (some "") r.message := .of_some hmessage rfl
  have hdata : ReadsAs entries "data" any (some .null) r.data := .of_some hdata rfl
  have hduration : ReadsAs entries "duration_ms" unsigned (some 0) r.durationMs :=
    .of_some hduration (unsigned_ofNat _)
  obtain ⟨fs, hfs, hget⟩ := record_ofFields "StepResult" fields entries (by simp [← hentries]) (by
    simp only [fields, List.forall_mem_cons]
    exact ⟨hstatus.fits fun _ => rfl, hmessage.fits (absurd · (by decide)),
      hdata.fits (absurd · (by decide)), hduration.fits (absurd · (by decide)),
      List.forall_mem_nil _⟩)
  simp only [fields, field, List.map_cons, List.forall_mem_cons] at hget
  obtain ⟨hs, hm, hd, ht, -⟩ := hget
  rw [toJson, hentries]
  exact bind_eq_ok.2 ⟨fs, hfs, bind_eq_ok.2 ⟨_, hstatus.get hs, bind_eq_ok.2 ⟨_, hmessage.getD hm,
    bind_eq_ok.2 ⟨_, hdata.getD hd, bind_eq_ok.2 ⟨_, hduration.getD ht, rfl⟩⟩⟩⟩⟩

end StepResult

/-! ## Visits and contexts -/

namespace Visit

/-- A visit whose times can be written. -/
structure Proper (v : Visit) : Prop where
  started : v.started.Proper
  finished : v.finished.Proper

theorem instant_text {t : Instant} (h : t.Proper) : instant (.str t.text) = .ok t := by
  rw [instant, Instant.parse_text h]

theorem proper_of_instant {v : Json} {t : Instant} (h : instant v = .ok t) : t.Proper := by
  unfold instant at h
  split at h
  · split at h
    · rename_i hparse
      cases h
      exact Instant.proper_of_parse hparse
    · cases h
  · cases h

theorem decode_toJson {v : Visit} (h : v.Proper) : decode v.toJson = .ok v := by
  obtain ⟨entries, hentries⟩ : ∃ entries, [("step_id", .str v.step),
    ("started_at", .str v.started.text), ("finished_at", Json.str v.finished.text)] = entries :=
    ⟨_, rfl⟩
  obtain ⟨hstep, hstarted, hfinished⟩ : Table.get? "step_id" entries = some (.str v.step) ∧
      Table.get? "started_at" entries = some (.str v.started.text) ∧
      Table.get? "finished_at" entries = some (.str v.finished.text) := by
    simp [← hentries, Table.get?]
  have hstep : ReadsAs entries "step_id" text none v.step := .of_some hstep rfl
  have hstarted : ReadsAs entries "started_at" instant none v.started :=
    .of_some hstarted (instant_text h.started)
  have hfinished : ReadsAs entries "finished_at" instant none v.finished :=
    .of_some hfinished (instant_text h.finished)
  obtain ⟨fs, hfs, hget⟩ := record_ofFields "HistoryEntry"
    [field "step_id" .required text, field "started_at" .required instant,
      field "finished_at" .required instant] entries (by simp [← hentries]) (by
    simp only [List.forall_mem_cons]
    exact ⟨hstep.fits fun _ => rfl, hstarted.fits fun _ => rfl, hfinished.fits fun _ => rfl,
      List.forall_mem_nil _⟩)
  simp only [field, List.map_cons, List.forall_mem_cons] at hget
  obtain ⟨hn, hs, hf, -⟩ := hget
  rw [toJson, hentries]
  exact bind_eq_ok.2 ⟨fs, hfs, bind_eq_ok.2 ⟨_, hstep.get hn, bind_eq_ok.2 ⟨_, hstarted.get hs,
    bind_eq_ok.2 ⟨_, hfinished.get hf, rfl⟩⟩⟩⟩

theorem proper_of_decode {w : Json} {v : Visit} (h : decode w = .ok v) : v.Proper := by
  obtain ⟨_, -, h⟩ := bind_eq_ok.1 h
  obtain ⟨_, -, h⟩ := bind_eq_ok.1 h
  obtain ⟨started, hstarted, h⟩ := bind_eq_ok.1 h
  obtain ⟨finished, hfinished, h⟩ := bind_eq_ok.1 h
  cases h
  obtain ⟨_, -, hstarted⟩ := get_eq_ok.1 hstarted
  obtain ⟨_, -, hfinished⟩ := get_eq_ok.1 hfinished
  exact ⟨proper_of_instant hstarted, proper_of_instant hfinished⟩

end Visit

namespace Context

theorem decode_resultsJson (rs : Table StepResult) :
    table StepResult.decode (resultsJson rs) = .ok rs :=
  table_map fun e _ => e.2.decode_toJson

theorem decode_toJson {c : Context} (h : ∀ v ∈ c.history, v.Proper) : decode c.toJson = .ok c := by
  obtain ⟨entries, hentries⟩ : ∃ entries, [("globals", .obj c.globals), ("devices", c.devicesJson),
    ("step_results", .obj (c.stepResults.map fun e => (e.1, resultsJson e.2))),
    ("step_status", .obj (c.stepStatus.map fun e => (e.1, e.2.toJson))),
    ("history", Json.arr (c.history.map Visit.toJson))] = entries := ⟨_, rfl⟩
  obtain ⟨hglobals, hdevices, hresults, hstatus, hhistory⟩ :
      Table.get? "globals" entries = some (.obj c.globals) ∧
        Table.get? "devices" entries = some c.devicesJson ∧
        Table.get? "step_results" entries =
          some (.obj (c.stepResults.map fun e => (e.1, resultsJson e.2))) ∧
        Table.get? "step_status" entries =
          some (.obj (c.stepStatus.map fun e => (e.1, e.2.toJson))) ∧
        Table.get? "history" entries = some (.arr (c.history.map Visit.toJson)) := by
    simp [← hentries, Table.get?]
  have hglobals : ReadsAs entries "globals" object (some []) c.globals := .of_some hglobals rfl
  have hdevices : ReadsAs entries "devices" (table object) (some []) c.devices :=
    .of_some hdevices (table_map fun _ _ => rfl)
  have hresults : ReadsAs entries "step_results" decodeResults (some []) c.stepResults :=
    .of_some hresults (table_map fun e _ => decode_resultsJson e.2)
  have hstatus : ReadsAs entries "step_status" (table Status.decode) (some []) c.stepStatus :=
    .of_some hstatus (table_map fun e _ => e.2.decode_toJson)
  have hhistory : ReadsAs entries "history" (list Visit.decode) (some []) c.history :=
    .of_some hhistory (list_map fun v hv => Visit.decode_toJson (h v hv))
  obtain ⟨fs, hfs, hget⟩ := record_ofFields "ExecutionContext"
    [field "globals" .defaulted object, field "devices" .defaulted (table object),
      field "step_results" .defaulted decodeResults,
      field "step_status" .defaulted (table Status.decode),
      field "history" .defaulted (list Visit.decode)] entries (by simp [← hentries]) (by
    simp only [List.forall_mem_cons]
    exact ⟨hglobals.fits (absurd · (by decide)), hdevices.fits (absurd · (by decide)),
      hresults.fits (absurd · (by decide)), hstatus.fits (absurd · (by decide)),
      hhistory.fits (absurd · (by decide)), List.forall_mem_nil _⟩)
  simp only [field, List.map_cons, List.forall_mem_cons] at hget
  obtain ⟨hg, hd, hr, hs, hh, -⟩ := hget
  have hvalue : c.toJson = .ofFields entries := by
    rw [← hentries]
    rfl
  rw [hvalue]
  exact bind_eq_ok.2 ⟨fs, hfs, bind_eq_ok.2 ⟨_, hglobals.getD hg, bind_eq_ok.2 ⟨_, hdevices.getD hd,
    bind_eq_ok.2 ⟨_, hresults.getD hr, bind_eq_ok.2 ⟨_, hstatus.getD hs,
    bind_eq_ok.2 ⟨_, hhistory.getD hh, rfl⟩⟩⟩⟩⟩⟩

theorem proper_of_decode {v : Json} {c : Context} (h : decode v = .ok c) :
    ∀ w ∈ c.history, w.Proper := by
  obtain ⟨_, -, h⟩ := bind_eq_ok.1 h
  obtain ⟨_, -, h⟩ := bind_eq_ok.1 h
  obtain ⟨_, -, h⟩ := bind_eq_ok.1 h
  obtain ⟨_, -, h⟩ := bind_eq_ok.1 h
  obtain ⟨_, -, h⟩ := bind_eq_ok.1 h
  obtain ⟨history, hhistory, h⟩ := bind_eq_ok.1 h
  cases h
  rcases getD_eq_ok hhistory with rfl | ⟨_, -, hlist⟩
  · exact List.forall_mem_nil _
  · intro w hw
    obtain ⟨_, hvisit⟩ := of_list hlist w hw
    exact Visit.proper_of_decode hvisit

end Context

/-! ## Executions -/

theorem RunStatus.decode_toJson (s : RunStatus) : RunStatus.decode s.toJson = .ok s := by
  cases s <;> rfl

theorem StepRecord.decode_toJson (r : StepRecord) : StepRecord.decode r.toJson = .ok r := by
  obtain ⟨entries, hentries⟩ : ∃ entries, [("step_id", .str r.step), ("result", r.result.toJson)] ++
    optionalField "device" .str r.device = entries := ⟨_, rfl⟩
  have hkeys : (entries.map (·.1)).Nodup := by
    have hsublist : (entries.map (·.1)).Sublist (["step_id", "result"] ++ ["device"]) := by
      rw [← hentries, List.map_append]
      exact (List.Sublist.refl _).append keys_optionalField
    exact hsublist.nodup (by decide)
  obtain ⟨hstep, hresult, hdevice⟩ : Table.get? "step_id" entries = some (.str r.step) ∧
      Table.get? "result" entries = some r.result.toJson ∧
      Table.get? "device" entries = r.device.map .str := by
    simp [← hentries, get?_optionalField, Table.get?]
  have hstep : ReadsAs entries "step_id" text none r.step := .of_some hstep rfl
  have hresult : ReadsAs entries "result" StepResult.decode none r.result :=
    .of_some hresult r.result.decode_toJson
  have hdevice : ReadsAs entries "device" (Decode.optional text) (some none) r.device :=
    .optional hdevice fun _ _ => ⟨rfl, Json.noConfusion⟩
  obtain ⟨fs, hfs, hget⟩ := record_ofFields "StepRecord"
    [field "step_id" .required text, field "device" .optional (Decode.optional text),
      field "result" .required StepResult.decode] entries hkeys (by
    simp only [List.forall_mem_cons]
    exact ⟨hstep.fits fun _ => rfl, hdevice.fits (absurd · (by decide)), hresult.fits fun _ => rfl,
      List.forall_mem_nil _⟩)
  simp only [field, List.map_cons, List.forall_mem_cons] at hget
  obtain ⟨hs, hd, hr, -⟩ := hget
  have hvalue : r.toJson = .ofFields entries := by
    rw [← hentries]
    rfl
  rw [hvalue]
  exact bind_eq_ok.2 ⟨fs, hfs, bind_eq_ok.2 ⟨_, hstep.get hs, bind_eq_ok.2 ⟨_, hdevice.getD hd,
    bind_eq_ok.2 ⟨_, hresult.get hr, rfl⟩⟩⟩⟩

namespace Execution

/-- An execution that can be written: its identifier has 128 bits, and its times are proper. -/
structure Proper (x : Execution) : Prop where
  id : x.id.bits < 2 ^ 128
  started : ∀ t ∈ x.startedAt, t.Proper
  completed : ∀ t ∈ x.completedAt, t.Proper
  history : ∀ v ∈ x.context.history, v.Proper

theorem identifier_text {i : Identifier} (h : i.bits < 2 ^ 128) :
    identifier (.str i.text) = .ok i := by
  rw [identifier, Identifier.parse_text h]

theorem lt_of_identifier {v : Json} {i : Identifier} (h : identifier v = .ok i) :
    i.bits < 2 ^ 128 := by
  unfold identifier at h
  split at h
  · split at h
    · rename_i hparse
      cases h
      exact Identifier.lt_of_parse hparse
    · cases h
  · cases h

/-- **An execution** is read back from its value. -/
theorem decode_toJson {x : Execution} (h : x.Proper) : decode x.toJson = .ok x := by
  obtain ⟨entries, hentries⟩ : ∃ entries, [("execution_id", .str x.id.text),
    ("procedure", .str x.procedure), ("status", x.status.toJson),
    ("log", .arr (x.log.map StepRecord.toJson)), ("visited", .ofStrings x.visited),
    ("context", x.context.toJson)] ++ optionalField "started_at" (fun t => .str t.text) x.startedAt ++
    optionalField "completed_at" (fun t => .str t.text) x.completedAt ++
    optionalField "error" .str x.error = entries := ⟨_, rfl⟩
  have hvalue : x.toJson = .ofFields entries := by
    rw [← hentries]
    simp only [toJson, optionalField, Option.map_map]
    rfl
  have hkeys : (entries.map (·.1)).Nodup := by
    have hsublist : (entries.map (·.1)).Sublist (["execution_id", "procedure", "status", "log",
        "visited", "context"] ++ ["started_at"] ++ ["completed_at"] ++ ["error"]) := by
      rw [← hentries, List.map_append, List.map_append, List.map_append]
      exact (((List.Sublist.refl _).append keys_optionalField).append keys_optionalField).append
        keys_optionalField
    exact hsublist.nodup (by decide)
  obtain ⟨⟨hid, hprocedure, hstatus, hlog, hvisited, hcontext⟩, hstarted, hcompleted, herror⟩ :
      (Table.get? "execution_id" entries = some (.str x.id.text) ∧
        Table.get? "procedure" entries = some (.str x.procedure) ∧
        Table.get? "status" entries = some x.status.toJson ∧
        Table.get? "log" entries = some (.arr (x.log.map StepRecord.toJson)) ∧
        Table.get? "visited" entries = some (.ofStrings x.visited) ∧
        Table.get? "context" entries = some x.context.toJson) ∧
      Table.get? "started_at" entries = x.startedAt.map (fun t => .str t.text) ∧
        Table.get? "completed_at" entries = x.completedAt.map (fun t => .str t.text) ∧
        Table.get? "error" entries = x.error.map .str := by
    simp [← hentries, Table.get?_append, get?_optionalField, Table.get?]
  have hid : ReadsAs entries "execution_id" identifier none x.id :=
    .of_some hid (identifier_text h.id)
  have hprocedure : ReadsAs entries "procedure" text none x.procedure := .of_some hprocedure rfl
  have hstatus : ReadsAs entries "status" RunStatus.decode none x.status :=
    .of_some hstatus x.status.decode_toJson
  have hstarted : ReadsAs entries "started_at" (Decode.optional Visit.instant) (some none)
      x.startedAt :=
    .optional hstarted fun t ht => ⟨Visit.instant_text (h.started t ht), Json.noConfusion⟩
  have hcompleted : ReadsAs entries "completed_at" (Decode.optional Visit.instant) (some none)
      x.completedAt :=
    .optional hcompleted fun t ht => ⟨Visit.instant_text (h.completed t ht), Json.noConfusion⟩
  have hlog : ReadsAs entries "log" (list StepRecord.decode) none x.log :=
    .of_some hlog (list_map fun r _ => r.decode_toJson)
  have hvisited : ReadsAs entries "visited" (list text) none x.visited :=
    .of_some hvisited (list_texts _)
  have herror : ReadsAs entries "error" (Decode.optional text) (some none) x.error :=
    .optional herror fun _ _ => ⟨rfl, Json.noConfusion⟩
  have hcontext : ReadsAs entries "context" Context.decode none x.context :=
    .of_some hcontext (Context.decode_toJson h.history)
  obtain ⟨fs, hfs, hget⟩ := record_ofFields "Execution"
    [field "execution_id" .required identifier, field "procedure" .required text,
      field "status" .required RunStatus.decode,
      field "started_at" .optional (Decode.optional Visit.instant),
      field "completed_at" .optional (Decode.optional Visit.instant),
      field "log" .required (list StepRecord.decode), field "visited" .required (list text),
      field "error" .optional (Decode.optional text), field "context" .required Context.decode]
    entries hkeys (by
    simp only [List.forall_mem_cons]
    exact ⟨hid.fits fun _ => rfl, hprocedure.fits fun _ => rfl, hstatus.fits fun _ => rfl,
      hstarted.fits (absurd · (by decide)), hcompleted.fits (absurd · (by decide)),
      hlog.fits fun _ => rfl, hvisited.fits fun _ => rfl, herror.fits (absurd · (by decide)),
      hcontext.fits fun _ => rfl, List.forall_mem_nil _⟩)
  simp only [field, List.map_cons, List.forall_mem_cons] at hget
  obtain ⟨hi, hp, hs, hb, hc, hl, hv, he, hx, -⟩ := hget
  rw [hvalue]
  exact bind_eq_ok.2 ⟨fs, hfs, bind_eq_ok.2 ⟨_, hid.get hi, bind_eq_ok.2 ⟨_, hprocedure.get hp,
    bind_eq_ok.2 ⟨_, hstatus.get hs, bind_eq_ok.2 ⟨_, hstarted.getD hb,
    bind_eq_ok.2 ⟨_, hcompleted.getD hc, bind_eq_ok.2 ⟨_, hlog.get hl,
    bind_eq_ok.2 ⟨_, hvisited.get hv, bind_eq_ok.2 ⟨_, herror.getD he,
    bind_eq_ok.2 ⟨_, hcontext.get hx, rfl⟩⟩⟩⟩⟩⟩⟩⟩⟩⟩

/-- **What is decoded** of a value is an execution that can be written. -/
theorem proper_of_decode {v : Json} {x : Execution} (h : decode v = .ok x) : x.Proper := by
  obtain ⟨_, -, h⟩ := bind_eq_ok.1 h
  obtain ⟨id, hid, h⟩ := bind_eq_ok.1 h
  obtain ⟨_, -, h⟩ := bind_eq_ok.1 h
  obtain ⟨_, -, h⟩ := bind_eq_ok.1 h
  obtain ⟨started, hstarted, h⟩ := bind_eq_ok.1 h
  obtain ⟨completed, hcompleted, h⟩ := bind_eq_ok.1 h
  obtain ⟨_, -, h⟩ := bind_eq_ok.1 h
  obtain ⟨_, -, h⟩ := bind_eq_ok.1 h
  obtain ⟨_, -, h⟩ := bind_eq_ok.1 h
  obtain ⟨context, hcontext, h⟩ := bind_eq_ok.1 h
  cases h
  have hproper {fs : Fields} {name : String} {o : Option Instant}
      (ho : getD fs name (Decode.optional Visit.instant) none = .ok o) : ∀ t ∈ o, t.Proper := by
    intro t ht
    rcases getD_eq_ok ho with rfl | ⟨_, -, hinstant⟩
    · cases ht
    · exact Visit.proper_of_instant (of_optional hinstant t ht)
  obtain ⟨_, -, hid⟩ := get_eq_ok.1 hid
  obtain ⟨_, -, hcontext⟩ := get_eq_ok.1 hcontext
  exact ⟨lt_of_identifier hid, hproper hstarted, hproper hcompleted,
    Context.proper_of_decode hcontext⟩

end Execution

/-! ## Definitions -/

theorem StepDefinition.decode_toJson (s : StepDefinition) :
    StepDefinition.decode s.toJson = .ok s := by
  obtain ⟨⟨hname, hid, htype, hparams⟩, hsuccess, hfailure, hdevices, htimeout⟩ := get?_entries s
  have hname : ReadsAs s.entries "name" text none s.name := .of_some hname rfl
  have hid : ReadsAs s.entries "id" (Decode.optional text) (some none) s.id :=
    .optional hid fun _ _ => ⟨rfl, Json.noConfusion⟩
  have htype : ReadsAs s.entries "type" text none s.stepType := .of_some htype rfl
  have hparams : ReadsAs s.entries "params" object (some []) s.params := .of_some hparams rfl
  have hsuccess : ReadsAs s.entries "on_success" (Decode.optional text) (some none) s.onSuccess :=
    .optional hsuccess fun _ _ => ⟨rfl, Json.noConfusion⟩
  have hfailure : ReadsAs s.entries "on_failure" (Decode.optional text) (some none) s.onFailure :=
    .optional hfailure fun _ _ => ⟨rfl, Json.noConfusion⟩
  have hdevices : ReadsAs s.entries "devices" (Decode.optional (list text)) (some none) s.devices :=
    .optional hdevices fun _ _ => ⟨list_texts _, Json.noConfusion⟩
  have htimeout : ReadsAs s.entries "timeout_seconds" (Decode.optional unsigned) (some none)
      s.timeoutSeconds :=
    .optional htimeout fun _ _ => ⟨unsigned_ofNat _, Json.noConfusion⟩
  obtain ⟨fs, hfs, hget⟩ := record_ofFields "StepDefinition"
    [field "name" .required text, field "id" .defaulted (Decode.optional text),
      field "type" .required text, field "params" .defaulted object,
      field "on_success" .defaulted (Decode.optional text),
      field "on_failure" .defaulted (Decode.optional text),
      field "devices" .defaulted (Decode.optional (list text)),
      field "timeout_seconds" .defaulted (Decode.optional unsigned)] s.entries s.nodup_entries (by
    simp only [List.forall_mem_cons]
    exact ⟨hname.fits fun _ => rfl, hid.fits (absurd · (by decide)), htype.fits fun _ => rfl,
      hparams.fits (absurd · (by decide)), hsuccess.fits (absurd · (by decide)),
      hfailure.fits (absurd · (by decide)), hdevices.fits (absurd · (by decide)),
      htimeout.fits (absurd · (by decide)), List.forall_mem_nil _⟩)
  simp only [field, List.map_cons, List.forall_mem_cons] at hget
  obtain ⟨hn, hi, ht, hp, hs, hf, hd, hl, -⟩ := hget
  exact bind_eq_ok.2 ⟨fs, hfs, bind_eq_ok.2 ⟨_, hname.get hn, bind_eq_ok.2 ⟨_, hid.getD hi,
    bind_eq_ok.2 ⟨_, htype.get ht, bind_eq_ok.2 ⟨_, hparams.getD hp,
    bind_eq_ok.2 ⟨_, hsuccess.getD hs, bind_eq_ok.2 ⟨_, hfailure.getD hf,
    bind_eq_ok.2 ⟨_, hdevices.getD hd, bind_eq_ok.2 ⟨_, htimeout.getD hl, rfl⟩⟩⟩⟩⟩⟩⟩⟩⟩

/-- **A definition** is read back from its value. -/
theorem ProcedureDefinition.decode_toJson (p : ProcedureDefinition) :
    ProcedureDefinition.decode p.toJson = .ok p := by
  obtain ⟨hname, hdescription, hdevices, hvars, hsteps⟩ := get?_entries p StepDefinition.toJson
  have hkeys := p.nodup_entries StepDefinition.toJson
  rw [toJson]
  generalize p.entries StepDefinition.toJson = entries at *
  have hname : ReadsAs entries "name" text none p.name := .of_some hname rfl
  have hdescription : ReadsAs entries "description" (Decode.optional text) (some none)
      p.description :=
    .optional hdescription fun _ _ => ⟨rfl, Json.noConfusion⟩
  have hdevices : ReadsAs entries "devices" (list text) (some []) p.devices :=
    .of_some hdevices (list_texts _)
  have hvars : ReadsAs entries "variables" (Decode.optional object) (some none) p.vars :=
    .optional hvars fun _ _ => ⟨rfl, Json.noConfusion⟩
  have hsteps : ReadsAs entries "steps" (list StepDefinition.decode) (some []) p.steps :=
    .of_some hsteps (list_map fun s _ => s.decode_toJson)
  obtain ⟨fs, hfs, hget⟩ := record_ofFields "ProcedureDefinition"
    [field "name" .required text, field "description" .defaulted (Decode.optional text),
      field "devices" .defaulted (list text),
      field "variables" .defaulted (Decode.optional object),
      field "steps" .defaulted (list StepDefinition.decode)] entries hkeys (by
    simp only [List.forall_mem_cons]
    exact ⟨hname.fits fun _ => rfl, hdescription.fits (absurd · (by decide)),
      hdevices.fits (absurd · (by decide)), hvars.fits (absurd · (by decide)),
      hsteps.fits (absurd · (by decide)), List.forall_mem_nil _⟩)
  simp only [field, List.map_cons, List.forall_mem_cons] at hget
  obtain ⟨hn, hi, hd, hv, hs, -⟩ := hget
  exact bind_eq_ok.2 ⟨fs, hfs, bind_eq_ok.2 ⟨_, hname.get hn, bind_eq_ok.2 ⟨_, hdescription.getD hi,
    bind_eq_ok.2 ⟨_, hdevices.getD hd, bind_eq_ok.2 ⟨_, hvars.getD hv,
    bind_eq_ok.2 ⟨_, hsteps.getD hs, rfl⟩⟩⟩⟩⟩⟩

/-! ## Round trip -/

/-- **Through values.** An execution that can be written is read back from its value, and so is every
definition; and what is decoded of any value, written and decoded again is the same. -/
theorem records_roundTrip :
    (∀ x : Execution, x.Proper → Execution.decode x.toJson = .ok x) ∧
      (∀ p : ProcedureDefinition, ProcedureDefinition.decode p.toJson = .ok p) ∧
      (∀ v x, Execution.decode v = .ok x → Execution.decode x.toJson = .ok x) ∧
      ∀ v p, ProcedureDefinition.decode v = .ok p → ProcedureDefinition.decode p.toJson = .ok p := by
  refine ⟨fun x h => Execution.decode_toJson h, fun p => p.decode_toJson, fun v x h => ?_,
    fun v p _ => p.decode_toJson⟩
  exact Execution.decode_toJson (Execution.proper_of_decode h)

/-- A run that was started within a leap second and is not over. -/
def leapRun : Execution where
  id := ⟨255⟩
  procedure := "patrol"
  status := .running
  startedAt := some ⟨1483228799, 1500000000⟩
  log := [⟨"probe", none, .error "no reply"⟩]
  visited := ["probe"]
  context := { history := [⟨"probe", ⟨1483228799, 1500000000⟩, ⟨1483228800, 250⟩⟩] }

/-- Such a run is read back, with the fields that it leaves out. -/
theorem records_roundTrip_leapRun : leapRun.Proper ∧ Execution.decode leapRun.toJson = .ok leapRun ∧
    ∃ x, Execution.decode leapRun.toJson = .ok x ∧ Execution.decode x.toJson = .ok x := by
  have hstarted : (⟨1483228799, 1500000000⟩ : Instant).Proper :=
    ⟨.inr ⟨by decide, by decide⟩, by decide⟩
  have hfinished : (⟨1483228800, 250⟩ : Instant).Proper :=
    Instant.proper_of_year (by decide) (by decide)
  have hproper : leapRun.Proper := by
    refine ⟨by decide, fun t ht => ?_, fun t ht => ?_, fun v hv => ?_⟩
    · cases ht
      exact hstarted
    · cases ht
    · obtain rfl := List.mem_singleton.1 hv
      exact ⟨hstarted, hfinished⟩
  have hread := records_roundTrip.1 leapRun hproper
  exact ⟨hproper, hread, leapRun, hread, records_roundTrip.2.2.1 _ _ hread⟩

end Runbook

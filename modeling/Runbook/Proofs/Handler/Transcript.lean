import Runbook.Proofs.Handler.Answers
import Runbook.Proofs.Pattern.Line
import Runbook.Run.Step

/-!
# Transcripts of commands

A `command` step calls its commands one after another, until one is answered by a fault or exits
with an error. So the calls that it makes are a prefix of all its calls, and the answers to them
tell how it ends (`runAll_transcript`, by induction on the commands that are left). When all
commands exit cleanly, the step ends with a judgement on their outputs (`Accepts.judged`), in which
the patterns are taken for what they describe.
-/

namespace Runbook.Handler.Command

variable {send : Nat → CommandCall → Response CommandOutput} {device text : String}
  {timeout : Option Nat} {a : Answers} {cs : List String} {call : CommandCall}
  {calls : List CommandCall} {outputs : List CommandOutput} {o : CommandOutput} {n : Nat}
  {params : Json} {scope : Scope} {p : Params} {expect reject : Option (String × Pattern)}
  {mode : ParseMode} {out : String} {w : List Char}

/-! ## Answers to calls -/

/-- How the call with a number among some calls is answered. -/
def answer? (send : Nat → CommandCall → Response CommandOutput) (calls : List CommandCall)
    (n : Nat) : Option (Outcome CommandOutput) :=
  calls[n]?.map fun call => (send n call).outcome

/-- The first calls are answered by these outputs, each of a command that exits cleanly. -/
def AnswersCleanly (send : Nat → CommandCall → Response CommandOutput) (calls : List CommandCall)
    (outputs : List CommandOutput) : Prop :=
  ∀ n o, outputs[n]? = some o → answer? send calls n = some (.value o) ∧ o.exitedCleanly = true

theorem answersCleanly_nil : AnswersCleanly send calls [] := nofun

theorem AnswersCleanly.cons (ho : (send 0 call).outcome = .value o) (hc : o.exitedCleanly = true)
    (h : AnswersCleanly (fun n => send (n + 1)) calls outputs) :
    AnswersCleanly send (call :: calls) (o :: outputs) := by
  intro n o' hn
  cases n with
  | zero =>
    cases hn
    exact ⟨congrArg some ho, hc⟩
  | succ n => exact h n o' hn

/-- The answers with several more. -/
def Answers.append (a : Answers) (outputs : List CommandOutput) : Answers :=
  ⟨a.stdout ++ String.join (outputs.map (·.output)), a.outputs ++ outputs⟩

theorem Answers.append_nil : a.append [] = a := by simp [append]

theorem Answers.push_append : (a.push o).append outputs = a.append (o :: outputs) := by
  simp [append, push, String.append_assoc]

/-! ## Running commands -/

/-- How running commands ends after some outputs, told by the answer to the next call. -/
inductive Ends (a : Answers) (outputs : List CommandOutput) :
    Option (Outcome CommandOutput) → Outcome (Except StepResult Answers) → Prop where
  | done : Ends a outputs none (.value (.ok (a.append outputs)))
  | stopped {o : CommandOutput} (message : String) (h : o.exitedCleanly = false) :
      Ends a outputs (some (.value o))
        (.value (.error (.failed message (.ofFields (a.append (outputs ++ [o])).fields))))
  | fault (f : StepFault) : Ends a outputs (some (.fault f)) (.fault f)
  | panic (m : String) : Ends a outputs (some (.panic m)) (.panic m)

theorem Ends.push {x : Option (Outcome CommandOutput)} {y : Outcome (Except StepResult Answers)}
    (h : Ends (a.push o) outputs x y) : Ends a (o :: outputs) x y := by
  cases h with
  | done => exact Answers.push_append ▸ .done
  | stopped message h => exact Answers.push_append (a := a) ▸ .stopped message h
  | fault f => exact .fault f
  | panic m => exact .panic m

/-- **Commands are run** up to the first that is not answered by a clean exit. -/
theorem runAll_transcript (send : Nat → CommandCall → Response CommandOutput) (device : String)
    (timeout : Option Nat) (a : Answers) (cs : List String) :
    let calls := cs.map fun c => CommandCall.mk device c timeout
    let send' := fun n => send (a.outputs.length + n)
    ∃ outputs, AnswersCleanly send' calls outputs ∧
      (runAll send device timeout a cs).calls =
        (calls.take (outputs.length + 1)).map Event.command ∧
      Ends a outputs (answer? send' calls outputs.length)
        (runAll send device timeout a cs).outcome := by
  induction cs generalizing a with
  | nil =>
    have hdone : Ends a [] none (.value (.ok (a.append []))) := .done
    rw [Answers.append_nil] at hdone
    exact ⟨[], answersCleanly_nil, rfl, hdone⟩
  | cons c cs ih =>
    let call : CommandCall := ⟨device, c, timeout⟩
    let first := Timeline.await (send a.outputs.length call)
    have hcalls (t : Timeline (Except StepResult Answers)) :
        (Timeline.emit (.command call) >>= fun _ => t).calls = .command call :: t.calls :=
      Timeline.calls_bind rfl
    have houtcome (t : Timeline (Except StepResult Answers)) :
        (Timeline.emit (.command call) >>= fun _ => t).outcome = t.outcome := by
      rw [Timeline.bind_value rfl]
    intro calls send'
    rw [runAll_cons, hcalls, houtcome]
    cases ho : (send a.outputs.length call).outcome with
    | fault f =>
      rw [Timeline.bind_fault (t := first) ho]
      refine ⟨[], answersCleanly_nil, rfl, ?_⟩
      have hanswer : answer? send' calls 0 = some (.fault f) := congrArg some ho
      exact hanswer ▸ .fault f
    | panic m =>
      rw [Timeline.bind_panic (t := first) ho]
      refine ⟨[], answersCleanly_nil, rfl, ?_⟩
      have hanswer : answer? send' calls 0 = some (.panic m) := congrArg some ho
      exact hanswer ▸ .panic m
    | value o =>
      rw [Timeline.calls_bind (t := first) ho, Timeline.bind_value (t := first) ho]
      dsimp only
      unfold rest
      split
      · rename_i hclean
        obtain ⟨outputs, hanswers, hcs, hends⟩ := ih (a.push o)
        have hsend : (fun n => send ((a.push o).outputs.length + n)) = fun n => send' (n + 1) := by
          funext n
          simp only [send', Answers.push, List.length_append, List.length_singleton]
          congr 1
          omega
        rw [hsend] at hanswers hends
        exact ⟨o :: outputs, hanswers.cons ho hclean, congrArg (.command call :: ·) hcs, hends.push⟩
      · rename_i hclean
        refine ⟨[], answersCleanly_nil, rfl, ?_⟩
        have hanswer : answer? send' calls 0 = some (.value o) := congrArg some ho
        have hpush : a.push o = a.append [o] := by simp [Answers.push, Answers.append]
        rw [hpush]
        exact hanswer ▸ .stopped _ (Bool.eq_false_iff.2 hclean)

/-- The commands that end with no answer to a next call have all been answered. -/
theorem AnswersCleanly.length_eq (h : AnswersCleanly send calls outputs)
    (hn : answer? send calls outputs.length = none) : outputs.length = calls.length := by
  rw [answer?, Option.map_eq_none_iff, List.getElem?_eq_none_iff] at hn
  refine Nat.le_antisymm (Nat.le_of_not_lt fun hlt => ?_) hn
  obtain ⟨hlast, -⟩ := h calls.length _ (List.getElem?_eq_getElem hlt)
  rw [answer?, List.getElem?_eq_none (Nat.le_refl _)] at hlast
  cases hlast

/-! ## Judging the output -/

/-- The output is to be read as a JSON document and is none. -/
def Unreadable (mode : ParseMode) (out : String) : Prop :=
  mode = .json ∧ ∀ v, Json.read out ≠ .ok v

/-- The output holds no stretch that is expected. -/
def Misses (expect : Option (String × Pattern)) (out : String) : Prop :=
  ∃ x ∈ expect, ¬∃ i j, Pattern.Matches out.toList x.2 i j

/-- The output holds a stretch that is rejected. -/
def Hits (reject : Option (String × Pattern)) (out : String) : Prop :=
  ∃ x ∈ reject, ∃ i j, Pattern.Matches out.toList x.2 i j

theorem not_misses_none : ¬Misses none out := by simp [Misses]

theorem misses_some {q : Pattern} : Misses (some (text, q)) out ↔ q.occursIn out = false := by
  simp [Misses, ← Bool.not_eq_true, Pattern.occursIn_iff]

theorem not_hits_none : ¬Hits none out := by simp [Hits]

theorem hits_some {q : Pattern} : Hits (some (text, q)) out ↔ q.occursIn out = true := by
  simp [Hits, Pattern.occursIn_iff]

theorem parseOutput_unreadable (h : Unreadable mode out) :
    ∃ d, parseOutput mode out = .error (.invalidParams d) := by
  obtain ⟨rfl, hread⟩ := h
  cases hr : Json.read out with
  | ok v => exact absurd hr (hread v)
  | error e => exact ⟨_, by rw [parseOutput, hr]⟩

theorem parseOutput_readable (h : ¬Unreadable mode out) : ∃ v, parseOutput mode out = .ok v := by
  cases mode with
  | text | lines => exact ⟨_, rfl⟩
  | json =>
    obtain ⟨v, hv⟩ : ∃ v, Json.read out = .ok v := by simpa [Unreadable] using h
    exact ⟨v, by rw [parseOutput, hv]⟩

/-- The status and the message that follow from the patterns, the expected one first. -/
structure Verdict (expect reject : Option (String × Pattern)) (out : String) (r : StepResult) :
    Prop where
  failed_iff : r.status = .failed ↔ Misses expect out ∨ Hits reject out
  success_iff : r.status = .success ↔ ¬Misses expect out ∧ ¬Hits reject out
  missed : Misses expect out → ∃ text, expect.map (·.1) = some text ∧
    r.message = "Output did not match expected pattern '" ++ text ++ "'"
  hit : ¬Misses expect out → Hits reject out → ∃ text, reject.map (·.1) = some text ∧
    r.message = "Output matched rejected pattern '" ++ text ++ "'"

theorem verdict_of_misses (device : String) (reject : Option (String × Pattern)) {parsed : Json}
    (h : parseOutput mode a.stdout = .ok parsed) (hm : Misses expect a.stdout) :
    ∃ text, expect.map (·.1) = some text ∧ verdict device mode expect reject a =
        .ok (.failed ("Output did not match expected pattern '" ++ text ++ "'")
          (.ofFields (("parsed", parsed) :: a.fields))) := by
  match expect with
  | none => exact absurd hm not_misses_none
  | some (text, q) =>
    refine ⟨text, rfl, ?_⟩
    rw [verdict, h]
    simp [bind, Except.bind, misses_some.1 hm]
    rfl

/-- An expected pattern that is held has no say. -/
theorem verdict_of_not_misses {parsed : Json} (h : parseOutput mode a.stdout = .ok parsed)
    (hm : ¬Misses expect a.stdout) :
    verdict device mode expect reject a = verdict device mode none reject a := by
  match expect with
  | none => rfl
  | some (text, q) =>
    rw [misses_some, Bool.not_eq_false] at hm
    rw [verdict, verdict, h]
    simp [bind, Except.bind, hm]

theorem verdict_of_hits (device : String) {parsed : Json}
    (h : parseOutput mode a.stdout = .ok parsed) (hm : ¬Misses expect a.stdout)
    (hh : Hits reject a.stdout) :
    ∃ text, reject.map (·.1) = some text ∧ verdict device mode expect reject a =
        .ok (.failed ("Output matched rejected pattern '" ++ text ++ "'")
          (.ofFields (("parsed", parsed) :: a.fields))) := by
  match reject with
  | none => exact absurd hh not_hits_none
  | some (text, q) =>
    refine ⟨text, rfl, ?_⟩
    rw [verdict_of_not_misses h hm, verdict, h]
    simp [bind, Except.bind, hits_some.1 hh]
    rfl

theorem verdict_of_neither {parsed : Json} (h : parseOutput mode a.stdout = .ok parsed)
    (hm : ¬Misses expect a.stdout) (hh : ¬Hits reject a.stdout) :
    verdict device mode expect reject a =
        .ok (.success (toString a.outputs.length ++ " command(s) completed on " ++ device)
          (.ofFields (("parsed", parsed) :: a.fields))) := by
  rw [verdict_of_not_misses h hm, verdict, h]
  match reject with
  | none => rfl
  | some (text, q) =>
    rw [hits_some, Bool.not_eq_true] at hh
    simp [bind, Except.bind, hh]
    rfl

theorem verdict_of_parseOutput (device : String) (expect reject : Option (String × Pattern))
    {parsed : Json} (h : parseOutput mode a.stdout = .ok parsed) :
    ∃ r, verdict device mode expect reject a = .ok r ∧ Verdict expect reject a.stdout r ∧
      r.data = .ofFields (("parsed", parsed) :: a.fields) := by
  by_cases hm : Misses expect a.stdout
  · obtain ⟨text, ht, hv⟩ := verdict_of_misses device reject h hm
    exact ⟨_, hv, ⟨by simp [hm, StepResult.failed], by simp [hm, StepResult.failed],
      fun _ => ⟨text, ht, rfl⟩, fun hn => absurd hm hn⟩, rfl⟩
  · by_cases hh : Hits reject a.stdout
    · obtain ⟨text, ht, hv⟩ := verdict_of_hits device h hm hh
      exact ⟨_, hv, ⟨by simp [hh, StepResult.failed], by simp [hh, StepResult.failed],
        fun hn => absurd hn hm, fun _ _ => ⟨text, ht, rfl⟩⟩, rfl⟩
    · refine ⟨_, verdict_of_neither h hm hh, ⟨?_, ?_, fun hn => absurd hn hm,
        fun _ hn => absurd hn hh⟩, rfl⟩
      · simp [hm, hh, StepResult.success]
      · simp [hm, hh, StepResult.success]

/-! ## The whole step -/

/-- The step has a device and parameters that are valid, with these two patterns. -/
structure Accepts (params : Json) (scope : Scope) (device : String) (p : Params)
    (expect reject : Option (String × Pattern)) : Prop where
  device : scope.device = some device
  params : decode params = .ok p
  some : p.all ≠ []
  expect : patternOf "expect" p.expect = .ok expect
  reject : patternOf "reject" p.reject = .ok reject

/-- What follows the commands. -/
def conclude (device : String) (p : Params) (expect reject : Option (String × Pattern))
    (vars : Fields) : Except StepResult Answers → Timeline (StepResult × Fields)
  | .error r => pure (r, vars)
  | .ok a => do
    let r ← Timeline.ofExcept (verdict device p.parse expect reject a)
    pure (r, vars)

theorem readParams_eq_ok : readParams params = .ok p ↔ decode params = .ok p ∧ p.all ≠ [] := by
  constructor
  · intro h
    obtain ⟨q, hq, h⟩ := bind_eq_ok.1 h
    split at h
    · cases h
    · rename_i hne
      cases h
      exact ⟨decodeParams_eq_ok.1 hq, by simpa using hne⟩
  · rintro ⟨hp, hne⟩
    have hempty : ¬p.all.isEmpty = true := by simpa using hne
    refine bind_eq_ok.2 ⟨p, decodeParams_eq_ok.2 hp, ?_⟩
    rw [if_neg hempty]
    rfl

theorem run_of_accepts (send : Occasion → CommandCall → Response CommandOutput)
    (h : Accepts params scope device p expect reject) :
    (handler send).run params scope =
      runAll (fun n => send (scope.occasion n)) device p.timeout {} p.all >>=
        conclude device p expect reject scope.vars := by
  have hp := readParams_eq_ok.2 ⟨h.params, h.some⟩
  unfold handler
  simp only [h.device, hp, h.expect, h.reject, Timeline.ofExcept_ok_bind]
  rfl

theorem calls_conclude (x : Except StepResult Answers) :
    (conclude device p expect reject scope.vars x).calls = [] := by
  cases x with
  | error r => rfl
  | ok a =>
    rw [conclude]
    cases verdict device p.parse expect reject a <;> rfl

/-- **What all outputs come to** when every command exits cleanly. The patterns are read with the
flag for several lines: `^` and `$` around a text describe the lines that are this text. -/
structure Judged (p : Params) (expect reject : Option (String × Pattern)) (out : String)
    (outputs : List CommandOutput) (r : StepResult) : Prop where
  error_iff : r.status = .error ↔ Unreadable p.parse out
  verdict : ¬Unreadable p.parse out → Verdict expect reject out r
  data : ¬Unreadable p.parse out → ∃ parsed, parseOutput p.parse out = .ok parsed ∧
    r.data = .ofFields [("parsed", parsed), ("stdout", .str out),
      ("outputs", .arr (outputs.map CommandOutput.toJson))]
  expected_line : ∀ w, (∀ c ∈ w, Pattern.isPlain c = true) →
    p.expect = some ("^" ++ String.ofList w ++ "$") →
    (Misses expect out ↔ w ∉ Text.splitLineFeeds out.toList)
  rejected_line : ∀ w, (∀ c ∈ w, Pattern.isPlain c = true) →
    p.reject = some ("^" ++ String.ofList w ++ "$") →
    (Hits reject out ↔ w ∈ Text.splitLineFeeds out.toList)

theorem patternOf_line {name : String} (hw : ∀ c ∈ w, Pattern.isPlain c = true) :
    patternOf name (some ("^" ++ String.ofList w ++ "$")) =
      .ok (some ("^" ++ String.ofList w ++ "$", Pattern.line w)) := by
  rw [patternOf, Pattern.parseWith_line hw]

theorem resultOf_conclude_unreadable {t : Timeline (StepResult × Fields)}
    (ht : t.outcome = (conclude device p expect reject scope.vars (.ok a)).outcome)
    (h : Unreadable p.parse a.stdout) :
    ∃ d, Invocation.resultOf t = (StepFault.invalidParams d).result := by
  obtain ⟨d, hd⟩ := parseOutput_unreadable h
  have hv : verdict device p.parse expect reject a = .error (.invalidParams d) := by
    rw [verdict, hd]
    rfl
  refine ⟨d, ?_⟩
  rw [Invocation.resultOf, ht, conclude, hv]
  rfl

theorem resultOf_conclude_readable {t : Timeline (StepResult × Fields)}
    (ht : t.outcome = (conclude device p expect reject scope.vars (.ok a)).outcome)
    (h : ¬Unreadable p.parse a.stdout) :
    ∃ parsed, parseOutput p.parse a.stdout = .ok parsed ∧
      Verdict expect reject a.stdout (Invocation.resultOf t) ∧
      (Invocation.resultOf t).data = .ofFields (("parsed", parsed) :: a.fields) := by
  obtain ⟨parsed, hparsed⟩ := parseOutput_readable h
  obtain ⟨r, hr, hverdict, hdata⟩ := verdict_of_parseOutput device expect reject hparsed
  have hresult : Invocation.resultOf t = r := by
    rw [Invocation.resultOf, ht, conclude, hr]
    rfl
  exact ⟨parsed, hparsed, hresult ▸ hverdict, hresult ▸ hdata⟩

theorem Accepts.judged (h : Accepts params scope device p expect reject)
    {t : Timeline (StepResult × Fields)}
    (ht : t.outcome = (conclude device p expect reject scope.vars (.ok a)).outcome) :
    Judged p expect reject a.stdout a.outputs (Invocation.resultOf t) := by
  refine ⟨⟨fun he => ?_, fun hu => ?_⟩, fun hr => ?_, fun hr => ?_, fun w hw hs => ?_,
    fun w hw hs => ?_⟩
  · by_contra hr
    obtain ⟨_, -, hv, -⟩ := resultOf_conclude_readable ht hr
    -- Whether the patterns are met or not, the status says so.
    have hfailed := hv.failed_iff
    have hsuccess := hv.success_iff
    rw [he] at hfailed hsuccess
    have : ¬(Misses expect a.stdout ∨ Hits reject a.stdout) := fun hm => nomatch hfailed.2 hm
    exact nomatch hsuccess.2 (not_or.1 this)
  · obtain ⟨d, hd⟩ := resultOf_conclude_unreadable ht hu
    rw [hd]
    rfl
  · obtain ⟨_, -, hv, -⟩ := resultOf_conclude_readable ht hr
    exact hv
  · obtain ⟨parsed, hp, -, hd⟩ := resultOf_conclude_readable ht hr
    exact ⟨parsed, hp, hd⟩
  · have he := h.expect
    rw [hs, patternOf_line hw] at he
    cases he
    rw [misses_some, ← Pattern.occursIn_line hw, Bool.not_eq_true]
  · have he := h.reject
    rw [hs, patternOf_line hw] at he
    cases he
    rw [hits_some, Pattern.occursIn_line hw]

/-- **A `command` step**: it calls its commands in order on its device, up to the first that is not
answered by a clean exit, and nothing else. A fault or a breakdown of the transport is its own, an
exit with an error makes it failed with all outputs so far, and else it is judged by all outputs. -/
theorem run_transcript (send : Occasion → CommandCall → Response CommandOutput)
    (h : Accepts params scope device p expect reject) :
    let calls := p.all.map fun c => CommandCall.mk device c p.timeout
    let answers := fun n => send (scope.occasion n)
    let t := (handler send).run params scope
    let r := Invocation.resultOf t
    let stdout := fun outputs : List CommandOutput => String.join (outputs.map (·.output))
    ∃ outputs, AnswersCleanly answers calls outputs ∧
      t.calls = (calls.take (outputs.length + 1)).map Event.command ∧
      match answer? answers calls outputs.length with
      | some (.fault f) => t.outcome = .fault f
      | some (.panic m) => t.outcome = .panic m
      | some (.value o) => o.exitedCleanly = false ∧ r.status = .failed ∧
          r.data = .ofFields [("stdout", .str (stdout (outputs ++ [o]))),
            ("outputs", .arr ((outputs ++ [o]).map CommandOutput.toJson))]
      | none => outputs.length = calls.length ∧
          Judged p expect reject (stdout outputs) outputs r := by
  intro calls answers t r stdout
  let all := runAll answers device p.timeout {} p.all
  have ht : t = all >>= conclude device p expect reject scope.vars := run_of_accepts send h
  obtain ⟨outputs, hanswers, hcalls, hends⟩ := runAll_transcript answers device p.timeout {} p.all
  have hzero : (fun n => answers (({} : Answers).outputs.length + n)) = answers := by
    funext n
    rw [List.length_nil, Nat.zero_add]
  have happend (os : List CommandOutput) : Answers.append {} os = ⟨stdout os, os⟩ := by
    simp [Answers.append, stdout]
  rw [hzero] at hanswers hends
  refine ⟨outputs, hanswers, ?_⟩
  generalize hx : answer? answers calls outputs.length = x at hends
  generalize hy : all.outcome = y at hends
  -- Only a value is concluded from, and that makes no call.
  have hvalue {x} (hv : all.outcome = .value x) : t.calls = all.calls ∧
      t.outcome = (conclude device p expect reject scope.vars x).outcome := by
    rw [ht, Timeline.calls_bind hv, calls_conclude, Timeline.bind_value hv]
    exact ⟨List.append_nil _, rfl⟩
  cases hends with
  | done =>
    obtain ⟨hc, ho⟩ := hvalue hy
    have hjudged := h.judged ho
    rw [happend] at hjudged
    exact ⟨hc.trans hcalls, hanswers.length_eq hx, hjudged⟩
  | @stopped o message hexit =>
    obtain ⟨hc, ho⟩ := hvalue hy
    have hr : r = .failed message (.ofFields (Answers.append {} (outputs ++ [o])).fields) := by
      simp only [r, Invocation.resultOf, ho]
      rfl
    rw [happend] at hr
    exact ⟨hc.trans hcalls, hexit, hr ▸ rfl, hr ▸ rfl⟩
  | fault f =>
    rw [ht, Timeline.bind_fault hy]
    exact ⟨hcalls, rfl⟩
  | panic m =>
    rw [ht, Timeline.bind_panic hy]
    exact ⟨hcalls, rfl⟩

/-- A device on which one command fails. -/
def unruly (_ : Occasion) (call : CommandCall) : Response CommandOutput :=
  if call.command = "fail" then ⟨0, .value ⟨"bad\n", "", some 1⟩⟩
  else ⟨0, .value ⟨call.device ++ "\n", "", none⟩⟩

/-- No command is sent after one that fails. -/
theorem run_transcript_unruly :
    let params := Json.ofFields [("command", .str "show"),
      ("commands", .ofStrings ["fail", "reload"]), ("expect", .str "^r1$")]
    let scope : Scope := { (default : Scope) with device := some "r1" }
    let p : Params := ⟨some "show", ["fail", "reload"], some "^r1$", none, .text, none⟩
    Accepts params scope "r1" p (some ("^r1$", Pattern.line ['r', '1'])) none ∧
      ((handler unruly).run params scope).calls =
        [.command ⟨"r1", "show", none⟩, .command ⟨"r1", "fail", none⟩] := by
  intro params scope p
  have h : Accepts params scope "r1" p (some ("^r1$", Pattern.line ['r', '1'])) none :=
    ⟨rfl, rfl, by decide, patternOf_line (w := ['r', '1']) (by simp [Pattern.isPlain]), rfl⟩
  refine ⟨h, ?_⟩
  obtain ⟨outputs, hanswers, hcalls, hend⟩ := run_transcript unruly h
  match outputs with
  | [] => exact absurd hend.1 (by decide)
  | [_] => exact hcalls
  | _ :: o :: _ =>
    obtain ⟨hfail, hclean⟩ := hanswers 1 o rfl
    cases hfail
    exact absurd hclean (by decide)

end Runbook.Handler.Command

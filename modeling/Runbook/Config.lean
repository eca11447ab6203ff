import Runbook.Json.Basic

/-!
# Configuration

How often a step may be entered, how long an invocation may take and how many may go on at a time.
The settings come from variables of the environment with the prefix `MOP_`, whose names count in
any case after the prefix.
-/

namespace Runbook

/-- The settings of runs. -/
structure Config where
  maxStepVisits : Nat := 1
  stepTimeoutSecs : Nat := 300
  maxParallelDevices : Nat := 32
  deriving Repr, BEq, DecidableEq, Inhabited

namespace Config

/-- Why a text is no number of a width. -/
inductive NumberFault where
  | empty
  | invalidDigit
  | tooLarge
  deriving Repr, BEq, DecidableEq

/-- The wording of such a fault. -/
def NumberFault.message : NumberFault → String
  | .empty => "cannot parse integer from empty string"
  | .invalidDigit => "invalid digit found in string"
  | .tooLarge => "number too large to fit in target type"

/-- Why an environment gives no settings. -/
inductive Fault where
  | badNumber (cause : NumberFault) (value name : String)
  | duplicate (field : String)
  deriving Repr, BEq, DecidableEq

/-- The wording of a fault. -/
def Fault.message : Fault → String
  | .badNumber cause value name =>
    cause.message ++ " while parsing value '" ++ value ++ "' provided by " ++ name
  | .duplicate field => "duplicate field `" ++ field ++ "`"

/-- The number that digits denote after those already read; the first fault from the left wins. -/
def readDigits (bound n : Nat) : List Char → Except NumberFault Nat
  | [] => .ok n
  | c :: cs =>
    if c.isDigit then
      let m := n * 10 + (c.toNat - 48)
      if m < bound then readDigits bound m cs else .error .tooLarge
    else .error .invalidDigit

/-- The number below `bound` that a text denotes; a plus sign may stand in front. -/
def readNumber (bound : Nat) (s : String) : Except NumberFault Nat :=
  match s.toList with
  | [] => .error .empty
  | ['+'] => .error .invalidDigit
  | '+' :: cs => readDigits bound 0 cs
  | cs => readDigits bound 0 cs

/-- The prefix of the variables. -/
def variablePrefix : String := "MOP_"

/-- The characters without the prefix, removed as often as it stands in front; `fuel` bounds how
often. -/
def stripPrefix : Nat → List Char → List Char
  | 0, cs => cs
  | fuel + 1, cs =>
    if variablePrefix.toList.isPrefixOf cs then stripPrefix fuel (cs.drop variablePrefix.length)
    else cs

/-- The variables that concern the settings, by their names without the prefix. -/
def relevant (environment : List (String × String)) : List (String × String) :=
  environment.filterMap fun (k, v) =>
    if variablePrefix.toList.isPrefixOf k.toList then
      some (String.ofList (stripPrefix k.length k.toList), v)
    else none

/-- The settings with a variable applied; `seen` holds the fields that are already given. -/
def apply (seen : List String) (c : Config) (name value : String) :
    Except Fault (List String × Config) :=
  let field := name.map Char.toLower
  let set (bound : Nat) (put : Nat → Config) : Except Fault (List String × Config) :=
    if seen.contains field then .error (.duplicate field)
    else match readNumber bound value with
      | .ok n => .ok (field :: seen, put n)
      | .error e => .error (.badNumber e value name)
  match field with
  | "max_step_visits" => set (Nat.pow 2 32) fun n => { c with maxStepVisits := n }
  | "step_timeout_secs" => set (Nat.pow 2 64) fun n => { c with stepTimeoutSecs := n }
  | "max_parallel_devices" => set (Nat.pow 2 64) fun n => { c with maxParallelDevices := n }
  | _ => .ok (seen, c)

/-- The settings with all variables applied in order. -/
def applyAll : List String → Config → List (String × String) → Except Fault Config
  | _, c, [] => .ok c
  | seen, c, (k, v) :: rest =>
    match apply seen c k v with
    | .ok (seen, c) => applyAll seen c rest
    | .error e => .error e

/-- The settings brought to values that a run can go on with. -/
def normalized (c : Config) : Config :=
  { c with
    maxStepVisits := max c.maxStepVisits 1
    maxParallelDevices := max c.maxParallelDevices 1 }

/-- The settings of an environment. -/
def ofEnvironment (environment : List (String × String)) : Except Fault Config :=
  (applyAll [] {} (relevant environment)).map normalized

/-- The settings as a value. -/
def toJson (c : Config) : Json :=
  .ofFields [("max_step_visits", .ofNat c.maxStepVisits),
    ("step_timeout_secs", .ofNat c.stepTimeoutSecs),
    ("max_parallel_devices", .ofNat c.maxParallelDevices)]

end Config
end Runbook

import Runbook.Shell.Eval
import Runbook.Timeline

/-!
# The local shell

`Shell.send` runs a command for a device in a shell of the machine itself. The name of the device
is the value of `MOP_DEVICE`. Starting a shell takes a millisecond; commands take the time for which
they wait.
-/

namespace Runbook.Shell

/-- How a shell is started. -/
structure Launch where
  shell : String := "bash"
  /-- The directory in which it starts, when it is not that of the host. -/
  directory : Option String := none
  /-- Variables that are added to the environment. -/
  environment : Table String := []
  deriving Inhabited

/-- The variable that names the device. -/
def deviceVariable : String := "MOP_DEVICE"

/-- What a shell or program has written when it ends, and how it ends. -/
structure Finished where
  output : List Nat
  errors : List Nat
  /-- The status; none after a signal. -/
  status : Option Nat
  elapsed : Nat
  deriving Inhabited

/-- How many steps of recursion a shell may take. -/
def depth : Nat := 6000

/-- Whether a file of a path can be started; a name without a slash is looked for among the
programs. -/
def startable (h : Host) (directory name : String) : Except SystemFault Unit :=
  let isKnown (n : String) : Bool :=
    (Dialect.ofName? n).isSome || ((Program.find? n).isSome && n != ":")
  if name.toList.contains '/' then
    match (Program.ofFile? (Path.resolve directory name)).map isKnown with
    | some true => .ok ()
    | _ =>
      match h.enter directory name, h.read directory name with
      | .ok _, _ => .error .denied
      | _, .ok _ => .error .denied
      | .error f, _ => .error f
  else if isKnown name then .ok ()
  else .error .missing

/-- The session in which a command for a device starts; the reason when it cannot start. -/
def Launch.session (l : Launch) (h : Host) (device command : String) : Except String Session := do
  let system (f : SystemFault) : String :=
    f.message ++ " (os error " ++ toString f.number ++ ")"
  let texts :=
    l.shell :: device :: command :: l.directory.toList ++
      l.environment.flatMap fun (k, v) => [k, v]
  if texts.any fun t => t.toList.contains '\x00' then throw "nul byte found in provided data"
  let directory ← match l.directory with
    | none => pure h.directory
    | some d => (h.enter h.directory d).mapError system
  (startable h directory l.shell).mapError system
  let environment := l.environment.foldl (fun t (k, v) => Table.insert k v t) h.environment
  let environment := Table.insert "PWD" directory (Table.insert deviceVariable device environment)
  return {
    dialect := (Dialect.ofName? (Path.base l.shell)).getD .bash
    name := l.shell
    vars := environment.map fun (k, v) => (k, ⟨v, true⟩)
    directory
    host := h }

/-- Runs a command in a session; a program that is no shell is called with the arguments that a
shell would get. -/
def Session.finish (s : Session) (command : String) : Finished :=
  let run : Run Unit :=
    match Dialect.ofName? (Path.base s.name), Program.find? s.name with
    | none, some p => Run.program p (Path.base s.name) ["-c", command]
    | _, _ => Run.shell depth ⟨command.toList, 1⟩
  let (status, t) : Option Nat × Session :=
    match run s with
    | .ok _ t => (some t.status, t)
    | .error .killed t => (none, t)
    | .error _ t => (some t.status, t)
  let channel (n : Nat) : Stream := t.channels.getD n {}
  let late := if (channel 0).isEndless || (channel 1).isEndless then forever else 0
  { output := (channel 0).bytes
    errors := (channel 1).bytes
    status
    elapsed := t.elapsed + late }

/-- The answer that a transport gives; a signal counts as minus one. -/
def Finished.answer (f : Finished) : CommandOutput where
  output := Text.Utf8.decodeLossy f.output
  stderr := Text.Utf8.decodeLossy f.errors
  exitCode := some (match f.status with
    | some n => n
    | none => -1)

/-- Runs a command for a device, with a limit in milliseconds. -/
def send (h : Host) (l : Launch) (device command : String) (limit : Option Nat) :
    Timeline CommandOutput :=
  match l.session h device command with
  | .error reason => .fail (.transport ("Failed to spawn process: " ++ reason))
  | .ok s =>
    let f := s.finish command
    let t : Timeline CommandOutput := ⟨[], f.elapsed + 1, .value f.answer⟩
    match limit with
    | none => t
    | some ms => t.within ms (.fault (.timeout (ms / 1000)))

/-- The transport that runs every command in the local shell. -/
def transport (h : Host) (c : CommandCall) : Timeline CommandOutput :=
  send h {} c.device c.command (c.timeout.map (· * 1000))

end Runbook.Shell

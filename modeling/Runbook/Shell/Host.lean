import Runbook.Shell.Dialect
import Runbook.Shell.Stream
import Runbook.Table

/-!
# Hosts

What a shell finds on the machine it runs on: directories, files with their contents, and the
environment it inherits. Paths are resolved against the directory of the shell.
-/

namespace Runbook.Shell

/-- The machine that shells run on. -/
structure Host where
  /-- The directories, as absolute paths. -/
  directories : List String
  /-- The contents of files under their absolute paths. -/
  files : Table Stream
  environment : Table String
  /-- Where shells start. -/
  directory : String
  deriving Inhabited

/-- Why something cannot be opened or started. -/
inductive SystemFault where
  | missing
  | notDirectory
  | isDirectory
  | denied
  deriving Repr, BEq, DecidableEq, Inhabited

/-- The wording of a fault. -/
def SystemFault.message : SystemFault → String
  | .missing => "No such file or directory"
  | .notDirectory => "Not a directory"
  | .isDirectory => "Is a directory"
  | .denied => "Permission denied"

/-- The number of a fault. -/
def SystemFault.number : SystemFault → Nat
  | .missing => 2
  | .denied => 13
  | .notDirectory => 20
  | .isDirectory => 21

namespace Path

/-- The names in a path. -/
def names (path : String) : List String :=
  ((path.toList.splitBy fun a b => a != '/' && b != '/').filter fun n => n.all (· != '/')).map
    String.ofList

/-- The names of a path without those that stay in place or lead back. -/
def normal (ns : List String) : List String :=
  (ns.foldl (fun acc n =>
    if n == "." then acc else if n == ".." then acc.drop 1 else n :: acc) []).reverse

/-- Whether a path starts at the root. -/
def isAbsolute (path : String) : Bool := path.toList.head? == some '/'

/-- The absolute path that a path stands for in a directory. -/
def resolve (directory path : String) : String :=
  let ns := if isAbsolute path then names path else names directory ++ names path
  "/" ++ "/".intercalate (normal ns)

/-- The last name in a path. -/
def base (path : String) : String := ((names path).getLast?).getD path

end Path

namespace Host

/-- The devices and directories that every machine has. -/
def standard : Host where
  directories := ["/", "/bin", "/dev", "/etc", "/home", "/root", "/tmp", "/usr", "/usr/bin", "/var"]
  files := Table.ofList [("/dev/null", {}), ("/dev/zero", ⟨[], [0]⟩)]
  environment := Table.ofList
    [("HOME", "/root"), ("PATH", "/usr/local/sbin:/usr/local/bin:/usr/sbin:/usr/bin:/sbin:/bin")]
  directory := "/root"

/-- The contents of a file. -/
def read (h : Host) (directory path : String) : Except SystemFault Stream :=
  let full := Path.resolve directory path
  if path.isEmpty then .error .missing
  else if h.directories.contains full then .error .isDirectory
  else match Table.get? full h.files with
    | none => .error .missing
    | some s => if path.toList.getLast? == some '/' then .error .notDirectory else .ok s

/-- Checks that a path leads to a directory. -/
def enter (h : Host) (directory path : String) : Except SystemFault String :=
  let full := Path.resolve directory path
  if path.isEmpty then .error .missing
  else if h.directories.contains full then .ok full
  else if Table.has full h.files then .error .notDirectory
  else .error .missing

end Host
end Runbook.Shell

import Runbook.CommandLine

/-!
# The program

Reads the environment and the files that the arguments name, lets `CommandLine.perform` do the work
and writes what it answers. The commands of a procedure run in the shell of this library, on the
files that were read.
-/

namespace Runbook.Main

/-- The variables that null bytes separate. -/
def vars (bytes : List UInt8) : Table String :=
  let entries := (bytes.splitBy fun a b => a != 0 && b != 0).filter fun e => !e.contains 0
  Table.ofList <| entries.filterMap fun e =>
    let cs := (Text.Utf8.decodeLossy (e.map UInt8.toNat)).toList
    let name := cs.takeWhile (· != '=')
    if name.length < cs.length then
      some (String.ofList name, String.ofList (cs.drop (name.length + 1)))
    else none

/-- The contents of a file, if it can be read. -/
def contents? (path : String) : IO (Option (List UInt8)) := do
  try
    return some (← IO.FS.readBinFile path).toList
  catch _ => return none

/-- The files that arguments name. -/
def filesOf (arguments : List String) : List String :=
  match CommandLine.Request.ofArguments arguments with
  | .ok (.run file ..) | .ok (.validate file) => [file]
  | _ => []

/-- What the command line works on. -/
def surroundings (arguments : List String) : IO CommandLine.Surroundings := do
  let here ← IO.currentDir
  let directory := here.toString
  let mut files := Shell.Host.standard.files
  let mut directories := directory :: Shell.Host.standard.directories
  for file in CommandLine.Surroundings.variableFile :: filesOf arguments do
    let full := Shell.Path.resolve directory file
    match ← contents? full with
    | some bytes => files := Table.insert full ⟨bytes.map UInt8.toNat, []⟩ files
    | none => if ← (here / file).isDir then directories := full :: directories
  let environment := vars ((← contents? "/proc/self/environ").getD [])
  let moment := (← (here / "/proc/self").metadata).modified
  let random := (← IO.getRandomBytes 16).toList.map UInt8.toNat
  return {
    host := { directories, files, environment, directory }
    now := ⟨moment.sec, moment.nsec.toNat⟩
    run := .ofRandom random }

end Runbook.Main

/-- Does what the arguments ask for. -/
def main (arguments : List String) : IO UInt32 := do
  let o := Runbook.CommandLine.perform (← Runbook.Main.surroundings arguments) arguments
  IO.print o.text
  IO.eprint o.errors
  return o.code.toUInt32

import Runbook.CommandLine.Arguments

/-!
# Help

The texts that explain the commands and their options.
-/

namespace Runbook.CommandLine

/-- The name and version of the program. -/
def versionText : String := "mop 0.3.0\n"

/-- A list of names with what they stand for, in two columns. -/
def columns (rows : List (String × String)) : String :=
  let width := (rows.map fun r => r.1.length).foldl max 0
  String.join (rows.map fun (name, text) =>
    "  " ++ name ++ String.ofList (List.replicate (width - name.length + 2) ' ') ++ text ++ "\n")

/-- What a topic is about. -/
def Topic.about : Topic → String
  | .program => "Method of Procedure runner"
  | .verb .run => "Run a procedure document"
  | .verb .validate => "Validate a procedure document without running it"
  | .verb .handlers => "List the available step types and their parameters"
  | .help => "Print this message or the help of the given subcommand(s)"

/-- How a topic is used. -/
def Topic.usage : Topic → String
  | .program => "Usage: mop [OPTIONS] <COMMAND>"
  | .verb .run => "Usage: mop run [OPTIONS] <FILE>"
  | .verb .validate => "Usage: mop validate [OPTIONS] <FILE>"
  | .verb .handlers => "Usage: mop handlers [OPTIONS]"
  | .help => "Usage: mop help [COMMAND]..."

/-- The explanation of the file argument. -/
def fileHelp : String :=
  "\nArguments:\n" ++ columns [("<FILE>", "Path to a YAML or JSON procedure")]

/-- The option for logs. -/
def logOption : String × String := ("    --json", "Emit logs as JSON lines")

/-- The option for help. -/
def helpOption : String × String := ("-h, --help", "Print help")

/-- The arguments and options of a topic. -/
def Topic.details : Topic → String
  | .program =>
    "\nCommands:\n" ++
      columns [("run", (Topic.verb .run).about), ("validate", (Topic.verb .validate).about),
        ("handlers", (Topic.verb .handlers).about), ("help", Topic.help.about)] ++
      "\nOptions:\n" ++ columns [logOption, helpOption, ("-V, --version", "Print version")]
  | .verb .run =>
    fileHelp ++ "\nOptions:\n" ++
      columns [logOption,
        ("    --var <KEY=VALUE>",
          "Override a procedure variable (value parsed as JSON, else string)"),
        ("    --output <OUTPUT>",
          "Report format [default: summary] [possible values: json, summary]"),
        helpOption]
  | .verb .validate => fileHelp ++ "\nOptions:\n" ++ columns [logOption, helpOption]
  | .verb .handlers => "\nOptions:\n" ++ columns [logOption, helpOption]
  | .help => "\nArguments:\n" ++ columns [("[COMMAND]...", "Print help for the subcommand(s)")]

/-- The help on a topic. -/
def Topic.text (t : Topic) : String := t.about ++ "\n\n" ++ t.usage ++ "\n" ++ t.details

/-- What is told after arguments that ask for nothing. -/
def Misuse.report (m : Misuse) : String :=
  match m with
  | .nothing => Topic.program.text
  | m =>
    "error: " ++ m.message ++ "\n\n" ++ Topic.program.usage ++
      "\n\nFor more information, try '--help'.\n"

end Runbook.CommandLine

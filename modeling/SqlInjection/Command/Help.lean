import SqlInjection.Command.Arguments
import SqlInjection.Feedback.Upload

/-!
# Help

What the program tells about itself: its verbs, its arguments and its options.
-/

namespace SqlInjection.Command

/-- The name of the program. -/
def programName : Text := "sqlsentry".toList

/-- What a verb does. -/
def Verb.about : Verb → String
  | scan => "Scan for SQL injection risks"
  | fix => "Rewrite risky templates and add advisory comments where a rewrite is not possible"
  | init => "Write a sqlsentry.toml with the default settings"

/-- What the program does. -/
def programAbout : String :=
  "Find and fix SQL injection in Java string-built queries and MyBatis mappers"

/-- What asking for help does. -/
def helpVerbAbout : String := "Print this message or the help of the given subcommand(s)"

namespace Flag

/-- What an option is for. -/
def about : Flag → String
  | logLevel => "Log level (error, warn, info, debug, trace)"
  | format => "Output format: text or json"
  | output => "Output file path (default: stdout)"
  | failOnFindings => "Exit with code 1 when anything is reported"
  | dryRun => "Report what would change without writing"
  | help => "Print help"
  | version => "Print version"

/-- The value of an option that is not given. -/
def default? : Flag → Option String
  | logLevel => some "warn"
  | format => some "text"
  | _ => none

/-- The name of the value of an option. -/
def valueName : Flag → String
  | logLevel => "LOG_LEVEL"
  | format => "FORMAT"
  | output => "OUTPUT"
  | _ => ""

/-- How an option is written. -/
def usage (f : Flag) : Text :=
  let letter := match f.short? with
    | some c => '-' :: c :: ", ".toList
    | none => "    ".toList
  let value := if f.takesValue then " <".toList ++ f.valueName.toList ++ ['>'] else []
  letter ++ "--".toList ++ f.long.toList ++ value

/-- What is told about an option: what it is for, its default and its choices. -/
def description (f : Flag) : Text :=
  let default := match f.default? with
    | some d => " [default: ".toList ++ d.toList ++ [']']
    | none => []
  let choices := match f.choices? with
    | some ws => " [possible values: ".toList ++ Text.join ", ".toList (ws.map String.toList) ++ [']']
    | none => []
  f.about.toList ++ default ++ choices

/-- The options of a level in the order in which help lists them. -/
def listed : Level → List Flag
  | some .scan => [format, logLevel, output, failOnFindings, help]
  | level => all level

end Flag

/-- A table of two columns, under a heading. -/
def helpTable (heading : String) (rows : List (Text × Text)) : Text :=
  let width := (rows.map fun r => r.1.length).foldl max 0
  let row (r : Text × Text) : Text :=
    "  ".toList ++ r.1 ++ List.replicate (width - r.1.length + 2) ' ' ++ r.2 ++ ['\n']
  heading.toList ++ ":\n".toList ++ rows.flatMap row

/-- The table of a level's options. -/
def optionsHelp (level : Level) : Text :=
  helpTable "Options" ((Flag.listed level).map fun f => (f.usage, f.description))

/-- The table with the path. -/
def pathHelp : Text :=
  helpTable "Arguments"
    [("[PATH]".toList, "Path to repository (default: current directory) [default: .]".toList)]

/-- What the program does, and how it is called. -/
def helpHead (about : String) (usage : String) : Text :=
  about.toList ++ "\n\nUsage: ".toList ++ programName ++ usage.toList ++ "\n\n".toList

/-- The help about the program. -/
def programHelp : Text :=
  let verbs := [Verb.scan, .fix, .init].map fun v => (v.name.toList, v.about.toList)
  let examples : List (String × String) :=
    [("scan .", "Scan current directory"), ("scan . --format json", "JSON output for scripting"),
      ("scan . --fail-on-findings", "Exit code 1 when anything is found (CI mode)"),
      ("fix . --dry-run", "Show which files a fix would change"),
      ("init", "Write a default sqlsentry.toml")]
  let row (e : String × String) : Text :=
    let call := programName ++ ' ' :: e.1.toList
    "  ".toList ++ call ++ List.replicate (40 - call.length) ' ' ++ e.2.toList ++ ['\n']
  helpHead programAbout " [OPTIONS] [PATH] <COMMAND>" ++
    helpTable "Commands" (verbs ++ [(helpWord, helpVerbAbout.toList)]) ++ '\n' :: pathHelp ++
    '\n' :: optionsHelp none ++ "\nExamples:\n".toList ++ examples.flatMap row

/-- The help about a verb. -/
def verbHelp (v : Verb) : Text :=
  helpHead v.about (" " ++ v.name ++ " [OPTIONS] [PATH]") ++ pathHelp ++
    '\n' :: optionsHelp (some v)

/-- The help about asking for help. -/
def helpHelp : Text :=
  helpHead helpVerbAbout " help [COMMAND]..." ++
    helpTable "Arguments" [("[COMMAND]...".toList, "Print help for the subcommand(s)".toList)]

/-- The help that is asked for. -/
def helpText : Option (Option Verb) → Text
  | none => programHelp
  | some none => helpHelp
  | some (some v) => verbHelp v

/-- The name of the program and its version. -/
def versionText : Text := programName ++ ' ' :: Feedback.programVersion ++ ['\n']

/-- What is said of arguments that do not ask for anything to be done. -/
def UsageFault.message : UsageFault → Text
  | unknownArgument => "error: unexpected argument\n".toList
  | invalidValue => "error: invalid value\n".toList
  | conflict => "error: an argument cannot be used multiple times\n".toList
  | tooManyValues => "error: unexpected value\n".toList
  | unknownVerb => "error: unrecognized subcommand\n".toList
  | missingVerb => "error: a subcommand is required\n".toList
  | noArguments => programHelp
  | help about => helpText about
  | version => versionText

/-- Whether someone asked for what is said. -/
def UsageFault.isAnswer : UsageFault → Bool
  | help _ | version => true
  | _ => false

end SqlInjection.Command

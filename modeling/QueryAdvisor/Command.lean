import QueryAdvisor.Options.File
import QueryAdvisor.Pipeline

/-!
# Commands

A command line is run on a disk.  It gives an exit code, the two output
streams and the disk as it is afterwards.
-/

namespace QueryAdvisor

/-- What a run cannot know by itself: the time of its log records and how long
it takes. -/
structure Clock where
  time : Text
  elapsed : Text

/-- What a command line leaves behind. -/
structure Outcome where
  exitCode : Nat
  output : Text
  errors : Text
  disk : Disk

namespace Command

/-- Lines of text. -/
def textLines (lines : List String) : Text :=
  lines.flatMap fun line => ascii line ++ [Byte.newline]

/-- How the program is used. -/
def usage : Text :=
  textLines
    ["Usage: pgrails-analyze <command> [options]",
      "",
      "Commands:",
      "  indexes     Missing indexes, boolean and WHERE clause columns.",
      "  n-plus-one  Likely N+1 queries in controllers and views.",
      "  config      Connection settings in config/database.yml.",
      "",
      "Run 'pgrails-analyze <command> --help' for command options."]

/-- How a command is used. -/
def commandUsage (suite : Suite) : Text :=
  ascii "Usage: pgrails-analyze " ++ suite.name ++
    textLines
      [" [options]",
        "Options:",
        "  --root <path>         Directory inside the Rails application",
        "                        (default: current directory)",
        "  --format <list>       Comma-separated list of output formats",
        "                        (supported: text,json)",
        "  --out <path>          Directory for report files",
        "  --config <file>       Optional YAML config file",
        "  --rules <list>        Comma-separated rule names to run instead",
        "                        of the command's defaults",
        "  --reporter <name>     Reporter plug-in to render outputs",
        "  --log-level <level>   Logging verbosity (error,warn,info,debug)",
        "  --verbose             Shortcut for --log-level info",
        "  --debug               Shortcut for --log-level debug",
        "  --help                Show this message"]

/-- The path of a report file in a directory. -/
def reportPath
    (directory : Path)
    (suite : Suite)
    (extension : String) : Path :=
  Path.append directory (ascii "pgrails_" ++ suite.name ++ ascii extension)

/-- Write a report unless it is empty. -/
def writeReport
    (disk : Disk)
    (path : Path)
    (content : Text) : Disk × Option Fault :=
  if content.isEmpty then (disk, none)
  else
    match disk.write? path content with
    | some disk => (disk, none)
    | none => (disk, some (.outputNotOpened path))

/-- Write the reports into a directory, which is made if need be. -/
def writeReports
    (disk : Disk)
    (directory : Path)
    (suite : Suite)
    (report : Report) : Disk × Option Fault :=
  match disk.makeDirectories directory with
  | (disk, some refusal) => (disk, some (.directoryRefused refusal directory))
  | (disk, none) =>
    match writeReport disk (reportPath directory suite ".txt") report.text with
    | (disk, some fault) => (disk, some fault)
    | (disk, none) => writeReport disk (reportPath directory suite ".json") report.json

/-- The end of a run with a fault: the message, and how the program is used. -/
def failed
    (disk : Disk)
    (output errors : Text)
    (fault : Fault) : Outcome where
  exitCode := 1
  output := output ++ usage
  errors := errors ++ ascii "Error: " ++ fault.message ++ [Byte.newline]
  disk := disk

/-- The remark on a file that could not be read. -/
def scanWarning (error : ScanError) : Text :=
  ascii "Warning: could not read " ++ error.file ++ ascii ": " ++ error.message ++ [Byte.newline]

/-- What is printed of the reports: the text, or without a text and a directory
for reports the JSON. -/
def printed
    (options : Options)
    (report : Report) : Text :=
  if options.outputDirectory.isNone && report.text.isEmpty then report.json ++ [Byte.newline]
  else report.text

/-- Show the reports of an analysis, remark on skipped files and write the
reports where they are wanted. -/
def conclude
    (disk : Disk)
    (options : Options)
    (suite : Suite)
    (log : Text)
    (analysis : Analysis) : Outcome :=
  let output := printed options analysis.report
  let errors := log ++ analysis.summary.scanErrors.flatMap scanWarning
  let (written, fault) :=
    match options.outputDirectory with
    | some directory => writeReports disk directory suite analysis.report
    | none => (disk, none)
  match fault with
  | some fault => failed written output errors fault
  | none => ⟨suite.exitCode analysis.aggregate, output, errors, written⟩

/-- Run the analysis that resolved options ask for. -/
def analyze
    (reader : DocumentReader)
    (clock : Clock)
    (disk : Disk)
    (suite : Suite)
    (options : Options) : Outcome :=
  let selection : Selection :=
    { suite, ruleNames := options.rules, reporterName := options.reporter, reader }
  match Pipeline.build Registry.standard selection with
  | .error fault => failed disk [] [] fault
  | .ok pipeline =>
    let traced := pipeline.run disk (options.request disk suite) clock.elapsed
    let log := traced.events.flatMap (Event.written (options.level.getD .warn) clock.time)
    match traced.outcome with
    | .error fault => failed disk [] log fault
    | .ok analysis => conclude disk options suite log analysis

/-- Run the command of a suite. -/
def runSuite
    (reader : DocumentReader)
    (clock : Clock)
    (disk : Disk)
    (suite : Suite)
    (arguments : List Text) : Outcome :=
  match Options.ofArguments arguments with
  | .error fault => failed disk [] [] fault
  | .ok options =>
    if options.showHelp then ⟨0, commandUsage suite, [], disk⟩
    else
      match options.resolve reader disk with
      | .error fault => failed disk [] [] fault
      | .ok options => analyze reader clock disk suite options

/-- Run a command line.  Each argument ends before its first NUL byte. -/
def run
    (reader : DocumentReader)
    (clock : Clock)
    (disk : Disk)
    (arguments : List Text) : Outcome :=
  match arguments.map Text.beforeNul with
  | [] => ⟨1, usage, [], disk⟩
  | command :: arguments =>
    if Options.asksForHelp command then ⟨0, usage, [], disk⟩
    else
      match Suite.parse command with
      | .error fault => failed disk [] [] fault
      | .ok suite => runSuite reader clock disk suite arguments

end Command
end QueryAdvisor

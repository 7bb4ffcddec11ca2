import QueryAdvisor.Disk.Basic
import QueryAdvisor.Rule.Kind

/-!
# Faults

Everything that can stop a run, by cause.  The wording of all faults is in
`Fault.message`.
-/

namespace QueryAdvisor

/-- Why a run, or a part of it, cannot be completed. -/
inductive Fault where
  /-- No directory at or above the start holds an application. -/
  | rootNotFound (start : Path)
  /-- There is no schema dump. -/
  | schemaMissing (path : Path)
  /-- The schema dump cannot be opened. -/
  | schemaUnreadable (path : Path)
  /-- There is no database configuration. -/
  | databaseMissing (path : Path)
  /-- The database configuration, or the options file, cannot be understood. -/
  | documentUnreadable (path : Path) (cause : Text)
  /-- The first argument names no command. -/
  | unknownCommand (name : Text)
  /-- An argument is not an option. -/
  | unknownArgument (argument : Text)
  /-- An option stands last although it needs a value. -/
  | valueMissing (flag : Text)
  /-- A report format that is not offered. -/
  | unknownFormat (format : Text)
  /-- A word that names no log level. -/
  | unknownLevel (word : Text)
  /-- The options file does not exist. -/
  | optionsMissing (path : Path)
  /-- The options file has an extension that is not offered. -/
  | optionsFormat (extension : Text)
  /-- The options file holds something else than a mapping. -/
  | optionsNotMapping
  /-- A key of the options file is no text. -/
  | keyUnreadable (complaint : Text)
  /-- The options file has a key that is not offered; the offered ones are listed. -/
  | unknownKey (key : Text) (offered : List Text)
  /-- A key of the options file has a value that does not fit. -/
  | unfitValue (key expected : Text)
  /-- A component is already registered under the name. -/
  | nameTaken (name : Text)
  /-- A component is registered without a name. -/
  | nameEmpty
  /-- A component is registered without a factory. -/
  | factoryMissing (name : Text)
  /-- No rule has the name; the registered names are listed. -/
  | unknownRule (name : Text) (registered : List Text)
  /-- No rule of one kind has the name. -/
  | unknownRuleOf (kind : RuleKind) (name : Text)
  /-- The factory of a rule made nothing. -/
  | ruleNotMade (name : Text)
  /-- No reporter has the name; the registered names are listed. -/
  | unknownReporter (name : Text) (registered : List Text)
  /-- A reporter is asked for by default, but none is registered. -/
  | noReporter
  /-- The factory of a reporter made nothing. -/
  | reporterNotMade (name : Text)
  /-- A report file cannot be opened for writing. -/
  | outputNotOpened (path : Path)
  /-- A directory was opened where a file is read. -/
  | directoryRead
  /-- The disk refuses to say what a path leads to. -/
  | statusRefused (refusal : Refusal) (path : Path)
  /-- The disk refuses to follow a path to its end. -/
  | resolutionRefused (refusal : Refusal) (path : Path)
  /-- The disk refuses to make a directory. -/
  | directoryRefused (refusal : Refusal) (path : Path)
deriving DecidableEq, Repr

namespace Fault

/-- Names in a list, separated by commas. -/
def nameList (names : List Text) : Text :=
  Text.join (ascii ", ") names

/-- A refusal of the disk, with what was tried and on which path. -/
def diskMessage
    (attempt : Text)
    (refusal : Refusal)
    (path : Path) : Text :=
  ascii "filesystem error: " ++ attempt ++ ascii ": " ++ refusal.describe ++
    ascii " [" ++ path ++ ascii "]"

/-- The wording of a fault, in which names may hold any bytes. -/
def wording : Fault → Text
  | rootNotFound start =>
    ascii "Not in a Rails application directory (searched upward from " ++ start ++ ascii ")"
  | schemaMissing path => ascii "Could not find " ++ path
  | schemaUnreadable path => ascii "Could not read schema file " ++ path
  | databaseMissing path => ascii "Could not find " ++ path
  | documentUnreadable path cause => ascii "Error parsing " ++ path ++ ascii ": " ++ cause
  | unknownCommand name => ascii "Unknown command: " ++ name
  | unknownArgument argument => ascii "Unknown argument: " ++ argument
  | valueMissing flag => flag ++ ascii " requires a value"
  | unknownFormat format => ascii "Unsupported format: " ++ format
  | unknownLevel word => ascii "Unknown log level: " ++ word
  | optionsMissing path => ascii "Config file not found: " ++ path
  | optionsFormat extension => ascii "Unsupported config format: " ++ extension
  | optionsNotMapping => ascii "Config file must contain a mapping at the root"
  | keyUnreadable complaint => complaint
  | unknownKey key offered =>
    ascii "Unknown config key: " ++ key ++ ascii ". Supported keys: " ++ nameList offered
  | unfitValue key expected =>
    ascii "Config key '" ++ key ++ ascii "' must be " ++ expected
  | nameTaken name => ascii "Component with name '" ++ name ++ ascii "' already registered"
  | nameEmpty => ascii "Component name cannot be empty"
  | factoryMissing name => ascii "Factory for '" ++ name ++ ascii "' cannot be null"
  | unknownRule name registered =>
    ascii "Unknown rule '" ++ name ++ ascii "'. Registered: " ++ nameList registered
  | unknownRuleOf kind name =>
    ascii "Unknown " ++ kind.name ++ ascii " rule '" ++ name ++ ascii "'"
  | ruleNotMade name => ascii "Factory for rule '" ++ name ++ ascii "' returned null"
  | unknownReporter name registered =>
    ascii "Unknown reporter '" ++ name ++ ascii "'. Registered: " ++ nameList registered
  | noReporter => ascii "No default reporter registered"
  | reporterNotMade name => ascii "Factory for reporter '" ++ name ++ ascii "' returned null"
  | outputNotOpened path => ascii "Failed to open output file: " ++ path
  | directoryRead => ascii "basic_filebuf::underflow error reading the file: Is a directory"
  | statusRefused refusal path => diskMessage (ascii "status") refusal path
  | resolutionRefused refusal path =>
    diskMessage (ascii "cannot make canonical path") refusal path
  | directoryRefused refusal path =>
    diskMessage (ascii "cannot create directories") refusal path

/-- The message of a fault.  It ends before the first NUL byte. -/
def message (fault : Fault) : Text :=
  Text.beforeNul fault.wording

end Fault
end QueryAdvisor

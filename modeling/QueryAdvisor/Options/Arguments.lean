import QueryAdvisor.Options.Basic

/-!
# Arguments

The options of a command as they are written on the command line: switches,
and flags each followed by a value.  A call for help ends the reading.
-/

namespace QueryAdvisor
namespace Options

/-- Add a value to a list that does not hold it yet. -/
def addNew
    (values : List Text)
    (value : Text) : List Text :=
  if values.contains value then values else values ++ [value]

/-- The values between commas, trimmed, without empty ones. -/
def listed (values : Text) : List Text :=
  ((values.splitOn Byte.comma).map Text.trim).filter fun value => !value.isEmpty

/-- Add the values of a list to those that are there. -/
def addValues
    (values : List Text)
    (more : Text) : List Text :=
  (listed more).foldl addNew values

/-- The formats that reports are offered in. -/
def offeredFormats : List Text :=
  [ascii "text", ascii "json"]

/-- Add one format, if it is offered. -/
def addFormat
    (formats : List Text)
    (format : Text) : Except Fault (List Text) :=
  if offeredFormats.contains format then .ok (addNew formats format)
  else .error (.unknownFormat format)

/-- Add the formats of a list to those that are there.  Capitals do not matter. -/
def addFormats
    (formats : List Text)
    (more : Text) : Except Fault (List Text) :=
  ((listed more).map Text.toLower).foldlM addFormat formats

/-- A flag that takes a value. -/
inductive Flag where
  | root
  | out
  | config
  | format
  | logLevel
  | rules
  | reporter
deriving DecidableEq, Repr

namespace Flag

/-- All flags. -/
def all : List Flag :=
  [root, out, config, format, logLevel, rules, reporter]

/-- How a flag is written. -/
def word : Flag → Text
  | root => ascii "--root"
  | out => ascii "--out"
  | config => ascii "--config"
  | format => ascii "--format"
  | logLevel => ascii "--log-level"
  | rules => ascii "--rules"
  | reporter => ascii "--reporter"

/-- The flag that an argument is, if it is one. -/
def ofWord? (argument : Text) : Option Flag :=
  all.find? fun flag => flag.word = argument

/-- Give a flag its value. -/
def apply
    (flag : Flag)
    (value : Text)
    (options : Options) : Except Fault Options :=
  match flag with
  | root => .ok { options with root := some value }
  | out => .ok { options with outputDirectory := some value }
  | config => .ok { options with optionsFile := some value }
  | format => do return { options with formats := ← addFormats options.formats value }
  | logLevel => do return { options with level := some (← Level.parse value) }
  | rules => .ok { options with rules := addValues options.rules value }
  | reporter => .ok { options with reporter := some value }

end Flag

/-- Whether an argument asks for help. -/
def asksForHelp (argument : Text) : Bool :=
  argument == ascii "--help" || argument == ascii "-h"

/-- The level that a switch sets, if the argument is one. -/
def switchLevel? (argument : Text) : Option Level :=
  if argument = ascii "--verbose" then some .info
  else if argument = ascii "--debug" then some .debug
  else none

/-- Read arguments from left to right into options. -/
def readArguments
    (options : Options) : List Text → Except Fault Options
  | [] => .ok options
  | argument :: rest =>
    if asksForHelp argument then .ok { options with showHelp := true }
    else
      match switchLevel? argument with
      | some level => readArguments { options with level := some level } rest
      | none =>
        match Flag.ofWord? argument with
        | none => .error (.unknownArgument argument)
        | some flag =>
          match rest with
          | [] => .error (.valueMissing argument)
          | value :: rest => do readArguments (← flag.apply value options) rest

/-- The options that some arguments stand for. -/
def ofArguments (arguments : List Text) : Except Fault Options :=
  readArguments {} arguments

end Options
end QueryAdvisor

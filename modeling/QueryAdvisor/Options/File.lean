import QueryAdvisor.Connection.Document
import QueryAdvisor.Disk.Access
import QueryAdvisor.Options.Arguments

/-!
# Options files

An options file is a document with a mapping at its root.  Each entry sets an
option, and a later entry with the same key replaces an earlier one.  What the
command line leaves open is taken from the file.
-/

namespace QueryAdvisor
namespace Options

/-- An option that a file may set. -/
inductive Key where
  | root
  | formats
  | out
  | logLevel
  | rules
  | reporter
  | booleanLimit
  | whereLimit
deriving DecidableEq, Repr

namespace Key

/-- All keys, in the order in which they are listed. -/
def all : List Key :=
  [root, formats, out, logLevel, rules, reporter, booleanLimit, whereLimit]

/-- The word for a key. -/
def word : Key → Text
  | root => ascii "root"
  | formats => ascii "formats"
  | out => ascii "out"
  | logLevel => ascii "log_level"
  | rules => ascii "rules"
  | reporter => ascii "reporter"
  | booleanLimit => ascii "boolean_preview_limit"
  | whereLimit => ascii "where_preview_limit"

/-- A key as it is looked up: trimmed, in small letters, and with underscores in the
place of hyphens. -/
def normal (text : Text) : Text :=
  (Text.toLower (Text.trim text)).map fun byte => if byte = 45 then 95 else byte

/-- The key that a text stands for. -/
def parse (text : Text) : Except Fault Key :=
  match all.find? fun key => key.word = normal text with
  | some key => .ok key
  | none => .error (.unknownKey text (all.map word))

/-- A text stands for a key exactly if its normal form is the word for it. -/
theorem parse_eq_ok_iff
    {text : Text}
    {key : Key} :
    parse text = .ok key ↔ normal text = key.word := by
  rw [parse]
  constructor
  · intro parsed
    split at parsed
    · rename_i found
      have sameWord := List.find?_some found
      rw [← Except.ok.inj parsed]
      exact (of_decide_eq_true sameWord).symm
    · contradiction
  · intro isWord
    rw [isWord]
    cases key <;> rfl

/-- The fault of a value that does not fit a key. -/
def unfit
    (key : Key)
    (expected : String) : Fault :=
  .unfitValue key.word (ascii expected)

/-- A value that has to be a text. -/
def textOf
    (key : Key) : Document → Except Fault Text
  | .scalar value => .ok value.text
  | _ => .error (key.unfit "a string or path value")

/-- A value that has to be a text or a sequence of texts, each of which may list
several values. -/
def listOf
    (key : Key)
    (add : List Text → Text → Except Fault (List Text)) : Document → Except Fault (List Text)
  | .scalar value => add [] value.text
  | .sequence elements => elements.foldlM (fun values element =>
      match element with
      | .scalar value => add values value.text
      | _ => .error (key.unfit "a list of strings")) []
  | _ => .error (key.unfit "a string or list of strings")

/-- A value that has to be a number, and not a negative one. -/
def limitOf
    (key : Key) : Document → Except Fault Nat
  | .scalar { integer? := some (.ofNat limit), .. } => .ok limit
  | _ => .error (key.unfit "a non-negative integer")

/-- Set an option to a value. -/
def apply
    (options : Options)
    (key : Key)
    (value : Document) : Except Fault Options := do
  match key with
  | root => return { options with root := some (← key.textOf value) }
  | out => return { options with outputDirectory := some (← key.textOf value) }
  | formats => return { options with formats := ← key.listOf addFormats value }
  | rules =>
    let add (values : List Text) (more : Text) := .ok (addValues values more)
    return { options with rules := ← key.listOf add value }
  | reporter => return { options with reporter := some (← key.textOf value) }
  | logLevel => return { options with level := some (← Level.parse (← key.textOf value)) }
  | booleanLimit => return { options with booleanLimit := some (← key.limitOf value) }
  | whereLimit => return { options with whereLimit := some (← key.limitOf value) }

end Key

/-- Set the option of an entry. -/
def applyEntry
    (options : Options)
    (entry : DocumentKey × Document) : Except Fault Options :=
  match entry.1 with
  | .error complaint => .error (.keyUnreadable complaint)
  | .ok text => do Key.apply options (← Key.parse text) entry.2

/-- The options in a document, which was found at a path. -/
def ofDocument
    (path : Path) : Document → Except Fault Options
  | .mapping entries => entries.foldlM applyEntry { optionsFile := some path }
  | _ => .error .optionsNotMapping

/-- The extensions an options file may have. -/
def fileExtensions : List Text :=
  [ascii ".yml", ascii ".yaml"]

/-- The document at a path.  A directory reads like an empty text. -/
def documentAt
    (reader : DocumentReader)
    (disk : Disk)
    (path : Path) : Except Text Document :=
  match disk.read path with
  | .content content => reader.parse content
  | .directory => reader.parse []
  | .unopenable => .error (reader.notOpened path)

/-- Read an options file. -/
def ofFile
    (reader : DocumentReader)
    (disk : Disk)
    (path : Path) : Except Fault Options := do
  if !(← disk.pathExists path) then
    throw (.optionsMissing path)
  else if !fileExtensions.contains (Text.toLower (Path.extension path)) then
    throw (.optionsFormat (Text.toLower (Path.extension path)))
  else
    match documentAt reader disk path with
    | .error complaint => throw (.documentUnreadable path complaint)
    | .ok document => ofDocument path document

/-- Complete the options of the command line by those of the options file and
the working directory.  A call for help is left as it is. -/
def resolve
    (options : Options)
    (reader : DocumentReader)
    (disk : Disk) : Except Fault Options :=
  if options.showHelp then .ok options
  else do
    let fromFile ←
      match options.optionsFile with
      | some path => ofFile reader disk path
      | none => pure {}
    let merged := merge fromFile options
    return { merged with root := some (merged.root.getD disk.workingDirectory.path) }

end Options
end QueryAdvisor

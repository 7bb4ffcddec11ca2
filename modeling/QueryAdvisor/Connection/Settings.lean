import QueryAdvisor.Connection.Document
import QueryAdvisor.Disk.Access
import QueryAdvisor.Disk.Canonical
import QueryAdvisor.Text.Erasure

/-!
# Connection settings

The database configuration holds the settings of each environment.  Template
tags are erased before the document is read, and mappings that are to be merged
into an environment are.
-/

namespace QueryAdvisor

/-- The settings of one environment. -/
structure Environment where
  name : Text
  settings : Settings

/-- The environments of a database configuration, in their order. -/
structure DatabaseConfig where
  environments : List Environment

namespace Environment

/-- The value of a setting, if it is there. -/
def setting?
    (environment : Environment)
    (key : Text) : Option Document :=
  environment.settings.lookup key

/-- Whether a setting is missing or null. -/
def isUnset
    (environment : Environment)
    (key : Text) : Bool :=
  match environment.setting? key with
  | none => true
  | some .null => true
  | some _ => false

end Environment

namespace DatabaseConfig

/-- The first environment with a name. -/
def find?
    (config : DatabaseConfig)
    (name : Text) : Option Environment :=
  config.environments.find? fun environment => environment.name = name

/-- The environments that rules look at, in the order of the report. -/
def analyzed : List Text :=
  [ascii "development", ascii "test", ascii "production"]

/-- Erase template tags and keep what they enclose. -/
def stripTags (document : Text) : Text :=
  Text.eraseAll (ascii "%>") (Text.eraseAll (ascii "<%=") document)

/-- Exactly the documents without template tags stay as they are. -/
theorem stripTags_eq_self_iff
    (document : Text) :
    stripTags document = document ↔
      ¬ ascii "<%=" <:+: document ∧ ¬ ascii "%>" <:+: document := by
  have opens := Text.eraseAll_eq_self_iff (show ascii "<%=" ≠ [] by decide) document
  have closes := Text.eraseAll_eq_self_iff (show ascii "%>" ≠ [] by decide) document
  constructor
  · intro unchanged
    -- The second pass makes nothing longer, so the first one changed nothing.
    have firstUnchanged : Text.eraseAll (ascii "<%=") document = document := by
      apply (Text.eraseAll_sublist _ document).eq_of_length_le
      have second := (Text.eraseAll_sublist (ascii "%>")
        (Text.eraseAll (ascii "<%=") document)).length_le
      rwa [← stripTags, unchanged] at second
    rw [stripTags, firstUnchanged] at unchanged
    exact ⟨opens.mp firstUnchanged, closes.mp unchanged⟩
  · rintro ⟨noOpening, noClosing⟩
    rw [stripTags, opens.mpr noOpening, closes.mpr noClosing]

/-- The environments of entries.  An entry whose value is no mapping is passed
over. -/
def environmentsOf
    (reader : DocumentReader) :
    List (DocumentKey × Document) → Except Text (List Environment)
  | [] => .ok []
  | (key, value) :: rest =>
    if value.isMapping then do
      let name ← key
      let settings ← value.settings reader
      let others ← environmentsOf reader rest
      return { name, settings } :: others
    else environmentsOf reader rest

/-- The configuration in a document, or a complaint. -/
def ofDocument
    (reader : DocumentReader) : Document → Except Text DatabaseConfig
  | .mapping entries => do return { environments := ← environmentsOf reader entries }
  | _ => .error (ascii "expected a mapping of environments at the root")

/-- The configuration in a text.  A complaint is reported with the path of the
text. -/
def parse
    (reader : DocumentReader)
    (path : Path)
    (content : Text) : Except Fault DatabaseConfig :=
  match reader.parse (stripTags content) >>= ofDocument reader with
  | .ok config => .ok config
  | .error complaint => .error (.documentUnreadable path complaint)

/-- Read the database configuration at a path. -/
def load
    (reader : DocumentReader)
    (disk : Disk)
    (path : Path) : Except Fault DatabaseConfig := do
  if !(← disk.pathExists path) then
    throw (.databaseMissing path)
  else
    match disk.read path with
    | .unopenable => throw (.documentUnreadable path (ascii "file could not be opened"))
    | .directory => throw .directoryRead
    | .content content => parse reader path content

end DatabaseConfig
end QueryAdvisor

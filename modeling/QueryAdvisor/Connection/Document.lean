import QueryAdvisor.Path.Basic

/-!
# Documents

Database configurations and options files are documents in YAML.  What stands in
a text is up to a reader, which is a parameter of everything that reads
documents; here is only what a document consists of.  Documents are trees: what an
alias stands for is a copy, so that a repeated key never changes what is read
elsewhere.
-/

namespace QueryAdvisor

/-- A scalar, and the number and the truth value that it stands for if it is not
quoted. -/
structure Scalar where
  text : Text
  integer? : Option Int
  boolean? : Option Bool

/-- The key of an entry, or the complaint that it is no text. -/
abbrev DocumentKey := Except Text Text

/-- A document, or a part of one. -/
inductive Document where
  | null
  | scalar (value : Scalar)
  | sequence (elements : List Document)
  | mapping (entries : List (DocumentKey × Document))

/-- A reader of documents.  Complaints are in its own words. -/
structure DocumentReader where
  /-- The document in a text, or why there is none. -/
  parse : Text → Except Text Document
  /-- The complaint about a file that cannot be opened. -/
  notOpened : Path → Text
  /-- The complaint about an element of a sequence that is taken for an entry. -/
  elementTaken : Text

namespace DocumentReader

/-- The reader that refuses everything with the same complaint. -/
def refusing (complaint : Text) : DocumentReader where
  parse _ := .error complaint
  notOpened _ := complaint
  elementTaken := complaint

end DocumentReader

namespace Document

/-- Whether a document is a mapping. -/
def isMapping : Document → Bool
  | mapping _ => true
  | _ => false

end Document

/-- Values under names, of which the first one of a name counts. -/
abbrev Settings := List (Text × Document)

namespace Settings

/-- Let a value stand under a name, in place of one that is there. -/
def put
    (name : Text)
    (value : Document) : Settings → Settings
  | [] => [(name, value)]
  | (other, earlier) :: rest =>
    if name = other then (name, value) :: rest else (other, earlier) :: put name value rest

/-- Add what is missing.  Values that are there take precedence. -/
def mergeInto
    (settings more : Settings) : Settings :=
  more.foldl (fun merged (name, value) =>
    if (merged.lookup name).isSome then merged else merged ++ [(name, value)]) settings

/-- The mapping of settings. -/
def toDocument (settings : Settings) : Document :=
  .mapping (settings.map fun (name, value) => (.ok name, value))

end Settings

namespace Document

/-- The key under which mappings to be merged stand. -/
def mergeKey : Text :=
  ascii "<<"

mutual

/-- The settings of a mapping, with those merged from other mappings behind its own.
What is no mapping has none. -/
def settings
    (reader : DocumentReader) : Document → Except Text Settings
  | mapping entries => settingsOfEntries reader entries [] (.ok [])
  | sequence (_ :: _) => .error reader.elementTaken
  | _ => .ok []

/-- The settings of entries behind some that are known.  What is to be merged is
that of the last merge key, and it is merged in the end. -/
def settingsOfEntries
    (reader : DocumentReader) :
    List (DocumentKey × Document) → Settings → Except Text (List Settings) → Except Text Settings
  | [], known, merged => do return (← merged).foldl Settings.mergeInto known
  | (key, value) :: rest, known, merged => do
    let name ← key
    if name = mergeKey then
      settingsOfEntries reader rest known (sources reader value)
    else
      let resolved ← resolve reader value
      settingsOfEntries reader rest (known.put name resolved) merged

/-- A value with the mappings in it merged. -/
def resolve
    (reader : DocumentReader) : Document → Except Text Document
  | mapping entries => do
    return Settings.toDocument (← settingsOfEntries reader entries [] (.ok []))
  | value => .ok value

/-- The settings to be merged: those of a mapping, or of each element of a
sequence. -/
def sources
    (reader : DocumentReader) : Document → Except Text (List Settings)
  | mapping entries => do return [← settingsOfEntries reader entries [] (.ok [])]
  | sequence elements => settingsOfEach reader elements
  | _ => .ok []

/-- The settings of each element. -/
def settingsOfEach
    (reader : DocumentReader) : List Document → Except Text (List Settings)
  | [] => .ok []
  | element :: rest => do
    let first ← settings reader element
    let others ← settingsOfEach reader rest
    return first :: others

end

end Document
end QueryAdvisor

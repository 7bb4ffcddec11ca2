import QueryAdvisor.Text.Recogniser

/-!
# Declarations in a schema dump

The lines of a table block declare columns (`t.string "name"`) and indexes
(`t.index ["name"]`); below the blocks, `add_index "table", ["name"]` declares
further indexes.  Each kind of declaration is read by a recogniser of its own,
wherever it stands in the text.
-/

namespace QueryAdvisor

/-- A column with its type, as in `t.string "name"`. -/
structure ColumnDeclaration where
  type : Text
  name : Text
deriving DecidableEq, Repr

/-- An index on a table; only the first column is kept. -/
structure IndexDeclaration where
  table : Text
  column : Text
deriving DecidableEq, Repr

namespace ColumnDeclaration

open Recogniser

/-- A type after `t.`, spaces, and a quoted name. -/
def recogniser : Recogniser ColumnDeclaration := do
  literal (ascii "t.")
  let type ← word
  someSpaces
  let name ← quotedWord
  return { type, name }

/-- All column declarations of a block body. -/
def ofBody (body : Text) : List ColumnDeclaration :=
  captures recogniser body

end ColumnDeclaration

namespace ForeignKey

open Recogniser

/-- Names of foreign keys end in `_id` and have something before it. -/
def isKeyName (name : Text) : Bool :=
  (ascii "_id").isSuffixOf name && 3 < name.length

/-- A column declaration whose name is that of a foreign key. -/
def recogniser : Recogniser Text := do
  literal (ascii "t.")
  let _ ← word
  someSpaces
  let name ← quotedWord
  guard (isKeyName name)
  return name

/-- The foreign keys that a block body declares. -/
def ofBody (body : Text) : List Text :=
  captures recogniser body

end ForeignKey

namespace InlineIndex

open Recogniser

/-- The first column after `t.index`, with or without an opening bracket. -/
def recogniser : Recogniser Text := do
  literal (ascii "t.index")
  someSpaces
  optional 91
  spaces
  quotedWord

/-- The first columns of the indexes declared inside a block body. -/
def ofBody (body : Text) : List Text :=
  captures recogniser body

end InlineIndex

namespace IndexDeclaration

open Recogniser

/-- A quoted table after `add_index`, a comma, and the first column.  The quote
and the bracket that close the column list may be missing. -/
def recogniser : Recogniser IndexDeclaration := do
  literal (ascii "add_index")
  someSpaces
  let table ← quotedWord
  byte Byte.comma
  someSpaces
  optional 91
  byte Byte.quote
  let column ← word
  optional Byte.quote
  optional 93
  return { table, column }

/-- All standalone index declarations of a schema dump. -/
def ofText (text : Text) : List IndexDeclaration :=
  captures recogniser text

end IndexDeclaration
end QueryAdvisor

import QueryAdvisor.Proofs.Schema.Declaration
import QueryAdvisor.Schema.Basic

/-!
# Printed schema dumps

The form in which schema dumps are written: a block for each table with a line
for each column and each index, and below the blocks a line for each standalone
index:

    create_table "posts", force: :cascade do |t|
      t.string "title", default: "untitled"
      t.index ["title"]
    end
    add_index "posts", ["title", "id"]

The types carry what the names, column types and default values of a dump have
to satisfy, so every value of type `Dump` can be printed.
-/

namespace QueryAdvisor

/-- A nonempty word. -/
structure Word where
  text : Text
  isName : IsName text

/-- The type of a column: a word that neither closes the block, nor declares an
index, nor ends like a table header. -/
structure ColumnType extends Word where
  notEnd : text ≠ ascii "end"
  notIndex : text ≠ ascii "index"
  notHeader : ¬ascii "create_table" <:+ text

/-- A default value, which may hold any byte but a double quote and a backslash. -/
structure DefaultValue where
  text : Text
  noQuote : Byte.quote ∉ text
  noBackslash : Byte.backslash ∉ text

/-- Lines of text, each with its line feed. -/
def unlines (lines : List Text) : Text :=
  lines.flatMap fun line => line ++ [Byte.newline]

@[simp] theorem unlines_nil : unlines [] = [] := rfl

@[simp] theorem unlines_cons
    (line : Text)
    (lines : List Text) :
    unlines (line :: lines) = line ++ Byte.newline :: unlines lines := by
  simp [unlines]

@[simp] theorem unlines_append
    (left right : List Text) :
    unlines (left ++ right) = unlines left ++ unlines right :=
  List.flatMap_append

namespace Dump

/-- A column with its type and perhaps a default value. -/
structure Column where
  type : ColumnType
  name : Word
  defaultValue : Option DefaultValue

/-- The columns of an index, at least one. -/
structure IndexColumns where
  first : Word
  others : List Word

/-- A table with its columns and the indexes declared inside its block. -/
structure Table where
  name : Word
  columns : List Column
  indexes : List IndexColumns

/-- An index declared below the blocks. -/
structure StandaloneIndex where
  table : Word
  columns : IndexColumns

/-- The default value of a column, if it has one: `, default: "value"`. -/
def Column.defaultClause (column : Column) : Text :=
  match column.defaultValue with
  | none => []
  | some value => ascii ", default: " ++ quoted value.text

/-- The line of a column: `t.type "name"`. -/
def Column.line (column : Column) : Text :=
  ascii "  t." ++ column.type.text ++ ascii " " ++ quoted column.name.text ++
    column.defaultClause

/-- Quoted columns in brackets: `["first", "second"]`. -/
def IndexColumns.list (columns : IndexColumns) : Text :=
  ascii "[" ++
    Text.join (ascii ", ") ((columns.first :: columns.others).map fun name => quoted name.text) ++
    ascii "]"

/-- The line of an index inside a block: `t.index ["name"]`. -/
def IndexColumns.line (columns : IndexColumns) : Text :=
  ascii "  t.index " ++ columns.list

/-- The line that opens the block of a table. -/
def Table.openingLine (table : Table) : Text :=
  ascii "create_table " ++ quoted table.name.text ++ ascii ", force: :cascade do |t|"

/-- The lines inside the block of a table. -/
def Table.innerLines (table : Table) : List Text :=
  table.columns.map Column.line ++ table.indexes.map IndexColumns.line

/-- The lines of the block of a table. -/
def Table.lines (table : Table) : List Text :=
  table.openingLine :: table.innerLines ++ [ascii "end"]

/-- The line of a standalone index: `add_index "table", ["name"]`. -/
def StandaloneIndex.line (index : StandaloneIndex) : Text :=
  ascii "add_index " ++ quoted index.table.text ++ ascii ", " ++ index.columns.list

/-- What a block declares: its columns, those of them that are foreign keys, and
the first column of each of its indexes. -/
def Table.contents (table : Table) : QueryAdvisor.Table where
  name := table.name.text
  columns := table.columns.map fun column => column.name.text
  foreignKeys :=
    (table.columns.map fun column => column.name.text).filter fun name =>
      ForeignKey.IsKeyName name
  indexes := table.indexes.map fun columns => columns.first.text

end Dump

/-- A schema dump: the blocks of its tables, then its standalone indexes. -/
structure Dump where
  tables : List Dump.Table
  indexes : List Dump.StandaloneIndex

namespace Dump

/-- The lines of a dump. -/
def lines (dump : Dump) : List Text :=
  dump.tables.flatMap Table.lines ++ dump.indexes.map StandaloneIndex.line

/-- The text of a dump. -/
def text (dump : Dump) : Text :=
  unlines dump.lines

/-- The table that a dump declares under a name: the last one printed under it,
with the first columns of the standalone indexes of that name behind its own
indexes. -/
def tableNamed?
    (dump : Dump)
    (name : Text) : Option QueryAdvisor.Table :=
  (dump.tables.reverse.find? fun table => table.name.text = name).map fun table =>
    { table.contents with
      indexes := table.contents.indexes ++
        (dump.indexes.filter fun index => index.table.text = name).map fun index =>
          index.columns.first.text }

/-- The schema that a dump declares: a table for each name, in the order in
which the names first appear. -/
def schema (dump : Dump) : Schema where
  tables := (dump.tables.map fun table => table.name.text).eraseDups.filterMap dump.tableNamed?

end Dump
end QueryAdvisor

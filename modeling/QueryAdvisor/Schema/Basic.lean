import QueryAdvisor.Schema.Block
import QueryAdvisor.Schema.Declaration

/-!
# Schemas

A schema is a list of tables with distinct names.  A table keeps the place
where its name was first put; putting a table under the same name again
replaces its contents.
-/

namespace QueryAdvisor

/-- A table: its columns, those of them that are foreign keys, and the columns
that an index begins with. -/
structure Table where
  name : Text
  columns : List Text
  foreignKeys : List Text
  indexes : List Text
deriving DecidableEq, Repr

namespace Table

/-- Whether some index of the table begins with the column. -/
def hasIndexOn
    (table : Table)
    (column : Text) : Bool :=
  table.indexes.contains column

/-- The table of a block, with the indexes declared inside it. -/
def ofBlock (block : TableBlock) : Table where
  name := block.name
  columns := (ColumnDeclaration.ofBody block.body).map ColumnDeclaration.name
  foreignKeys := ForeignKey.ofBody block.body
  indexes := InlineIndex.ofBody block.body

end Table

/-- A schema is the list of its tables. -/
structure Schema where
  tables : List Table
deriving DecidableEq, Repr

namespace Schema

/-- The schema without tables. -/
def empty : Schema where
  tables := []

/-- Replace the table of the same name, or add one at the end. -/
def putTable (table : Table) : List Table → List Table
  | [] => [table]
  | first :: rest =>
    if first.name = table.name then table :: rest
    else first :: putTable table rest

/-- Put a table under its name. -/
def put
    (schema : Schema)
    (table : Table) : Schema where
  tables := putTable table schema.tables

@[simp] theorem tables_empty : empty.tables = [] := rfl

@[simp] theorem tables_put
    (schema : Schema)
    (table : Table) :
    (schema.put table).tables = putTable table schema.tables := rfl

/-- The table of a name. -/
def find?
    (schema : Schema)
    (name : Text) : Option Table :=
  schema.tables.find? fun table => table.name = name

/-- Add a column to the indexes of the table of a name, if there is one. -/
def addIndex
    (schema : Schema)
    (name column : Text) : Schema where
  tables := schema.tables.map fun table =>
    if table.name = name then { table with indexes := table.indexes ++ [column] }
    else table

@[simp] theorem find?_put_self
    (schema : Schema)
    (table : Table) :
    (schema.put table).find? table.name = some table := by
  rw [find?, tables_put]
  induction schema.tables with
  | nil => simp [putTable]
  | cons first rest inductionHypothesis =>
    rw [putTable]
    split
    · simp
    · rename_i different
      simpa [different] using inductionHypothesis

/-- Putting a table does not change what is found under another name. -/
theorem find?_put_of_ne
    (schema : Schema)
    (table : Table)
    (name : Text)
    (different : name ≠ table.name) :
    (schema.put table).find? name = schema.find? name := by
  rw [find?, find?, tables_put]
  induction schema.tables with
  | nil => simp [putTable, different.symm]
  | cons first rest inductionHypothesis =>
    rw [putTable]
    split
    · rename_i equal
      simp [equal, different.symm]
    · simp only [List.find?_cons, inductionHypothesis]

/-- The number of tables. -/
def size (schema : Schema) : Nat :=
  schema.tables.length

/-- The schema of some table blocks, put in order. -/
def ofBlocks (blocks : List TableBlock) : Schema :=
  blocks.foldl (fun schema block => schema.put (Table.ofBlock block)) empty

/-- Give every standalone index to its table; one on an unknown table is
ignored. -/
def addIndexes
    (schema : Schema)
    (indexes : List IndexDeclaration) : Schema :=
  indexes.foldl (fun schema index => schema.addIndex index.table index.column) schema

/-- The schema of a dump: its table blocks first, then its standalone indexes,
wherever they stand. -/
def ofText (text : Text) : Schema :=
  (ofBlocks (TableBlock.ofText text)).addIndexes (IndexDeclaration.ofText text)

end Schema
end QueryAdvisor

import QueryAdvisor.Schema.Basic

/-!
# Table stores

While a schema is read, its tables are kept in a store that finds them by
position.  The store has the tables in the order in which their names were first
put, and for each name the position of its table.  A table that is put under a
known name takes over the position of the one before it.
-/

namespace QueryAdvisor

/-- Tables, and the position of each table by its name. -/
structure TableStore where
  tables : List Table
  positions : List (Text × Nat)
deriving DecidableEq, Repr

namespace TableStore

/-- The store without tables. -/
def empty : TableStore where
  tables := []
  positions := []

/-- The position that is kept for a name. -/
def position?
    (store : TableStore)
    (name : Text) : Option Nat :=
  store.positions.lookup name

/-- The table at the position that is kept for a name. -/
def find?
    (store : TableStore)
    (name : Text) : Option Table :=
  (store.position? name).bind fun position => store.tables[position]?

/-- Put a table at the position of its name.  A new name gets the next position. -/
def put
    (store : TableStore)
    (table : Table) : TableStore :=
  match store.position? table.name with
  | some position => { store with tables := store.tables.set position table }
  | none =>
    { tables := store.tables ++ [table]
      positions := store.positions ++ [(table.name, store.tables.length)] }

/-- Add a column to the indexes of the table at the position of a name, if there
is one. -/
def addIndex
    (store : TableStore)
    (name column : Text) : TableStore :=
  match store.position? name with
  | some position =>
    { store with
      tables := store.tables.modify position fun table =>
        { table with indexes := table.indexes ++ [column] } }
  | none => store

/-- The store of some table blocks, put in order. -/
def ofBlocks (blocks : List TableBlock) : TableStore :=
  blocks.foldl (fun store block => store.put (Table.ofBlock block)) empty

/-- Give every standalone index to its table; one on an unknown table is
ignored. -/
def addIndexes
    (store : TableStore)
    (indexes : List IndexDeclaration) : TableStore :=
  indexes.foldl (fun store index => store.addIndex index.table index.column) store

/-- The store of a dump: its table blocks first, then its standalone indexes. -/
def ofText (text : Text) : TableStore :=
  (ofBlocks (TableBlock.ofText text)).addIndexes (IndexDeclaration.ofText text)

/-- The tables of a store, without their positions. -/
def schema (store : TableStore) : Schema where
  tables := store.tables

@[simp] theorem tables_schema (store : TableStore) : store.schema.tables = store.tables := rfl

end TableStore
end QueryAdvisor

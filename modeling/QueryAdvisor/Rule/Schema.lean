import QueryAdvisor.Finding.Basic
import QueryAdvisor.Schema.Basic

/-!
# Rules on the schema

Foreign keys should be indexed, and columns that look boolean may profit from
a partial index.
-/

namespace QueryAdvisor

/-- A rule that examines the schema. -/
structure SchemaRule where
  examine : Schema → List Finding

namespace SchemaRule

/-- The finding on a foreign key without an index. -/
def missingKeyIndex
    (table : Table)
    (column : Text) : Finding where
  type := .missingForeignKeyIndex
  severity := .warning
  message :=
    ascii "Foreign key " ++ column ++ ascii " on " ++ table.name ++ ascii " should have an index"
  suggestion := some (ascii "add_index :" ++ table.name ++ ascii ", :" ++ column)
  location := .schema table.name column

/-- Report every foreign key that no index begins with. -/
def missingForeignKeyIndex : SchemaRule where
  examine schema := schema.tables.flatMap fun table =>
    (table.foreignKeys.filter fun column => !table.hasIndexOn column).map (missingKeyIndex table)

/-- Whether the name of a column suggests a boolean. -/
def looksBoolean (column : Text) : Bool :=
  (ascii "is_").isPrefixOf column || (ascii "has_").isPrefixOf column ||
    [ascii "active", ascii "enabled", ascii "published", ascii "deleted"].contains column

/-- The finding on a boolean column without an index. -/
def partialIndex
    (table : Table)
    (column : Text) : Finding where
  type := .booleanIndexOpportunity
  severity := .info
  message :=
    ascii "Boolean column " ++ column ++ ascii " on " ++ table.name ++
      ascii " might benefit from a partial index"
  suggestion := some
    (ascii "add_index :" ++ table.name ++ ascii ", :" ++ column ++ ascii ", where: \"" ++
      column ++ ascii " = true\"")
  location := .schema table.name column

/-- Report every column that looks boolean and that no index begins with. -/
def booleanIndexOpportunity : SchemaRule where
  examine schema := schema.tables.flatMap fun table =>
    (table.columns.filter fun column => looksBoolean column && !table.hasIndexOn column).map
      (partialIndex table)

end SchemaRule
end QueryAdvisor

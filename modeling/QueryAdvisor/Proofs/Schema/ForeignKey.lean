import QueryAdvisor.Proofs.Schema.Declaration
import QueryAdvisor.Proofs.Schema.Reading

/-!
# Foreign keys among the columns

The foreign keys of a block are looked for on their own, and not among its columns.
They are still exactly the columns with the name of a foreign key, in the same
order and as often, whatever else stands in the block.  A table takes its columns
and its foreign keys from the same block, and no index changes them.
-/

namespace QueryAdvisor

/-- A table that was read from a block has its foreign keys among its columns. -/
theorem Table.foreignKeys_ofBlock (block : TableBlock) :
    (ofBlock block).foreignKeys =
      (ofBlock block).columns.filter fun name => ForeignKey.IsKeyName name :=
  ForeignKey.ofBody_eq_filter_columns block.body

namespace TableStore

open ForeignKey

/-- The foreign keys of a block are its columns with the name of a foreign key, in
order and with repetitions.  So are those of every table, and all of them are
columns of the table. -/
theorem foreignKeys_among_columns (body text : Text) :
    (ForeignKey.ofBody body =
        ((ColumnDeclaration.ofBody body).map ColumnDeclaration.name).filter
          fun name => IsKeyName name) ∧
      ∀ table ∈ (ofText text).tables,
        (table.foreignKeys = table.columns.filter fun name => IsKeyName name) ∧
          ∀ key ∈ table.foreignKeys, key ∈ table.columns := by
  refine ⟨ofBody_eq_filter_columns body, ?_⟩
  intro table present
  have restricted : table.foreignKeys = table.columns.filter fun name => IsKeyName name := by
    rw [← tables_schema, schema_ofText] at present
    obtain ⟨block, _, indexes, rfl⟩ := Schema.exists_block_of_mem_tables present
    exact Table.foreignKeys_ofBlock block
  refine ⟨restricted, ?_⟩
  intro key isKey
  rw [restricted] at isKey
  exact List.mem_of_mem_filter isKey

/-- The bare suffix names no key, and a repeated column is a repeated key. -/
example :
    ForeignKey.ofBody (ascii "t.a \"_id\" t.b \"x_id\"\nt.c \"id\" t.t.b\n\"x_id\"") =
      [ascii "x_id", ascii "x_id"] := by
  decide +kernel

end TableStore
end QueryAdvisor

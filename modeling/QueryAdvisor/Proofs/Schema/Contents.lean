import Mathlib.Data.List.Basic
import Mathlib.Data.List.Induction
import QueryAdvisor.Schema.Basic

/-!
# The contents of a schema

What is in a schema after tables were put and indexes were added: the names in
the order of their first appearance, for each name the last table put under it,
and behind its own indexes those that were added to it, in order.
-/

namespace QueryAdvisor

/-- Each name is kept once. -/
theorem nodup_eraseDups (names : List Text) : names.eraseDups.Nodup := by
  induction length : names.length using Nat.strongRecOn generalizing names with
  | _ bound inductionHypothesis =>
      cases names with
      | nil => exact .nil
      | cons first rest =>
          rw [List.eraseDups_cons]
          refine List.nodup_cons.mpr ⟨by simp, ?_⟩
          refine inductionHypothesis _ ?_ _ rfl
          rw [← length, List.length_cons]
          exact Nat.lt_succ_of_le (List.length_filter_le _ _)

/-- A further name is kept if it is new. -/
theorem eraseDups_concat
    (names : List Text)
    (name : Text) :
    (names ++ [name]).eraseDups =
      if name ∈ names.eraseDups then names.eraseDups else names.eraseDups ++ [name] := by
  rw [List.eraseDups_append]
  by_cases present : name ∈ names
  · simp [List.removeAll, present]
  · simp [List.removeAll, present, List.eraseDups_cons]

namespace Schema

/-- Putting a table under its name, seen as a change of what stands under each
name. -/
theorem putTable_filterMap
    (table : Table)
    {names : List Text}
    {lookup : Text → Option Table}
    (distinct : names.Nodup)
    (present : ∀ name ∈ names, ∃ found, lookup name = some found ∧ found.name = name) :
    putTable table (names.filterMap lookup) =
      (if table.name ∈ names then names else names ++ [table.name]).filterMap
        fun name => if table.name = name then some table else lookup name := by
  induction names with
  | nil => simp [putTable]
  | cons first rest inductionHypothesis =>
      obtain ⟨firstAbsent, restDistinct⟩ := List.nodup_cons.mp distinct
      obtain ⟨found, looked, named⟩ := present first List.mem_cons_self
      rw [List.filterMap_cons_some looked, putTable, named]
      by_cases same : first = table.name
      · -- Behind the replaced table no other has its name.
        have unchanged : rest.filterMap lookup =
            rest.filterMap fun name => if table.name = name then some table else lookup name := by
          apply List.filterMap_congr
          intro name member
          have different : table.name ≠ name := by
            rintro rfl
            exact firstAbsent (same ▸ member)
          rw [if_neg different]
        rw [if_pos same, unchanged]
        simp [same]
      · have different : table.name ≠ first := fun equal => same equal.symm
        rw [if_neg same, inductionHypothesis restDistinct fun name member =>
          present name (List.mem_cons_of_mem first member)]
        by_cases member : table.name ∈ rest <;> simp [member, different, looked]

/-- Put tables one after the other. -/
def putAll (tables : List Table) : Schema :=
  tables.foldl put empty

/-- Names stand in the order of their first appearance, and the last table put
under a name is kept. -/
theorem tables_putAll
    (tables : List Table) :
    (putAll tables).tables =
      (tables.map Table.name).eraseDups.filterMap fun name =>
        tables.reverse.find? fun table => table.name = name := by
  induction tables using List.reverseRecOn with
  | nil => rfl
  | append_singleton tables table inductionHypothesis =>
      have present : ∀ name ∈ (tables.map Table.name).eraseDups,
          ∃ found, (tables.reverse.find? fun table => table.name = name) = some found ∧
            found.name = name := by
        intro name member
        obtain ⟨earlier, earlierMember, named⟩ :=
          List.mem_map.mp (List.mem_eraseDups.mp member)
        cases found : tables.reverse.find? fun table => table.name = name with
        | none =>
            have absent := List.find?_eq_none.mp found earlier (List.mem_reverse.mpr earlierMember)
            exact absurd named (by simpa using absent)
        | some last => exact ⟨last, rfl, by simpa using List.find?_some found⟩
      have lookup : (fun name =>
            if table.name = name then some table
            else tables.reverse.find? fun table => table.name = name) =
          fun name => (tables ++ [table]).reverse.find? fun table => table.name = name := by
        funext name
        rw [List.reverse_concat, List.find?_cons]
        by_cases same : table.name = name <;> simp [same]
      rw [putAll, List.foldl_append, List.foldl_cons, List.foldl_nil, tables_put, ← putAll,
        inductionHypothesis, putTable_filterMap table (nodup_eraseDups _) present, lookup,
        List.map_append, List.map_singleton, eraseDups_concat]

theorem ofBlocks_eq_putAll
    (blocks : List TableBlock) :
    ofBlocks blocks = putAll (blocks.map Table.ofBlock) := by
  rw [ofBlocks, putAll, List.foldl_map]

/-- Every table gets the columns of the indexes declared for it, in order, behind
the indexes it has. -/
theorem tables_addIndexes
    (schema : Schema)
    (indexes : List IndexDeclaration) :
    (schema.addIndexes indexes).tables = schema.tables.map fun table =>
      { table with
        indexes := table.indexes ++
          (indexes.filter fun index => index.table = table.name).map IndexDeclaration.column } := by
  induction indexes generalizing schema with
  | nil => simp [addIndexes]
  | cons index rest inductionHypothesis =>
      rw [addIndexes, List.foldl_cons, ← addIndexes, inductionHypothesis, addIndex, List.map_map]
      apply List.map_congr_left
      intro table _
      by_cases same : table.name = index.table
      · simp [same]
      · have different : index.table ≠ table.name := fun equal => same equal.symm
        simp [same, different]

/-- Every table of a dump is that of one of its blocks, but for further indexes. -/
theorem exists_block_of_mem_tables
    {text : Text}
    {table : Table}
    (present : table ∈ (ofText text).tables) :
    ∃ block ∈ TableBlock.ofText text, ∃ indexes, table = { Table.ofBlock block with indexes } := by
  rw [ofText, tables_addIndexes, ofBlocks_eq_putAll, tables_putAll, List.mem_map] at present
  obtain ⟨put, putPresent, rfl⟩ := present
  obtain ⟨name, _, found⟩ := List.mem_filterMap.mp putPresent
  have member := List.mem_reverse.mp (List.mem_of_find?_eq_some found)
  obtain ⟨block, blockPresent, rfl⟩ := List.mem_map.mp member
  exact ⟨block, blockPresent, _, rfl⟩

end Schema
end QueryAdvisor

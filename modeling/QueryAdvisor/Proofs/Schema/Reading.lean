import QueryAdvisor.Proofs.Schema.Store

/-!
# What is read from a schema dump

Reading a dump puts its table blocks into a store, one after the other, and then
adds the standalone indexes.  So the last block of each name counts, in the place
of the first one, and an index counts wherever it is declared if some block has
the name of its table.
-/

namespace QueryAdvisor

/-- A block behind which no other block has its name. -/
def TableBlock.IsLastNamed
    (blocks : List TableBlock)
    (block : TableBlock) : Prop :=
  ∃ before after, blocks = before ++ block :: after ∧ ∀ later ∈ after, later.name ≠ block.name

theorem TableBlock.exists_isLastNamed
    {blocks : List TableBlock}
    {name : Text}
    (present : name ∈ blocks.map TableBlock.name) :
    ∃ block, IsLastNamed blocks block ∧ block.name = name := by
  induction blocks with
  | nil => simp at present
  | cons first rest inductionHypothesis =>
      by_cases later : name ∈ rest.map TableBlock.name
      · obtain ⟨block, ⟨before, after, cut, last⟩, named⟩ := inductionHypothesis later
        exact ⟨block, ⟨first :: before, after, by rw [cut, List.cons_append], last⟩, named⟩
      · have named : first.name = name := by simpa [later, eq_comm] using present
        refine ⟨first, ⟨[], rest, rfl, fun other member same => later ?_⟩, named⟩
        exact List.mem_map.mpr ⟨other, member, same.trans named⟩

namespace TableStore

/-- The operations by which table blocks and standalone indexes are read. -/
def reading
    (blocks : List TableBlock)
    (indexes : List IndexDeclaration) : List Operation :=
  blocks.map (fun block => .put (Table.ofBlock block)) ++
    indexes.map fun index => .addIndex index.table index.column

theorem run_reading
    (blocks : List TableBlock)
    (indexes : List IndexDeclaration) :
    run (reading blocks indexes) = (ofBlocks blocks).addIndexes indexes := by
  rw [run, reading, List.foldl_append, List.foldl_map, List.foldl_map]
  rfl

theorem putNames_reading
    (blocks : List TableBlock)
    (indexes : List IndexDeclaration) :
    putNames (reading blocks indexes) = blocks.map TableBlock.name := by
  induction blocks with
  | nil =>
      induction indexes with
      | nil => rfl
      | cons index rest inductionHypothesis => exact inductionHypothesis
  | cons block rest inductionHypothesis =>
      exact congrArg (block.name :: ·) inductionHypothesis

theorem columnsFor_reading
    (name : Text)
    (blocks : List TableBlock)
    (indexes : List IndexDeclaration) :
    columnsFor name (reading blocks indexes) =
      (indexes.filter fun index => index.table = name).map IndexDeclaration.column := by
  induction blocks with
  | nil =>
      induction indexes with
      | nil => rfl
      | cons index rest inductionHypothesis =>
          by_cases same : index.table = name <;> simp_all [reading]
  | cons block rest inductionHypothesis => exact inductionHypothesis

theorem names_ofBlocks
    (blocks : List TableBlock) :
    (ofBlocks blocks).tables.map Table.name = (blocks.map TableBlock.name).eraseDups := by
  have names := names_run (reading blocks [])
  rwa [run_reading, putNames_reading] at names

theorem inStep_ofBlocks
    (blocks : List TableBlock) :
    (ofBlocks blocks).InStep := by
  have inStep := inStep_run (reading blocks [])
  rwa [run_reading] at inStep

theorem schema_ofBlocks
    (blocks : List TableBlock) :
    (ofBlocks blocks).schema = Schema.ofBlocks blocks := by
  induction blocks using List.reverseRecOn with
  | nil => rfl
  | append_singleton blocks block inductionHypothesis =>
      rw [ofBlocks, Schema.ofBlocks, List.foldl_append, List.foldl_append, ← ofBlocks,
        ← Schema.ofBlocks, ← inductionHypothesis]
      exact (inStep_ofBlocks blocks).schema_put (Table.ofBlock block)

theorem InStep.schema_addIndexes
    {store : TableStore}
    (inStep : store.InStep)
    (indexes : List IndexDeclaration) :
    (store.addIndexes indexes).schema = store.schema.addIndexes indexes := by
  induction indexes generalizing store with
  | nil => rfl
  | cons index rest inductionHypothesis =>
      have later := inductionHypothesis (inStep.addIndex index.table index.column)
      rwa [inStep.schema_addIndex] at later

/-- The tables that are read are those of the plain schema of the dump. -/
theorem schema_ofText (text : Text) : (ofText text).schema = Schema.ofText text := by
  rw [ofText, (inStep_ofBlocks _).schema_addIndexes, schema_ofBlocks, Schema.ofText]

/-- Indexes on tables that are not there count for nothing. -/
theorem InStep.addIndexes_filter
    {store : TableStore}
    (inStep : store.InStep)
    (indexes : List IndexDeclaration) :
    store.addIndexes (indexes.filter fun index => index.table ∈ store.tables.map Table.name) =
      store.addIndexes indexes := by
  induction indexes generalizing store with
  | nil => rfl
  | cons index rest inductionHypothesis =>
      by_cases known : index.table ∈ store.tables.map Table.name
      · have later := inductionHypothesis (inStep.addIndex index.table index.column)
        rw [names_addIndex] at later
        rw [List.filter_cons_of_pos (by simpa using known)]
        exact later
      · have ignored : store.addIndex index.table index.column = store := by
          rw [TableStore.addIndex, inStep.position?_eq_none_iff.mpr known]
        rw [List.filter_cons_of_neg (by simpa using known), inductionHypothesis inStep]
        exact congrArg (·.addIndexes rest) ignored.symm

/-- What is found under the name of the last block of this name. -/
theorem find?_ofText
    {text : Text}
    {block : TableBlock}
    (last : TableBlock.IsLastNamed (TableBlock.ofText text) block) :
    (ofText text).find? block.name = some
      { name := block.name
        columns := (ColumnDeclaration.ofBody block.body).map ColumnDeclaration.name
        foreignKeys := ForeignKey.ofBody block.body
        indexes := InlineIndex.ofBody block.body ++
          ((IndexDeclaration.ofText text).filter fun index => index.table = block.name).map
            IndexDeclaration.column } := by
  obtain ⟨before, after, cut, noLater⟩ := last
  have operations : reading (TableBlock.ofText text) (IndexDeclaration.ofText text) =
      before.map (fun block => .put (Table.ofBlock block)) ++
        .put (Table.ofBlock block) :: reading after (IndexDeclaration.ofText text) := by
    simp [reading, cut]
  have notPut : (Table.ofBlock block).name ∉
      putNames (reading after (IndexDeclaration.ofText text)) := by
    rw [putNames_reading, List.mem_map]
    rintro ⟨later, member, same⟩
    exact noLater later member same
  rw [ofText, ← run_reading, operations]
  refine (find?_run_put _ _ notPut).trans ?_
  rw [columnsFor_reading]
  rfl

/-- The tables that are read are those of the blocks, each name once and in the
place of its first block.  Each has the columns and foreign keys of the last
block of its name, and behind the indexes declared in this block those that are
declared for its name anywhere in the text.  Indexes on other tables count for
nothing. -/
theorem ofText_holds_last_blocks
    (text : Text) :
    (ofText text).tables.map Table.name =
        ((TableBlock.ofText text).map TableBlock.name).eraseDups ∧
      (∀ table ∈ (ofText text).tables,
        ∃ block, TableBlock.IsLastNamed (TableBlock.ofText text) block ∧
          block.name = table.name ∧
          table.columns = (ColumnDeclaration.ofBody block.body).map ColumnDeclaration.name ∧
          table.foreignKeys = ForeignKey.ofBody block.body ∧
          table.indexes = InlineIndex.ofBody block.body ++
            ((IndexDeclaration.ofText text).filter fun index => index.table = table.name).map
              IndexDeclaration.column) ∧
      ofText text = (ofBlocks (TableBlock.ofText text)).addIndexes
        ((IndexDeclaration.ofText text).filter fun index =>
          index.table ∈ (TableBlock.ofText text).map TableBlock.name) := by
  have inStep : (ofText text).InStep := by
    rw [ofText, ← run_reading]
    exact inStep_run _
  have names : (ofText text).tables.map Table.name =
      ((TableBlock.ofText text).map TableBlock.name).eraseDups := by
    rw [ofText, ← run_reading, names_run, putNames_reading]
  refine ⟨names, ?_, ?_⟩
  · intro table present
    have named : table.name ∈ (TableBlock.ofText text).map TableBlock.name := by
      rw [← List.mem_eraseDups, ← names]
      exact List.mem_map_of_mem present
    obtain ⟨block, last, same⟩ := TableBlock.exists_isLastNamed named
    have found := find?_ofText last
    rw [same, inStep.find?_eq_some_iff.mpr ⟨present, rfl⟩] at found
    rw [Option.some.inj found]
    exact ⟨block, last, same, rfl, rfl, rfl⟩
  · rw [ofText, ← (inStep_ofBlocks _).addIndexes_filter]
    simp only [names_ofBlocks, List.mem_eraseDups]

end TableStore
end QueryAdvisor

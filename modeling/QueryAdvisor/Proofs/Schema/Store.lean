import QueryAdvisor.Proofs.Schema.Contents
import QueryAdvisor.Schema.Store

/-!
# Tables and their positions

A store of tables keeps a list and a map of positions, and each operation has to
keep the two in step: the map has exactly the names of the tables, each with the
place of its table in the list.  As long as they are in step, a store does what
is done to a plain list of tables.

From this follows what a store holds after any operations, and what it holds
after a schema dump has been read.
-/

namespace QueryAdvisor

/-- Distinct names are looked up where they stand. -/
theorem lookup_zipIdx_eq_some_iff
    {names : List Text}
    (distinct : names.Nodup)
    {name : Text}
    {position : Nat} :
    names.zipIdx.lookup name = some position ↔ names[position]? = some name := by
  have standing {other : Nat} (looked : names.zipIdx.lookup name = some other) :
      names[other]? = some name := by
    obtain ⟨before, after, cut, _⟩ := List.lookup_eq_some_iff.mp looked
    have listed : (name, other) ∈ names.zipIdx := by simp [cut]
    exact List.mem_zipIdx_iff_getElem?.mp listed
  refine ⟨standing, fun stands => ?_⟩
  cases looked : names.zipIdx.lookup name with
  | none =>
      have absent := List.lookup_eq_none_iff.mp looked (name, position)
        (List.mem_zipIdx_iff_getElem?.mpr stands)
      simp at absent
  | some other =>
      have bound := (List.getElem?_eq_some_iff.mp (standing looked)).1
      have same := (standing looked).trans stands.symm
      rw [(List.getElem?_inj bound distinct).mp same]

namespace Schema

/-- A table of a new name is put at the end. -/
theorem putTable_of_new
    {table : Table}
    {tables : List Table}
    (new : table.name ∉ tables.map Table.name) :
    putTable table tables = tables ++ [table] := by
  induction tables with
  | nil => rfl
  | cons first rest inductionHypothesis =>
      obtain ⟨different, restNew⟩ := not_or.mp (mt List.mem_cons.mpr new)
      rw [putTable, if_neg (Ne.symm different), inductionHypothesis restNew, List.cons_append]

/-- A table of a known name is put in the place of the one that has it. -/
theorem putTable_of_known
    {table known : Table}
    {tables : List Table}
    {position : Nat}
    (distinct : (tables.map Table.name).Nodup)
    (stands : tables[position]? = some known)
    (named : known.name = table.name) :
    putTable table tables = tables.set position table := by
  induction tables generalizing position with
  | nil => simp at stands
  | cons first rest inductionHypothesis =>
      obtain ⟨firstAbsent, restDistinct⟩ := List.nodup_cons.mp distinct
      cases position with
      | zero =>
          obtain rfl : first = known := by simpa using stands
          rw [putTable, if_pos named, List.set_cons_zero]
      | succ position =>
          have later : rest[position]? = some known := by simpa using stands
          have different : first.name ≠ table.name := by
            intro same
            exact firstAbsent (List.mem_map.mpr
              ⟨known, List.mem_of_getElem? later, named.trans same.symm⟩)
          rw [putTable, if_neg different, List.set_cons_succ,
            inductionHypothesis restDistinct later]

/-- Only a new name is added to those of the tables. -/
theorem names_putTable
    (table : Table)
    (tables : List Table) :
    (putTable table tables).map Table.name =
      if table.name ∈ tables.map Table.name then tables.map Table.name
      else tables.map Table.name ++ [table.name] := by
  induction tables with
  | nil => rfl
  | cons first rest inductionHypothesis =>
      rw [putTable]
      by_cases same : first.name = table.name
      · simp [same]
      · have different : table.name ≠ first.name := fun equal => same equal.symm
        rw [if_neg same, List.map_cons, inductionHypothesis]
        by_cases present : table.name ∈ rest.map Table.name
        · simp only [List.map_cons, List.mem_cons, present, or_true, if_true]
        · simp only [List.map_cons, List.mem_cons, different, present, or_self, if_false,
            List.cons_append]

/-- Adding a column to the indexes of one table changes no other. -/
theorem find?_addIndex
    (schema : Schema)
    (name column other : Text) :
    (schema.addIndex name column).find? other =
      (schema.find? other).map fun table =>
        if other = name then { table with indexes := table.indexes ++ [column] } else table := by
  rw [find?, find?, addIndex]
  induction schema.tables with
  | nil => rfl
  | cons first rest inductionHypothesis =>
      by_cases known : first.name = name <;> by_cases same : first.name = other <;>
        simp_all

end Schema

namespace TableStore

/-- The map of positions is in step with the tables: it has exactly their names,
which are distinct, each with the place of its table. -/
structure InStep (store : TableStore) : Prop where
  distinct : (store.tables.map Table.name).Nodup
  positions_eq : store.positions = (store.tables.map Table.name).zipIdx

/-- Putting a table changes the table at the position of its name only. -/
theorem getElem?_put_of_ne
    {store : TableStore}
    {table other : Table}
    {place : Nat}
    (notKept : store.position? table.name ≠ some place)
    (stands : store.tables[place]? = some other) :
    (store.put table).tables[place]? = store.tables[place]? := by
  rw [put]
  cases known : store.position? table.name with
  | none => exact List.getElem?_append_left (List.getElem?_eq_some_iff.mp stands).1
  | some position =>
      have different : position ≠ place := fun same => notKept (same ▸ known)
      exact List.getElem?_set_ne different

/-- Adding a column changes the table at the position of its name only. -/
theorem getElem?_addIndex
    (store : TableStore)
    (name column : Text)
    (place : Nat) :
    (store.addIndex name column).tables[place]? =
      store.tables[place]?.map fun table =>
        if store.position? name = some place then
          { table with indexes := table.indexes ++ [column] }
        else table := by
  rw [addIndex]
  cases store.position? name with
  | none => simp
  | some position => simp [List.getElem?_modify]

theorem names_addIndex
    (store : TableStore)
    (name column : Text) :
    (store.addIndex name column).tables.map Table.name = store.tables.map Table.name := by
  apply List.ext_getElem?
  intro place
  rw [List.getElem?_map, List.getElem?_map, getElem?_addIndex, Option.map_map]
  congr 1
  funext table
  simp [apply_ite]

theorem inStep_empty : empty.InStep := ⟨.nil, rfl⟩

namespace InStep

variable {store : TableStore}

theorem position?_eq_some_iff
    (inStep : store.InStep)
    {name : Text}
    {position : Nat} :
    store.position? name = some position ↔
      ∃ table, store.tables[position]? = some table ∧ table.name = name := by
  rw [position?, inStep.positions_eq, lookup_zipIdx_eq_some_iff inStep.distinct,
    List.getElem?_map, Option.map_eq_some_iff]

/-- A position is kept for a name exactly if the table there has it. -/
theorem position?_eq_some_iff_name
    (inStep : store.InStep)
    {name : Text}
    {table : Table}
    {position : Nat}
    (stands : store.tables[position]? = some table) :
    store.position? name = some position ↔ table.name = name := by
  rw [inStep.position?_eq_some_iff, stands]
  simp

theorem position?_eq_none_iff
    (inStep : store.InStep)
    {name : Text} :
    store.position? name = none ↔ name ∉ store.tables.map Table.name := by
  rw [Option.eq_none_iff_forall_ne_some, List.mem_map]
  constructor
  · rintro unknown ⟨table, present, named⟩
    obtain ⟨position, stands⟩ := List.mem_iff_getElem?.mp present
    exact unknown position ((inStep.position?_eq_some_iff_name stands).mpr named)
  · intro absent position known
    obtain ⟨table, stands, named⟩ := inStep.position?_eq_some_iff.mp known
    exact absent ⟨table, List.mem_of_getElem? stands, named⟩

/-- A table is found by its position exactly if it is there. -/
theorem find?_eq_some_iff
    (inStep : store.InStep)
    {name : Text}
    {table : Table} :
    store.find? name = some table ↔ table ∈ store.tables ∧ table.name = name := by
  rw [find?, Option.bind_eq_some_iff, List.mem_iff_getElem?]
  constructor
  · rintro ⟨position, known, stands⟩
    exact ⟨⟨position, stands⟩, (inStep.position?_eq_some_iff_name stands).mp known⟩
  · rintro ⟨⟨position, stands⟩, named⟩
    exact ⟨position, (inStep.position?_eq_some_iff_name stands).mpr named, stands⟩

/-- A search by position finds what a search through the tables finds. -/
theorem find?_schema
    (inStep : store.InStep)
    (name : Text) :
    store.schema.find? name = store.find? name := by
  cases found : store.schema.find? name with
  | none =>
      symm
      rw [Option.eq_none_iff_forall_ne_some]
      intro table known
      obtain ⟨present, named⟩ := inStep.find?_eq_some_iff.mp known
      have absent := List.find?_eq_none.mp found table present
      simp [named] at absent
  | some table =>
      have named : table.name = name := by simpa using List.find?_some found
      exact (inStep.find?_eq_some_iff.mpr ⟨List.mem_of_find?_eq_some found, named⟩).symm

theorem schema_put
    (inStep : store.InStep)
    (table : Table) :
    (store.put table).schema = store.schema.put table := by
  rw [Schema.put, schema, tables_schema, Schema.mk.injEq, TableStore.put]
  cases known : store.position? table.name with
  | none => exact (Schema.putTable_of_new (inStep.position?_eq_none_iff.mp known)).symm
  | some position =>
      obtain ⟨other, stands, named⟩ := inStep.position?_eq_some_iff.mp known
      exact (Schema.putTable_of_known inStep.distinct stands named).symm

theorem schema_addIndex
    (inStep : store.InStep)
    (name column : Text) :
    (store.addIndex name column).schema = store.schema.addIndex name column := by
  rw [Schema.addIndex, schema, tables_schema, Schema.mk.injEq]
  apply List.ext_getElem?
  intro place
  rw [getElem?_addIndex, List.getElem?_map]
  cases stands : store.tables[place]? with
  | none => rfl
  | some table => simp only [Option.map_some, inStep.position?_eq_some_iff_name stands]

theorem names_put
    (inStep : store.InStep)
    (table : Table) :
    (store.put table).tables.map Table.name =
      if table.name ∈ store.tables.map Table.name then store.tables.map Table.name
      else store.tables.map Table.name ++ [table.name] := by
  rw [← tables_schema, inStep.schema_put, Schema.tables_put, Schema.names_putTable, tables_schema]

theorem put
    (inStep : store.InStep)
    (table : Table) :
    (store.put table).InStep := by
  have names := inStep.names_put table
  cases known : store.position? table.name with
  | none =>
      have new := inStep.position?_eq_none_iff.mp known
      rw [if_neg new] at names
      refine ⟨?_, ?_⟩
      · rw [names, List.nodup_append]
        exact ⟨inStep.distinct, by simp, by simpa using new⟩
      · rw [names, List.zipIdx_append, ← inStep.positions_eq, TableStore.put]
        simp [known]
  | some position =>
      have present : table.name ∈ store.tables.map Table.name := by
        by_contra new
        simp [inStep.position?_eq_none_iff.mpr new] at known
      rw [if_pos present] at names
      refine ⟨?_, ?_⟩
      · rw [names]
        exact inStep.distinct
      · rw [names, ← inStep.positions_eq, TableStore.put]
        simp [known]

theorem addIndex
    (inStep : store.InStep)
    (name column : Text) :
    (store.addIndex name column).InStep := by
  have positions : (store.addIndex name column).positions = store.positions := by
    rw [TableStore.addIndex]
    split <;> rfl
  have names := store.names_addIndex name column
  refine ⟨?_, ?_⟩
  · rw [names]
    exact inStep.distinct
  · rw [positions, names, inStep.positions_eq]

theorem find?_put
    (inStep : store.InStep)
    (table : Table)
    (name : Text) :
    (store.put table).find? name = if name = table.name then some table else store.find? name := by
  rw [← (inStep.put table).find?_schema, inStep.schema_put, ← inStep.find?_schema]
  by_cases same : name = table.name
  · rw [if_pos same, same, Schema.find?_put_self]
  · rw [if_neg same, Schema.find?_put_of_ne _ _ _ same]

theorem find?_addIndex
    (inStep : store.InStep)
    (name column other : Text) :
    (store.addIndex name column).find? other =
      (store.find? other).map fun table =>
        if other = name then { table with indexes := table.indexes ++ [column] } else table := by
  rw [← (inStep.addIndex name column).find?_schema, inStep.schema_addIndex,
    Schema.find?_addIndex, inStep.find?_schema]

end InStep

/-! ### Runs of operations -/

/-- What can be done to a store. -/
inductive Operation where
  | put (table : Table)
  | addIndex (name column : Text)
deriving DecidableEq, Repr

namespace Operation

/-- The name of the table that an operation is about. -/
def name : Operation → Text
  | put table => table.name
  | addIndex name _ => name

/-- The name under which an operation puts a table. -/
def putName? : Operation → Option Text
  | put table => some table.name
  | addIndex _ _ => none

/-- The column that an operation adds to the indexes of the table of a name. -/
def columnFor?
    (name : Text) : Operation → Option Text
  | put _ => none
  | addIndex other column => if other = name then some column else none

end Operation

/-- Carry out an operation. -/
def apply
    (store : TableStore) : Operation → TableStore
  | .put table => store.put table
  | .addIndex name column => store.addIndex name column

/-- The store after some operations on the empty one. -/
def run (operations : List Operation) : TableStore :=
  operations.foldl apply empty

/-- The names under which operations put tables, in order and with repetitions. -/
def putNames (operations : List Operation) : List Text :=
  operations.filterMap Operation.putName?

/-- The columns that operations add to the indexes of the table of a name. -/
def columnsFor
    (name : Text)
    (operations : List Operation) : List Text :=
  operations.filterMap (Operation.columnFor? name)

@[simp] theorem putNames_put
    (table : Table)
    (operations : List Operation) :
    putNames (.put table :: operations) = table.name :: putNames operations := rfl

@[simp] theorem putNames_addIndex
    (name column : Text)
    (operations : List Operation) :
    putNames (.addIndex name column :: operations) = putNames operations := rfl

@[simp] theorem columnsFor_nil (name : Text) : columnsFor name [] = [] := rfl

@[simp] theorem columnsFor_put
    (name : Text)
    (table : Table)
    (operations : List Operation) :
    columnsFor name (.put table :: operations) = columnsFor name operations := rfl

@[simp] theorem columnsFor_addIndex
    (name other column : Text)
    (operations : List Operation) :
    columnsFor name (.addIndex other column :: operations) =
      if other = name then column :: columnsFor name operations
      else columnsFor name operations := by
  by_cases same : other = name <;> simp [columnsFor, Operation.columnFor?, same]

theorem mem_putNames_iff
    {operations : List Operation}
    {name : Text} :
    name ∈ putNames operations ↔ ∃ table, .put table ∈ operations ∧ table.name = name := by
  rw [putNames, List.mem_filterMap]
  constructor
  · rintro ⟨operation, present, put⟩
    cases operation with
    | put table => exact ⟨table, present, Option.some.inj put⟩
    | addIndex _ _ => contradiction
  · rintro ⟨table, present, named⟩
    exact ⟨.put table, present, congrArg some named⟩

theorem run_concat
    (operations : List Operation)
    (operation : Operation) :
    run (operations ++ [operation]) = (run operations).apply operation := by
  rw [run, List.foldl_append, List.foldl_cons, List.foldl_nil, ← run]

theorem InStep.apply
    {store : TableStore}
    (inStep : store.InStep)
    (operation : Operation) :
    (store.apply operation).InStep := by
  cases operation with
  | put table => exact inStep.put table
  | addIndex name column => exact inStep.addIndex name column

/-- Tables and positions are in step after any operations. -/
theorem inStep_run
    (operations : List Operation) :
    (run operations).InStep := by
  induction operations using List.reverseRecOn with
  | nil => exact inStep_empty
  | append_singleton operations operation inductionHypothesis =>
      rw [run_concat]
      exact inductionHypothesis.apply operation

/-- Names stand in the order in which they were first put. -/
theorem names_run
    (operations : List Operation) :
    (run operations).tables.map Table.name = (putNames operations).eraseDups := by
  induction operations using List.reverseRecOn with
  | nil => rfl
  | append_singleton operations operation inductionHypothesis =>
      rw [run_concat, putNames, List.filterMap_append]
      cases operation with
      | put table =>
          rw [apply, (inStep_run operations).names_put, inductionHypothesis]
          exact (eraseDups_concat _ _).symm
      | addIndex name column =>
          rw [apply, names_addIndex, inductionHypothesis, putNames,
            List.filterMap_cons_none rfl, List.filterMap_nil, List.append_nil]

/-- Every other table stays as it is, where it is. -/
theorem InStep.getElem?_apply
    {store : TableStore}
    (inStep : store.InStep)
    {operation : Operation}
    {table : Table}
    {position : Nat}
    (stands : store.tables[position]? = some table)
    (other : table.name ≠ operation.name) :
    (store.apply operation).tables[position]? = some table := by
  have notKept := mt (inStep.position?_eq_some_iff_name stands).mp other
  cases operation with
  | put new => exact (getElem?_put_of_ne notKept stands).trans stands
  | addIndex name column =>
      rw [TableStore.apply, getElem?_addIndex, stands, Option.map_some,
        if_neg (show store.position? name ≠ some position from notKept)]

/-- What is found under another name does not change. -/
theorem InStep.find?_apply
    {store : TableStore}
    (inStep : store.InStep)
    {operation : Operation}
    {name : Text}
    (other : name ≠ operation.name) :
    (store.apply operation).find? name = store.find? name := by
  cases operation with
  | put table =>
      rw [TableStore.apply, inStep.find?_put, if_neg (show name ≠ table.name from other)]
  | addIndex table column =>
      rw [TableStore.apply, inStep.find?_addIndex]
      simp only [show name ≠ table from other, if_false, Option.map_id']

/-- A table that is not put again keeps what it was put with, and behind its
indexes gets the columns that are added for it. -/
theorem InStep.find?_foldl
    {store : TableStore}
    (inStep : store.InStep)
    {operations : List Operation}
    (table : Table)
    (found : store.find? table.name = some table)
    (notPut : table.name ∉ putNames operations) :
    (operations.foldl TableStore.apply store).find? table.name =
      some { table with indexes := table.indexes ++ columnsFor table.name operations } := by
  induction operations generalizing store table with
  | nil => simpa using found
  | cons operation rest inductionHypothesis =>
      rw [List.foldl_cons]
      cases operation with
      | put new =>
          rw [putNames_put, List.mem_cons, not_or] at notPut
          have kept := inStep.find?_put new table.name
          rw [if_neg notPut.1, found] at kept
          rw [columnsFor_put]
          exact inductionHypothesis (inStep.put new) table kept notPut.2
      | addIndex name column =>
          rw [putNames_addIndex] at notPut
          have added := inStep.find?_addIndex name column table.name
          rw [found, Option.map_some] at added
          by_cases same : table.name = name
          · -- The column stands before those that are added later.
            rw [if_pos same] at added
            have later := inductionHypothesis (inStep.addIndex name column)
              { table with indexes := table.indexes ++ [column] } added notPut
            simpa [TableStore.apply, same] using later
          · rw [if_neg same] at added
            rw [columnsFor_addIndex, if_neg (Ne.symm same)]
            exact inductionHypothesis (inStep.addIndex name column) table added notPut

/-- A run that puts a table and does not put its name again leaves this table,
with the columns that were added since. -/
theorem find?_run_put
    (before : List Operation)
    (table : Table)
    {after : List Operation}
    (notPut : table.name ∉ putNames after) :
    (run (before ++ .put table :: after)).find? table.name =
      some { table with indexes := table.indexes ++ columnsFor table.name after } := by
  have inStep := inStep_run before
  have found := inStep.find?_put table table.name
  rw [if_pos rfl] at found
  rw [run, List.foldl_append, List.foldl_cons, ← run]
  exact (inStep.put table).find?_foldl table found notPut

/-- After any operations the names of the tables are distinct and stand in the
order in which they were first put, and the map of positions has exactly these
names, each with the place of its table.  A name is found if and only if it was
put, and what is found is the last table put under it with the columns added to
its indexes since.  A further operation leaves the tables of all other names as
and where they are. -/
theorem run_keeps_positions
    (operations : List Operation) :
    ((run operations).tables.map Table.name).Nodup ∧
      (run operations).positions = ((run operations).tables.map Table.name).zipIdx ∧
      (∀ name position, (run operations).position? name = some position ↔
        ∃ table, (run operations).tables[position]? = some table ∧ table.name = name) ∧
      (∀ name, (∃ table, (run operations).find? name = some table) ↔
        ∃ table, .put table ∈ operations ∧ table.name = name) ∧
      (∀ name table, (run operations).find? name = some table →
        table.name = name ∧ table ∈ (run operations).tables) ∧
      (run operations).tables.map Table.name = (putNames operations).eraseDups ∧
      (∀ before table after, operations = before ++ .put table :: after →
        table.name ∉ putNames after →
          (run operations).find? table.name =
            some { table with indexes := table.indexes ++ columnsFor table.name after }) ∧
      (∀ (operation : Operation) (table : Table) (position : Nat),
        (run operations).tables[position]? = some table → table.name ≠ operation.name →
          ((run operations).apply operation).tables[position]? = some table) ∧
      ∀ (operation : Operation) (name : Text), name ≠ operation.name →
        ((run operations).apply operation).find? name = (run operations).find? name := by
  have inStep := inStep_run operations
  refine ⟨inStep.distinct, inStep.positions_eq, fun _ _ => inStep.position?_eq_some_iff, ?_, ?_,
    names_run operations, ?_, fun _ _ _ stands other => inStep.getElem?_apply stands other,
    fun _ _ other => inStep.find?_apply other⟩
  · intro name
    simp only [inStep.find?_eq_some_iff]
    rw [← List.mem_map, names_run, List.mem_eraseDups, mem_putNames_iff]
  · intro name table found
    exact (inStep.find?_eq_some_iff.mp found).symm
  · rintro before table after rfl notPut
    exact find?_run_put before table notPut

end TableStore
end QueryAdvisor

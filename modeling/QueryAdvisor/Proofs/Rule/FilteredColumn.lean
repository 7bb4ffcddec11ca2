import Mathlib.Data.Nat.Find
import Mathlib.Order.Bounds.Defs
import QueryAdvisor.Proofs.Finding.Aggregate
import QueryAdvisor.Proofs.Query.CallSite
import QueryAdvisor.Rule.Source

/-!
# Findings on filtered columns

A source file is reported once for each column that it filters by, at the first
call on the column.  The pass over the filters remembers the columns it has met;
since the calls are sorted by place, it keeps exactly the calls before which no
other one is on the same column.  The keys of the findings differ with their
columns, so aggregation keeps them all.
-/

namespace QueryAdvisor

/-- Later places are on later lines, or on the same line. -/
theorem Text.lineAt_le_lineAt
    (text : Text)
    {early late : Nat}
    (notAfter : early ≤ late) :
    text.lineAt early ≤ text.lineAt late := by
  rw [lineAt_eq, lineAt_eq]
  apply Nat.add_le_add_left
  exact (List.take_prefix_take_left notAfter).sublist.count_le _

namespace WhereFilter

/-- The filter of a call. -/
def ofCall
    (text : Text)
    (call : Occurrence Text) : WhereFilter where
  column := call.value
  line := text.lineAt call.start

theorem ofText_eq_map_ofCall (text : Text) : ofText text = (calls text).map (ofCall text) := rfl

/-- Among some calls, a call is the first on its column, which has not been met. -/
def IsFirstUse
    (seen : List Text)
    (found : List (Occurrence Text))
    (call : Occurrence Text) : Prop :=
  call.value ∉ seen ∧ ∀ other ∈ found, other.value = call.value → call.start ≤ other.start

instance
    (seen : List Text)
    (found : List (Occurrence Text))
    (call : Occurrence Text) : Decidable (IsFirstUse seen found call) :=
  inferInstanceAs (Decidable (_ ∧ _))

/-- A call on a column that was met is no rival of calls on other columns. -/
theorem isFirstUse_cons_of_met
    {seen : List Text}
    {call other : Occurrence Text}
    (met : call.value ∈ seen)
    (rest : List (Occurrence Text)) :
    IsFirstUse seen (call :: rest) other ↔ IsFirstUse seen rest other := by
  refine and_congr_right fun unmet => ?_
  rw [List.forall_mem_cons]
  apply and_iff_right
  intro sameColumn
  exact absurd (sameColumn ▸ met) unmet

/-- Behind a call, only calls on other columns can be first ones. -/
theorem isFirstUse_cons_of_before
    {seen : List Text}
    {call other : Occurrence Text}
    (before : call.start < other.start)
    (rest : List (Occurrence Text)) :
    IsFirstUse seen (call :: rest) other ↔ IsFirstUse (call.value :: seen) rest other := by
  have rival : (call.value = other.value → other.start ≤ call.start) ↔
      other.value ≠ call.value := by
    constructor
    · intro notAfter sameColumn
      exact absurd (notAfter sameColumn.symm) (Nat.not_le.mpr before)
    · intro different sameColumn
      exact absurd sameColumn.symm different
  rw [IsFirstUse, IsFirstUse, List.forall_mem_cons, rival, List.mem_cons, not_or]
  exact and_left_comm.trans and_assoc.symm

/-- The first calls on their columns, in the order of all calls. -/
def firstCalls (text : Text) : List (Occurrence Text) :=
  (calls text).filter fun call => IsFirstUse [] (calls text) call

theorem mem_firstCalls_iff
    {text : Text}
    {call : Occurrence Text} :
    call ∈ firstCalls text ↔
      call ∈ calls text ∧
        ∀ other ∈ calls text, other.value = call.value → call.start ≤ other.start := by
  simp [firstCalls, IsFirstUse]

/-- First calls are on different columns. -/
theorem pairwise_firstCalls (text : Text) :
    (firstCalls text).Pairwise fun earlier later =>
      earlier.start < later.start ∧ earlier.value ≠ later.value := by
  refine ((pairwise_calls text).filter _).imp_of_mem ?_
  intro earlier later isFirst isLaterFirst before
  refine ⟨before, ?_⟩
  intro sameColumn
  have notAfter := (mem_firstCalls_iff.mp isLaterFirst).2 earlier
    (mem_firstCalls_iff.mp isFirst).1 sameColumn
  omega

/-- The place of a first call is the least at which the text filters by the column. -/
theorem exists_mem_firstCalls_iff
    (text : Text)
    (place : Nat)
    (column : Text) :
    (∃ call ∈ firstCalls text, call.start = place ∧ call.value = column) ↔
      IsLeast { other | FiltersAt text other column } place := by
  constructor
  · rintro ⟨call, isFirst, rfl, rfl⟩
    obtain ⟨found, first⟩ := mem_firstCalls_iff.mp isFirst
    refine ⟨(exists_mem_calls_iff text _ _).mp ⟨call, found, rfl, rfl⟩, ?_⟩
    intro other filters
    obtain ⟨otherCall, otherFound, rfl, sameColumn⟩ := (exists_mem_calls_iff text _ _).mpr filters
    exact first otherCall otherFound sameColumn
  · rintro ⟨filters, least⟩
    obtain ⟨call, found, rfl, rfl⟩ := (exists_mem_calls_iff text _ _).mpr filters
    refine ⟨call, mem_firstCalls_iff.mpr ⟨found, ?_⟩, rfl, rfl⟩
    intro other otherFound sameColumn
    exact least ((exists_mem_calls_iff text _ _).mp ⟨other, otherFound, rfl, sameColumn⟩)

/-- Every column that the text filters by has a first call. -/
theorem exists_firstCall
    {text : Text}
    {call : Occurrence Text}
    (found : call ∈ calls text) :
    ∃ first ∈ firstCalls text, first.value = call.value := by
  classical
  have filtered : ∃ place, FiltersAt text place call.value :=
    ⟨call.start, (exists_mem_calls_iff text _ _).mp ⟨call, found, rfl, rfl⟩⟩
  have least : IsLeast { place | FiltersAt text place call.value } (Nat.find filtered) :=
    ⟨Nat.find_spec filtered, fun _ filters => Nat.find_min' filtered filters⟩
  obtain ⟨first, isFirst, _, sameColumn⟩ := (exists_mem_firstCalls_iff text _ _).mpr least
  exact ⟨first, isFirst, sameColumn⟩

/-- The line of a first call is the least on which a filter has its column. -/
theorem isLeast_line_of_mem_firstCalls
    {text : Text}
    {call : Occurrence Text}
    (isFirst : call ∈ firstCalls text) :
    IsLeast { line | { column := call.value, line } ∈ ofText text } (text.lineAt call.start) := by
  obtain ⟨found, first⟩ := mem_firstCalls_iff.mp isFirst
  refine ⟨List.mem_map.mpr ⟨call, found, rfl⟩, ?_⟩
  intro line listed
  obtain ⟨other, otherFound, made⟩ := List.mem_map.mp listed
  obtain ⟨sameColumn, rfl⟩ := WhereFilter.mk.inj made
  exact text.lineAt_le_lineAt (first other otherFound sameColumn)

end WhereFilter

namespace SourceRule

open WhereFilter

/-- The pass over the filters keeps those of the first calls on columns that it
has not met. -/
theorem firstUses_map_ofCall
    (text : Text)
    (seen : List Text)
    {found : List (Occurrence Text)}
    (inOrder : found.Pairwise fun earlier later => earlier.start < later.start) :
    firstUses seen (found.map (ofCall text)) =
      (found.filter fun call => IsFirstUse seen found call).map (ofCall text) := by
  induction found generalizing seen with
  | nil => rfl
  | cons call rest inductionHypothesis =>
      obtain ⟨before, restInOrder⟩ := List.pairwise_cons.mp inOrder
      have column : (ofCall text call).column = call.value := rfl
      rw [List.map_cons, firstUses, column]
      by_cases met : call.value ∈ seen
      · have passedOver : ¬ IsFirstUse seen (call :: rest) call := fun first => first.1 met
        have sameRest : (rest.filter fun other => IsFirstUse seen (call :: rest) other) =
            rest.filter fun other => IsFirstUse seen rest other := by
          apply List.filter_congr
          intro other _
          exact decide_eq_decide.mpr (isFirstUse_cons_of_met met rest)
        rw [if_pos (List.contains_iff_mem.mpr met), inductionHypothesis seen restInOrder,
          List.filter_cons_of_neg (by simpa using passedOver), sameRest]
      · have kept : IsFirstUse seen (call :: rest) call := by
          refine ⟨met, List.forall_mem_cons.mpr ⟨fun _ => Nat.le_refl _, ?_⟩⟩
          intro other present _
          exact Nat.le_of_lt (before other present)
        have sameRest : (rest.filter fun other => IsFirstUse seen (call :: rest) other) =
            rest.filter fun other => IsFirstUse (call.value :: seen) rest other := by
          apply List.filter_congr
          intro other present
          exact decide_eq_decide.mpr (isFirstUse_cons_of_before (before other present) rest)
        rw [if_neg (mt List.contains_iff_mem.mp met),
          inductionHypothesis (call.value :: seen) restInOrder,
          List.filter_cons_of_pos (by simpa using kept), List.map_cons, sameRest]

theorem examine_whereClauseColumn (file : SourceFile) :
    whereClauseColumn.examine file =
      (firstCalls file.content).map fun call =>
        filteredColumn file (ofCall file.content call) := by
  have kept := firstUses_map_ofCall file.content [] (pairwise_calls file.content)
  rw [← ofText_eq_map_ofCall] at kept
  simp only [whereClauseColumn, kept, List.map_map]
  rfl

/-- Findings on different columns of one file have different keys, whatever the
file is called. -/
theorem key_filteredColumn_ne
    (file : SourceFile)
    {left right : WhereFilter}
    (different : left.column ≠ right.column) :
    (filteredColumn file left).key ≠ (filteredColumn file right).key := by
  intro sameKey
  exact different (List.append_cancel_left sameKey)

theorem unrepeated_whereClauseColumn (file : SourceFile) :
    Finding.unrepeated (whereClauseColumn.examine file) = whereClauseColumn.examine file := by
  apply Finding.unrepeated_eq_self
  rw [examine_whereClauseColumn, List.pairwise_map]
  refine (pairwise_firstCalls file.content).imp ?_
  rintro earlier later ⟨_, different⟩ sameKey
  exact absurd sameKey (key_filteredColumn_ne file different)

/-- The finding on a call, as it is reported. -/
theorem location_filteredColumn_ofCall
    (file : SourceFile)
    (call : Occurrence Text) :
    (filteredColumn file (ofCall file.content call)).location =
      .source file.displayPath (file.content.lineAt call.start) call.value := rfl

/-- Findings are about different columns, and their lines never go back. -/
theorem pairwise_location_whereClauseColumn (file : SourceFile) :
    (whereClauseColumn.examine file).Pairwise fun earlier later =>
      ∃ earlierLine earlierColumn laterLine laterColumn,
        earlier.location = .source file.displayPath earlierLine earlierColumn ∧
          later.location = .source file.displayPath laterLine laterColumn ∧
          earlierColumn ≠ laterColumn ∧ earlierLine ≤ laterLine := by
  rw [examine_whereClauseColumn, List.pairwise_map]
  refine (pairwise_firstCalls file.content).imp ?_
  rintro earlier later ⟨before, different⟩
  have inOrder := file.content.lineAt_le_lineAt (Nat.le_of_lt before)
  exact ⟨_, _, _, _, location_filteredColumn_ofCall file earlier,
    location_filteredColumn_ofCall file later, different, Int.ofNat_le.mpr inOrder⟩

/-- A column is reported if some filter of the text has it. -/
theorem exists_location_whereClauseColumn_iff
    (file : SourceFile)
    (column : Text) :
    (∃ finding ∈ whereClauseColumn.examine file,
      ∃ line, finding.location = .source file.displayPath line column) ↔
        column ∈ (ofText file.content).map WhereFilter.column := by
  rw [examine_whereClauseColumn, ofText_eq_map_ofCall, List.map_map, List.mem_map]
  constructor
  · rintro ⟨finding, reported, line, located⟩
    obtain ⟨call, isFirst, rfl⟩ := List.mem_map.mp reported
    rw [location_filteredColumn_ofCall, Location.source.injEq] at located
    exact ⟨call, (mem_firstCalls_iff.mp isFirst).1, located.2.2⟩
  · rintro ⟨call, found, rfl⟩
    obtain ⟨first, isFirst, sameColumn⟩ := exists_firstCall found
    refine ⟨_, List.mem_map.mpr ⟨first, isFirst, rfl⟩, file.content.lineAt first.start, ?_⟩
    rw [location_filteredColumn_ofCall, sameColumn]
    rfl

/-- The findings on filtered columns of a file are those of the first call on each
column, in the order of these calls.  So no two findings are about one column and
no column is left out, each finding is on the first line that has its column, the
lines of the findings never go back, and aggregation drops nothing. -/
theorem whereClauseColumn_reports_first_calls (file : SourceFile) :
    ∃ sites : List (Nat × Text),
      (whereClauseColumn.examine file = sites.map fun site =>
        { type := .whereClauseColumn
          severity := .info
          message :=
            ascii "Column \"" ++ site.2 ++
              ascii "\" used in WHERE clause - consider indexing if queries are slow"
          suggestion := none
          location := .source file.displayPath (file.content.lineAt site.1) site.2 }) ∧
        (∀ place column, (place, column) ∈ sites ↔
          IsLeast { other | FiltersAt file.content other column } place) ∧
        (sites.map Prod.fst).Pairwise (· < ·) ∧
        ((whereClauseColumn.examine file).Pairwise fun earlier later =>
          ∃ earlierLine earlierColumn laterLine laterColumn,
            earlier.location = .source file.displayPath earlierLine earlierColumn ∧
              later.location = .source file.displayPath laterLine laterColumn ∧
              earlierColumn ≠ laterColumn ∧ earlierLine ≤ laterLine) ∧
        (∀ column,
          (∃ finding ∈ whereClauseColumn.examine file,
            ∃ line, finding.location = .source file.displayPath line column) ↔
              column ∈ (ofText file.content).map WhereFilter.column) ∧
        (∀ finding ∈ whereClauseColumn.examine file,
          ∃ line : Nat, ∃ column,
            finding.location = .source file.displayPath line column ∧
              IsLeast { number | { column, line := number } ∈ ofText file.content } line) ∧
        (Aggregate.ofFindings (whereClauseColumn.examine file)).duplicatesDropped = 0 ∧
        ((Aggregate.ofFindings (whereClauseColumn.examine file)).groups.flatMap fun group =>
          group.warnings ++ group.infos).Perm (whereClauseColumn.examine file) := by
  have kept := unrepeated_whereClauseColumn file
  refine ⟨(firstCalls file.content).map fun call => (call.start, call.value),
    ?_, ?_, ?_, pairwise_location_whereClauseColumn file,
    exists_location_whereClauseColumn_iff file, ?_, ?_, ?_⟩
  · rw [examine_whereClauseColumn, List.map_map]
    rfl
  · intro place column
    rw [← exists_mem_firstCalls_iff, List.mem_map]
    simp only [Prod.mk.injEq]
  · rw [List.map_map, List.pairwise_map]
    exact (pairwise_firstCalls file.content).imp And.left
  · intro finding reported
    rw [examine_whereClauseColumn] at reported
    obtain ⟨call, isFirst, rfl⟩ := List.mem_map.mp reported
    exact ⟨_, _, location_filteredColumn_ofCall file call, isLeast_line_of_mem_firstCalls isFirst⟩
  · have counted := (Tally.summarises_ofFindings (whereClauseColumn.examine file)).dropped_add
    rw [kept] at counted
    exact Nat.add_eq_right.mp counted
  · have held := Aggregate.perm_flatMap_all_groups (whereClauseColumn.examine file)
    rwa [kept] at held

end SourceRule
end QueryAdvisor

import Mathlib.Data.Finset.Card
import QueryAdvisor.Finding.Preview
import QueryAdvisor.Proofs.Finding.ByType
import QueryAdvisor.Proofs.Ordered
import QueryAdvisor.Proofs.Query.Grammar
import QueryAdvisor.Rule.Source

/-!
# The preview of filtered columns

A finding on a filtered column is dropped if its key has been met.  The key joins
the name of the file and the column by a colon, and file names may hold colons
too.  A column without one is still what follows the last colon of the key, so a
dropped finding is about the same column as the one that was kept.  The columns of
the group are therefore those of all findings, dropped or not, and in whatever
order these come.
-/

namespace QueryAdvisor

namespace Finding

/-- Colon, which stands between the file and the column in a key. -/
abbrev colon : UInt8 := 58

/-- The column of a finding on a filtered column, if it is located in a source
file. -/
def filteredColumn? (finding : Finding) : Option Text :=
  match finding.type, finding.location with
  | .whereClauseColumn, .source _ _ column => some column
  | _, _ => none

/-- The columns of all findings on filtered columns in source files. -/
def filteredColumns (findings : List Finding) : List Text :=
  findings.filterMap filteredColumn?

theorem mem_filteredColumns_iff
    {findings : List Finding}
    {column : Text} :
    column ∈ filteredColumns findings ↔
      ∃ finding ∈ findings, finding.filteredColumn? = some column :=
  List.mem_filterMap

theorem filteredColumn?_eq_some_iff
    {finding : Finding}
    {column : Text} :
    finding.filteredColumn? = some column ↔
      finding.type = .whereClauseColumn ∧
        ∃ file line, finding.location = .source file line column := by
  obtain ⟨type, severity, message, suggestion, location⟩ := finding
  cases type <;> cases location <;> simp [filteredColumn?]

/-- The column stands behind a colon in the key. -/
theorem exists_key_eq
    {finding : Finding}
    {column : Text}
    (filtered : finding.filteredColumn? = some column) :
    ∃ stem, finding.key = stem ++ colon :: column := by
  obtain ⟨isFilter, file, line, located⟩ := filteredColumn?_eq_some_iff.mp filtered
  refine ⟨Path.stem file, ?_⟩
  rw [key, isFilter, located]
  exact List.append_assoc _ _ _

/-- Whatever has a key has a column. -/
theorem exists_filteredColumn?_of_key_ne_nil
    {finding : Finding}
    (keyed : finding.key ≠ []) :
    ∃ column, finding.filteredColumn? = some column := by
  have isFilter := type_eq_of_key_ne_nil keyed
  rw [key, isFilter] at keyed
  cases located : finding.location with
  | source file line column =>
      exact ⟨column, filteredColumn?_eq_some_iff.mpr ⟨isFilter, file, line, located⟩⟩
  | schema table column => simp [located] at keyed
  | config environment setting => simp [located] at keyed

/-- What follows the last colon is determined. -/
theorem eq_of_append_colon_eq
    {leftStem rightStem left right : Text}
    (joined : leftStem ++ colon :: left = rightStem ++ colon :: right)
    (leftFree : colon ∉ left)
    (rightFree : colon ∉ right) :
    left = right := by
  rcases List.append_eq_append_iff.mp joined with ⟨between, _, cut⟩ | ⟨between, _, cut⟩
  · cases between with
    | nil => exact (List.cons.inj cut).2
    | cons first rest =>
        have inside : colon ∈ left := by simp [(List.cons.inj cut).2]
        exact absurd inside leftFree
  · cases between with
    | nil => exact (List.cons.inj cut).2.symm
    | cons first rest =>
        have inside : colon ∈ right := by simp [(List.cons.inj cut).2]
        exact absurd inside rightFree

/-- Findings with the same key are about the same column. -/
theorem filteredColumn?_eq_of_key_eq
    {left right : Finding}
    {column : Text}
    (leftFree : ∀ column, left.filteredColumn? = some column → colon ∉ column)
    (rightFree : ∀ column, right.filteredColumn? = some column → colon ∉ column)
    (sameKey : left.key = right.key)
    (filtered : right.filteredColumn? = some column) :
    left.filteredColumn? = some column := by
  obtain ⟨rightStem, rightKey⟩ := exists_key_eq filtered
  have keyed : left.key ≠ [] := by
    rw [sameKey, rightKey]
    exact List.append_ne_nil_of_right_ne_nil _ (List.cons_ne_nil _ _)
  obtain ⟨leftColumn, leftFiltered⟩ := exists_filteredColumn?_of_key_ne_nil keyed
  obtain ⟨leftStem, leftKey⟩ := exists_key_eq leftFiltered
  rw [leftKey, rightKey] at sameKey
  rw [leftFiltered, eq_of_append_colon_eq sameKey (leftFree _ leftFiltered) (rightFree _ filtered)]

/-- Dropping repetitions loses no column. -/
theorem mem_filteredColumns_unrepeated
    {findings : List Finding}
    (uncoloned : ∀ column ∈ filteredColumns findings, colon ∉ column)
    (column : Text) :
    column ∈ filteredColumns (unrepeated findings) ↔ column ∈ filteredColumns findings := by
  have free {finding : Finding} (present : finding ∈ findings) (column : Text)
      (filtered : finding.filteredColumn? = some column) : colon ∉ column :=
    uncoloned column (mem_filteredColumns_iff.mpr ⟨finding, present, filtered⟩)
  rw [mem_filteredColumns_iff, mem_filteredColumns_iff]
  constructor
  · rintro ⟨finding, kept, filtered⟩
    exact ⟨finding, mem_of_mem_unrepeated kept, filtered⟩
  · rintro ⟨finding, present, filtered⟩
    obtain ⟨kept, isKept, sameKey, _⟩ := exists_mem_unrepeated present
    exact ⟨kept, isKept, filteredColumn?_eq_of_key_eq (free (mem_of_mem_unrepeated isKept))
      (free present) sameKey filtered⟩

end Finding

namespace SourceRule

open Finding

theorem mem_of_mem_firstUses
    {seen : List Text}
    {filters : List WhereFilter}
    {filter : WhereFilter}
    (first : filter ∈ firstUses seen filters) :
    filter ∈ filters := by
  induction filters generalizing seen with
  | nil => exact first
  | cons other others inductionHypothesis =>
      rw [firstUses] at first
      split at first
      · exact List.mem_cons_of_mem _ (inductionHypothesis first)
      · rcases List.mem_cons.mp first with rfl | later
        · exact List.mem_cons_self
        · exact List.mem_cons_of_mem _ (inductionHypothesis later)

/-- Columns that are reported from a source file are names, and so free of colons. -/
theorem colon_not_mem_of_whereClauseColumn
    {file : SourceFile}
    {column : Text}
    (reported : column ∈ filteredColumns (whereClauseColumn.examine file)) :
    colon ∉ column := by
  obtain ⟨finding, found, filtered⟩ := mem_filteredColumns_iff.mp reported
  obtain ⟨filter, first, rfl⟩ := List.mem_map.mp found
  obtain rfl := Option.some.inj filtered
  exact (WhereFilter.isName_of_mem_ofText (mem_of_mem_firstUses first)).not_mem (by decide)

end SourceRule

namespace FindingGroup

open Finding

theorem mem_all_collect_iff
    {findings : List Finding}
    {type : FindingType}
    {finding : Finding} :
    finding ∈ (collect findings type).all ↔ finding ∈ findings ∧ finding.type = type := by
  rw [all, collect, List.mem_append, List.mem_filter, List.mem_filter]
  cases finding.severity <;> simp

/-- The columns of a group are those of the findings it was collected from. -/
theorem mem_columns_collect_iff
    (findings : List Finding)
    (column : Text) :
    column ∈ (collect findings .whereClauseColumn).columns ↔ column ∈ filteredColumns findings := by
  rw [columns, Ordered.mem_sortDistinct, List.mem_filterMap, mem_filteredColumns_iff]
  simp only [mem_all_collect_iff, filteredColumn?_eq_some_iff]
  constructor
  · rintro ⟨finding, ⟨present, isFilter⟩, located⟩
    refine ⟨finding, present, isFilter, ?_⟩
    cases location : finding.location with
    | source file line other =>
        rw [location] at located
        obtain rfl := Option.some.inj located
        exact ⟨file, line, rfl⟩
    | schema table other => simp [location] at located
    | config environment setting => simp [location] at located
  · rintro ⟨finding, present, isFilter, file, line, location⟩
    exact ⟨finding, ⟨present, isFilter⟩, by rw [location]⟩

end FindingGroup

namespace Aggregate

open Finding

/-- There is a group for each type of a finding, whether that was dropped or not. -/
theorem group?_ofFindings_eq_some_iff
    {findings : List Finding}
    {type : FindingType}
    {group : FindingGroup} :
    (ofFindings findings).group? type = some group ↔
      (∃ finding ∈ findings, finding.type = type) ∧
        FindingGroup.collect (unrepeated findings) type = group := by
  have occurs : (∃ finding ∈ unrepeated findings, finding.type = type) ↔
      ∃ finding ∈ findings, finding.type = type := by
    constructor
    · rintro ⟨finding, kept, sameType⟩
      exact ⟨finding, mem_of_mem_unrepeated kept, sameType⟩
    · rintro ⟨finding, present, sameType⟩
      obtain ⟨kept, isKept, _, keptType⟩ := exists_mem_unrepeated present
      exact ⟨kept, isKept, keptType.trans sameType⟩
  rw [group?_ofFindings, FindingGroup.ofType?, Option.ite_none_right_eq_some, occurs,
    Option.some.injEq]

/-- The columns of the group are those of all findings in order, each once. -/
theorem columns_group?
    {findings : List Finding}
    (uncoloned : ∀ column ∈ filteredColumns findings, colon ∉ column)
    {group : FindingGroup}
    (grouped : (ofFindings findings).group? .whereClauseColumn = some group) :
    group.columns = Ordered.sortDistinct Text.precedes (filteredColumns findings) := by
  obtain ⟨_, rfl⟩ := group?_ofFindings_eq_some_iff.mp grouped
  have increasing : (FindingGroup.collect (unrepeated findings) .whereClauseColumn).columns.Pairwise
      Text.Before := Text.pairwise_before_sortDistinct _
  apply increasing.eq_of_mem_iff (Text.pairwise_before_sortDistinct _)
  intro column
  rw [FindingGroup.mem_columns_collect_iff, mem_filteredColumns_unrepeated uncoloned,
    Ordered.mem_sortDistinct]

/-- Dropping repetitions hides no filtered column.  If some finding is about one,
there is a group, its columns are as many as there are among all findings, and the
preview shows the first of them in byte order and counts the others.  It is the
same in whatever order the findings come. -/
theorem columnPreview_hides_no_column
    (findings : List Finding)
    (uncoloned : ∀ column ∈ filteredColumns findings, colon ∉ column)
    (limits : Limits) :
    ((∃ finding ∈ findings, finding.type = .whereClauseColumn) →
      ∃ group, (ofFindings findings).group? .whereClauseColumn = some group) ∧
      ∀ group, (ofFindings findings).group? .whereClauseColumn = some group →
        group.columns.length = (filteredColumns findings).toFinset.card ∧
          (∃ ordered : List Text,
            ordered.Pairwise Text.Before ∧
              (∀ column, column ∈ ordered ↔ column ∈ filteredColumns findings) ∧
              (group.columnPreview limits).shown =
                ordered.take (min group.columns.length limits.wherePreview)) ∧
          (group.columnPreview limits).overflow =
            group.columns.length - (group.columnPreview limits).shown.length ∧
          ∀ reordered, reordered.Perm findings →
            ∃ other, (ofFindings reordered).group? .whereClauseColumn = some other ∧
              other.columns = group.columns ∧
              other.columnPreview limits = group.columnPreview limits := by
  refine ⟨?_, ?_⟩
  · intro occurs
    exact ⟨_, group?_ofFindings_eq_some_iff.mpr ⟨occurs, rfl⟩⟩
  intro group grouped
  have columns := columns_group? uncoloned grouped
  have increasing := Text.pairwise_before_sortDistinct (filteredColumns findings)
  have present (column : Text) := Ordered.mem_sortDistinct Text.precedes column
    (filteredColumns findings)
  refine ⟨?_, ⟨_, increasing, present, ?_⟩, ?_, ?_⟩
  · have sameColumns : (filteredColumns findings).toFinset = group.columns.toFinset := by
      ext column
      rw [List.mem_toFinset, List.mem_toFinset, columns, present]
    have distinct : group.columns.Nodup := by
      rw [columns]
      exact increasing.nodup
    rw [sameColumns, List.toFinset_card_of_nodup distinct]
  · rw [FindingGroup.columnPreview, Preview.ofList, ← columns, List.take_eq_take_min,
      Nat.min_comm]
  · simp only [FindingGroup.columnPreview, Preview.ofList, List.length_take]
    omega
  · intro reordered perm
    have sameColumn (column : Text) :
        column ∈ filteredColumns reordered ↔ column ∈ filteredColumns findings :=
      (perm.filterMap _).mem_iff
    have occurs := (group?_ofFindings_eq_some_iff.mp grouped).1
    obtain ⟨other, otherGrouped⟩ : ∃ other,
        (ofFindings reordered).group? .whereClauseColumn = some other :=
      ⟨_, group?_ofFindings_eq_some_iff.mpr ⟨by simpa only [perm.mem_iff] using occurs, rfl⟩⟩
    have otherColumns : other.columns = group.columns := by
      rw [columns, columns_group? _ otherGrouped]
      · exact Text.sortDistinct_congr sameColumn
      · intro column inOther
        exact uncoloned column ((sameColumn column).mp inOther)
    refine ⟨other, otherGrouped, otherColumns, ?_⟩
    rw [FindingGroup.columnPreview, FindingGroup.columnPreview, otherColumns]

/-- A controller and a model of the same name that filter by three columns. -/
def filteringFiles : List SourceFile :=
  [⟨ascii "/app/controllers/posts.rb", ascii "app/controllers/posts.rb",
      ascii "Post.where(name: 1)\nPost.where(title: 2)\n"⟩,
    ⟨ascii "/app/models/posts.rb", ascii "app/models/posts.rb",
      ascii "where.where('author = ?').where(name: 3)\n"⟩]

/-- What is found in them, the repeated column included. -/
def filteringFindings : List Finding :=
  filteringFiles.flatMap SourceRule.whereClauseColumn.examine

theorem filteringFindings_columnPreview :
    (∀ column ∈ filteredColumns filteringFindings, colon ∉ column) ∧
      (ofFindings filteringFindings).duplicatesDropped = 1 ∧
      ∃ group other,
        (ofFindings filteringFindings).group? .whereClauseColumn = some group ∧
          (ofFindings filteringFindings.reverse).group? .whereClauseColumn = some other ∧
          group.columns.length = 3 ∧
          other.columnPreview ⟨5, 2⟩ = group.columnPreview ⟨5, 2⟩ := by
  have uncoloned : ∀ column ∈ filteredColumns filteringFindings, colon ∉ column := by
    intro column reported
    rw [filteredColumns, filteringFindings, List.filterMap_flatMap, List.mem_flatMap] at reported
    obtain ⟨file, _, inFile⟩ := reported
    exact SourceRule.colon_not_mem_of_whereClauseColumn inFile
  refine ⟨uncoloned, by decide +kernel, ?_⟩
  obtain ⟨opened, previewed⟩ := columnPreview_hides_no_column filteringFindings uncoloned ⟨5, 2⟩
  obtain ⟨group, grouped⟩ := opened (by decide +kernel)
  obtain ⟨counted, _, _, sameForAll⟩ := previewed group grouped
  obtain ⟨other, otherGrouped, _, samePreview⟩ := sameForAll _ (List.reverse_perm _)
  have three : (filteredColumns filteringFindings).toFinset.card = 3 := by decide +kernel
  exact ⟨group, other, grouped, otherGrouped, counted.trans three, samePreview⟩

end Aggregate
end QueryAdvisor

import QueryAdvisor.Proofs.Ordered
import QueryAdvisor.Proofs.Query.Grammar
import QueryAdvisor.Proofs.Recogniser.Place

/-!
# Where a text filters

A call that filters by a column is described by how the text goes on from its full
stop.  Calls with a keyword and calls with a condition are looked for separately,
and what is found is sorted by place.  No call begins inside another one, so none
is passed over, and no place has calls of both kinds, so none counts twice.
-/

namespace QueryAdvisor
namespace WhereFilter

open Recogniser

/-- A text begins with a call that filters by a keyword: behind the bracket come
perhaps spaces, the column and a colon.  The column is a whole word, since spaces,
brackets and colons are no word bytes. -/
def FiltersByKeyword
    (text column : Text) : Prop :=
  IsName column ∧
    ∃ indent after, indent.all Byte.isSpace = true ∧
      text = ascii ".where(" ++ (indent ++ (column ++ 58 :: after))

/-- A text begins with a call that filters by a condition: behind the bracket come
a single or double quote, the column, perhaps spaces, and the sign of equality. -/
def FiltersByCondition
    (text column : Text) : Prop :=
  IsName column ∧
    ∃ mark gap after, mark ∈ [Byte.quote, Byte.apostrophe] ∧ gap.all Byte.isSpace = true ∧
      text = ascii ".where(" ++ mark :: (column ++ (gap ++ 61 :: after))

/-- A call that filters by a column stands at a place of a text. -/
def FiltersAt
    (text : Text)
    (place : Nat)
    (column : Text) : Prop :=
  FiltersByKeyword (text.drop place) column ∨ FiltersByCondition (text.drop place) column

/-! ### Calls of one kind -/

theorem keyword_call
    {indent column : Text}
    (allIndent : indent.all Byte.isSpace = true)
    (isName : IsName column)
    (after : Text) :
    keyword (ascii ".where(" ++ (indent ++ (column ++ 58 :: after))) =
      some (column, after.dropWhile Byte.isSpace) := by
  have indented := spaces_append allIndent (isName.head?_append (58 :: after))
  have named := word_append isName
    (show (58 :: after).head?.any Byte.isWord = false from rfl)
  have spaced : spaces after = some ((), after.dropWhile Byte.isSpace) := rfl
  simp only [keyword, bind_apply, pure_apply, literal_append, indented, named, byte_cons_self,
    spaced, Option.bind_some]

theorem condition_call
    {mark : UInt8}
    {gap column : Text}
    (isMark : mark ∈ [Byte.quote, Byte.apostrophe])
    (allGap : gap.all Byte.isSpace = true)
    (isName : IsName column)
    (after : Text) :
    condition (ascii ".where(" ++ mark :: (column ++ (gap ++ 61 :: after))) =
      some (column, after) := by
  have isSign : Byte.isWord 61 = false := by decide
  have opened (rest : Text) :
      oneOf [Byte.quote, Byte.apostrophe] (mark :: rest) = some ((), rest) := by
    rw [oneOf, if_pos (List.contains_iff_mem.mpr isMark)]
  have named := word_append isName (head?_gap_append allGap isSign after)
  have spaced := spaces_append allGap
    (show (61 :: after).head?.any Byte.isSpace = false from rfl)
  simp only [condition, bind_apply, pure_apply, literal_append, opened, named, spaced,
    byte_cons_self, Option.bind_some]

theorem succeedsAt_keyword_iff
    (text : Text)
    (place : Nat)
    (column : Text) :
    SucceedsAt keyword text place column ↔ FiltersByKeyword (text.drop place) column := by
  constructor
  · rintro ⟨rest, read⟩
    obtain ⟨indent, gap, allIndent, _, isName, cut⟩ := keyword_eq_some read
    exact ⟨isName, indent, gap ++ rest, allIndent, cut⟩
  · rintro ⟨isName, indent, after, allIndent, cut⟩
    rw [SucceedsAt, cut]
    exact ⟨_, keyword_call allIndent isName after⟩

theorem succeedsAt_condition_iff
    (text : Text)
    (place : Nat)
    (column : Text) :
    SucceedsAt condition text place column ↔ FiltersByCondition (text.drop place) column := by
  constructor
  · rintro ⟨rest, read⟩
    obtain ⟨mark, gap, isMark, allGap, isName, cut⟩ := condition_eq_some read
    exact ⟨isName, mark, gap, rest, isMark, allGap, cut⟩
  · rintro ⟨isName, mark, gap, after, isMark, allGap, cut⟩
    rw [SucceedsAt, cut]
    exact ⟨_, condition_call isMark allGap isName after⟩

/-- Calls without a full stop in their argument do not begin inside each other. -/
theorem isolated_of_call
    {recogniser : Recogniser Text}
    (shape : ∀ ⦃text column rest⦄, recogniser text = some (column, rest) →
      ∃ argument, Byte.dot ∉ argument ∧ text = ascii ".where(" ++ (argument ++ rest)) :
    Isolated recogniser := by
  have opening : ascii ".where(" = Byte.dot :: ascii "where(" := by decide
  have begins : BeginsWith (ascii ".where(") recogniser := by
    intro text column rest read
    obtain ⟨argument, _, rfl⟩ := shape read
    exact List.prefix_append _ _
  rw [opening] at begins
  apply isolated_of_sign begins
  intro first others rest column read
  obtain ⟨argument, noDot, cut⟩ := shape read
  rw [← List.append_assoc, opening] at cut
  have remaining : others = ascii "where(" ++ argument :=
    (List.cons.inj (List.append_cancel_right cut)).2
  rw [remaining, List.mem_append, not_or]
  exact ⟨by decide, noDot⟩

theorem isolated_keyword : Isolated keyword := by
  apply isolated_of_call
  intro text column rest read
  obtain ⟨indent, gap, allIndent, allGap, isName, rfl⟩ := keyword_eq_some read
  refine ⟨indent ++ (column ++ 58 :: gap), ?_, by simp⟩
  simp only [List.mem_append, List.mem_cons, not_or]
  exact ⟨not_mem_of_all_isSpace allIndent (by decide), isName.not_mem (by decide), by decide,
    not_mem_of_all_isSpace allGap (by decide)⟩

theorem isolated_condition : Isolated condition := by
  apply isolated_of_call
  intro text column rest read
  obtain ⟨mark, gap, isMark, allGap, isName, rfl⟩ := condition_eq_some read
  have notMark : Byte.dot ≠ mark := by
    rintro rfl
    exact absurd isMark (by decide)
  refine ⟨mark :: (column ++ (gap ++ [61])), ?_, by simp⟩
  simp only [List.mem_append, List.mem_cons, List.not_mem_nil, or_false, not_or]
  exact ⟨notMark, isName.not_mem (by decide), not_mem_of_all_isSpace allGap (by decide),
    by decide⟩

/-- All calls with a keyword are found. -/
theorem exists_mem_keywords_iff
    (text : Text)
    (place : Nat)
    (column : Text) :
    (∃ call ∈ keyword.occurrences text, call.start = place ∧ call.value = column) ↔
      FiltersByKeyword (text.drop place) column := by
  rw [isolated_keyword.exists_mem_occurrences_iff advances_keyword, succeedsAt_keyword_iff]

/-- All calls with a condition are found. -/
theorem exists_mem_conditions_iff
    (text : Text)
    (place : Nat)
    (column : Text) :
    (∃ call ∈ condition.occurrences text, call.start = place ∧ call.value = column) ↔
      FiltersByCondition (text.drop place) column := by
  rw [isolated_condition.exists_mem_occurrences_iff advances_condition, succeedsAt_condition_iff]

/-! ### Calls of both kinds -/

/-- Behind the bracket stands either a quote, or a space or word byte. -/
theorem FiltersByKeyword.not_filtersByCondition
    {text column other : Text}
    (byKeyword : FiltersByKeyword text column) :
    ¬ FiltersByCondition text other := by
  rintro ⟨_, mark, gap, after, isMark, _, conditionCut⟩
  obtain ⟨isName, indent, rest, allIndent, cut⟩ := byKeyword
  have markOutside : Byte.isSpace mark = false ∧ Byte.isWord mark = false := by
    simp only [List.mem_cons, List.not_mem_nil, or_false] at isMark
    rcases isMark with rfl | rfl <;> decide
  have meeting := List.append_cancel_left (cut.symm.trans conditionCut)
  cases indent with
  | nil =>
      obtain ⟨first, others, rfl⟩ := List.exists_cons_of_ne_nil isName.1
      obtain ⟨rfl, _⟩ := List.cons.inj meeting
      simp [isName.isWord List.mem_cons_self] at markOutside
  | cons first others =>
      obtain ⟨rfl, _⟩ := List.cons.inj meeting
      simp [markOutside.1] at allIndent

theorem mem_calls_iff
    {text : Text}
    {call : Occurrence Text} :
    call ∈ calls text ↔ call ∈ keyword.occurrences text ∨ call ∈ condition.occurrences text :=
  (Ordered.perm_sort _ _).mem_iff.trans List.mem_append

/-- The calls that are found stand at all places where the text filters. -/
theorem exists_mem_calls_iff
    (text : Text)
    (place : Nat)
    (column : Text) :
    (∃ call ∈ calls text, call.start = place ∧ call.value = column) ↔
      FiltersAt text place column := by
  rw [FiltersAt, ← exists_mem_keywords_iff, ← exists_mem_conditions_iff]
  simp only [mem_calls_iff, or_and_right, exists_or]

/-- The calls are sorted by place, and no place has two. -/
theorem pairwise_calls (text : Text) :
    (calls text).Pairwise fun earlier later => earlier.start < later.start := by
  have compares : Ordered.Compares fun left right : Occurrence Text =>
      decide (left.start ≤ right.start) := by
    refine ⟨fun left right => ?_, fun {left middle right} => ?_⟩
    · simpa using Nat.le_total left.start right.start
    · simpa using Nat.le_trans
  have sorted := compares.pairwise_sort (keyword.occurrences text ++ condition.occurrences text)
  have distinct : (calls text).Pairwise fun left right => left.start ≠ right.start := by
    rw [calls, (Ordered.perm_sort _ _).pairwise_iff Ne.symm, List.pairwise_append]
    refine ⟨?_, ?_, ?_⟩
    · exact (pairwise_start_occurrences advances_keyword text).imp Nat.ne_of_lt
    · exact (pairwise_start_occurrences advances_condition text).imp Nat.ne_of_lt
    · intro left inKeywords right inConditions samePlace
      have byKeyword := (exists_mem_keywords_iff text left.start left.value).mp
        ⟨left, inKeywords, rfl, rfl⟩
      have byCondition := (exists_mem_conditions_iff text left.start right.value).mp
        ⟨right, inConditions, samePlace.symm, rfl⟩
      exact byKeyword.not_filtersByCondition byCondition
  refine (sorted.and distinct).imp ?_
  rintro left right ⟨notAfter, different⟩
  exact Nat.lt_of_le_of_ne (of_decide_eq_true notAfter) different

/-- The filters of a text are those of all places where it filters, each place once
and in increasing order, with the column of the call and the line of its place. -/
theorem ofText_finds_each_call (text : Text) :
    ∃ sites : List (Nat × Text),
      (sites.map Prod.fst).Pairwise (· < ·) ∧
        (∀ place column, (place, column) ∈ sites ↔ FiltersAt text place column) ∧
        ofText text = sites.map fun site =>
          { column := site.2, line := 1 + (text.take site.1).count Byte.newline } := by
  refine ⟨(calls text).map fun call => (call.start, call.value), ?_, ?_, ?_⟩
  · rw [List.map_map]
    exact List.pairwise_map.mpr (pairwise_calls text)
  · intro place column
    rw [← exists_mem_calls_iff, List.mem_map]
    simp only [Prod.mk.injEq]
  · simp only [ofText, List.map_map, Text.lineAt_eq]
    rfl

/-- A call inside the argument of another one, and one whose column is on the next
line. -/
example :
    ofText (ascii "A.where(b.where('c = ?')).where(\n d: 1)") =
      [⟨ascii "c", 1⟩, ⟨ascii "d", 1⟩] := by
  decide +kernel

end WhereFilter
end QueryAdvisor

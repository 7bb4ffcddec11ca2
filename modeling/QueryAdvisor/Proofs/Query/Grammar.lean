import QueryAdvisor.Proofs.Recogniser.Grammar
import QueryAdvisor.Query.Filter

/-!
# The grammar of filters

The shape of what the two recognisers of filters take.
-/

namespace QueryAdvisor
namespace WhereFilter

open Recogniser

/-- A keyword takes the call, perhaps spaces, the column, a colon and further
spaces. -/
theorem keyword_eq_some
    {text column rest : Text}
    (read : keyword text = some (column, rest)) :
    ∃ indent gap, indent.all Byte.isSpace = true ∧ gap.all Byte.isSpace = true ∧ IsName column ∧
      text = ascii ".where(" ++ (indent ++ (column ++ 58 :: (gap ++ rest))) := by
  simp only [keyword, bind_eq_some, pure_apply, Option.some.injEq, Prod.mk.injEq] at read
  obtain ⟨_, _, called, _, _, indented, _, _, named, _, _, colon, _, _, spaced, rfl, rfl⟩ := read
  obtain ⟨indent, allIndent, rfl⟩ := spaces_eq_some indented
  obtain ⟨rfl, nonempty, allWord, _⟩ := word_eq_some named
  obtain ⟨gap, allGap, rfl⟩ := spaces_eq_some spaced
  refine ⟨indent, gap, allIndent, allGap, ⟨nonempty, allWord⟩, ?_⟩
  rw [literal_eq_some called, byte_eq_some colon]

/-- A condition takes the call, a mark, the column, perhaps spaces and the sign of
equality. -/
theorem condition_eq_some
    {text column rest : Text}
    (read : condition text = some (column, rest)) :
    ∃ mark gap, mark ∈ [Byte.quote, Byte.apostrophe] ∧ gap.all Byte.isSpace = true ∧
      IsName column ∧ text = ascii ".where(" ++ mark :: (column ++ (gap ++ 61 :: rest)) := by
  simp only [condition, bind_eq_some, pure_apply, Option.some.injEq, Prod.mk.injEq] at read
  obtain ⟨_, _, called, _, _, opened, _, _, named, _, _, spaced, _, _, equals, rfl, rfl⟩ := read
  obtain ⟨mark, isMark, rfl⟩ := oneOf_eq_some opened
  obtain ⟨rfl, nonempty, allWord, _⟩ := word_eq_some named
  obtain ⟨gap, allGap, rfl⟩ := spaces_eq_some spaced
  refine ⟨mark, gap, isMark, allGap, ⟨nonempty, allWord⟩, ?_⟩
  rw [literal_eq_some called, byte_eq_some equals]

theorem advances_keyword : Advances keyword := by
  intro text column rest read
  obtain ⟨indent, gap, _, _, _, rfl⟩ := keyword_eq_some read
  exact ⟨ascii ".where(" ++ (indent ++ (column ++ 58 :: gap)), by simp, by simp⟩

theorem advances_condition : Advances condition := by
  intro text column rest read
  obtain ⟨mark, gap, _, _, _, rfl⟩ := condition_eq_some read
  exact ⟨ascii ".where(" ++ mark :: (column ++ (gap ++ [61])), by simp, by simp⟩

/-- Filtered columns are names. -/
theorem isName_of_mem_ofText
    {text : Text}
    {filter : WhereFilter}
    (present : filter ∈ ofText text) :
    IsName filter.column := by
  obtain ⟨call, listed, rfl⟩ := List.mem_map.mp present
  rcases List.mem_append.mp ((Ordered.perm_sort _ _).mem_iff.mp listed) with inKeywords | inConditions
  · obtain ⟨_, _, _, _, _, read, _⟩ :=
      exists_cut_of_mem_occurrencesFrom advances_keyword inKeywords
    obtain ⟨_, _, _, _, isName, _⟩ := keyword_eq_some read
    exact isName
  · obtain ⟨_, _, _, _, _, read, _⟩ :=
      exists_cut_of_mem_occurrencesFrom advances_condition inConditions
    obtain ⟨_, _, _, _, isName, _⟩ := condition_eq_some read
    exact isName

end WhereFilter
end QueryAdvisor

import QueryAdvisor.Proofs.LineEnding.Block
import QueryAdvisor.Proofs.Query.Grammar
import QueryAdvisor.Proofs.Schema.Declaration
import QueryAdvisor.Rule.Source

/-!
# Findings do not depend on line endings

A dump declares the same schema, and a source file gives the same findings on
the same lines, whether lines end in a line feed alone or in a carriage return
and a line feed.
-/

namespace QueryAdvisor

open Recogniser Text

/-! ### The schema -/

theorem ColumnDeclaration.ignoresReturns_recogniser : IgnoresReturns recogniser where
  advances := advances_recogniser
  refusesNewline _ := rfl
  respects :=
    (respects_returns_literal (by decide)).bind fun _ =>
      respects_returns_word.bind fun _ =>
        respects_returns_someSpaces.bind fun _ =>
          respects_returns_quotedWord.bind fun _ => .pure _

theorem InlineIndex.ignoresReturns_recogniser : IgnoresReturns recogniser where
  advances := advances_recogniser
  refusesNewline _ := rfl
  respects :=
    (respects_returns_literal (by decide)).bind fun _ =>
      respects_returns_someSpaces.bind fun _ =>
        (respects_returns_optional (by decide)).bind fun _ =>
          respects_returns_spaces.bind fun _ => respects_returns_quotedWord

theorem IndexDeclaration.ignoresReturns_recogniser : IgnoresReturns recogniser where
  advances := advances_recogniser
  refusesNewline _ := rfl
  respects :=
    (respects_returns_literal (by decide)).bind fun _ =>
      respects_returns_someSpaces.bind fun _ =>
        respects_returns_quotedWord.bind fun _ =>
          (respects_returns_byte (by decide)).bind fun _ =>
            respects_returns_someSpaces.bind fun _ =>
              (respects_returns_optional (by decide)).bind fun _ =>
                (respects_returns_byte (by decide)).bind fun _ =>
                  respects_returns_word.bind fun _ =>
                    (respects_returns_optional (by decide)).bind fun _ =>
                      (respects_returns_optional (by decide)).bind fun _ => .pure _

/-- A body declares the same columns, foreign keys and indexes. -/
theorem Table.ofBlock_withReturns
    (block : TableBlock) :
    ofBlock { block with body := withReturns block.body } = ofBlock block := by
  have columns := ColumnDeclaration.ignoresReturns_recogniser.captures_withReturns block.body
  have indexes := InlineIndex.ignoresReturns_recogniser.captures_withReturns block.body
  simp only [ofBlock, ForeignKey.ofBody_eq_filter, ColumnDeclaration.ofBody, InlineIndex.ofBody,
    columns, indexes]

/-- A dump declares the same schema, also if it had carriage returns before. -/
theorem Schema.ofText_withReturns
    (text : Text) :
    ofText (withReturns text) = ofText text := by
  have indexes := IndexDeclaration.ignoresReturns_recogniser.captures_withReturns text
  rw [ofText, ofText, IndexDeclaration.ofText, indexes, TableBlock.ofText_withReturns, ofBlocks,
    List.foldl_map]
  simp only [Table.ofBlock_withReturns]
  rfl

/-! ### Filters -/

namespace Ordered

variable {α β : Type}

theorem insert_map
    {precedes : α → α → Bool}
    {precedesImage : β → β → Bool}
    {image : α → β}
    (same : ∀ left right, precedesImage (image left) (image right) = precedes left right)
    (element : α)
    (elements : List α) :
    insert precedesImage (image element) (elements.map image) =
      (insert precedes element elements).map image := by
  induction elements with
  | nil => rfl
  | cons first rest inductionHypothesis =>
      rw [List.map_cons, insert, insert, same]
      split
      · rfl
      · rw [inductionHypothesis, List.map_cons]

/-- Sorting commutes with a map that keeps the order. -/
theorem sort_map
    {precedes : α → α → Bool}
    {precedesImage : β → β → Bool}
    {image : α → β}
    (same : ∀ left right, precedesImage (image left) (image right) = precedes left right)
    (elements : List α) :
    sort precedesImage (elements.map image) = (sort precedes elements).map image := by
  induction elements with
  | nil => rfl
  | cons first rest inductionHypothesis =>
      have inserted := insert_map same first (sort precedes rest)
      rw [← inductionHypothesis] at inserted
      exact inserted

end Ordered

namespace WhereFilter

theorem ignoresReturns_keyword : IgnoresReturns keyword where
  advances := advances_keyword
  refusesNewline _ := rfl
  respects :=
    (respects_returns_literal (by decide)).bind fun _ =>
      respects_returns_spaces.bind fun _ =>
        respects_returns_word.bind fun _ =>
          (respects_returns_byte (by decide)).bind fun _ =>
            respects_returns_spaces.bind fun _ => .pure _

theorem ignoresReturns_condition : IgnoresReturns condition where
  advances := advances_condition
  refusesNewline _ := rfl
  respects :=
    (respects_returns_literal (by decide)).bind fun _ =>
      (respects_returns_oneOf (by decide)).bind fun _ =>
        respects_returns_word.bind fun _ =>
          respects_returns_spaces.bind fun _ =>
            (respects_returns_byte (by decide)).bind fun _ => .pure _

/-- The calls of both kinds stand in the same order. -/
theorem calls_withReturns
    (text : Text) :
    calls (withReturns text) = (calls text).map (Occurrence.moved text) := by
  rw [calls, ignoresReturns_keyword.occurrences_withReturns,
    ignoresReturns_condition.occurrences_withReturns, ← List.map_append]
  apply Ordered.sort_map
  intro left right
  simp only [Occurrence.moved, moved_le_moved_iff]

/-- The same columns are filtered by, on the same lines. -/
theorem ofText_withReturns
    (text : Text) :
    ofText (withReturns text) = ofText text := by
  rw [ofText, calls_withReturns, List.map_map, ofText]
  apply List.map_congr_left
  intro call _
  simp only [Function.comp_apply, Occurrence.moved, lineAt_withReturns]

end WhereFilter

/-! ### Findings -/

namespace SourceRule

/-- If a text has no carriage returns, then putting one before every line feed
changes neither the schema that it declares nor any finding on it. -/
theorem findings_withReturns
    {text : Text}
    (noReturn : Byte.carriageReturn ∉ text) :
    Schema.ofText (withReturns text) = Schema.ofText text ∧
      ∀ rule ∈ [whereClauseColumn, controllerNPlusOne, viewAssociationAccess],
        ∀ path relativePath,
          rule.examine { path, relativePath, content := withReturns text } =
            rule.examine { path, relativePath, content := text } := by
  have sameLines := lines_withReturns noReturn
  refine ⟨Schema.ofText_withReturns text, ?_⟩
  intro rule present path relativePath
  simp only [List.mem_cons, List.not_mem_nil, or_false] at present
  rcases present with rfl | rfl | rfl
  · simp only [whereClauseColumn, WhereFilter.ofText_withReturns]
    rfl
  · simp only [controllerNPlusOne, candidates, sameLines]
    rfl
  · simp only [viewAssociationAccess, sameLines]
    rfl

/-- A dump whose comment and default value go over line ends, with a filter, a
fetch and an access below it. -/
def scatteredText : Text :=
  ascii "create_table \"a\" do |t| # end\n  t.string\n\"x\", default: \"\\\nend\"\nend\n" ++
    ascii "@posts = Post.where(\n  name: 1)\n@posts.first.title\n"

theorem scatteredText_findings :
    Byte.carriageReturn ∉ scatteredText ∧
      Schema.ofText (withReturns scatteredText) =
        { tables := [{ name := ascii "a", columns := [ascii "x"], foreignKeys := [],
                       indexes := [] }] } ∧
      whereClauseColumn.examine ⟨[], [], withReturns scatteredText⟩ =
        [filteredColumn ⟨[], [], []⟩ ⟨ascii "name", 6⟩] ∧
      controllerNPlusOne.examine ⟨[], [], withReturns scatteredText⟩ =
        [repeatedQuery ⟨[], [], []⟩ ⟨6, ascii "posts", 8⟩] ∧
      viewAssociationAccess.examine ⟨[], [], withReturns scatteredText⟩ =
        [viewAccess ⟨[], [], []⟩ 8] := by
  have noReturn : Byte.carriageReturn ∉ scatteredText := by decide +kernel
  obtain ⟨schema, findings⟩ := findings_withReturns noReturn
  refine ⟨noReturn, ?_, ?_, ?_, ?_⟩
  · rw [schema]
    decide +kernel
  · rw [findings whereClauseColumn (by simp)]
    decide +kernel
  · rw [findings controllerNPlusOne (by simp)]
    decide +kernel
  · rw [findings viewAssociationAccess (by simp)]
    decide +kernel

end SourceRule
end QueryAdvisor

import QueryAdvisor.Proofs.Block.Passage
import QueryAdvisor.Proofs.Block.Span
import QueryAdvisor.Proofs.LineEnding.Occurrence

/-!
# Table blocks and carriage returns

The search for the closing keyword of a block is in the same mode at the same
byte, whether lines end in carriage returns or not: a carriage return closes
neither a comment nor a quotation, and if a backslash takes it along, the line
feed behind it stays in the quotation.  So blocks begin and end at the same
places, moved, and their bodies are the same ones with carriage returns.
-/

namespace QueryAdvisor
namespace TableBlock

open Recogniser Text

/-! ### The search for a closing keyword -/

/-- A keyword at the end of a line stays one. -/
theorem closesBlock_withReturns
    (afterWord : Bool)
    (text : Text) :
    closesBlock afterWord (withReturns text) = closesBlock afterWord text := by
  by_cases present : Byte.newline ∈ text
  · obtain ⟨line, rest, rfl, oneLine⟩ := List.eq_append_cons_of_mem present
    rw [withReturns_append, withReturns_eq_self oneLine, withReturns_newline,
      closesBlock_append_sign (by decide), closesBlock_append_sign (by decide)]
  · rw [withReturns_eq_self present]

/-- Both bytes at the end of a line lead to the mode to which the line feed
leads. -/
theorem Mode.Proper.step_return_newline
    {mode : Mode}
    (proper : mode.Proper) :
    (mode.step Byte.carriageReturn).step Byte.newline = mode.step Byte.newline := by
  cases mode with
  | code => rfl
  | comment => rfl
  | quotation mark => rcases proper with rfl | rfl <;> rfl
  | escape mark => rcases proper with rfl | rfl <;> rfl

/-- The search stops at the same keyword, where it has moved. -/
theorem closingFrom_withReturns
    {mode : Mode}
    (proper : mode.Proper)
    (afterWord : Bool)
    (front text : Text) :
    closingFrom mode afterWord (withReturns front).length (withReturns text) =
      (closingFrom mode afterWord front.length text).map (moved (front ++ text)) := by
  induction text generalizing mode afterWord front with
  | nil => rfl
  | cons first rest inductionHypothesis =>
      have behind := inductionHypothesis (proper.step first) (Byte.isWord first) (front ++ [first])
      rw [withReturns_append, List.length_append, List.length_append, List.append_assoc,
        List.singleton_append] at behind
      by_cases isNewline : first = Byte.newline
      · subst isNewline
        -- The search makes two steps here where it made one.
        rw [withReturns_newline,
          closingFrom_of_not_closes (closesBlock_eq_false_of_ne (by decide) _ _),
          closingFrom_of_not_closes (closesBlock_eq_false_of_ne (by decide) _ _),
          proper.step_return_newline,
          closingFrom_of_not_closes (closesBlock_eq_false_of_ne (by decide) _ _)]
        exact behind
      · have closes := closesBlock_withReturns afterWord (first :: rest)
        rw [withReturns_cons isNewline] at closes behind ⊢
        rw [closingFrom, closingFrom, closes]
        split
        · rw [Option.map_some, moved_length]
        · exact behind

theorem getLast?_withReturns
    (text : Text) :
    (withReturns text).getLast? = text.getLast? := by
  cases text.eq_nil_or_concat with
  | inl empty => rw [empty, withReturns_nil]
  | inr ending =>
      obtain ⟨initial, last, rfl⟩ := ending
      rw [List.concat_eq_append, withReturns_append, List.getLast?_concat]
      by_cases isNewline : last = Byte.newline
      · subst isNewline
        simp
      · rw [withReturns_cons isNewline, withReturns_nil, List.getLast?_concat]

/-- A body ends at the same keyword, where it has moved. -/
theorem end?_withReturns
    (text : Text)
    (start : Nat) :
    TableBlock.end? (withReturns text) (moved text start) =
      (TableBlock.end? text start).map (moved text) := by
  rcases Nat.le_total start text.length with inside | beyond
  · obtain ⟨front, rest, rfl, rfl⟩ := exists_append_of_le_length inside
    rw [moved_length, withReturns_append, end?_append, end?_append, getLast?_withReturns,
      closingFrom_withReturns (show Mode.Proper .code from trivial)]
  · rw [end?, end?, drop_withReturns, List.drop_eq_nil_of_le beyond]
    rfl

/-! ### Headers and openings -/

theorem ignoresReturns_header : IgnoresReturns header where
  advances := advances_header
  refusesNewline _ := rfl
  respects :=
    (respects_returns_literal (by decide)).bind fun _ =>
      respects_returns_someSpaces.bind fun _ => respects_returns_quotedWord

theorem ignoresReturns_opening : IgnoresReturns opening where
  advances := advances_opening
  refusesNewline _ := rfl
  respects :=
    (respects_returns_literal (by decide)).bind fun _ =>
      respects_returns_spaces.bind fun _ => respects_returns_literal (by decide)

/-! ### Blocks -/

/-- Where the body of a block moves when a text gets carriage returns. -/
def Span.moved
    (text : Text)
    (span : Span) : Span where
  name := span.name
  start := text.moved span.start
  stop := text.moved span.stop

/-- The next header, or the end of the text, moves with the headers. -/
theorem limitOf_withReturns
    (text : Text)
    (later : List (Occurrence Text)) :
    limitOf (withReturns text) (later.map (Occurrence.moved text)) =
      moved text (limitOf text later) := by
  cases later with
  | nil =>
      rw [List.map_nil, limitOf, limitOf, length_withReturns, Text.moved, List.take_length]
  | cons next others => rfl

/-- The body of a header is the same one, moved. -/
theorem span?_withReturns
    (text : Text)
    (found : Occurrence Text)
    (limit : Nat) :
    span? (withReturns text) (found.moved text) (moved text limit) =
      (span? text found limit).map (Span.moved text) := by
  unfold span?
  rw [Occurrence.moved, slice_withReturns, ignoresReturns_opening.first?_withReturns]
  cases opens : opening.first? ((text.drop found.stop).take (limit - found.stop)) with
  | none => rfl
  | some opened =>
      have bounded := (bounds_of_first?_eq_some advances_opening opens).2
      rw [List.length_take] at bounded
      have start : moved text found.stop +
            moved ((text.drop found.stop).take (limit - found.stop)) opened.stop =
          moved text (found.stop + opened.stop) := by
        rw [moved_add, moved_take (by omega)]
      have closes := end?_withReturns text (found.stop + opened.stop)
      simp only [Option.map_some, Option.bind_eq_bind, Option.bind_some, Occurrence.moved, start,
        closes]
      cases TableBlock.end? text (found.stop + opened.stop) <;> rfl

theorem spansOf_withReturns
    (text : Text)
    (headers : List (Occurrence Text)) :
    spansOf (withReturns text) (headers.map (Occurrence.moved text)) =
      (spansOf text headers).map (Span.moved text) := by
  induction headers with
  | nil => rfl
  | cons found later inductionHypothesis =>
      rw [List.map_cons, spansOf, spansOf, limitOf_withReturns, span?_withReturns,
        inductionHypothesis, List.map_append]
      cases span? text found (limitOf text later) <;> rfl

/-- The blocks are the same ones, with carriage returns in their bodies. -/
theorem ofText_withReturns
    (text : Text) :
    ofText (withReturns text) =
      (ofText text).map fun block => { block with body := withReturns block.body } := by
  rw [ofText_eq_map_spans, ofText_eq_map_spans, spans,
    ignoresReturns_header.occurrences_withReturns, spansOf_withReturns, List.map_map,
    List.map_map]
  apply List.map_congr_left
  intro span _
  simp only [Function.comp_apply, Span.block, Span.moved, slice_withReturns]

end TableBlock
end QueryAdvisor

import QueryAdvisor.Proofs.Query.CallSite
import QueryAdvisor.Proofs.Rule.RepeatedQuery

/-!
# Line numbers and lines

Filters are reported with a number that counts the line feeds before a place, other
queries with the index of a line in the list of all lines.  Both numberings name the
same line: the line whose number is counted holds the byte at the place, unless the
byte belongs to the end of the line and to no line at all.
-/

namespace QueryAdvisor
namespace Text

open SourceRule

/-- The offset just behind the last line feed before an offset, or the beginning of the
text. -/
def lineStart (text : Text) : Nat → Nat
  | 0 => 0
  | offset + 1 => if text[offset]? = some Byte.newline then offset + 1 else lineStart text offset

/-- The byte at an offset ends a line: it is a line feed, or a carriage return directly
before a line feed or the end of the text. -/
def EndsLine
    (text : Text)
    (offset : Nat) : Prop :=
  text[offset]? = some Byte.newline ∨
    text[offset]? = some Byte.carriageReturn ∧
      (text[offset + 1]? = some Byte.newline ∨ text[offset + 1]? = none)

instance
    (text : Text)
    (offset : Nat) :
    Decidable (EndsLine text offset) :=
  inferInstanceAs (Decidable (_ ∨ _ ∧ (_ ∨ _)))

/-! ### All lines -/

/-- Every line feed begins one more line. -/
theorem length_lines (text : Text) : (lines text).length = 1 + text.count Byte.newline := by
  rw [lines, List.length_map]
  induction text with
  | nil => rfl
  | cons first rest inductionHypothesis =>
      rw [List.splitOn_cons_eq_if_modifyHead, List.count_cons]
      split
      · rw [List.length_cons, inductionHypothesis]
        omega
      · rw [List.length_modifyHead, inductionHypothesis, Nat.add_zero]

theorem dropReturn_sublist (line : Text) : (dropReturn line).Sublist line := by
  rw [dropReturn]
  split
  · exact List.dropLast_sublist line
  · exact List.Sublist.refl line

/-- No line holds a line feed. -/
theorem newline_not_mem_of_mem_lines
    {text line : Text}
    (present : line ∈ lines text) :
    Byte.newline ∉ line := by
  obtain ⟨whole, isWhole, rfl⟩ := List.mem_map.mp present
  exact fun found => not_mem_of_mem_splitOn isWhole ((dropReturn_sublist whole).subset found)

/-- Lines before a line feed and lines behind it. -/
theorem lines_append_newline
    (left right : Text) :
    lines (left ++ Byte.newline :: right) = lines left ++ lines right := by
  rw [lines, List.splitOn_append_cons_self, List.map_append]
  rfl

/-- The first line goes up to the first line feed. -/
theorem getElem?_zero_lines
    (text : Text) :
    (lines text)[0]? = some (dropReturn (text.takeWhile (· != Byte.newline))) := by
  have oneLine : Byte.newline ∉ text.takeWhile (· != Byte.newline) := by
    intro found
    simpa using List.all_eq_true.mp List.all_takeWhile _ found
  have cut : text.takeWhile (· != Byte.newline) ++ text.dropWhile (· != Byte.newline) = text :=
    List.takeWhile_append_dropWhile
  cases behind : text.dropWhile (· != Byte.newline) with
  | nil =>
      rw [behind, List.append_nil] at cut
      rw [cut] at oneLine ⊢
      rw [lines, List.splitOn_eq_singleton oneLine]
      rfl
  | cons first rest =>
      have stopped := List.head?_dropWhile_not (· != Byte.newline) text
      rw [behind, List.head?_cons] at stopped
      obtain rfl : first = Byte.newline := by simpa using stopped
      rw [behind] at cut
      rw [← cut, lines, List.splitOn_append_cons_self_of_not_mem oneLine, List.map_cons, cut]
      rfl

/-! ### The line of an offset -/

theorem lineStart_le
    (text : Text)
    (offset : Nat) :
    lineStart text offset ≤ offset := by
  induction offset with
  | zero => exact Nat.le_refl 0
  | succ offset inductionHypothesis =>
      rw [lineStart]
      split
      · exact Nat.le_refl _
      · exact Nat.le_succ_of_le inductionHypothesis

/-- A line begins with the text or behind a line feed. -/
theorem lineStart_cases
    (text : Text)
    (offset : Nat) :
    lineStart text offset = 0 ∨
      ∃ before, lineStart text offset = before + 1 ∧ text[before]? = some Byte.newline := by
  induction offset with
  | zero => exact .inl rfl
  | succ offset inductionHypothesis =>
      rw [lineStart]
      split
      · rename_i isNewline
        exact .inr ⟨offset, rfl, isNewline⟩
      · exact inductionHypothesis

/-- Between the beginning of a line and an offset on it there is no line feed. -/
theorem exists_before_on_line
    (text : Text)
    (offset : Nat) :
    ∃ before, text.take offset = text.take (lineStart text offset) ++ before ∧
      Byte.newline ∉ before := by
  induction offset with
  | zero => exact ⟨[], rfl, List.not_mem_nil⟩
  | succ offset inductionHypothesis =>
      rw [lineStart]
      split
      · exact ⟨[], (List.append_nil _).symm, List.not_mem_nil⟩
      · rename_i other
        obtain ⟨before, cut, noNewline⟩ := inductionHypothesis
        refine ⟨before ++ text[offset]?.toList, ?_, ?_⟩
        · rw [List.take_add_one, cut, List.append_assoc]
        · rw [List.mem_append, Option.mem_toList, not_or]
          exact ⟨noNewline, other⟩

/-- The line of an offset goes from its beginning to the next line feed. -/
theorem numberedLine?_lineAt
    (text : Text)
    (offset : Nat) :
    numberedLine? (lines text) (lineAt text offset) =
      some (dropReturn ((text.drop (lineStart text offset)).takeWhile (· != Byte.newline))) := by
  have counted : (text.take offset).count Byte.newline =
      (text.take (lineStart text offset)).count Byte.newline := by
    obtain ⟨before, cut, noNewline⟩ := exists_before_on_line text offset
    rw [cut, List.count_append, List.count_eq_zero.mpr noNewline, Nat.add_zero]
  rw [lineAt_eq, counted, Nat.add_comm, numberedLine?]
  rcases lineStart_cases text offset with atBeginning | ⟨feed, behind, isNewline⟩
  · rw [atBeginning]
    exact getElem?_zero_lines text
  · -- The lines before the line feed are as many as there are line feeds up to it.
    rw [behind]
    have upTo : text.take (feed + 1) = text.take feed ++ [Byte.newline] := by
      rw [List.take_add_one, isNewline, Option.toList_some]
    have cut : text = text.take feed ++ Byte.newline :: text.drop (feed + 1) := by
      rw [← List.singleton_append, ← List.append_assoc, ← upTo, List.take_append_drop]
    have passed : (text.take (feed + 1)).count Byte.newline =
        (lines (text.take feed)).length := by
      rw [upTo, List.count_append, length_lines, Nat.add_comm]
      rfl
    have split : lines text = lines (text.take feed) ++ lines (text.drop (feed + 1)) := by
      rw [← lines_append_newline, ← cut]
    rw [passed, split, List.getElem?_append_right (Nat.le_refl _), Nat.sub_self]
    exact getElem?_zero_lines _

/-- Only the end of a line is looked at, in its last part. -/
theorem dropReturn_append
    {front rest : Text}
    (keeps : rest ≠ [] ∨ front.getLast? ≠ some Byte.carriageReturn) :
    dropReturn (front ++ rest) = front ++ dropReturn rest := by
  by_cases empty : rest = []
  · subst empty
    have notReturn := keeps.resolve_left (not_not_intro rfl)
    rw [List.append_nil, dropReturn, if_neg notReturn]
    exact (List.append_nil front).symm
  · have ends : (front ++ rest).getLast? = rest.getLast? := by
      obtain ⟨initial, last, rfl⟩ := List.eq_nil_or_concat rest |>.resolve_left empty
      simp
    rw [dropReturn, dropReturn, ends]
    split
    · rw [List.dropLast_append_of_ne_nil empty]
    · rfl

/-- A piece of a line stands on the line of its offset, at its distance from the
beginning of the line, unless it ends in the carriage return before a line feed or the
end of the text. -/
theorem exists_line_around
    {text piece rest : Text}
    {offset : Nat}
    (cut : text.drop offset = piece ++ rest)
    (nonempty : piece ≠ [])
    (oneLine : Byte.newline ∉ piece)
    (keeps : rest.takeWhile (· != Byte.newline) ≠ [] ∨
      piece.getLast? ≠ some Byte.carriageReturn) :
    ∃ before after,
      numberedLine? (lines text) (lineAt text offset) = some (before ++ (piece ++ after)) ∧
        before.length = offset - lineStart text offset := by
  obtain ⟨before, upTo, noNewline⟩ := exists_before_on_line text offset
  have onward : text.drop (lineStart text offset) = before ++ (piece ++ rest) := by
    apply List.append_cancel_left
    rw [List.take_append_drop, ← List.append_assoc, ← upTo, ← cut, List.take_append_drop]
  have plain {part : Text} (free : Byte.newline ∉ part) :
      ∀ byte ∈ part, (byte != Byte.newline) = true := by
    intro byte present
    rw [bne_iff_ne]
    rintro rfl
    exact free present
  have line : (text.drop (lineStart text offset)).takeWhile (· != Byte.newline) =
      before ++ (piece ++ rest.takeWhile (· != Byte.newline)) := by
    rw [onward, List.takeWhile_append_of_pos (plain noNewline),
      List.takeWhile_append_of_pos (plain oneLine)]
  refine ⟨before, dropReturn (rest.takeWhile (· != Byte.newline)), ?_, ?_⟩
  · rw [numberedLine?_lineAt, line, dropReturn_append (.inl (by simp [nonempty])),
      dropReturn_append keeps]
  · have inside : offset < text.length := by
      apply Nat.lt_of_not_le
      intro beyond
      rw [List.drop_eq_nil_of_le beyond] at cut
      simp [nonempty] at cut
    have notBehind := lineStart_le text offset
    have lengths := congrArg List.length upTo
    rw [List.length_append, List.length_take_of_le (Nat.le_of_lt inside),
      List.length_take_of_le (by omega)] at lengths
    omega

/-- A byte that does not end a line stands on the line of its offset. -/
theorem exists_line_of_getElem?
    {text : Text}
    {offset : Nat}
    {byte : UInt8}
    (read : text[offset]? = some byte)
    (onLine : ¬ EndsLine text offset) :
    ∃ row, numberedLine? (lines text) (lineAt text offset) = some row ∧
      row[offset - lineStart text offset]? = some byte := by
  rw [EndsLine, read, Option.some.injEq, Option.some.injEq, not_or, not_and, not_or] at onLine
  obtain ⟨notNewline, notEnding⟩ := onLine
  have cut : text.drop offset = [byte] ++ text.drop (offset + 1) := by
    obtain ⟨inside, rfl⟩ := List.getElem?_eq_some_iff.mp read
    exact List.drop_eq_getElem_cons inside
  have keeps : (text.drop (offset + 1)).takeWhile (· != Byte.newline) ≠ [] ∨
      [byte].getLast? ≠ some Byte.carriageReturn := by
    by_cases isReturn : byte = Byte.carriageReturn
    · obtain ⟨notFeed, goesOn⟩ := notEnding isReturn
      obtain ⟨next, nextRead⟩ := Option.ne_none_iff_exists'.mp goesOn
      rw [nextRead, Option.some.injEq] at notFeed
      rw [← List.head?_drop] at nextRead
      obtain ⟨rest, behind⟩ := List.head?_eq_some_iff.mp nextRead
      rw [behind]
      exact .inl (by simp [notFeed])
    · exact .inr fun equal => isReturn (Option.some.inj equal)
  obtain ⟨before, after, numbered, distance⟩ := exists_line_around cut (List.cons_ne_nil _ _)
    (fun found => notNewline (List.mem_singleton.mp found).symm) keeps
  refine ⟨_, numbered, ?_⟩
  rw [← distance, List.getElem?_append_right (Nat.le_refl _), Nat.sub_self]
  rfl

end Text

namespace WhereFilter

/-- A call that filters begins with a full stop and the name of its method. -/
theorem FiltersAt.exists_drop_eq
    {text column : Text}
    {place : Nat}
    (filters : FiltersAt text place column) :
    ∃ after, text.drop place = ascii ".where(" ++ after := by
  rcases filters with ⟨_, _, _, _, cut⟩ | ⟨_, _, _, _, _, _, cut⟩
  · exact ⟨_, cut⟩
  · exact ⟨_, cut⟩

/-- The line that is noted for a filter holds a call. -/
theorem exists_line_of_mem_ofText
    {text : Text}
    {filter : WhereFilter}
    (present : filter ∈ ofText text) :
    ∃ row, SourceRule.numberedLine? text.lines filter.line = some row ∧
      ascii ".where(" <:+: row := by
  obtain ⟨call, isCall, rfl⟩ := List.mem_map.mp present
  have filters := (exists_mem_calls_iff text call.start call.value).mp ⟨call, isCall, rfl, rfl⟩
  obtain ⟨rest, cut⟩ := filters.exists_drop_eq
  obtain ⟨before, after, numbered, -⟩ := Text.exists_line_around cut (by decide) (by decide)
    (.inr (by decide))
  exact ⟨_, numbered, before, after, List.append_assoc _ _ _⟩

/-- A text has one line more than line feeds, and no line holds one.  The number of the
line of an offset is the number of one of these lines, and this line holds the byte at
the offset, as far from its beginning as the offset is behind the last line feed before
it, unless the byte ends a line.  So the line that is noted for a filter holds a call. -/
theorem line_numbers_agree (text : Text) :
    text.lines.length = 1 + text.count Byte.newline ∧
      (∀ line ∈ text.lines, Byte.newline ∉ line) ∧
      (∀ offset, 1 ≤ text.lineAt offset ∧ text.lineAt offset ≤ text.lines.length) ∧
      (∀ offset byte, text[offset]? = some byte → ¬ text.EndsLine offset →
        ∃ row, SourceRule.numberedLine? text.lines (text.lineAt offset) = some row ∧
          row[offset - text.lineStart offset]? = some byte) ∧
      ∀ filter ∈ ofText text,
        ∃ row, SourceRule.numberedLine? text.lines filter.line = some row ∧
          ascii ".where(" <:+: row := by
  refine ⟨text.length_lines, fun _ => Text.newline_not_mem_of_mem_lines, ?_,
    fun _ _ => Text.exists_line_of_getElem?, fun _ => exists_line_of_mem_ofText⟩
  intro offset
  have counted := (List.take_sublist offset text).count_le Byte.newline
  rw [Text.lineAt_eq, text.length_lines]
  omega

/-- A carriage return inside a line, an empty line that ends in one, and a call on the
last line, which ends with the text. -/
def mixedEndings : Text :=
  ascii "a\rb\r\n\r\nA.where(c: 1)\r"

theorem mixedEndings_numbered :
    mixedEndings[1]? = some Byte.carriageReturn ∧ ¬ mixedEndings.EndsLine 1 ∧
      (∃ row, SourceRule.numberedLine? mixedEndings.lines (mixedEndings.lineAt 1) = some row ∧
        row[1]? = some Byte.carriageReturn) ∧
      ⟨ascii "c", 3⟩ ∈ ofText mixedEndings ∧
      ∃ row, SourceRule.numberedLine? mixedEndings.lines 3 = some row ∧
        ascii ".where(" <:+: row := by
  obtain ⟨-, -, -, holdsByte, holdsCall⟩ := line_numbers_agree mixedEndings
  have read : mixedEndings[1]? = some Byte.carriageReturn := by decide
  have inside : ¬ mixedEndings.EndsLine 1 := by decide
  have present : ⟨ascii "c", 3⟩ ∈ ofText mixedEndings := by decide +kernel
  exact ⟨read, inside, holdsByte 1 _ read inside, present, holdsCall _ present⟩

end WhereFilter
end QueryAdvisor

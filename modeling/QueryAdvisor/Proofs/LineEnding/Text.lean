import QueryAdvisor.Text.Line

/-!
# Texts with carriage returns

A text is rewritten so that every line ends in a carriage return and a line
feed.  An offset moves by the number of line feeds before it, cutting a text
commutes with the rewriting, and neither the lines nor their numbers change.
-/

namespace QueryAdvisor
namespace Text

/-- The text with a carriage return before every line feed. -/
def withReturns (text : Text) : Text :=
  text.flatMap fun byte =>
    if byte = Byte.newline then [Byte.carriageReturn, Byte.newline] else [byte]

@[simp] theorem withReturns_nil : withReturns [] = [] := rfl

@[simp] theorem withReturns_newline
    (rest : Text) :
    withReturns (Byte.newline :: rest) =
      Byte.carriageReturn :: Byte.newline :: withReturns rest := rfl

theorem withReturns_cons
    {first : UInt8}
    (other : first ≠ Byte.newline)
    (rest : Text) :
    withReturns (first :: rest) = first :: withReturns rest := by
  simp [withReturns, other]

@[simp] theorem withReturns_append
    (left right : Text) :
    withReturns (left ++ right) = withReturns left ++ withReturns right :=
  List.flatMap_append

/-- A single line stays as it is. -/
theorem withReturns_eq_self
    {text : Text}
    (oneLine : Byte.newline ∉ text) :
    withReturns text = text := by
  induction text with
  | nil => rfl
  | cons first rest inductionHypothesis =>
      simp only [List.mem_cons, not_or] at oneLine
      rw [withReturns_cons (Ne.symm oneLine.1), inductionHypothesis oneLine.2]

/-- Every line feed adds one byte. -/
theorem length_withReturns
    (text : Text) :
    (withReturns text).length = text.length + text.count Byte.newline := by
  induction text with
  | nil => rfl
  | cons first rest inductionHypothesis =>
      by_cases isNewline : first = Byte.newline
      · subst isNewline
        rw [withReturns_newline, List.count_cons_self]
        simp only [List.length_cons, inductionHypothesis]
        omega
      · rw [withReturns_cons isNewline, List.count_cons_of_ne isNewline]
        simp only [List.length_cons, inductionHypothesis]
        omega

theorem count_newline_withReturns
    (text : Text) :
    (withReturns text).count Byte.newline = text.count Byte.newline := by
  induction text with
  | nil => rfl
  | cons first rest inductionHypothesis =>
      by_cases isNewline : first = Byte.newline
      · subst isNewline
        rw [withReturns_newline, List.count_cons_of_ne (by decide), List.count_cons_self,
          List.count_cons_self, inductionHypothesis]
      · rw [withReturns_cons isNewline, List.count_cons_of_ne isNewline,
          List.count_cons_of_ne isNewline, inductionHypothesis]

/-! ### Offsets -/

/-- Where an offset of a text moves when it gets carriage returns. -/
def moved
    (text : Text)
    (offset : Nat) : Nat :=
  offset + (text.take offset).count Byte.newline

/-- The end of a beginning moves to the end of the rewritten beginning. -/
theorem moved_length
    (front rest : Text) :
    moved (front ++ rest) front.length = (withReturns front).length := by
  rw [moved, List.take_left, length_withReturns]

/-- An offset moves piece by piece. -/
theorem moved_add
    (text : Text)
    (offset more : Nat) :
    moved text (offset + more) = moved text offset + moved (text.drop offset) more := by
  rw [moved, moved, moved, List.take_add, List.count_append]
  omega

theorem moved_take
    {offset limit : Nat}
    (before : offset ≤ limit)
    (text : Text) :
    moved (text.take limit) offset = moved text offset := by
  rw [moved, moved, List.take_take, Nat.min_eq_left before]

/-- Offsets keep their order. -/
theorem moved_le_moved_iff
    (text : Text)
    (left right : Nat) :
    moved text left ≤ moved text right ↔ left ≤ right := by
  constructor
  · intro ordered
    apply Nat.le_of_not_lt
    intro before
    obtain ⟨more, rfl⟩ := Nat.exists_eq_add_of_le (Nat.le_of_lt before)
    have ahead : more ≤ moved (text.drop right) more := Nat.le_add_right _ _
    rw [moved_add] at ordered
    omega
  · intro ordered
    obtain ⟨more, rfl⟩ := Nat.exists_eq_add_of_le ordered
    rw [moved_add]
    exact Nat.le_add_right _ _

theorem moved_of_le
    {text : Text}
    {offset : Nat}
    (inside : offset ≤ text.length) :
    moved text offset = (withReturns (text.take offset)).length := by
  rw [length_withReturns, List.length_take_of_le inside, moved]

theorem length_withReturns_le_moved
    {text : Text}
    {offset : Nat}
    (beyond : text.length ≤ offset) :
    (withReturns text).length ≤ moved text offset := by
  rw [length_withReturns, moved, List.take_of_length_le beyond]
  omega

theorem withReturns_cut
    (text : Text)
    (offset : Nat) :
    withReturns text = withReturns (text.take offset) ++ withReturns (text.drop offset) := by
  rw [← withReturns_append, List.take_append_drop]

/-- Cutting at an offset is cutting where it has moved. -/
theorem drop_withReturns
    (text : Text)
    (offset : Nat) :
    (withReturns text).drop (moved text offset) = withReturns (text.drop offset) := by
  rcases Nat.le_total offset text.length with inside | beyond
  · rw [moved_of_le inside, withReturns_cut text offset, List.drop_left]
  · rw [List.drop_eq_nil_of_le (length_withReturns_le_moved beyond),
      List.drop_eq_nil_of_le beyond, withReturns_nil]

theorem take_withReturns
    (text : Text)
    (offset : Nat) :
    (withReturns text).take (moved text offset) = withReturns (text.take offset) := by
  rcases Nat.le_total offset text.length with inside | beyond
  · rw [moved_of_le inside, withReturns_cut text offset, List.take_left]
  · rw [List.take_of_length_le (length_withReturns_le_moved beyond),
      List.take_of_length_le beyond]

/-- The bytes between two offsets are those between the places to which the
offsets moved. -/
theorem slice_withReturns
    (text : Text)
    (start stop : Nat) :
    ((withReturns text).drop (moved text start)).take (moved text stop - moved text start) =
      withReturns ((text.drop start).take (stop - start)) := by
  have distance : moved text stop - moved text start =
      moved (text.drop start) (stop - start) := by
    rcases Nat.le_total start stop with forward | backward
    · obtain ⟨more, rfl⟩ := Nat.exists_eq_add_of_le forward
      rw [moved_add, Nat.add_sub_cancel_left, Nat.add_sub_cancel_left]
    · rw [Nat.sub_eq_zero_of_le ((moved_le_moved_iff text stop start).mpr backward),
        Nat.sub_eq_zero_of_le backward]
      rfl
  rw [drop_withReturns, distance, take_withReturns]

/-! ### Lines -/

/-- An offset stays on its line. -/
theorem lineAt_withReturns
    (text : Text)
    (offset : Nat) :
    lineAt (withReturns text) (moved text offset) = lineAt text offset := by
  rw [lineAt_eq, lineAt_eq, take_withReturns, count_newline_withReturns]

theorem lines_newline
    (rest : Text) :
    lines (Byte.newline :: rest) = [] :: lines rest := by
  rw [lines, List.splitOn_eq_splitOnP, List.splitOnP_cons_eq_if_modifyHead, if_pos (by decide)]
  rfl

/-- A carriage return before a line feed belongs to no line. -/
theorem lines_return_newline
    (rest : Text) :
    lines (Byte.carriageReturn :: Byte.newline :: rest) = [] :: lines rest := by
  rw [lines, List.splitOn_eq_splitOnP, List.splitOnP_cons_eq_if_modifyHead, if_neg (by decide),
    List.splitOnP_cons_eq_if_modifyHead, if_pos (by decide)]
  rfl

/-- Only the end of a line is looked at. -/
theorem dropReturn_cons
    {first : UInt8}
    (other : first ≠ Byte.carriageReturn)
    (rest : Text) :
    dropReturn (first :: rest) = first :: dropReturn rest := by
  cases rest with
  | nil => simp [dropReturn, other]
  | cons second others =>
      rw [dropReturn, dropReturn, List.getLast?_cons_cons]
      split <;> rfl

theorem lines_cons
    {first : UInt8}
    (notNewline : first ≠ Byte.newline)
    (notReturn : first ≠ Byte.carriageReturn)
    (rest : Text) :
    lines (first :: rest) = (lines rest).modifyHead (List.cons first) := by
  have goesOn : ¬(first == Byte.newline) = true := by simpa using notNewline
  rw [lines, lines, List.splitOn_eq_splitOnP, List.splitOn_eq_splitOnP,
    List.splitOnP_cons_eq_if_modifyHead, if_neg goesOn]
  cases List.splitOnP (fun byte => byte == Byte.newline) rest with
  | nil => rfl
  | cons line others =>
      simp only [List.modifyHead_cons, List.map_cons, dropReturn_cons notReturn]

/-- Lines do not change, unless there was a carriage return already. -/
theorem lines_withReturns
    {text : Text}
    (noReturn : Byte.carriageReturn ∉ text) :
    lines (withReturns text) = lines text := by
  induction text with
  | nil => rfl
  | cons first rest inductionHypothesis =>
      simp only [List.mem_cons, not_or] at noReturn
      by_cases isNewline : first = Byte.newline
      · subst isNewline
        rw [withReturns_newline, lines_return_newline, lines_newline,
          inductionHypothesis noReturn.2]
      · rw [withReturns_cons isNewline, lines_cons isNewline (Ne.symm noReturn.1),
          lines_cons isNewline (Ne.symm noReturn.1), inductionHypothesis noReturn.2]

end Text
end QueryAdvisor

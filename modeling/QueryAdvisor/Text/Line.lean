import QueryAdvisor.Text.Basic

/-!
# Lines

A text is cut into lines at its line feeds, and a carriage return that ends a
line is not part of it.  The line of an offset is counted from one.
-/

namespace QueryAdvisor
namespace Text

/-- Remove one carriage return from the end. -/
def dropReturn (line : Text) : Text :=
  if line.getLast? = some Byte.carriageReturn then line.dropLast else line

/-- The lines of a text.  A text with `n` line feeds has `n + 1` lines, so the
empty text has one, and what follows a final line feed is an empty line. -/
def lines (text : Text) : List Text :=
  (text.splitOn Byte.newline).map dropReturn

@[simp] theorem lines_nil : lines [] = [[]] := rfl

/-- The number of the line that holds an offset of a text that begins on a
given line. -/
def lineFrom
    (line : Nat) : Text → Nat → Nat
  | first :: rest, offset + 1 =>
    lineFrom (if first = Byte.newline then line + 1 else line) rest offset
  | _, _ => line

/-- The number of the line that holds an offset, counted from one. -/
def lineAt
    (text : Text)
    (offset : Nat) : Nat :=
  lineFrom 1 text offset

/-- A line number counts the line feeds before the offset. -/
theorem lineFrom_eq
    (line : Nat)
    (text : Text)
    (offset : Nat) :
    lineFrom line text offset = line + (text.take offset).count Byte.newline := by
  induction text generalizing line offset with
  | nil => simp [lineFrom]
  | cons first rest inductionHypothesis =>
    cases offset with
    | zero => simp [lineFrom]
    | succ offset =>
      rw [lineFrom, inductionHypothesis, List.take_succ_cons]
      by_cases newline : first = Byte.newline
      · simp only [newline, if_true, List.count_cons_self]
        omega
      · simp [newline]

theorem lineAt_eq
    (text : Text)
    (offset : Nat) :
    lineAt text offset = 1 + (text.take offset).count Byte.newline :=
  lineFrom_eq 1 text offset

/-- Put a line feed between neighbouring lines. -/
def joinLines (lines : List Text) : Text :=
  join [Byte.newline] lines

end Text
end QueryAdvisor

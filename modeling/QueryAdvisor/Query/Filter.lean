import QueryAdvisor.Ordered
import QueryAdvisor.Text.Line
import QueryAdvisor.Text.Recogniser

/-!
# Filters of queries

A call `.where(...)` filters either by a keyword, as in `.where(name: value)`,
or by a condition in quotes, as in `.where("name = ?", value)`.
-/

namespace QueryAdvisor

/-- A filtered column and the line of the call.  Lines are counted without a bound, so
that no number wraps around. -/
structure WhereFilter where
  column : Text
  line : Nat
deriving DecidableEq, Repr

namespace WhereFilter

open Recogniser

/-- A call with a keyword; its value is the keyword. -/
def keyword : Recogniser Text := do
  literal (ascii ".where(")
  spaces
  let column ← word
  byte 58
  spaces
  return column

/-- A call with a quoted equation; its value is the left side. -/
def condition : Recogniser Text := do
  literal (ascii ".where(")
  oneOf [Byte.quote, Byte.apostrophe]
  let column ← word
  spaces
  byte 61
  return column

/-- The calls of both kinds, in the order in which they stand in the text. -/
def calls (text : Text) : List (Occurrence Text) :=
  Ordered.sort (fun left right => left.start ≤ right.start)
    (keyword.occurrences text ++ condition.occurrences text)

/-- The filters of a text, in the order of their calls. -/
def ofText (text : Text) : List WhereFilter :=
  (calls text).map fun call => { column := call.value, line := text.lineAt call.start }

end WhereFilter
end QueryAdvisor

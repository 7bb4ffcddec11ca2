/-!
# Ordered lists

Insertion into lists that are kept in order, and the sorting it gives.  Equal
elements stay in the order in which they came; the distinct variants keep one
of them.
-/

namespace QueryAdvisor
namespace Ordered

variable {α : Type}

/-- Put an element in front of the first one that it precedes or equals. -/
def insert
    (precedes : α → α → Bool)
    (element : α) : List α → List α
  | [] => [element]
  | first :: rest =>
    if precedes element first then element :: first :: rest
    else first :: insert precedes element rest

/-- Sort a list, keeping repetitions. -/
def sort
    (precedes : α → α → Bool)
    (elements : List α) : List α :=
  elements.foldr (insert precedes) []

theorem perm_insert
    (precedes : α → α → Bool)
    (element : α)
    (elements : List α) :
    (insert precedes element elements).Perm (element :: elements) := by
  induction elements with
  | nil => exact .refl _
  | cons first rest inductionHypothesis =>
    rw [insert]
    split
    · exact .refl _
    · exact (inductionHypothesis.cons first).trans (.swap element first rest)

/-- Sorting keeps every element as often as it was there. -/
theorem perm_sort
    (precedes : α → α → Bool)
    (elements : List α) :
    (sort precedes elements).Perm elements := by
  induction elements with
  | nil => exact .refl _
  | cons first rest inductionHypothesis =>
    exact (perm_insert precedes first _).trans (inductionHypothesis.cons first)

/-- Insert an element unless an equal one is met on the way. -/
def insertDistinct [DecidableEq α]
    (precedes : α → α → Bool)
    (element : α) : List α → List α
  | [] => [element]
  | first :: rest =>
    if element = first then first :: rest
    else if precedes element first then element :: first :: rest
    else first :: insertDistinct precedes element rest

/-- Sort a list and keep each element once. -/
def sortDistinct [DecidableEq α]
    (precedes : α → α → Bool)
    (elements : List α) : List α :=
  elements.foldr (insertDistinct precedes) []

@[simp] theorem mem_insertDistinct [DecidableEq α]
    (precedes : α → α → Bool)
    (element other : α)
    (elements : List α) :
    other ∈ insertDistinct precedes element elements ↔ other = element ∨ other ∈ elements := by
  induction elements with
  | nil => simp [insertDistinct]
  | cons first rest inductionHypothesis =>
    rw [insertDistinct]
    split
    · rename_i equal
      simp [equal]
    · split
      · simp
      · simp only [List.mem_cons, inductionHypothesis]
        exact or_left_comm

@[simp] theorem mem_sortDistinct [DecidableEq α]
    (precedes : α → α → Bool)
    (other : α)
    (elements : List α) :
    other ∈ sortDistinct precedes elements ↔ other ∈ elements := by
  induction elements with
  | nil => simp [sortDistinct]
  | cons first rest inductionHypothesis =>
    rw [show sortDistinct precedes (first :: rest) =
      insertDistinct precedes first (sortDistinct precedes rest) from rfl]
    simp [inductionHypothesis]

end Ordered
end QueryAdvisor

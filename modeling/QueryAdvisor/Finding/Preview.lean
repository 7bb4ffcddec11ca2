import QueryAdvisor.Finding.Aggregate
import QueryAdvisor.Ordered

/-!
# Previews

Some groups can be long, so reports show only a beginning of them and the
number of what is left out.
-/

namespace QueryAdvisor

/-- How many findings of the long groups are shown. -/
structure Limits where
  /-- Boolean columns. -/
  booleanPreview : Nat := 5
  /-- Filtered columns. -/
  wherePreview : Nat := 10
deriving DecidableEq, Repr

namespace Limits

/-- The limit for a type, if it has one. -/
def forType
    (limits : Limits) : FindingType → Option Nat
  | .booleanIndexOpportunity => some limits.booleanPreview
  | .whereClauseColumn => some limits.wherePreview
  | _ => none

end Limits

/-- The beginning of a list and the number of elements left out. -/
structure Preview (α : Type) where
  shown : List α
  overflow : Nat

namespace Preview

variable {α : Type}

/-- Show at most `limit` elements, or all of them without a limit. -/
def ofList
    (limit : Option Nat)
    (elements : List α) : Preview α :=
  match limit with
  | none => ⟨elements, 0⟩
  | some limit => ⟨elements.take limit, elements.length - limit⟩

end Preview

namespace FindingGroup

/-- The findings of a group that a report itemises. -/
def preview
    (group : FindingGroup)
    (limits : Limits) : Preview Finding :=
  .ofList (limits.forType group.type) group.all

/-- The distinct columns of the source locations of a group, in byte order. -/
def columns (group : FindingGroup) : List Text :=
  Ordered.sortDistinct Text.precedes <| group.all.filterMap fun finding =>
    match finding.location with
    | .source _ _ column => some column
    | _ => none

/-- The columns of a group that a report lists. -/
def columnPreview
    (group : FindingGroup)
    (limits : Limits) : Preview Text :=
  .ofList (some limits.wherePreview) group.columns

end FindingGroup
end QueryAdvisor

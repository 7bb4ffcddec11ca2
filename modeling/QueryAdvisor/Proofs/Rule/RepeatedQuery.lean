import Mathlib.Order.Bounds.Defs
import QueryAdvisor.Proofs.Query.Line
import QueryAdvisor.Rule.Source

/-!
# Findings on repeated queries

A fetch is reported if its line assigns a variable, no line near it asks for eager
loading, and one of the next lines reaches through the variable.  Both windows end
with the text at either side, and the window for eager loading is searched as one
text of joined lines.  Here they are described line by line, with lines counted
from one, and what is noted in the log is the first line with an access.
-/

namespace QueryAdvisor
namespace SourceRule

/-- The line of a number, counted from one. -/
def numberedLine?
    (lines : List Text) : Nat → Option Text
  | 0 => none
  | index + 1 => lines[index]?

/-- A line fetches records, the first variable that it assigns is the given one,
and no line up to two lines away asks for eager loading. -/
def FetchesInto
    (lines : List Text)
    (number : Nat)
    (variableName : Text) : Prop :=
  ∃ line,
    numberedLine? lines number = some line ∧
      Query.isFetch line = true ∧
      Query.assigned? line = some variableName ∧
      ∀ near other, numberedLine? lines near = some other → number ≤ near + 2 →
        near ≤ number + 2 → Query.loadsEagerly other = false

/-- A later line, up to twenty lines away, reaches through a variable. -/
def AccessedOn
    (lines : List Text)
    (number : Nat)
    (variableName : Text)
    (later : Nat) : Prop :=
  number < later ∧ later ≤ number + 20 ∧
    ∃ other, numberedLine? lines later = some other ∧
      Query.reachesThrough other variableName = true

/-- Only positive numbers have a line. -/
theorem exists_succ_of_numberedLine?
    {lines : List Text}
    {number : Nat}
    {line : Text}
    (numbered : numberedLine? lines number = some line) :
    ∃ index, number = index + 1 ∧ lines[index]? = some line := by
  cases number with
  | zero => contradiction
  | succ index => exact ⟨index, rfl, numbered⟩

theorem FetchesInto.exists_succ
    {lines : List Text}
    {number : Nat}
    {variableName : Text}
    (fetches : FetchesInto lines number variableName) :
    ∃ index, number = index + 1 := by
  obtain ⟨line, numbered, _⟩ := fetches
  obtain ⟨index, isSucc, _⟩ := exists_succ_of_numberedLine? numbered
  exact ⟨index, isSucc⟩

/-! ### Windows of lines -/

theorem mem_surrounding_iff
    {lines : List Text}
    {index : Nat}
    {other : Text} :
    other ∈ surrounding lines index ↔
      ∃ near, lines[near]? = some other ∧ index ≤ near + 2 ∧ near ≤ index + 2 := by
  simp only [surrounding, eagerWindow, List.mem_iff_getElem?, List.getElem?_drop,
    List.getElem?_take]
  constructor
  · rintro ⟨steps, found⟩
    split at found
    · exact ⟨index - 2 + steps, found, by omega, by omega⟩
    · contradiction
  · rintro ⟨near, found, notBefore, notAfter⟩
    refine ⟨near - (index - 2), ?_⟩
    rw [show index - 2 + (near - (index - 2)) = near by omega, if_pos (by omega), found]

/-- The joined lines around a line do not load eagerly if none of them does. -/
theorem loadsEagerly_surrounding_iff
    (lines : List Text)
    (index : Nat) :
    Query.loadsEagerly (Text.joinLines (surrounding lines index)) = false ↔
      ∀ near other, numberedLine? lines near = some other → index + 1 ≤ near + 2 →
        near ≤ index + 1 + 2 → Query.loadsEagerly other = false := by
  rw [Query.loadsEagerly_joinLines, List.any_eq_false]
  simp only [mem_surrounding_iff, Bool.not_eq_true]
  constructor
  · intro lazy number other numbered notBefore notAfter
    obtain ⟨near, rfl, found⟩ := exists_succ_of_numberedLine? numbered
    exact lazy other ⟨near, found, by omega, by omega⟩
  · rintro lazy other ⟨near, found, notBefore, notAfter⟩
    exact lazy (near + 1) other found (by omega) (by omega)

theorem isSome_access?_iff
    (lines : List Text)
    (index : Nat)
    (variableName : Text) :
    (access? lines index variableName).isSome = true ↔
      ∃ later other, lines[later]? = some other ∧ index < later ∧ later ≤ index + 20 ∧
        Query.reachesThrough other variableName = true := by
  simp only [access?, accessWindow, Option.isSome_map, List.findIdx?_isSome, List.any_eq_true,
    List.mem_iff_getElem?, List.getElem?_take, List.getElem?_drop]
  constructor
  · rintro ⟨other, ⟨steps, found⟩, reaches⟩
    split at found
    · exact ⟨index + 1 + steps, other, found, by omega, by omega, reaches⟩
    · contradiction
  · rintro ⟨later, other, found, after, inWindow, reaches⟩
    refine ⟨other, ⟨later - (index + 1), ?_⟩, reaches⟩
    rw [show index + 1 + (later - (index + 1)) = later by omega, if_pos (by omega), found]

/-- The lines of the window are the next ones, in order. -/
theorem accessedOn_iff_getElem?
    (lines : List Text)
    (index : Nat)
    (variableName : Text)
    (steps : Nat) :
    AccessedOn lines (index + 1) variableName (steps + index + 2) ↔
      ∃ other, ((lines.drop (index + 1)).take accessWindow)[steps]? = some other ∧
        Query.reachesThrough other variableName = true := by
  rw [List.getElem?_take, List.getElem?_drop, accessWindow,
    show index + 1 + steps = steps + index + 1 by omega]
  constructor
  · rintro ⟨_, inWindow, other, numbered, reaches⟩
    exact ⟨other, by rw [if_pos (by omega)]; exact numbered, reaches⟩
  · rintro ⟨other, found, reaches⟩
    split at found
    · exact ⟨by omega, by omega, other, found, reaches⟩
    · contradiction

/-- The access that is found is the first one. -/
theorem isLeast_of_access?_eq_some
    {lines : List Text}
    {index : Nat}
    {variableName : Text}
    {later : Nat}
    (accessed : access? lines index variableName = some later) :
    IsLeast { number | AccessedOn lines (index + 1) variableName number } later := by
  obtain ⟨steps, foundFirst, rfl⟩ := Option.map_eq_some_iff.mp accessed
  obtain ⟨inside, reaches, notBefore⟩ := List.findIdx?_eq_some_iff_getElem.mp foundFirst
  refine ⟨(accessedOn_iff_getElem? lines index variableName steps).mpr
    ⟨_, List.getElem?_eq_getElem inside, reaches⟩, ?_⟩
  intro number alsoAccessed
  obtain ⟨other, rfl⟩ : ∃ other, number = other + index + 2 :=
    ⟨number - (index + 2), by have := alsoAccessed.1; omega⟩
  obtain ⟨line, found, alsoReaches⟩ :=
    (accessedOn_iff_getElem? lines index variableName other).mp alsoAccessed
  apply Nat.le_of_not_lt
  intro earlier
  obtain ⟨_, rfl⟩ := List.getElem?_eq_some_iff.mp found
  exact notBefore other (by omega) alsoReaches

/-- If there is an access in the window, then one is found. -/
theorem exists_access?_eq_some
    {lines : List Text}
    {index : Nat}
    {variableName : Text}
    {later : Nat}
    (accessed : AccessedOn lines (index + 1) variableName later) :
    ∃ first, access? lines index variableName = some first := by
  obtain ⟨after, inWindow, other, numbered, reaches⟩ := accessed
  obtain ⟨place, rfl, found⟩ := exists_succ_of_numberedLine? numbered
  apply Option.isSome_iff_exists.mp
  apply (isSome_access?_iff lines index variableName).mpr
  exact ⟨place, other, found, by omega, by omega, reaches⟩

theorem access?_eq_some_iff
    (lines : List Text)
    (index : Nat)
    (variableName : Text)
    (later : Nat) :
    access? lines index variableName = some later ↔
      IsLeast { number | AccessedOn lines (index + 1) variableName number } later := by
  refine ⟨isLeast_of_access?_eq_some, ?_⟩
  rintro ⟨isAccessed, least⟩
  obtain ⟨first, accessed⟩ := exists_access?_eq_some isAccessed
  obtain ⟨firstAccessed, firstLeast⟩ := isLeast_of_access?_eq_some accessed
  rw [accessed, Nat.le_antisymm (firstLeast isAccessed) (least firstAccessed)]

/-! ### Candidates -/

/-- A line is a candidate if it passes both tests, assigns a variable, and an
access through that is near. -/
theorem candidate?_eq
    (lines : List Text)
    (index : Nat)
    (line : Text) :
    candidate? lines index line =
      if Query.isFetch line = true ∧
          Query.loadsEagerly (Text.joinLines (surrounding lines index)) = false then
        (Query.assigned? line).bind fun variableName =>
          (access? lines index variableName).bind fun accessLine =>
            some { line := index + 1, variableName, accessLine }
      else none := by
  unfold candidate?
  cases Query.isFetch line <;>
    cases Query.loadsEagerly (Text.joinLines (surrounding lines index)) <;> rfl

theorem isSome_candidate?_iff
    (lines : List Text)
    (index : Nat)
    (line : Text) :
    (candidate? lines index line).isSome = true ↔
      Query.isFetch line = true ∧
        Query.loadsEagerly (Text.joinLines (surrounding lines index)) = false ∧
        ∃ variableName, Query.assigned? line = some variableName ∧
          (access? lines index variableName).isSome = true := by
  simp only [candidate?_eq, Option.isSome_iff_exists, Option.ite_none_right_eq_some,
    Option.bind_eq_some_iff, Option.some.injEq]
  constructor
  · rintro ⟨_, ⟨fetches, notEager⟩, variableName, assigned, accessLine, accessed, _⟩
    exact ⟨fetches, notEager, variableName, assigned, accessLine, accessed⟩
  · rintro ⟨fetches, notEager, variableName, assigned, accessLine, accessed⟩
    exact ⟨_, ⟨fetches, notEager⟩, variableName, assigned, accessLine, accessed, rfl⟩

theorem line_of_candidate?_eq_some
    {lines : List Text}
    {index : Nat}
    {line : Text}
    {candidate : Candidate}
    (made : candidate? lines index line = some candidate) :
    candidate.line = index + 1 := by
  rw [candidate?_eq, Option.ite_none_right_eq_some] at made
  obtain ⟨_, made⟩ := made
  obtain ⟨variableName, _, made⟩ := Option.bind_eq_some_iff.mp made
  obtain ⟨accessLine, _, made⟩ := Option.bind_eq_some_iff.mp made
  rw [← Option.some.inj made]

/-- The candidates of a text are the fetches with an access, at the first one. -/
theorem mem_candidates_iff
    (content : Text)
    (candidate : Candidate) :
    candidate ∈ candidates content ↔
      FetchesInto (Text.lines content) candidate.line candidate.variableName ∧
        IsLeast
          { later | AccessedOn (Text.lines content) candidate.line candidate.variableName later }
          candidate.accessLine := by
  obtain ⟨number, variableName, accessLine⟩ := candidate
  have listed : { line := number, variableName, accessLine } ∈ candidates content ↔
      ∃ entry ∈ (Text.lines content).zipIdx,
        candidate? (Text.lines content) entry.2 entry.1 =
          some { line := number, variableName, accessLine } := List.mem_filterMap
  simp only [listed, Prod.exists, List.mem_zipIdx_iff_getElem?, candidate?_eq,
    Option.ite_none_right_eq_some, Option.bind_eq_some_iff, Option.some.injEq, Candidate.mk.injEq,
    loadsEagerly_surrounding_iff, access?_eq_some_iff]
  constructor
  · rintro ⟨line, index, found, ⟨fetches, lazy⟩, _, assigned, _, accessed, rfl, rfl, rfl⟩
    exact ⟨⟨line, found, fetches, assigned, lazy⟩, accessed⟩
  · rintro ⟨⟨line, numbered, fetches, assigned, lazy⟩, accessed⟩
    obtain ⟨index, rfl, found⟩ := exists_succ_of_numberedLine? numbered
    exact ⟨line, index, found, ⟨fetches, lazy⟩, variableName, assigned, accessLine, accessed,
      rfl, rfl, rfl⟩

/-- Candidates come in the order of their lines, and no line has two. -/
theorem pairwise_candidates (content : Text) :
    (candidates content).Pairwise fun earlier later => earlier.line < later.line := by
  have inOrder : (Text.lines content).zipIdx.Pairwise fun earlier later => earlier.2 < later.2 := by
    apply List.pairwise_map.mp
    rw [List.zipIdx_map_snd]
    exact List.pairwise_lt_range'
  apply List.Pairwise.filterMap _ _ inOrder
  intro earlier later before candidate made other alsoMade
  rw [line_of_candidate?_eq_some made, line_of_candidate?_eq_some alsoMade]
  exact Nat.succ_lt_succ before

/-- The findings on repeated queries of a file are warnings on the lines that fetch
records without eager loading near and are followed by an access, each line once
and in increasing order.  For each of them an event notes the line, the variable
and the first line with an access. -/
theorem controllerNPlusOne_reports_repeated_queries (file : SourceFile) :
    ∃ found : List Candidate,
      (controllerNPlusOne.examine file = found.map fun candidate =>
        { type := .potentialNPlusOne
          severity := .warning
          message :=
            ascii "Potential N+1 query: Query at line " ++ Text.ofNat candidate.line ++
              ascii " may need eager loading"
          suggestion := none
          location := .source file.displayPath candidate.line [] }) ∧
        (controllerNPlusOne.events file = found.map fun candidate =>
          { level := .debug
            message := ascii "n_plus_one.candidate"
            fields :=
              [(ascii "file", file.displayPath),
                (ascii "line", Text.ofNat candidate.line),
                (ascii "variable", candidate.variableName),
                (ascii "access_line", Text.ofNat candidate.accessLine)] }) ∧
        (found.map Candidate.line).Pairwise (· < ·) ∧
        (∀ number, number ∈ found.map Candidate.line ↔
          ∃ variableName, FetchesInto (Text.lines file.content) number variableName ∧
            ∃ later, AccessedOn (Text.lines file.content) number variableName later) ∧
        ∀ candidate ∈ found,
          FetchesInto (Text.lines file.content) candidate.line candidate.variableName ∧
            IsLeast
              { later |
                AccessedOn (Text.lines file.content) candidate.line candidate.variableName later }
              candidate.accessLine := by
  refine ⟨candidates file.content, rfl, rfl, ?_, ?_, ?_⟩
  · exact List.pairwise_map.mpr (pairwise_candidates file.content)
  · intro number
    rw [List.mem_map]
    constructor
    · rintro ⟨candidate, present, rfl⟩
      obtain ⟨fetches, accessed, _⟩ := (mem_candidates_iff _ _).mp present
      exact ⟨candidate.variableName, fetches, candidate.accessLine, accessed⟩
    · rintro ⟨variableName, fetches, later, accessed⟩
      obtain ⟨index, rfl⟩ := fetches.exists_succ
      obtain ⟨first, foundFirst⟩ := exists_access?_eq_some accessed
      exact ⟨⟨index + 1, variableName, first⟩,
        (mem_candidates_iff _ _).mpr ⟨fetches, isLeast_of_access?_eq_some foundFirst⟩, rfl⟩
  · intro candidate present
    exact (mem_candidates_iff _ _).mp present

end SourceRule
end QueryAdvisor

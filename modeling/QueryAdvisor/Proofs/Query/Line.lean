import QueryAdvisor.Proofs.Recogniser.Search
import QueryAdvisor.Query.Call

/-!
# What the tests on lines find

Calls, assignments and accesses are described by the way a line is put together,
and the tests on lines are shown to find exactly what is so described.
-/

namespace QueryAdvisor
namespace Query

open Recogniser

/-- A text calls one of some methods: the name of the method stands behind a full
stop, as a whole word. -/
def Calls
    (methods : List Text)
    (text : Text) : Prop :=
  ∃ before method after,
    text = before ++ Byte.dot :: (method ++ after) ∧
      method ∈ methods ∧ after.head?.any Byte.isWord = false

/-- A line assigns an instance variable behind some first part of it. -/
def AssignsAfter
    (before line variableName : Text) : Prop :=
  IsName variableName ∧
    ∃ gap after, gap.all Byte.isSpace = true ∧
      line = before ++ 64 :: (variableName ++ (gap ++ 61 :: after))

/-- A line assigns an instance variable, perhaps among others. -/
def Assigns
    (line variableName : Text) : Prop :=
  ∃ before, AssignsAfter before line variableName

/-- The first instance variable that a line assigns is the given one. -/
def AssignsFirst
    (line variableName : Text) : Prop :=
  ∃ before, AssignsAfter before line variableName ∧
    ∀ earlier other, AssignsAfter earlier line other → before.length ≤ earlier.length

theorem AssignsFirst.isName
    {line variableName : Text}
    (assigns : AssignsFirst line variableName) :
    IsName variableName := by
  obtain ⟨_, assignsAfter, _⟩ := assigns
  exact assignsAfter.1

/-- A line reaches through a member of an instance variable to a member of that. -/
def ReachesThrough
    (line variableName : Text) : Prop :=
  ∃ before first second after,
    line = before ++ 64 :: (variableName ++ Byte.dot :: (first ++ Byte.dot :: (second ++ after))) ∧
      IsName first ∧ IsName second

/-! ### Calls -/

theorem call_eq_some_iff
    {methods : List Text}
    {text rest : Text} :
    call methods text = some ((), rest) ↔
      ∃ method, IsName method ∧ method ∈ methods ∧ rest.head?.any Byte.isWord = false ∧
        text = Byte.dot :: (method ++ rest) := by
  constructor
  · intro read
    obtain ⟨_, _, stop, read⟩ := bind_eq_some.mp read
    obtain ⟨method, _, named, read⟩ := bind_eq_some.mp read
    obtain ⟨listed, rfl⟩ := guard_eq_some.mp read
    obtain ⟨rfl, nonempty, allWord, ended⟩ := word_eq_some named
    exact ⟨method, ⟨nonempty, allWord⟩, by simpa using listed, by simpa using ended,
      byte_eq_some stop⟩
  · rintro ⟨method, isName, listed, ended, rfl⟩
    refine bind_eq_some.mpr ⟨(), _, byte_cons_self _ _, ?_⟩
    exact bind_eq_some.mpr ⟨method, rest, word_append isName ended,
      guard_eq_some.mpr ⟨by simpa using listed, rfl⟩⟩

theorem advances_call (methods : List Text) : Advances (call methods) := by
  intro text value rest read
  obtain ⟨method, _, _, _, rfl⟩ := call_eq_some_iff.mp read
  exact ⟨Byte.dot :: method, List.cons_ne_nil _ _, rfl⟩

/-- The search for a call finds a call. -/
theorem occursIn_call_iff
    {methods : List Text}
    (names : ∀ method ∈ methods, IsName method)
    (text : Text) :
    (call methods).occursIn text = true ↔ Calls methods text := by
  rw [occursIn_iff (advances_call methods)]
  constructor
  · rintro ⟨before, _, _, after, rfl, read⟩
    obtain ⟨method, _, listed, ended, rfl⟩ := call_eq_some_iff.mp read
    exact ⟨before, method, after, rfl, listed, ended⟩
  · rintro ⟨before, method, after, rfl, listed, ended⟩
    exact ⟨before, (), _, after, rfl,
      call_eq_some_iff.mpr ⟨method, names method listed, listed, ended, rfl⟩⟩

theorem isFetch_iff (line : Text) : isFetch line = true ↔ Calls fetchMethods line :=
  occursIn_call_iff (by decide) line

theorem loadsEagerly_iff (text : Text) : loadsEagerly text = true ↔ Calls eagerMethods text :=
  occursIn_call_iff (by decide) text

/-- No call goes on into a new line. -/
theorem respects_call
    (methods : List Text)
    (following : Text) :
    Respects (· ++ Byte.newline :: following) (call methods) := by
  refine (respects_byte (by decide)).bind fun _ => respects_word.bind fun method => ?_
  intro text
  rw [guard_apply, guard_apply]
  split <;> rfl

/-- Joined lines load eagerly if one of them does. -/
theorem loadsEagerly_joinLines (lines : List Text) :
    loadsEagerly (Text.joinLines lines) = lines.any loadsEagerly :=
  occursIn_joinLines (advances_call eagerMethods) (respects_call eagerMethods) lines

/-! ### Assignments -/

theorem assignment_eq_some_iff
    {text variableName rest : Text} :
    assignment text = some (variableName, rest) ↔
      IsName variableName ∧ ∃ gap, gap.all Byte.isSpace = true ∧
        text = 64 :: (variableName ++ (gap ++ 61 :: rest)) := by
  simp only [assignment, bind_eq_some, pure_apply, Option.some.injEq, Prod.mk.injEq]
  constructor
  · rintro ⟨_, _, sign, _, _, named, _, _, spaced, _, _, equals, rfl, rfl⟩
    obtain ⟨rfl, nonempty, allWord, _⟩ := word_eq_some named
    obtain ⟨gap, allSpace, rfl⟩ := spaces_eq_some spaced
    rw [byte_eq_some sign, byte_eq_some equals]
    exact ⟨⟨nonempty, allWord⟩, gap, allSpace, rfl⟩
  · rintro ⟨isName, gap, allSpace, rfl⟩
    have isSign : Byte.isWord 61 = false := by decide
    have named := word_append isName (head?_gap_append allSpace isSign rest)
    have spaced := spaces_append allSpace
      (show (61 :: rest).head?.any Byte.isSpace = false from rfl)
    exact ⟨(), _, byte_cons_self _ _, variableName, _, named, (), _, spaced, (), rest,
      byte_cons_self _ _, rfl, rfl⟩

theorem advances_assignment : Advances assignment := by
  intro text variableName rest read
  obtain ⟨_, gap, _, rfl⟩ := assignment_eq_some_iff.mp read
  exact ⟨64 :: (variableName ++ (gap ++ [61])), List.cons_ne_nil _ _, by simp⟩

theorem succeedsAfter_assignment_iff
    {before line variableName : Text} :
    SucceedsAfter assignment before line variableName ↔ AssignsAfter before line variableName := by
  constructor
  · rintro ⟨_, rest, rfl, read⟩
    obtain ⟨isName, gap, allSpace, rfl⟩ := assignment_eq_some_iff.mp read
    exact ⟨isName, gap, rest, allSpace, rfl⟩
  · rintro ⟨isName, gap, after, allSpace, rfl⟩
    exact ⟨_, after, rfl, assignment_eq_some_iff.mpr ⟨isName, gap, allSpace, rfl⟩⟩

/-- The variable that is reported is the first that is assigned. -/
theorem assigned?_eq_some_iff
    (line variableName : Text) :
    assigned? line = some variableName ↔ AssignsFirst line variableName := by
  simp only [assigned?, value_first?_eq_some_iff advances_assignment,
    succeedsAfter_assignment_iff, AssignsFirst]

/-! ### Accesses -/

/-- Some word is read where a name stands, perhaps a longer one. -/
theorem exists_word_append
    {name : Text}
    (isName : IsName name)
    (after : Text) :
    ∃ longer rest, word (name ++ after) = some (longer, rest) := by
  obtain ⟨first, others, rfl⟩ := List.exists_cons_of_ne_nil isName.1
  have firstWord : Byte.isWord first = true := isName.isWord List.mem_cons_self
  exact ⟨_, _, by rw [word, if_neg (by simp [firstWord])]⟩

/-- A chain takes the variable and two names behind full stops. -/
theorem chainOn_eq_some
    {variableName text rest : Text}
    {value : Unit}
    (read : chainOn variableName text = some (value, rest)) :
    ∃ first second, IsName first ∧ IsName second ∧
      text = 64 :: (variableName ++ Byte.dot :: (first ++ Byte.dot :: (second ++ rest))) := by
  simp only [chainOn, memberChain, bind_eq_some, pure_apply, Option.some.injEq,
    Prod.mk.injEq] at read
  obtain ⟨_, _, sign, _, _, named, _, _, stop, first, _, firstRead, _, _, secondStop,
    second, _, secondRead, _, rfl⟩ := read
  obtain ⟨rfl, firstNonempty, firstWord, _⟩ := word_eq_some firstRead
  obtain ⟨rfl, secondNonempty, secondWord, _⟩ := word_eq_some secondRead
  rw [byte_eq_some sign, literal_eq_some named, byte_eq_some stop, byte_eq_some secondStop]
  exact ⟨first, second, ⟨firstNonempty, firstWord⟩, ⟨secondNonempty, secondWord⟩, rfl⟩

theorem exists_chainOn_eq_some
    (variableName : Text)
    {first second : Text}
    (firstName : IsName first)
    (secondName : IsName second)
    (after : Text) :
    ∃ rest, chainOn variableName
      (64 :: (variableName ++ Byte.dot :: (first ++ Byte.dot :: (second ++ after)))) =
        some ((), rest) := by
  have firstRead := word_append firstName
    (show (Byte.dot :: (second ++ after)).head?.any Byte.isWord = false from rfl)
  obtain ⟨longer, rest, secondRead⟩ := exists_word_append secondName after
  refine ⟨rest, ?_⟩
  simp only [chainOn, memberChain, bind_apply, pure_apply, byte_cons_self, literal_append,
    Option.bind_some, firstRead, secondRead]

theorem advances_chainOn (variableName : Text) : Advances (chainOn variableName) := by
  intro text value rest read
  obtain ⟨first, second, _, _, rfl⟩ := chainOn_eq_some read
  exact ⟨64 :: (variableName ++ Byte.dot :: (first ++ Byte.dot :: second)),
    List.cons_ne_nil _ _, by simp⟩

theorem reachesThrough_iff
    {variableName : Text}
    (isName : IsName variableName)
    (line : Text) :
    reachesThrough line variableName = true ↔ ReachesThrough line variableName := by
  have named : (!variableName.isEmpty && variableName.all Byte.isWord) = true := by
    simpa [IsName] using isName
  rw [reachesThrough, named, Bool.true_and, occursIn_iff (advances_chainOn variableName)]
  constructor
  · rintro ⟨before, _, _, after, rfl, read⟩
    obtain ⟨first, second, firstName, secondName, rfl⟩ := chainOn_eq_some read
    exact ⟨before, first, second, after, rfl, firstName, secondName⟩
  · rintro ⟨before, first, second, after, rfl, firstName, secondName⟩
    obtain ⟨rest, read⟩ := exists_chainOn_eq_some variableName firstName secondName after
    exact ⟨before, (), _, rest, rfl, read⟩

end Query
end QueryAdvisor

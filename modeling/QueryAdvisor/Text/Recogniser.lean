import QueryAdvisor.Text.Basic

/-!
# Recognisers

A recogniser reads a value off the beginning of a text and leaves the rest, or
refuses.  Every recogniser here is greedy and never takes a choice back: runs
of words and spaces extend as far as they can, and what has to follow them is
outside their class.  That giving bytes back would change nothing is shown in
`Proofs/Pattern`.  Runs may have any length; a matcher that recurses along a run comes
to the limit of its stack at some thirty thousand bytes, and that limit is left out.

`occurrences` finds the places where a recogniser succeeds, from left to right.
A place inside an occurrence is passed over, so occurrences do not overlap.
-/

namespace QueryAdvisor

/-- A recogniser turns a text into a value and the rest of the text. -/
abbrev Recogniser (α : Type) := StateT Text Option α

namespace Recogniser

variable {α : Type}

/-- Exactly one given byte. -/
def byte (expected : UInt8) : Recogniser Unit
  | [] => none
  | first :: rest => if first = expected then some ((), rest) else none

/-- One of several bytes. -/
def oneOf (expected : List UInt8) : Recogniser Unit
  | [] => none
  | first :: rest => if expected.contains first then some ((), rest) else none

/-- Exactly the given bytes, in order. -/
def literal : Text → Recogniser Unit
  | [], text => some ((), text)
  | _ :: _, [] => none
  | expected :: others, first :: rest =>
    if first = expected then literal others rest else none

@[simp] theorem literal_append
    (expected rest : Text) :
    literal expected (expected ++ rest) = some ((), rest) := by
  induction expected with
  | nil => rfl
  | cons first others inductionHypothesis => simpa [literal] using inductionHypothesis

/-- A byte that may be missing. -/
def optional (expected : UInt8) : Recogniser Unit
  | [] => some ((), [])
  | first :: rest => some ((), if first = expected then rest else first :: rest)

/-- The longest run of spaces, possibly empty. -/
def spaces : Recogniser Unit :=
  fun text => some ((), text.dropWhile Byte.isSpace)

/-- The longest run of spaces, at least one. -/
def someSpaces : Recogniser Unit
  | [] => none
  | first :: rest =>
    if Byte.isSpace first then some ((), rest.dropWhile Byte.isSpace) else none

/-- The longest run of word bytes, at least one. -/
def word : Recogniser Text :=
  fun text =>
    if (text.takeWhile Byte.isWord).isEmpty then none
    else some (text.takeWhile Byte.isWord, text.dropWhile Byte.isWord)

/-- A word is the longest nonempty beginning that consists of word bytes. -/
theorem word_eq_some
    {text name rest : Text}
    (read : word text = some (name, rest)) :
    text = name ++ rest ∧ name ≠ [] ∧ name.all Byte.isWord ∧ !rest.head?.any Byte.isWord := by
  rw [word] at read
  split at read
  · contradiction
  · rename_i nonempty
    obtain ⟨rfl, rfl⟩ :
        text.takeWhile Byte.isWord = name ∧ text.dropWhile Byte.isWord = rest := by
      simpa using read
    refine ⟨List.takeWhile_append_dropWhile.symm, by simpa using nonempty,
      List.all_takeWhile, ?_⟩
    cases remaining : text.dropWhile Byte.isWord with
    | nil => rfl
    | cons byte others =>
      have stopped := List.head?_dropWhile_not Byte.isWord text
      simpa [remaining] using stopped

/-- A word in double quotes. -/
def quotedWord : Recogniser Text := do
  byte Byte.quote
  let name ← word
  byte Byte.quote
  return name

end Recogniser

/-- A stretch of a text from `start` up to, but not including, `stop`, with the
value read there. -/
structure Occurrence (α : Type) where
  start : Nat
  stop : Nat
  value : α
deriving DecidableEq, Repr

namespace Recogniser

variable {α : Type}

/-- Occurrences in a text that begins at `offset`, of which the first `skip`
bytes belong to an earlier occurrence. -/
def occurrencesFrom
    (recogniser : Recogniser α) : Nat → Nat → Text → List (Occurrence α)
  | _, _, [] => []
  | offset, skip + 1, _ :: rest => occurrencesFrom recogniser (offset + 1) skip rest
  | offset, 0, first :: rest =>
    match recogniser (first :: rest) with
    | none => occurrencesFrom recogniser (offset + 1) 0 rest
    | some (value, remainder) =>
      { start := offset, stop := offset + (rest.length + 1 - remainder.length), value } ::
        occurrencesFrom recogniser (offset + 1) (rest.length - remainder.length) rest

/-- All occurrences in a text, leftmost first and without overlap. -/
def occurrences
    (recogniser : Recogniser α)
    (text : Text) : List (Occurrence α) :=
  occurrencesFrom recogniser 0 0 text

/-- The values of all occurrences. -/
def captures
    (recogniser : Recogniser α)
    (text : Text) : List α :=
  (occurrences recogniser text).map Occurrence.value

/-- The leftmost occurrence in a text that begins at `offset`. -/
def firstFrom
    (recogniser : Recogniser α)
    (offset : Nat) : Text → Option (Occurrence α)
  | [] => none
  | first :: rest =>
    match recogniser (first :: rest) with
    | none => firstFrom recogniser (offset + 1) rest
    | some (value, remainder) =>
      some { start := offset, stop := offset + (rest.length + 1 - remainder.length), value }

/-- The leftmost occurrence in a text. -/
def first?
    (recogniser : Recogniser α)
    (text : Text) : Option (Occurrence α) :=
  firstFrom recogniser 0 text

/-- Whether the recogniser succeeds somewhere in a text. -/
def occursIn
    (recogniser : Recogniser α)
    (text : Text) : Bool :=
  (first? recogniser text).isSome

end Recogniser
end QueryAdvisor

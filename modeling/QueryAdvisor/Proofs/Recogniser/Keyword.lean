import Mathlib.Data.List.Infix
import QueryAdvisor.Proofs.Recogniser.Edit

/-!
# Recognisers that begin with a keyword

A recogniser that begins with a literal has no occurrence where the literal has
none.  If the literal is a keyword that spaces have to follow, its occurrences
are found word by word: in a word that is followed by another byte it occurs
only as the ending of the word, and only before a space.
-/

namespace QueryAdvisor
namespace Recogniser

variable {α : Type}

/-- Whatever the recogniser reads begins with the given bytes. -/
def BeginsWith
    (expected : Text)
    (recogniser : Recogniser α) : Prop :=
  ∀ ⦃text value rest⦄, recogniser text = some (value, rest) → expected <+: text

/-- At no byte of the stretch the expected bytes can begin, whatever follows the
stretch. -/
def Mismatches
    (expected stretch : Text) : Prop :=
  ∀ ending ∈ stretch.tails, ending ≠ [] → ¬expected <+: ending ∧ ¬ending <+: expected

instance
    (expected stretch : Text) :
    Decidable (Mismatches expected stretch) :=
  inferInstanceAs (Decidable (∀ ending ∈ stretch.tails, _ → _))

namespace BeginsWith

variable {expected : Text} {recogniser : Recogniser α}

theorem eq_none
    (begins : BeginsWith expected recogniser)
    {text : Text}
    (absent : ¬expected <+: text) :
    recogniser text = none := by
  cases result : recogniser text with
  | none => rfl
  | some pair => exact absurd (begins result) absent

theorem refused_of_mismatches
    (begins : BeginsWith expected recogniser)
    {stretch : Text}
    (mismatches : Mismatches expected stretch)
    (rest ending : Text)
    (isEnding : ending <:+ stretch)
    (nonempty : ending ≠ []) :
    recogniser (ending ++ rest) = none := by
  obtain ⟨notInside, notAcross⟩ :=
    mismatches ending ((List.mem_tails _ _).mpr isEnding) nonempty
  apply begins.eq_none
  intro found
  rcases List.prefix_or_prefix_of_prefix found (List.prefix_append ending rest) with
    inside | across
  · exact notInside inside
  · exact notAcross across

theorem occurrencesFrom_append_of_mismatches
    (begins : BeginsWith expected recogniser)
    {stretch : Text}
    (mismatches : Mismatches expected stretch)
    (offset : Nat)
    (rest : Text) :
    occurrencesFrom recogniser offset 0 (stretch ++ rest) =
      occurrencesFrom recogniser (offset + stretch.length) 0 rest :=
  occurrencesFrom_append_of_refused (begins.refused_of_mismatches mismatches rest) offset

/-- A stretch in which the beginning cannot stand adds nothing. -/
theorem captures_append_of_mismatches
    (begins : BeginsWith expected recogniser)
    (advances : Advances recogniser)
    {stretch : Text}
    (mismatches : Mismatches expected stretch)
    (rest : Text) :
    captures recogniser (stretch ++ rest) = captures recogniser rest :=
  captures_append_of_refused advances (begins.refused_of_mismatches mismatches rest)

theorem captures_eq_nil_of_mismatches
    (begins : BeginsWith expected recogniser)
    (advances : Advances recogniser)
    {text : Text}
    (mismatches : Mismatches expected text) :
    captures recogniser text = [] := by
  rw [← List.append_nil text, begins.captures_append_of_mismatches advances mismatches,
    captures_nil]

end BeginsWith

/-- A keyword, spaces, and what has to follow them. -/
def keyed
    (keyword : Text)
    (next : Recogniser α) : Recogniser α := do
  literal keyword
  someSpaces
  next

theorem beginsWith_keyed
    (keyword : Text)
    (next : Recogniser α) :
    BeginsWith keyword (keyed keyword next) := by
  intro text value rest read
  simp only [keyed, bind_eq_some] at read
  obtain ⟨_, _, found, -⟩ := read
  rw [literal_eq_some found]
  exact List.prefix_append _ _

/-- At a run of word bytes that is not continued, only the keyword itself is
read, and only before a space. -/
theorem keyed_append
    {keyword name : Text}
    (isKeyword : keyword.all Byte.isWord = true)
    (allWord : name.all Byte.isWord = true)
    {sign : UInt8}
    (isSign : Byte.isWord sign = false)
    (next : Recogniser α)
    (rest : Text) :
    keyed keyword next (name ++ sign :: rest) =
      if name = keyword ∧ Byte.isSpace sign = true then next (rest.dropWhile Byte.isSpace)
      else none := by
  induction keyword generalizing name with
  | nil =>
      cases name with
      | nil => by_cases space : Byte.isSpace sign = true <;>
          simp [keyed, literal, someSpaces, space]
      | cons first others =>
          have notSpace : Byte.isSpace first = false :=
            Byte.isSpace_eq_false_of_isWord (by simp_all)
          simp [keyed, literal, someSpaces, notSpace]
  | cons letter letters inductionHypothesis =>
      simp only [List.all_cons, Bool.and_eq_true] at isKeyword
      cases name with
      | nil =>
          have different : sign ≠ letter := by
            rintro rfl
            simp [isSign] at isKeyword
          simp [keyed, literal, different]
      | cons first others =>
          simp only [List.all_cons, Bool.and_eq_true] at allWord
          by_cases same : first = letter
          · have shorter := inductionHypothesis isKeyword.2 allWord.2
            simpa [keyed, literal, same] using shorter
          · simp [keyed, literal, same]

section Keyed

variable {keyword : Text} {next : Recogniser α}

/-- At a byte that is no word byte no keyword is read. -/
theorem captures_keyed_sign
    (advances : Advances (keyed keyword next))
    (isKeyword : IsName keyword)
    {sign : UInt8}
    (isSign : Byte.isWord sign = false)
    (rest : Text) :
    captures (keyed keyword next) (sign :: rest) = captures (keyed keyword next) rest := by
  have emptyWord : ([] : Text).all Byte.isWord = true := rfl
  have refused := keyed_append isKeyword.2 emptyWord isSign next rest
  rw [if_neg fun both => isKeyword.1 both.1.symm] at refused
  exact captures_of_refused advances refused

/-- A word that is not continued adds nothing, unless it ends in the keyword and
what has to follow stands behind it. -/
theorem captures_keyed_name
    (advances : Advances (keyed keyword next))
    (isKeyword : IsName keyword)
    {name : Text}
    (allWord : name.all Byte.isWord = true)
    {sign : UInt8}
    (isSign : Byte.isWord sign = false)
    {rest : Text}
    (refused : keyword <:+ name → Byte.isSpace sign = true →
      next (rest.dropWhile Byte.isSpace) = none) :
    captures (keyed keyword next) (name ++ sign :: rest) =
      captures (keyed keyword next) rest := by
  rw [captures_append_of_refused advances, captures_keyed_sign advances isKeyword isSign]
  intro ending isEnding _
  have endingWord : ending.all Byte.isWord = true := by
    rw [List.all_eq_true] at allWord ⊢
    exact fun byte member => allWord byte (isEnding.subset member)
  rw [keyed_append isKeyword.2 endingWord isSign]
  split
  · rename_i both
    exact refused (both.1 ▸ isEnding) both.2
  · rfl

/-- A quoted name adds nothing, even if the keyword is its ending: a quote follows.
-/
theorem captures_keyed_quoted
    (advances : Advances (keyed keyword next))
    (isKeyword : IsName keyword)
    {name : Text}
    (isName : IsName name)
    (rest : Text) :
    captures (keyed keyword next) (quoted name ++ rest) =
      captures (keyed keyword next) rest := by
  have spelled : quoted name ++ rest = Byte.quote :: (name ++ Byte.quote :: rest) := by
    simp [quoted]
  rw [spelled, captures_keyed_sign advances isKeyword (by decide),
    captures_keyed_name advances isKeyword isName.2 (by decide)
      fun _ space => absurd space (by decide)]

end Keyed

/-- Where too few bytes of a kind are left, nothing is read any more. -/
theorem captures_eq_nil_of_count_lt
    {recogniser : Recogniser α}
    (advances : Advances recogniser)
    {sign : UInt8}
    {bound : Nat}
    (needed : ∀ ⦃text value rest⦄, recogniser text = some (value, rest) →
      bound ≤ text.count sign)
    {text : Text}
    (few : text.count sign < bound) :
    captures recogniser text = [] := by
  rw [← List.append_nil text, captures_append_of_refused advances, captures_nil]
  intro ending isEnding _
  rw [List.append_nil]
  cases result : recogniser ending with
  | none => rfl
  | some pair =>
      have enough := needed result
      have fewer := isEnding.sublist.count_le sign
      omega

end Recogniser
end QueryAdvisor

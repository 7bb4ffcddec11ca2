import QueryAdvisor.Proofs.LineEnding.Text
import QueryAdvisor.Proofs.Recogniser.Edit

/-!
# Recognisers and carriage returns

A carriage return is a space like the line feed behind it.  A recogniser that
takes them only in runs of spaces reads the same off a text with carriage
returns, and its occurrences are the same ones, moved.
-/

namespace QueryAdvisor

/-- Where an occurrence moves when a text gets carriage returns. -/
def Occurrence.moved
    {α : Type}
    (text : Text)
    (occurrence : Occurrence α) : Occurrence α where
  start := text.moved occurrence.start
  stop := text.moved occurrence.stop
  value := occurrence.value

namespace Recogniser

open Text

variable {α : Type}

/-! ### Elementary recognisers -/

/-- Both bytes at the end of a line are spaces. -/
theorem ne_newline_of_isSpace_eq_false
    {byte : UInt8}
    (notSpace : Byte.isSpace byte = false) :
    Byte.newline ≠ byte ∧ Byte.carriageReturn ≠ byte := by
  constructor
  · rintro rfl
    contradiction
  · rintro rfl
    contradiction

theorem respects_returns_byte
    {expected : UInt8}
    (notSpace : Byte.isSpace expected = false) :
    Respects withReturns (byte expected) := by
  obtain ⟨notNewline, notReturn⟩ := ne_newline_of_isSpace_eq_false notSpace
  intro text
  cases text with
  | nil => rfl
  | cons first rest =>
      by_cases isNewline : first = Byte.newline
      · subst isNewline
        simp [byte, notNewline, notReturn]
      · rw [withReturns_cons isNewline, byte, byte]
        split <;> rfl

theorem respects_returns_oneOf
    {expected : List UInt8}
    (noSpace : expected.all (fun byte => !Byte.isSpace byte) = true) :
    Respects withReturns (oneOf expected) := by
  intro text
  have absent {sign : UInt8} (isSpace : Byte.isSpace sign = true) : sign ∉ expected := by
    intro present
    simpa [isSpace] using List.all_eq_true.mp noSpace sign present
  cases text with
  | nil => rfl
  | cons first rest =>
      by_cases isNewline : first = Byte.newline
      · subst isNewline
        have noNewline : Byte.newline ∉ expected := absent (by decide)
        have noReturn : Byte.carriageReturn ∉ expected := absent (by decide)
        simp [oneOf, noNewline, noReturn]
      · rw [withReturns_cons isNewline, oneOf, oneOf]
        split <;> rfl

theorem respects_returns_optional
    {expected : UInt8}
    (notSpace : Byte.isSpace expected = false) :
    Respects withReturns (optional expected) := by
  obtain ⟨notNewline, notReturn⟩ := ne_newline_of_isSpace_eq_false notSpace
  intro text
  cases text with
  | nil => rfl
  | cons first rest =>
      by_cases isNewline : first = Byte.newline
      · subst isNewline
        simp [optional, notNewline, notReturn]
      · rw [withReturns_cons isNewline, optional, optional, Option.map_some]
        split
        · rfl
        · rw [withReturns_cons isNewline]

theorem respects_returns_literal
    {expected : Text}
    (noSpace : expected.all (fun byte => !Byte.isSpace byte) = true) :
    Respects withReturns (literal expected) := by
  intro text
  induction expected generalizing text with
  | nil => rfl
  | cons letter others inductionHypothesis =>
      simp only [List.all_cons, Bool.and_eq_true, Bool.not_eq_true'] at noSpace
      obtain ⟨notNewline, notReturn⟩ := ne_newline_of_isSpace_eq_false noSpace.1
      cases text with
      | nil => rfl
      | cons first rest =>
          by_cases isNewline : first = Byte.newline
          · subst isNewline
            simp [literal, notNewline, notReturn]
          · rw [withReturns_cons isNewline, literal, literal]
            split
            · exact inductionHypothesis noSpace.2 rest
            · rfl

/-- A class of bytes that does not tell the two apart. -/
theorem dropWhile_withReturns
    {member : UInt8 → Bool}
    (same : member Byte.carriageReturn = member Byte.newline)
    (text : Text) :
    (withReturns text).dropWhile member = withReturns (text.dropWhile member) := by
  induction text with
  | nil => rfl
  | cons first rest inductionHypothesis =>
      by_cases isNewline : first = Byte.newline
      · subst isNewline
        rw [withReturns_newline, List.dropWhile_cons, same, List.dropWhile_cons,
          List.dropWhile_cons]
        split
        · exact inductionHypothesis
        · rfl
      · rw [withReturns_cons isNewline, List.dropWhile_cons, List.dropWhile_cons]
        split
        · exact inductionHypothesis
        · rw [withReturns_cons isNewline]

theorem takeWhile_isWord_withReturns
    (text : Text) :
    (withReturns text).takeWhile Byte.isWord = text.takeWhile Byte.isWord := by
  induction text with
  | nil => rfl
  | cons first rest inductionHypothesis =>
      by_cases isNewline : first = Byte.newline
      · subst isNewline
        rfl
      · rw [withReturns_cons isNewline, List.takeWhile_cons, List.takeWhile_cons,
          inductionHypothesis]

/-- A run of spaces takes the carriage returns in it along. -/
theorem respects_returns_spaces : Respects withReturns spaces := by
  intro text
  rw [spaces, spaces, dropWhile_withReturns (by decide), Option.map_some]

theorem respects_returns_someSpaces : Respects withReturns someSpaces := by
  intro text
  cases text with
  | nil => rfl
  | cons first rest =>
      by_cases isNewline : first = Byte.newline
      · subst isNewline
        have dropped : (withReturns rest).dropWhile Byte.isSpace =
            withReturns (rest.dropWhile Byte.isSpace) := dropWhile_withReturns (by decide) rest
        exact congrArg (fun remaining => some ((), remaining)) dropped
      · rw [withReturns_cons isNewline, someSpaces, someSpaces,
          dropWhile_withReturns (by decide)]
        split <;> rfl

theorem respects_returns_word : Respects withReturns word := by
  intro text
  rw [word, word, takeWhile_isWord_withReturns, dropWhile_withReturns (by decide)]
  split <;> rfl

theorem respects_returns_quotedWord : Respects withReturns quotedWord :=
  (respects_returns_byte (by decide)).bind fun _ =>
    respects_returns_word.bind fun _ =>
      (respects_returns_byte (by decide)).bind fun _ => .pure _

/-! ### Occurrences -/

/-- A recogniser that takes line feeds and carriage returns only in runs of
spaces, and no such run at the beginning. -/
structure IgnoresReturns (recogniser : Recogniser α) : Prop where
  advances : Advances recogniser
  refusesNewline : ∀ rest, recogniser (Byte.newline :: rest) = none
  respects : Respects withReturns recogniser

namespace IgnoresReturns

variable {recogniser : Recogniser α}

/-- The search behind some text finds the same occurrences, moved. -/
theorem occurrencesFrom_withReturns
    (ignores : IgnoresReturns recogniser)
    (front text : Text) :
    occurrencesFrom recogniser (withReturns front).length 0 (withReturns text) =
      (occurrencesFrom recogniser front.length 0 text).map
        (Occurrence.moved (front ++ text)) := by
  induction text using ignores.advances.induction generalizing front with
  | nil => rfl
  | refused first rest refused inductionHypothesis =>
      have stillRefused := ignores.respects.eq_none refused
      have behind := inductionHypothesis (front ++ [first])
      rw [withReturns_append, List.length_append, List.length_append, List.append_assoc,
        List.singleton_append] at behind
      rw [occurrencesFrom_of_refused refused]
      by_cases isNewline : first = Byte.newline
      · subst isNewline
        -- Two bytes are refused: the carriage return, because the line feed was,
        -- and the line feed behind it, where nothing ever begins.
        rw [withReturns_newline] at stillRefused ⊢
        rw [occurrencesFrom_of_refused stillRefused,
          occurrencesFrom_of_refused (ignores.refusesNewline _)]
        exact behind
      · rw [withReturns_cons isNewline] at stillRefused ⊢
        rw [withReturns_cons isNewline] at behind
        rw [occurrencesFrom_of_refused stillRefused]
        exact behind
  | read taken rest value nonempty read inductionHypothesis =>
      have stillRead := ignores.respects.eq_some read
      rw [withReturns_append] at stillRead ⊢
      have stillNonempty : withReturns taken ≠ [] := by
        rw [← List.length_pos_iff, length_withReturns]
        exact Nat.add_pos_left (List.length_pos_iff.mpr nonempty) _
      have behind := inductionHypothesis (front ++ taken)
      rw [withReturns_append, List.length_append, List.length_append, List.append_assoc] at behind
      have start := moved_length front (taken ++ rest)
      have stop := moved_length (front ++ taken) rest
      rw [List.append_assoc, List.length_append, withReturns_append, List.length_append] at stop
      rw [occurrencesFrom_of_read stillNonempty stillRead, occurrencesFrom_of_read nonempty read,
        List.map_cons, behind, Occurrence.moved, start, stop]

/-- The occurrences are the same ones, moved. -/
theorem occurrences_withReturns
    (ignores : IgnoresReturns recogniser)
    (text : Text) :
    recogniser.occurrences (withReturns text) =
      (recogniser.occurrences text).map (Occurrence.moved text) :=
  ignores.occurrencesFrom_withReturns [] text

/-- The same values are read in the same order. -/
theorem captures_withReturns
    (ignores : IgnoresReturns recogniser)
    (text : Text) :
    captures recogniser (withReturns text) = captures recogniser text := by
  rw [captures, ignores.occurrences_withReturns, List.map_map]
  rfl

theorem first?_withReturns
    (ignores : IgnoresReturns recogniser)
    (text : Text) :
    recogniser.first? (withReturns text) =
      (recogniser.first? text).map (Occurrence.moved text) := by
  have found := ignores.occurrences_withReturns text
  unfold occurrences at found
  rw [first?, first?, firstFrom_eq_head?, firstFrom_eq_head?, found, List.head?_map]

end IgnoresReturns
end Recogniser
end QueryAdvisor

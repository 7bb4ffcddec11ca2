import QueryAdvisor.Proofs.Recogniser.Grammar

/-!
# Recognisers and edited texts

A recogniser respects an edit of texts when it reads the same value off the
edited text and leaves the edited rest.  Sequences of recognisers that respect
an edit respect it again, so that only elementary recognisers have to be
examined.

The edit considered here appends a new line.  A run of spaces does not respect
it, because it would go on into the new line; but it does so together with what
has to follow it, provided that the new line does not begin with that.
-/

namespace QueryAdvisor
namespace Recogniser

variable {α β : Type}

/-- An edited text gives the same value and the edited rest. -/
def Respects
    (edit : Text → Text)
    (recogniser : Recogniser α) : Prop :=
  ∀ text, recogniser (edit text) =
    (recogniser text).map fun result => (result.1, edit result.2)

namespace Respects

variable {edit : Text → Text}

theorem pure
    (value : α) :
    Respects edit (Pure.pure value : Recogniser α) :=
  fun _ => rfl

/-- A sequence respects an edit if its parts do. -/
theorem bind
    {recogniser : Recogniser α}
    {next : α → Recogniser β}
    (early : Respects edit recogniser)
    (late : ∀ value, Respects edit (next value)) :
    Respects edit (recogniser >>= next) := by
  intro text
  rw [bind_apply, bind_apply, early]
  cases recogniser text with
  | none => rfl
  | some result => exact late result.1 result.2

theorem eq_none
    {recogniser : Recogniser α}
    (respects : Respects edit recogniser)
    {text : Text}
    (refused : recogniser text = none) :
    recogniser (edit text) = none := by
  rw [respects, refused, Option.map_none]

theorem eq_some
    {recogniser : Recogniser α}
    (respects : Respects edit recogniser)
    {text rest : Text}
    {value : α}
    (read : recogniser text = some (value, rest)) :
    recogniser (edit text) = some (value, edit rest) := by
  rw [respects, read, Option.map_some]

end Respects

/-- The occurrences in a text with an addition are those in the text and those
in the addition, if the recogniser respects the addition. -/
theorem occurrencesFrom_append
    {recogniser : Recogniser α}
    (advances : Advances recogniser)
    {addition : Text}
    (respects : Respects (· ++ addition) recogniser)
    (offset : Nat)
    (text : Text) :
    occurrencesFrom recogniser offset 0 (text ++ addition) =
      occurrencesFrom recogniser offset 0 text ++
        occurrencesFrom recogniser (offset + text.length) 0 addition := by
  induction text using advances.induction generalizing offset with
  | nil => rfl
  | refused first rest refused inductionHypothesis =>
      have stillRefused : recogniser (first :: (rest ++ addition)) = none :=
        respects.eq_none refused
      rw [List.cons_append, occurrencesFrom_of_refused stillRefused,
        occurrencesFrom_of_refused refused, inductionHypothesis, List.length_cons,
        Nat.add_right_comm, Nat.add_assoc]
  | read taken rest value nonempty read inductionHypothesis =>
      have stillRead : recogniser (taken ++ (rest ++ addition)) =
          some (value, rest ++ addition) := by
        simpa using respects.eq_some read
      rw [List.append_assoc, occurrencesFrom_of_read nonempty stillRead,
        occurrencesFrom_of_read nonempty read, inductionHypothesis, List.cons_append,
        List.length_append, Nat.add_assoc]

/-! ### A new line -/

section NewLine

variable {following : Text}

/-- A line that begins, after spaces, with a word byte or not at all. -/
def BeginsWithWord (following : Text) : Prop :=
  (following.dropWhile Byte.isSpace).head?.all Byte.isWord = true

/-- The recogniser succeeds only where some byte other than a word byte stands. -/
def NeedsSign (recogniser : Recogniser α) : Prop :=
  ∀ text, text.head?.all Byte.isWord = true → recogniser text = none

theorem NeedsSign.bind
    {recogniser : Recogniser α}
    (needsSign : NeedsSign recogniser)
    (next : α → Recogniser β) :
    NeedsSign (recogniser >>= next) := by
  intro text beginning
  rw [bind_apply, needsSign text beginning, Option.bind_none]

theorem needsSign_byte
    {sign : UInt8}
    (isSign : Byte.isWord sign = false) :
    NeedsSign (byte sign) := by
  intro text beginning
  cases text with
  | nil => rfl
  | cons first rest =>
      rw [byte, if_neg]
      rintro rfl
      simp [isSign] at beginning

/-- A sign that may be missing does not help where another is needed. -/
theorem needsSign_optional_bind
    {sign : UInt8}
    (isSign : Byte.isWord sign = false)
    {next : Unit → Recogniser β}
    (needsSign : NeedsSign (next ())) :
    NeedsSign (optional sign >>= next) := by
  intro text beginning
  cases text with
  | nil => exact needsSign [] rfl
  | cons first rest =>
      have different : first ≠ sign := by
        rintro rfl
        simp [isSign] at beginning
      simpa [optional, different] using needsSign (first :: rest) beginning

theorem needsSign_spaces_bind
    {next : Unit → Recogniser β}
    (needsSign : NeedsSign (next ())) :
    NeedsSign (spaces >>= next) := by
  intro text beginning
  cases text with
  | nil => exact needsSign [] rfl
  | cons first rest =>
      have notSpace : Byte.isSpace first = false :=
        Byte.isSpace_eq_false_of_isWord (by simpa using beginning)
      simpa [spaces, notSpace] using needsSign (first :: rest) beginning

theorem needsSign_literal
    {sign : UInt8}
    (isSign : Byte.isWord sign = false)
    (others : Text) :
    NeedsSign (literal (sign :: others)) := by
  intro text beginning
  cases text with
  | nil => rfl
  | cons first rest =>
      rw [literal, if_neg]
      rintro rfl
      simp [isSign] at beginning

theorem needsSign_quotedWord : NeedsSign quotedWord :=
  (needsSign_byte (by decide)).bind _

theorem respects_literal
    {expected : Text}
    (oneLine : Byte.newline ∉ expected) :
    Respects (· ++ Byte.newline :: following) (literal expected) := by
  intro text
  induction expected generalizing text with
  | nil => rfl
  | cons byte others inductionHypothesis =>
      simp only [List.mem_cons, not_or] at oneLine
      cases text with
      | nil => simp [literal, oneLine.1]
      | cons first rest =>
          simp only [List.cons_append, literal]
          split
          · exact inductionHypothesis oneLine.2 rest
          · rfl

theorem respects_byte
    {expected : UInt8}
    (other : Byte.newline ≠ expected) :
    Respects (· ++ Byte.newline :: following) (byte expected) := by
  intro text
  cases text with
  | nil => simp [byte, other]
  | cons first rest =>
      simp only [List.cons_append, byte]
      split <;> rfl

theorem respects_optional
    {expected : UInt8}
    (other : Byte.newline ≠ expected) :
    Respects (· ++ Byte.newline :: following) (optional expected) := by
  intro text
  cases text with
  | nil => simp [optional, other]
  | cons first rest =>
      simp only [List.cons_append, optional, Option.map_some]
      split <;> rfl

/-- A word ends at the line feed at the latest. -/
theorem respects_word :
    Respects (· ++ Byte.newline :: following) word := by
  intro text
  have ended : Byte.isWord Byte.newline = false := by decide
  have sameName : (text ++ Byte.newline :: following).takeWhile Byte.isWord =
      text.takeWhile Byte.isWord := by
    rw [List.takeWhile_append, List.takeWhile_cons_of_neg (by simp [ended])]
    split
    · rename_i whole
      rw [List.append_nil, (List.takeWhile_prefix _).eq_of_length whole]
    · rfl
  have sameRest : (text ++ Byte.newline :: following).dropWhile Byte.isWord =
      text.dropWhile Byte.isWord ++ Byte.newline :: following := by
    rw [List.dropWhile_append, List.dropWhile_cons_of_neg (by simp [ended])]
    split
    · rename_i empty
      rw [List.isEmpty_iff.mp empty, List.nil_append]
    · rfl
  simp only [word, sameName, sameRest]
  split <;> rfl

theorem respects_quotedWord :
    Respects (· ++ Byte.newline :: following) quotedWord :=
  (respects_byte (by decide)).bind fun _ =>
    respects_word.bind fun _ =>
      (respects_byte (by decide)).bind fun _ => .pure _

/-- Spaces may run into the new line, but then what has to follow is missing on
both sides. -/
theorem respects_spaces_bind
    (beginning : BeginsWithWord following)
    {next : Unit → Recogniser β}
    (needsSign : NeedsSign (next ()))
    (late : Respects (· ++ Byte.newline :: following) (next ())) :
    Respects (· ++ Byte.newline :: following) (spaces >>= next) := by
  intro text
  have newlineDropped : (Byte.newline :: following).dropWhile Byte.isSpace =
      following.dropWhile Byte.isSpace :=
    List.dropWhile_cons_of_pos (by decide)
  simp only [bind_apply, spaces, Option.bind_some, List.dropWhile_append, newlineDropped]
  split
  · rename_i empty
    rw [List.isEmpty_iff.mp empty, needsSign _ beginning, needsSign [] rfl, Option.map_none]
  · exact late (text.dropWhile Byte.isSpace)

theorem respects_someSpaces_bind
    (beginning : BeginsWithWord following)
    {next : Unit → Recogniser β}
    (needsSign : NeedsSign (next ()))
    (late : Respects (· ++ Byte.newline :: following) (next ())) :
    Respects (· ++ Byte.newline :: following) (someSpaces >>= next) := by
  intro text
  cases text with
  | nil =>
      have space : Byte.isSpace Byte.newline = true := by decide
      simp [someSpaces, space, needsSign _ beginning]
  | cons first rest =>
      simp only [bind_apply, List.cons_append, someSpaces]
      split
      · exact respects_spaces_bind beginning needsSign late rest
      · rfl

/-- A recogniser that respects the new line reads nothing where it begins. -/
theorem refuses_newline_of_respects
    {recogniser : Recogniser α}
    (advances : Advances recogniser)
    (respects : Respects (· ++ Byte.newline :: following) recogniser) :
    recogniser (Byte.newline :: following) = none :=
  respects.eq_none advances.refuses_nil

theorem occurrencesFrom_newLine_of_respects
    {recogniser : Recogniser α}
    (advances : Advances recogniser)
    (respects : Respects (· ++ Byte.newline :: following) recogniser)
    (offset : Nat)
    (text : Text) :
    occurrencesFrom recogniser offset 0 (text ++ Byte.newline :: following) =
      occurrencesFrom recogniser offset 0 text ++
        occurrencesFrom recogniser (offset + text.length + 1) 0 following := by
  rw [occurrencesFrom_append advances respects,
    occurrencesFrom_of_refused (refuses_newline_of_respects advances respects)]

/-- What is read in a text and a new line is what is read in each of them. -/
theorem captures_newLine_of_respects
    {recogniser : Recogniser α}
    (advances : Advances recogniser)
    (respects : Respects (· ++ Byte.newline :: following) recogniser)
    (text : Text) :
    captures recogniser (text ++ Byte.newline :: following) =
      captures recogniser text ++ captures recogniser following := by
  rw [← map_value_occurrencesFrom advances 0, occurrencesFrom_newLine_of_respects advances respects,
    List.map_append, map_value_occurrencesFrom advances, map_value_occurrencesFrom advances]

/-- A recogniser that is to read single lines: whatever it reads does not go on
into a line that begins with a word. -/
structure Linewise (recogniser : Recogniser α) : Prop where
  advances : Advances recogniser
  respects : ∀ {following}, BeginsWithWord following →
    Respects (· ++ Byte.newline :: following) recogniser

namespace Linewise

variable {recogniser : Recogniser α}

theorem refuses_newline
    (linewise : Linewise recogniser)
    (beginning : BeginsWithWord following) :
    recogniser (Byte.newline :: following) = none :=
  refuses_newline_of_respects linewise.advances (linewise.respects beginning)

/-- The occurrences in a text and a following line are those of its parts. -/
theorem occurrencesFrom_newLine
    (linewise : Linewise recogniser)
    (beginning : BeginsWithWord following)
    (offset : Nat)
    (text : Text) :
    occurrencesFrom recogniser offset 0 (text ++ Byte.newline :: following) =
      occurrencesFrom recogniser offset 0 text ++
        occurrencesFrom recogniser (offset + text.length + 1) 0 following :=
  occurrencesFrom_newLine_of_respects linewise.advances (linewise.respects beginning) offset text

theorem captures_newLine
    (linewise : Linewise recogniser)
    (beginning : BeginsWithWord following)
    (text : Text) :
    captures recogniser (text ++ Byte.newline :: following) =
      captures recogniser text ++ captures recogniser following :=
  captures_newLine_of_respects linewise.advances (linewise.respects beginning) text

end Linewise

end NewLine

end Recogniser
end QueryAdvisor

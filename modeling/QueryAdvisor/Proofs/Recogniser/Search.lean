import QueryAdvisor.Proofs.Recogniser.Edit
import QueryAdvisor.Text.Line

/-!
# Searching for an occurrence

A search reports the leftmost place of a text at which a recogniser succeeds.  If
no occurrence goes on into a new line, searching joined lines is searching each
of them.
-/

namespace QueryAdvisor
namespace Recogniser

variable {α : Type}

/-- A recogniser succeeds behind some first part of a text. -/
def SucceedsAfter
    (recogniser : Recogniser α)
    (before text : Text)
    (value : α) : Prop :=
  ∃ after rest, text = before ++ after ∧ recogniser after = some (value, rest)

section Search

variable {recogniser : Recogniser α} {first : UInt8} {before rest : Text} {value : α}

theorem not_succeedsAfter_nil
    (advances : Advances recogniser) :
    ¬ SucceedsAfter recogniser before [] value := by
  rintro ⟨after, rest, cut, read⟩
  obtain ⟨rfl, rfl⟩ := List.append_eq_nil_iff.mp cut.symm
  rw [advances.refuses_nil] at read
  contradiction

/-- Where a recogniser refuses, it can succeed only behind the first byte. -/
theorem succeedsAfter_of_refused
    (refused : recogniser (first :: rest) = none) :
    SucceedsAfter recogniser before (first :: rest) value ↔
      ∃ following, before = first :: following ∧
        SucceedsAfter recogniser following rest value := by
  constructor
  · rintro ⟨after, remainder, cut, read⟩
    cases before with
    | nil =>
        rw [← show first :: rest = after from cut, refused] at read
        contradiction
    | cons byte following =>
        obtain ⟨rfl, rfl⟩ := List.cons.inj cut
        exact ⟨following, rfl, after, remainder, rfl, read⟩
  · rintro ⟨following, rfl, after, remainder, rfl, read⟩
    exact ⟨after, remainder, rfl, read⟩

/-- The search finds something exactly if the recogniser succeeds somewhere. -/
theorem isSome_firstFrom_iff
    (advances : Advances recogniser)
    (offset : Nat)
    (text : Text) :
    (firstFrom recogniser offset text).isSome = true ↔
      ∃ before value, SucceedsAfter recogniser before text value := by
  induction text generalizing offset with
  | nil => simp [firstFrom, not_succeedsAfter_nil advances]
  | cons first rest inductionHypothesis =>
      rw [firstFrom]
      cases result : recogniser (first :: rest) with
      | none =>
          refine (inductionHypothesis (offset + 1)).trans ⟨?_, ?_⟩
          · rintro ⟨before, value, succeeds⟩
            exact ⟨first :: before, value,
              (succeedsAfter_of_refused result).mpr ⟨before, rfl, succeeds⟩⟩
          · rintro ⟨before, value, succeeds⟩
            obtain ⟨following, _, later⟩ := (succeedsAfter_of_refused result).mp succeeds
            exact ⟨following, value, later⟩
      | some pair =>
          exact ⟨fun _ => ⟨[], pair.1, first :: rest, pair.2, rfl, result⟩, fun _ => rfl⟩

theorem occursIn_iff
    (advances : Advances recogniser)
    (text : Text) :
    occursIn recogniser text = true ↔
      ∃ before value, SucceedsAfter recogniser before text value :=
  isSome_firstFrom_iff advances 0 text

/-- The search reports what is read at the first place where the recogniser
succeeds. -/
theorem value_firstFrom_eq_some_iff
    (advances : Advances recogniser)
    (offset : Nat)
    (text : Text) :
    (firstFrom recogniser offset text).map Occurrence.value = some value ↔
      ∃ before, SucceedsAfter recogniser before text value ∧
        ∀ earlier other, SucceedsAfter recogniser earlier text other →
          before.length ≤ earlier.length := by
  induction text generalizing offset with
  | nil => simp [firstFrom, not_succeedsAfter_nil advances]
  | cons first rest inductionHypothesis =>
      rw [firstFrom]
      cases result : recogniser (first :: rest) with
      | none =>
          refine (inductionHypothesis (offset + 1)).trans ⟨?_, ?_⟩
          · rintro ⟨before, succeeds, leftmost⟩
            refine ⟨first :: before,
              (succeedsAfter_of_refused result).mpr ⟨before, rfl, succeeds⟩, ?_⟩
            intro earlier other otherSucceeds
            obtain ⟨following, rfl, later⟩ := (succeedsAfter_of_refused result).mp otherSucceeds
            exact Nat.succ_le_succ (leftmost following other later)
          · rintro ⟨before, succeeds, leftmost⟩
            obtain ⟨following, rfl, later⟩ := (succeedsAfter_of_refused result).mp succeeds
            refine ⟨following, later, ?_⟩
            intro earlier other otherSucceeds
            exact Nat.le_of_succ_le_succ (leftmost (first :: earlier) other
              ((succeedsAfter_of_refused result).mpr ⟨earlier, rfl, otherSucceeds⟩))
      | some pair =>
          have here : SucceedsAfter recogniser [] (first :: rest) pair.1 :=
            ⟨first :: rest, pair.2, rfl, result⟩
          simp only [Option.map_some, Option.some.injEq]
          constructor
          · rintro rfl
            exact ⟨[], here, fun _ _ _ => Nat.zero_le _⟩
          · rintro ⟨before, ⟨after, remainder, cut, read⟩, leftmost⟩
            obtain rfl := List.length_eq_zero_iff.mp (Nat.le_zero.mp (leftmost [] pair.1 here))
            rw [← show first :: rest = after from cut, result] at read
            rw [Option.some.inj read]

theorem value_first?_eq_some_iff
    (advances : Advances recogniser)
    (text : Text) :
    (first? recogniser text).map Occurrence.value = some value ↔
      ∃ before, SucceedsAfter recogniser before text value ∧
        ∀ earlier other, SucceedsAfter recogniser earlier text other →
          before.length ≤ earlier.length :=
  value_firstFrom_eq_some_iff advances 0 text

end Search

section JoinedLines

variable {recogniser : Recogniser α}

theorem occursIn_eq_captures
    (recogniser : Recogniser α)
    (text : Text) :
    occursIn recogniser text = !(captures recogniser text).isEmpty := by
  rw [occursIn, first?, firstFrom_eq_head?, captures, occurrences]
  cases occurrencesFrom recogniser 0 0 text <;> rfl

/-- The search of a text with a new line is the search of its parts. -/
theorem occursIn_newLine
    (advances : Advances recogniser)
    (respects : ∀ following, Respects (· ++ Byte.newline :: following) recogniser)
    (text following : Text) :
    occursIn recogniser (text ++ Byte.newline :: following) =
      (occursIn recogniser text || occursIn recogniser following) := by
  simp only [occursIn_eq_captures, captures_newLine_of_respects advances (respects following)]
  cases captures recogniser text <;> rfl

/-- The search of joined lines is the search of each line. -/
theorem occursIn_joinLines
    (advances : Advances recogniser)
    (respects : ∀ following, Respects (· ++ Byte.newline :: following) recogniser)
    (lines : List Text) :
    occursIn recogniser (Text.joinLines lines) = lines.any (occursIn recogniser) := by
  rw [Text.joinLines]
  induction lines with
  | nil => rfl
  | cons first rest inductionHypothesis =>
      cases rest with
      | nil => simp
      | cons second rest =>
          rw [Text.join, List.append_assoc, List.singleton_append,
            occursIn_newLine advances respects, inductionHypothesis]
          rfl

end JoinedLines

end Recogniser
end QueryAdvisor

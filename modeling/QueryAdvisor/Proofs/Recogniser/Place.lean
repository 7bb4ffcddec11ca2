import QueryAdvisor.Proofs.Recogniser.Keyword

/-!
# All places where a recogniser succeeds

Occurrences are found from left to right, and the search goes on behind each of
them, so a place inside an occurrence is passed over.  A recogniser that never
succeeds inside what it has taken loses nothing by that: its occurrences stand at
all places where it succeeds.
-/

namespace QueryAdvisor
namespace Recogniser

variable {α : Type}

/-- A recogniser reads a value at a place of a text. -/
def SucceedsAt
    (recogniser : Recogniser α)
    (text : Text)
    (place : Nat)
    (value : α) : Prop :=
  ∃ rest, recogniser (text.drop place) = some (value, rest)

/-- Behind the first byte of what it takes, a recogniser does not succeed again. -/
def Isolated (recogniser : Recogniser α) : Prop :=
  ∀ ⦃first others rest value⦄, recogniser (first :: others ++ rest) = some (value, rest) →
    ∀ ending, ending <:+ others → ending ≠ [] → recogniser (ending ++ rest) = none

/-- A recogniser is isolated if it begins with a sign that what it takes holds
only once. -/
theorem isolated_of_sign
    {recogniser : Recogniser α}
    {sign : UInt8}
    {letters : Text}
    (begins : BeginsWith (sign :: letters) recogniser)
    (once : ∀ ⦃first others rest value⦄,
      recogniser (first :: others ++ rest) = some (value, rest) → sign ∉ others) :
    Isolated recogniser := by
  intro first others rest value read ending isEnding nonempty
  apply begins.eq_none
  intro found
  obtain ⟨byte, bytes, rfl⟩ := List.exists_cons_of_ne_nil nonempty
  obtain ⟨rfl, _⟩ := List.cons_prefix_cons.mp found
  exact once read (isEnding.subset List.mem_cons_self)

section Places

variable {recogniser : Recogniser α}

theorem not_succeedsAt_nil
    (advances : Advances recogniser)
    (place : Nat)
    (value : α) :
    ¬ SucceedsAt recogniser [] place value := by
  rintro ⟨rest, read⟩
  rw [List.drop_nil, advances.refuses_nil] at read
  contradiction

/-- At the beginning of a text, only one value can be read. -/
theorem succeedsAt_zero_iff
    {text rest : Text}
    {value other : α}
    (read : recogniser text = some (value, rest)) :
    SucceedsAt recogniser text 0 other ↔ other = value := by
  rw [SucceedsAt, List.drop_zero, read]
  simp [eq_comm]

/-- A place behind some first part of a text is a place of the remaining text. -/
theorem succeedsAt_append
    (before after : Text)
    (place : Nat)
    (value : α) :
    SucceedsAt recogniser (before ++ after) (before.length + place) value ↔
      SucceedsAt recogniser after place value := by
  rw [SucceedsAt, SucceedsAt, ← List.drop_drop, List.drop_left]

/-- No place inside what an isolated recogniser takes is another one. -/
theorem Isolated.not_succeedsAt
    (isolated : Isolated recogniser)
    {taken rest : Text}
    {value : α}
    (read : recogniser (taken ++ rest) = some (value, rest))
    {place : Nat}
    (behind : 0 < place)
    (inside : place < taken.length)
    (other : α) :
    ¬ SucceedsAt recogniser (taken ++ rest) place other := by
  obtain ⟨first, others, rfl⟩ := List.exists_cons_of_length_pos (Nat.zero_lt_of_lt inside)
  obtain ⟨steps, rfl⟩ := Nat.exists_eq_succ_of_ne_zero (Nat.ne_of_gt behind)
  have shorter : steps < others.length := Nat.lt_of_succ_lt_succ inside
  have refused : recogniser (others.drop steps ++ rest) = none := by
    apply isolated read _ (List.drop_suffix steps others)
    rw [ne_eq, List.drop_eq_nil_iff]
    omega
  rintro ⟨remainder, readAgain⟩
  rw [List.cons_append, List.drop_succ_cons,
    List.drop_append_of_le_length (Nat.le_of_lt shorter), refused] at readAgain
  contradiction

/-- The occurrences of an isolated recogniser stand at all places where it
succeeds, and hold what is read there. -/
theorem Isolated.exists_mem_occurrencesFrom_iff
    (isolated : Isolated recogniser)
    (advances : Advances recogniser)
    (offset place : Nat)
    (text : Text)
    (value : α) :
    (∃ occurrence ∈ occurrencesFrom recogniser offset 0 text,
        occurrence.start = offset + place ∧ occurrence.value = value) ↔
      SucceedsAt recogniser text place value := by
  induction text using advances.induction generalizing offset place with
  | nil => simp [not_succeedsAt_nil advances]
  | refused first rest refused inductionHypothesis =>
      rw [occurrencesFrom_of_refused refused]
      cases place with
      | zero =>
          constructor
          · rintro ⟨occurrence, present, start, _⟩
            have later := (bounds_of_mem_occurrencesFrom advances present).1
            omega
          · rintro ⟨remainder, read⟩
            rw [List.drop_zero, refused] at read
            contradiction
      | succ place =>
          rw [← Nat.add_assoc, Nat.add_right_comm]
          exact inductionHypothesis (offset + 1) place
  | read taken rest found nonempty read inductionHypothesis =>
      have positive : 0 < taken.length := List.length_pos_iff.mpr nonempty
      rw [occurrencesFrom_of_read nonempty read]
      simp only [List.mem_cons, exists_eq_or_imp]
      -- Either the place is the beginning, or it stands inside what was taken, or
      -- behind that.
      rcases Nat.eq_zero_or_pos place with rfl | behind
      · rw [succeedsAt_zero_iff read]
        constructor
        · rintro (⟨_, rfl⟩ | ⟨occurrence, present, start, _⟩)
          · rfl
          · have later := (bounds_of_mem_occurrencesFrom advances present).1
            omega
        · rintro rfl
          exact .inl ⟨rfl, rfl⟩
      · rcases Nat.lt_or_ge place taken.length with inside | after
        · refine iff_of_false ?_ (isolated.not_succeedsAt read behind inside value)
          rintro (⟨start, _⟩ | ⟨occurrence, present, start, _⟩)
          · omega
          · have later := (bounds_of_mem_occurrencesFrom advances present).1
            omega
        · obtain ⟨steps, rfl⟩ := Nat.exists_eq_add_of_le after
          rw [succeedsAt_append, ← inductionHypothesis (offset + taken.length) steps,
            Nat.add_assoc]
          constructor
          · rintro (⟨start, _⟩ | later)
            · omega
            · exact later
          · exact .inr

theorem Isolated.exists_mem_occurrences_iff
    (isolated : Isolated recogniser)
    (advances : Advances recogniser)
    (text : Text)
    (place : Nat)
    (value : α) :
    (∃ occurrence ∈ occurrences recogniser text,
        occurrence.start = place ∧ occurrence.value = value) ↔
      SucceedsAt recogniser text place value := by
  have fromStart := isolated.exists_mem_occurrencesFrom_iff advances 0 place text value
  rwa [Nat.zero_add] at fromStart

end Places

/-- Occurrences stand at different places, in increasing order. -/
theorem pairwise_start_occurrences
    {recogniser : Recogniser α}
    (advances : Advances recogniser)
    (text : Text) :
    (occurrences recogniser text).Pairwise
      fun earlier later => earlier.start < later.start := by
  refine (pairwise_occurrencesFrom advances 0 text).imp_of_mem ?_
  intro earlier later present _ apart
  have nonempty := (bounds_of_mem_occurrencesFrom advances present).2.1
  omega

end Recogniser
end QueryAdvisor

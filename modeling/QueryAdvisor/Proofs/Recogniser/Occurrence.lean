import QueryAdvisor.Text.Recogniser

/-!
# Occurrences of a recogniser

A recogniser that takes at least one byte whenever it succeeds cuts a text into
occurrences and bytes at which it refuses.  This module states that cut as an
induction principle and derives from it where occurrences stand, what was read
there, and how the occurrences of two joined texts are those of its parts.
-/

namespace QueryAdvisor
namespace Recogniser

variable {α β : Type}

@[simp] theorem bind_apply
    (recogniser : Recogniser α)
    (next : α → Recogniser β)
    (text : Text) :
    (recogniser >>= next) text =
      (recogniser text).bind fun result => next result.1 result.2 := rfl

@[simp] theorem pure_apply
    (value : α)
    (text : Text) :
    (pure value : Recogniser α) text = some (value, text) := rfl

@[simp] theorem guard_apply
    (condition : Prop)
    [Decidable condition]
    (text : Text) :
    (guard condition : Recogniser Unit) text =
      if condition then some ((), text) else none := by
  unfold guard
  split <;> rfl

/-- A condition takes nothing. -/
theorem guard_eq_some
    {condition : Prop}
    [Decidable condition]
    {text rest : Text}
    {value : Unit} :
    (guard condition : Recogniser Unit) text = some (value, rest) ↔
      condition ∧ text = rest := by
  rw [guard_apply]
  split
  · rename_i holds
    simp [holds]
  · rename_i fails
    simp [fails]

/-- A sequence succeeds when both of its parts do, one after the other. -/
theorem bind_eq_some
    {recogniser : Recogniser α}
    {next : α → Recogniser β}
    {text rest : Text}
    {value : β} :
    (recogniser >>= next) text = some (value, rest) ↔
      ∃ early between,
        recogniser text = some (early, between) ∧
          next early between = some (value, rest) := by
  simp [Option.bind_eq_some_iff]

/-- To return something else than what was read changes nothing of the rest. -/
theorem bind_pure_eq_some
    {recogniser : Recogniser α}
    {result : α → β}
    {text rest : Text}
    {value : β} :
    (recogniser >>= fun found => pure (result found)) text = some (value, rest) ↔
      ∃ found, recogniser text = some (found, rest) ∧ result found = value := by
  rw [bind_eq_some]
  constructor
  · rintro ⟨found, _, read, returned⟩
    obtain ⟨rfl, rfl⟩ := Prod.mk.inj (Option.some.inj returned)
    exact ⟨found, read, rfl⟩
  · rintro ⟨found, read, rfl⟩
    exact ⟨found, rest, read, rfl⟩

/-- Whatever a recogniser reads, it takes at least one byte for it and leaves
the others as they are. -/
def Advances (recogniser : Recogniser α) : Prop :=
  ∀ ⦃text value rest⦄, recogniser text = some (value, rest) →
    ∃ taken, taken ≠ [] ∧ text = taken ++ rest

/-- Bytes to be skipped are dropped from the text. -/
theorem occurrencesFrom_skip
    (recogniser : Recogniser α)
    (offset skip : Nat)
    (text : Text) :
    occurrencesFrom recogniser offset skip text =
      occurrencesFrom recogniser (offset + skip) 0 (text.drop skip) := by
  induction skip generalizing offset text with
  | zero => rfl
  | succ skip inductionHypothesis =>
      cases text with
      | nil => simp [occurrencesFrom]
      | cons first rest =>
          rw [occurrencesFrom, inductionHypothesis, List.drop_succ_cons,
            Nat.add_right_comm, Nat.add_assoc]

@[simp] theorem occurrencesFrom_nil
    (recogniser : Recogniser α)
    (offset : Nat) :
    occurrencesFrom recogniser offset 0 [] = [] := rfl

/-- A byte at which the recogniser refuses is passed over. -/
theorem occurrencesFrom_of_refused
    {recogniser : Recogniser α}
    {first : UInt8}
    {rest : Text}
    (refused : recogniser (first :: rest) = none)
    (offset : Nat) :
    occurrencesFrom recogniser offset 0 (first :: rest) =
      occurrencesFrom recogniser (offset + 1) 0 rest := by
  rw [occurrencesFrom, refused]

/-- A stretch at whose bytes the recogniser refuses is passed over. -/
theorem occurrencesFrom_append_of_refused
    {recogniser : Recogniser α}
    {stretch rest : Text}
    (refused : ∀ ending, ending <:+ stretch → ending ≠ [] →
      recogniser (ending ++ rest) = none)
    (offset : Nat) :
    occurrencesFrom recogniser offset 0 (stretch ++ rest) =
      occurrencesFrom recogniser (offset + stretch.length) 0 rest := by
  induction stretch generalizing offset with
  | nil => rfl
  | cons first others inductionHypothesis =>
      have atFirst : recogniser (first :: (others ++ rest)) = none :=
        refused (first :: others) List.suffix_rfl (List.cons_ne_nil _ _)
      rw [List.cons_append, occurrencesFrom_of_refused atFirst, inductionHypothesis,
        List.length_cons, Nat.add_right_comm, Nat.add_assoc]
      intro ending isEnding nonempty
      exact refused ending (isEnding.trans (List.suffix_cons first others)) nonempty

/-- What the recogniser takes is one occurrence; the search goes on behind it. -/
theorem occurrencesFrom_of_read
    {recogniser : Recogniser α}
    {taken rest : Text}
    {value : α}
    (nonempty : taken ≠ [])
    (read : recogniser (taken ++ rest) = some (value, rest))
    (offset : Nat) :
    occurrencesFrom recogniser offset 0 (taken ++ rest) =
      { start := offset, stop := offset + taken.length, value } ::
        occurrencesFrom recogniser (offset + taken.length) 0 rest := by
  obtain ⟨first, others, rfl⟩ := List.exists_cons_of_ne_nil nonempty
  rw [List.cons_append] at read ⊢
  rw [occurrencesFrom, read]
  simp only [List.length_append, List.length_cons, Nat.add_sub_cancel]
  rw [occurrencesFrom_skip, List.drop_left, Nat.add_right_comm _ 1, Nat.add_assoc]
  congr 2
  omega

namespace Advances

/-- A recogniser that always takes something refuses the empty text. -/
theorem refuses_nil
    {recogniser : Recogniser α}
    (advances : Advances recogniser) :
    recogniser [] = none := by
  cases result : recogniser [] with
  | none => rfl
  | some pair =>
      obtain ⟨taken, nonempty, cut⟩ := advances result
      simp [nonempty] at cut

/-- Induction along the search for occurrences: a text is empty, or begins with
a byte at which the recogniser refuses, or with what the recogniser takes. -/
theorem induction
    {recogniser : Recogniser α}
    {motive : Text → Prop}
    (advances : Advances recogniser)
    (nil : motive [])
    (refused : ∀ first rest, recogniser (first :: rest) = none →
      motive rest → motive (first :: rest))
    (read : ∀ taken rest value, taken ≠ [] →
      recogniser (taken ++ rest) = some (value, rest) →
      motive rest → motive (taken ++ rest))
    (text : Text) : motive text := by
  induction length : text.length using Nat.strongRecOn generalizing text with
  | _ bound inductionHypothesis =>
      cases text with
      | nil => exact nil
      | cons first rest =>
          cases result : recogniser (first :: rest) with
          | none =>
              apply refused first rest result
              exact inductionHypothesis rest.length (by simp [← length]) rest rfl
          | some pair =>
              obtain ⟨value, remainder⟩ := pair
              obtain ⟨taken, nonempty, cut⟩ := advances result
              have positive : 0 < taken.length := List.length_pos_iff.mpr nonempty
              rw [cut] at result length ⊢
              apply read taken remainder value nonempty result
              refine inductionHypothesis remainder.length ?_ remainder rfl
              rw [← length, List.length_append]
              omega

end Advances

/-- Every occurrence cuts the text into what stands before it, what the
recogniser took, and the rest it left. -/
theorem exists_cut_of_mem_occurrencesFrom
    {recogniser : Recogniser α}
    (advances : Advances recogniser)
    {offset : Nat}
    {text : Text}
    {occurrence : Occurrence α}
    (present : occurrence ∈ occurrencesFrom recogniser offset 0 text) :
    ∃ before taken after,
      text = before ++ (taken ++ after) ∧
        taken ≠ [] ∧
        recogniser (taken ++ after) = some (occurrence.value, after) ∧
        occurrence.start = offset + before.length ∧
        occurrence.stop = occurrence.start + taken.length := by
  induction text using advances.induction generalizing offset with
  | nil => simp at present
  | refused first rest refused inductionHypothesis =>
      rw [occurrencesFrom_of_refused refused] at present
      obtain ⟨before, taken, after, cut, nonempty, read, start, stop⟩ :=
        inductionHypothesis present
      refine ⟨first :: before, taken, after, by simp [cut], nonempty, read, ?_, stop⟩
      rw [start, List.length_cons]
      omega
  | read taken rest value nonempty read inductionHypothesis =>
      rw [occurrencesFrom_of_read nonempty read, List.mem_cons] at present
      rcases present with rfl | present
      · exact ⟨[], taken, rest, rfl, nonempty, read, rfl, rfl⟩
      · obtain ⟨before, later, after, cut, laterNonempty, laterRead, start, stop⟩ :=
          inductionHypothesis present
        refine ⟨taken ++ before, later, after, by simp [cut], laterNonempty,
          laterRead, ?_, stop⟩
        rw [start, List.length_append]
        omega

/-- Occurrences are not empty and stand inside the text. -/
theorem bounds_of_mem_occurrencesFrom
    {recogniser : Recogniser α}
    (advances : Advances recogniser)
    {offset : Nat}
    {text : Text}
    {occurrence : Occurrence α}
    (present : occurrence ∈ occurrencesFrom recogniser offset 0 text) :
    offset ≤ occurrence.start ∧ occurrence.start < occurrence.stop ∧
      occurrence.stop ≤ offset + text.length := by
  obtain ⟨before, taken, after, cut, nonempty, _, start, stop⟩ :=
    exists_cut_of_mem_occurrencesFrom advances present
  have positive : 0 < taken.length := List.length_pos_iff.mpr nonempty
  have fits := congrArg List.length cut
  simp only [List.length_append] at fits
  omega

/-- Occurrences come in the order of the text and do not overlap. -/
theorem pairwise_occurrencesFrom
    {recogniser : Recogniser α}
    (advances : Advances recogniser)
    (offset : Nat)
    (text : Text) :
    (occurrencesFrom recogniser offset 0 text).Pairwise
      fun earlier later => earlier.stop ≤ later.start := by
  induction text using advances.induction generalizing offset with
  | nil => exact .nil
  | refused first rest refused inductionHypothesis =>
      rw [occurrencesFrom_of_refused refused]
      exact inductionHypothesis (offset + 1)
  | read taken rest value nonempty read inductionHypothesis =>
      rw [occurrencesFrom_of_read nonempty read]
      refine .cons ?_ (inductionHypothesis _)
      intro later present
      exact (bounds_of_mem_occurrencesFrom advances present).1

/-- The leftmost occurrence is the first of all occurrences. -/
theorem firstFrom_eq_head?
    (recogniser : Recogniser α)
    (offset : Nat)
    (text : Text) :
    firstFrom recogniser offset text =
      (occurrencesFrom recogniser offset 0 text).head? := by
  induction text generalizing offset with
  | nil => rfl
  | cons first rest inductionHypothesis =>
      cases result : recogniser (first :: rest) with
      | none =>
          rw [occurrencesFrom_of_refused result, firstFrom, result]
          exact inductionHypothesis (offset + 1)
      | some pair =>
          rw [firstFrom, occurrencesFrom, result]
          rfl

/-- The leftmost occurrence is not empty and ends inside the text. -/
theorem bounds_of_first?_eq_some
    {recogniser : Recogniser α}
    (advances : Advances recogniser)
    {text : Text}
    {occurrence : Occurrence α}
    (found : first? recogniser text = some occurrence) :
    occurrence.start < occurrence.stop ∧ occurrence.stop ≤ text.length := by
  rw [first?, firstFrom_eq_head?] at found
  obtain ⟨_, nonempty, inside⟩ := bounds_of_mem_occurrencesFrom advances (List.mem_of_head? found)
  exact ⟨nonempty, by omega⟩

/-- What is read does not depend on where the text begins. -/
theorem map_value_occurrencesFrom
    {recogniser : Recogniser α}
    (advances : Advances recogniser)
    (offset : Nat)
    (text : Text) :
    (occurrencesFrom recogniser offset 0 text).map Occurrence.value =
      captures recogniser text := by
  unfold captures occurrences
  induction text using advances.induction generalizing offset with
  | nil => rfl
  | refused first rest refused inductionHypothesis =>
      rw [occurrencesFrom_of_refused refused, occurrencesFrom_of_refused refused,
        inductionHypothesis (offset + 1), inductionHypothesis (0 + 1)]
  | read taken rest value nonempty read inductionHypothesis =>
      rw [occurrencesFrom_of_read nonempty read, occurrencesFrom_of_read nonempty read,
        List.map_cons, List.map_cons, inductionHypothesis (offset + taken.length),
        inductionHypothesis (0 + taken.length)]

@[simp] theorem captures_nil (recogniser : Recogniser α) :
    captures recogniser [] = [] := rfl

theorem captures_of_refused
    {recogniser : Recogniser α}
    (advances : Advances recogniser)
    {first : UInt8}
    {rest : Text}
    (refused : recogniser (first :: rest) = none) :
    captures recogniser (first :: rest) = captures recogniser rest := by
  rw [← map_value_occurrencesFrom advances 0, occurrencesFrom_of_refused refused,
    map_value_occurrencesFrom advances]

theorem captures_of_read
    {recogniser : Recogniser α}
    (advances : Advances recogniser)
    {text rest : Text}
    {value : α}
    (read : recogniser text = some (value, rest)) :
    captures recogniser text = value :: captures recogniser rest := by
  obtain ⟨taken, nonempty, rfl⟩ := advances read
  rw [← map_value_occurrencesFrom advances 0, occurrencesFrom_of_read nonempty read,
    List.map_cons, map_value_occurrencesFrom advances]

/-- A stretch at whose bytes the recogniser refuses adds nothing. -/
theorem captures_append_of_refused
    {recogniser : Recogniser α}
    (advances : Advances recogniser)
    {stretch rest : Text}
    (refused : ∀ ending, ending <:+ stretch → ending ≠ [] →
      recogniser (ending ++ rest) = none) :
    captures recogniser (stretch ++ rest) = captures recogniser rest := by
  rw [← map_value_occurrencesFrom advances 0, occurrencesFrom_append_of_refused refused,
    map_value_occurrencesFrom advances]

/-- Without anything read there is no occurrence. -/
theorem occurrencesFrom_eq_nil
    {recogniser : Recogniser α}
    (advances : Advances recogniser)
    {text : Text}
    (nothing : captures recogniser text = [])
    (offset : Nat) :
    occurrencesFrom recogniser offset 0 text = [] := by
  rw [← map_value_occurrencesFrom advances offset] at nothing
  exact List.map_eq_nil_iff.mp nothing

end Recogniser
end QueryAdvisor

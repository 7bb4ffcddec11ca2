import QueryAdvisor.Text.Basic

/-!
# Erasing tokens

All occurrences of a token are erased, from left to right and without overlap.
What closes up around an erased token is not looked at again, so the token may
stand there afterwards.
-/

namespace QueryAdvisor
namespace Text

/-- Erase a token from a text of which the first `skip` bytes belong to an
occurrence already. -/
def eraseFrom
    (token : Text)
    (skip : Nat) : Text → Text
  | [] => []
  | first :: rest =>
    match skip with
    | skip + 1 => eraseFrom token skip rest
    | 0 =>
      if token.isPrefixOf (first :: rest) then eraseFrom token (token.length - 1) rest
      else first :: eraseFrom token 0 rest

/-- Erase every occurrence of a token that is not empty. -/
def eraseAll
    (token text : Text) : Text :=
  eraseFrom token 0 text

@[simp] theorem eraseAll_nil (token : Text) :
    eraseAll token [] = [] := rfl

/-- The bytes of an occurrence are passed over. -/
theorem eraseFrom_skip
    (token : Text)
    (skip : Nat)
    (text : Text) :
    eraseFrom token skip text = eraseAll token (text.drop skip) := by
  induction text generalizing skip with
  | nil => simp [eraseFrom]
  | cons first rest inductionHypothesis =>
    cases skip with
    | zero => rfl
    | succ skip => exact inductionHypothesis skip

/-- A token at the beginning is erased. -/
theorem eraseAll_token_append
    {token : Text}
    (nonempty : token ≠ [])
    (rest : Text) :
    eraseAll token (token ++ rest) = eraseAll token rest := by
  obtain ⟨first, others, rfl⟩ := List.exists_cons_of_ne_nil nonempty
  have begins : (first :: others).isPrefixOf (first :: (others ++ rest)) = true :=
    List.isPrefixOf_iff_prefix.mpr (List.prefix_append (first :: others) rest)
  rw [List.cons_append, eraseAll, eraseFrom, if_pos begins, eraseFrom_skip]
  simp

/-- A byte at which no token begins is kept. -/
theorem eraseAll_cons
    {token : Text}
    {first : UInt8}
    {rest : Text}
    (differs : ¬ token <+: first :: rest) :
    eraseAll token (first :: rest) = first :: eraseAll token rest := by
  rw [eraseAll, eraseFrom, if_neg (mt List.isPrefixOf_iff_prefix.mp differs)]
  rfl

/-- What holds of the empty text, and goes over to a text with a token or with a
byte before it at which no token begins, holds of every text. -/
theorem tokenInduction
    {token : Text}
    (nonempty : token ≠ [])
    {motive : Text → Prop}
    (nil : motive [])
    (erased : ∀ rest, motive rest → motive (token ++ rest))
    (kept : ∀ first rest, ¬ token <+: first :: rest → motive rest → motive (first :: rest))
    (text : Text) :
    motive text := by
  induction size : text.length using Nat.strongRecOn generalizing text with
  | ind length inductionHypothesis =>
    by_cases begins : token <+: text
    · obtain ⟨rest, rfl⟩ := begins
      have shorter : rest.length < (token ++ rest).length := by
        have positive := List.length_pos_iff.mpr nonempty
        rw [List.length_append]
        omega
      exact erased rest (inductionHypothesis rest.length (size ▸ shorter) rest rfl)
    · cases text with
      | nil => exact nil
      | cons first rest =>
        have shorter : rest.length < (first :: rest).length := Nat.lt_succ_self _
        exact kept first rest begins (inductionHypothesis rest.length (size ▸ shorter) rest rfl)

/-- What is left keeps its order. -/
theorem eraseAll_sublist
    (token text : Text) :
    (eraseAll token text).Sublist text := by
  suffices left : ∀ skip, (eraseFrom token skip text).Sublist text from left 0
  induction text with
  | nil => exact fun _ => .slnil
  | cons first rest inductionHypothesis =>
    intro skip
    cases skip with
    | succ skip => exact (inductionHypothesis skip).cons first
    | zero =>
      rw [eraseFrom]
      split
      · exact (inductionHypothesis _).cons first
      · exact (inductionHypothesis 0).cons_cons first

/-- Exactly the texts without the token stay as they are. -/
theorem eraseAll_eq_self_iff
    {token : Text}
    (nonempty : token ≠ [])
    (text : Text) :
    eraseAll token text = text ↔ ¬ token <:+: text := by
  induction text using tokenInduction nonempty with
  | nil => simpa using nonempty
  | erased rest _ =>
    have shorter : (eraseAll token rest).length < (token ++ rest).length := by
      have positive := List.length_pos_iff.mpr nonempty
      have notLonger := (eraseAll_sublist token rest).length_le
      rw [List.length_append]
      omega
    have changed : eraseAll token (token ++ rest) ≠ token ++ rest := by
      rw [eraseAll_token_append nonempty]
      exact fun equal => Nat.ne_of_lt shorter (congrArg List.length equal)
    exact iff_of_false changed (not_not_intro (List.prefix_append token rest).isInfix)
  | kept first rest differs inductionHypothesis =>
    rw [eraseAll_cons differs, List.cons.injEq, inductionHypothesis, List.infix_cons_iff]
    simp [differs]

end Text
end QueryAdvisor

import QueryAdvisor.Connection.Settings

/-!
# Erasing in place

A token can be erased from a text in place: the first occurrence at or behind a
position is cut out, and the search goes on at the same position of the shorter
text.  Only what lies behind the position is looked at again, and that is what
lay behind the occurrence.  So the rounds come to an end exactly if the token is
not empty, and they leave what one pass over the original text leaves.
-/

namespace QueryAdvisor
namespace Text

/-- The first place of a token in a text that begins at `offset`.  The empty token
stands everywhere, also at the end. -/
def placeFrom (token : Text) : (offset : Nat) → Text → Option Nat
  | offset, [] => if token = [] then some offset else none
  | offset, first :: rest =>
    if token.isPrefixOf (first :: rest) then some offset
    else placeFrom token (offset + 1) rest

/-- The first place of a token at or behind a position. -/
def place?
    (token text : Text)
    (position : Nat) : Option Nat :=
  placeFrom token position (text.drop position)

/-- A text from which a token is being erased, and the position at which the
search goes on. -/
structure Erasing where
  text : Text
  position : Nat
deriving DecidableEq, Repr

namespace Erasing

/-- Before the first round. -/
def start (text : Text) : Erasing where
  text := text
  position := 0

/-- One round: the next occurrence is cut out, and the search goes on where it
stood. -/
def next?
    (token : Text)
    (state : Erasing) : Option Erasing :=
  (place? token state.text state.position).map fun place =>
    { text := state.text.take place ++ state.text.drop (place + token.length)
      position := place }

/-- Rounds follow each other until there is no occurrence any more, and a text is
left. -/
inductive Leaves (token : Text) : Erasing → Text → Prop
  | done
      {state : Erasing}
      (noneLeft : state.next? token = none) :
      Leaves token state state.text
  | round
      {state shorter : Erasing}
      {result : Text}
      (cut : state.next? token = some shorter)
      (leaves : Leaves token shorter result) :
      Leaves token state result

/-- At most one text is left. -/
theorem Leaves.unique
    {token : Text}
    {state : Erasing}
    {result other : Text}
    (leaves : Leaves token state result)
    (leavesOther : Leaves token state other) :
    result = other := by
  induction leaves with
  | done noneLeft =>
      cases leavesOther with
      | done _ => rfl
      | round cut _ =>
          rw [noneLeft] at cut
          contradiction
  | round cut _ inductionHypothesis =>
      cases leavesOther with
      | done noneLeft =>
          rw [noneLeft] at cut
          contradiction
      | round cutOther leavesRest =>
          obtain rfl := Option.some.inj (cut.symm.trans cutOther)
          exact inductionHypothesis leavesRest

/-! ### One round -/

/-- Where no place is found, one pass erases nothing. -/
theorem eraseAll_of_placeFrom_eq_none
    {token text : Text}
    {offset : Nat}
    (noneLeft : placeFrom token offset text = none) :
    eraseAll token text = text := by
  induction text generalizing offset with
  | nil => rfl
  | cons first rest inductionHypothesis =>
      rw [placeFrom] at noneLeft
      split at noneLeft
      · contradiction
      · rename_i differs
        rw [eraseAll_cons (mt List.isPrefixOf_iff_prefix.mpr differs),
          inductionHypothesis noneLeft]

/-- One pass keeps what stands before the place that is found. -/
theorem eraseAll_of_placeFrom_eq_some
    {token text : Text}
    (nonempty : token ≠ [])
    {offset place : Nat}
    (found : placeFrom token offset text = some place) :
    ∃ kept rest, text = kept ++ (token ++ rest) ∧ place = offset + kept.length ∧
      eraseAll token text = kept ++ eraseAll token rest := by
  induction text generalizing offset with
  | nil => simp [placeFrom, nonempty] at found
  | cons first others inductionHypothesis =>
      rw [placeFrom] at found
      split at found
      · rename_i begins
        obtain ⟨rest, cut⟩ := List.isPrefixOf_iff_prefix.mp begins
        refine ⟨[], rest, cut.symm, (Option.some.inj found).symm, ?_⟩
        rw [← cut, eraseAll_token_append nonempty, List.nil_append]
      · rename_i differs
        obtain ⟨kept, rest, rfl, rfl, erased⟩ := inductionHypothesis found
        refine ⟨first :: kept, rest, rfl, ?_, ?_⟩
        · rw [List.length_cons]
          omega
        · rw [eraseAll_cons (mt List.isPrefixOf_iff_prefix.mpr differs), erased,
            List.cons_append]

/-- A round leaves alone what stands before the position, and moves the position
behind the bytes that one pass keeps. -/
theorem next?_append
    {token : Text}
    (nonempty : token ≠ [])
    (front text : Text) :
    (next? token ⟨front ++ text, front.length⟩ = none ∧ eraseAll token text = text) ∨
      ∃ kept rest, text = kept ++ (token ++ rest) ∧
        next? token ⟨front ++ text, front.length⟩ =
          some ⟨(front ++ kept) ++ rest, (front ++ kept).length⟩ ∧
        eraseAll token text = kept ++ eraseAll token rest := by
  have searched : place? token (front ++ text) front.length =
      placeFrom token front.length text := by
    rw [place?, List.drop_left]
  cases found : placeFrom token front.length text with
  | none =>
      refine .inl ⟨?_, eraseAll_of_placeFrom_eq_none found⟩
      rw [next?, searched, found, Option.map_none]
  | some place =>
      obtain ⟨kept, rest, rfl, rfl, erased⟩ := eraseAll_of_placeFrom_eq_some nonempty found
      refine .inr ⟨kept, rest, rfl, ?_, erased⟩
      have before : (front ++ (kept ++ (token ++ rest))).take (front.length + kept.length) =
          front ++ kept := by
        rw [← List.append_assoc, ← List.length_append, List.take_left]
      have behind : (front ++ (kept ++ (token ++ rest))).drop
          (front.length + kept.length + token.length) = rest := by
        rw [← List.append_assoc, ← List.append_assoc, ← List.length_append, ← List.length_append,
          List.drop_left]
      rw [next?, searched, found, Option.map_some, before, behind, List.length_append]

/-- The empty token is found in every round. -/
theorem exists_next?_nil (state : Erasing) : ∃ next, next? [] state = some next := by
  have found (offset : Nat) (text : Text) : placeFrom [] offset text = some offset := by
    cases text <;> rfl
  exact ⟨_, by rw [next?, place?, found, Option.map_some]⟩

/-! ### All rounds -/

/-- From a position on, the rounds leave what one pass leaves of the remaining
text. -/
theorem leaves_append
    {token : Text}
    (nonempty : token ≠ [])
    (front text : Text) :
    Leaves token ⟨front ++ text, front.length⟩ (front ++ eraseAll token text) := by
  -- Every round shortens what lies behind the position.
  induction size : text.length using Nat.strongRecOn generalizing front text with
  | ind length inductionHypothesis =>
      rcases next?_append nonempty front text with ⟨noneLeft, erased⟩ | ⟨kept, rest, rfl, cut, erased⟩
      · rw [erased]
        exact .done noneLeft
      · have shorter : rest.length < length := by
          have positive := List.length_pos_iff.mpr nonempty
          simp only [List.length_append] at size
          omega
        refine .round cut ?_
        rw [erased, ← List.append_assoc]
        exact inductionHypothesis rest.length shorter (front ++ kept) rest rfl

theorem not_leaves_nil
    (state : Erasing)
    (result : Text) :
    ¬ Leaves [] state result := by
  intro leaves
  induction leaves with
  | @done state noneLeft =>
      obtain ⟨next, cut⟩ := exists_next?_nil state
      rw [noneLeft] at cut
      contradiction
  | round _ _ inductionHypothesis => exact inductionHypothesis

/-- Erasing in place comes to an end exactly if the token is not empty, and leaves
what one pass over the text leaves. -/
theorem leaves_start_iff
    (token text result : Text) :
    Leaves token (start text) result ↔ token ≠ [] ∧ result = eraseAll token text := by
  constructor
  · intro leaves
    have nonempty : token ≠ [] := by
      rintro rfl
      exact not_leaves_nil _ _ leaves
    exact ⟨nonempty, leaves.unique (leaves_append nonempty [] text)⟩
  · rintro ⟨nonempty, rfl⟩
    exact leaves_append nonempty [] text

end Erasing
end Text

namespace DatabaseConfig

open Text

/-- Erasing in place ends for every token that is not empty, and equals one pass over
the original text.  The tags of a document are erased so, first the opening and then
the closing ones, and a document without tags stays as it is. -/
theorem erased_in_place_eq_one_pass :
    (∀ token text result,
      Erasing.Leaves token (Erasing.start text) result ↔
        token ≠ [] ∧ result = eraseAll token text) ∧
    (∀ document result,
      (∃ between, Erasing.Leaves (ascii "<%=") (Erasing.start document) between ∧
        Erasing.Leaves (ascii "%>") (Erasing.start between) result) ↔
        result = stripTags document) ∧
    ∀ document, ¬ ascii "<%=" <:+: document → ¬ ascii "%>" <:+: document →
      stripTags document = document := by
  refine ⟨Erasing.leaves_start_iff, ?_, ?_⟩
  · intro document result
    have opening : ascii "<%=" ≠ [] := by decide
    have closing : ascii "%>" ≠ [] := by decide
    simp only [Erasing.leaves_start_iff, opening, closing, ne_eq, not_false_eq_true, true_and,
      exists_eq_left]
    rfl
  · intro document noOpening noClosing
    exact (stripTags_eq_self_iff document).mpr ⟨noOpening, noClosing⟩

/-- Parts of tags are no tags. -/
theorem brokenTags_unchanged :
    ¬ ascii "<%=" <:+: ascii "<% 5 %=>" ∧ ¬ ascii "%>" <:+: ascii "<% 5 %=>" ∧
      stripTags (ascii "<% 5 %=>") = ascii "<% 5 %=>" :=
  have noOpening : ¬ ascii "<%=" <:+: ascii "<% 5 %=>" := by decide +kernel
  have noClosing : ¬ ascii "%>" <:+: ascii "<% 5 %=>" := by decide +kernel
  ⟨noOpening, noClosing, erased_in_place_eq_one_pass.2.2 _ noOpening noClosing⟩

end DatabaseConfig
end QueryAdvisor

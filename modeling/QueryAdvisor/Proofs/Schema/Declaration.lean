import QueryAdvisor.Proofs.Recogniser.Keyword
import QueryAdvisor.Proofs.Schema.Grammar

/-!
# Declarations in a block body

Columns, foreign keys and inline indexes all begin with `t.`, and what they
take holds no other full stop.  So they can be looked for from one full stop to
the next, and the search for foreign keys, which may refuse a column, finds
exactly the columns with the name of a foreign key.
-/

namespace QueryAdvisor

open Recogniser

variable {α : Type}

theorem ColumnDeclaration.beginsWith_recogniser :
    BeginsWith (ascii "t.") recogniser := by
  intro text column rest read
  obtain ⟨gap, _, _, _, rfl⟩ := recogniser_eq_some read
  rw [List.append_assoc, List.append_assoc]
  exact List.prefix_append _ _

theorem InlineIndex.beginsWith_recogniser :
    BeginsWith (ascii "t.") recogniser := by
  intro text name rest read
  obtain ⟨before, _, rfl⟩ := recogniser_eq_some read
  exact ⟨ascii "index" ++ before ++ (quoted name ++ rest), rfl⟩

/-- A stretch without a full stop, and not before one, adds nothing. -/
theorem captures_append_of_dot_not_mem
    {recogniser : Recogniser α}
    (begins : BeginsWith (ascii "t.") recogniser)
    (advances : Advances recogniser)
    {stretch rest : Text}
    (noDot : Byte.dot ∉ stretch)
    (notNext : rest.head? ≠ some Byte.dot) :
    captures recogniser (stretch ++ rest) = captures recogniser rest := by
  apply captures_append_of_refused advances
  intro ending isEnding nonempty
  apply begins.eq_none
  rintro ⟨after, equal⟩
  rw [show ascii "t." = [116, Byte.dot] from rfl] at equal
  cases ending with
  | nil => contradiction
  | cons first others =>
      cases others with
      | nil =>
          obtain ⟨-, rfl⟩ : _ ∧ Byte.dot :: after = rest := by simpa using equal
          exact notNext rfl
      | cons second others =>
          obtain ⟨-, rfl, -⟩ : _ ∧ Byte.dot = second ∧ _ := by simpa using equal
          exact noDot (isEnding.subset (by simp))

theorem captures_eq_nil_of_dot_not_mem
    {recogniser : Recogniser α}
    (begins : BeginsWith (ascii "t.") recogniser)
    (advances : Advances recogniser)
    {text : Text}
    (noDot : Byte.dot ∉ text) :
    captures recogniser text = [] := by
  rw [← List.append_nil text, captures_append_of_dot_not_mem begins advances noDot (by simp),
    captures_nil]

namespace ForeignKey

/-- A name ends in `_id`, and something stands before that. -/
def IsKeyName (name : Text) : Prop :=
  ∃ stem, stem ≠ [] ∧ name = stem ++ ascii "_id"

theorem isKeyName_iff (name : Text) : isKeyName name = true ↔ IsKeyName name := by
  have three : (ascii "_id").length = 3 := by decide
  rw [isKeyName, Bool.and_eq_true, List.isSuffixOf_iff_suffix, decide_eq_true_iff]
  constructor
  · rintro ⟨⟨stem, rfl⟩, long⟩
    refine ⟨stem, ?_, rfl⟩
    rintro rfl
    rw [List.nil_append] at long
    omega
  · rintro ⟨stem, nonempty, rfl⟩
    have positive : 0 < stem.length := List.length_pos_iff.mpr nonempty
    refine ⟨List.suffix_append _ _, ?_⟩
    rw [List.length_append]
    omega

instance (name : Text) : Decidable (IsKeyName name) :=
  decidable_of_iff _ (isKeyName_iff name)

/-- A name that is kept only if it is that of a foreign key. -/
def keepKeyName (name : Text) : Recogniser Text :=
  fun rest => if isKeyName name then some (name, rest) else none

theorem guard_isKeyName
    (name : Text) :
    (guard (isKeyName name = true) >>= fun _ => pure name : Recogniser Text) =
      keepKeyName name := by
  funext rest
  rw [bind_apply, guard_apply, keepKeyName]
  split <;> rfl

/-- A foreign key is a column whose name is that of a foreign key. -/
theorem recogniser_eq
    (text : Text) :
    recogniser text =
      (ColumnDeclaration.recogniser text).bind fun result =>
        keepKeyName result.1.name result.2 := by
  have kept : recogniser = (literal (ascii "t.") >>= fun _ => word >>= fun _ =>
      someSpaces >>= fun _ => quotedWord >>= keepKeyName) := by
    rw [← funext guard_isKeyName]
    rfl
  rw [kept]
  simp only [ColumnDeclaration.recogniser, bind_apply, pure_apply, Option.bind_assoc,
    Option.bind_some]

theorem beginsWith_recogniser : BeginsWith (ascii "t.") recogniser := by
  intro text name rest read
  rw [recogniser_eq] at read
  obtain ⟨⟨column, remainder⟩, columnRead, _⟩ := Option.bind_eq_some_iff.mp read
  exact ColumnDeclaration.beginsWith_recogniser columnRead

theorem advances_recogniser : Advances recogniser := by
  intro text name rest read
  rw [recogniser_eq] at read
  obtain ⟨⟨column, remainder⟩, columnRead, kept⟩ := Option.bind_eq_some_iff.mp read
  obtain ⟨-, -, rfl⟩ : _ ∧ column.name = name ∧ remainder = rest := by
    simpa [keepKeyName] using kept
  exact ColumnDeclaration.advances_recogniser columnRead

/-- Behind its first byte a column holds no other full stop before a type, so no
foreign key begins there. -/
theorem captures_inside_column
    {type gap name : Text}
    (isType : IsName type)
    (isGap : IsGap gap)
    (isName : IsName name)
    (rest : Text) :
    captures recogniser
        (Byte.dot :: (type ++ gap ++ Byte.quote :: name ++ Byte.quote :: rest)) =
      captures recogniser rest := by
  have noDot : Byte.dot ∉ type ++ gap ++ Byte.quote :: name := by
    simp only [List.mem_append, List.mem_cons, not_or]
    refine ⟨⟨isType.not_mem (by decide), ?_⟩, by decide, isName.not_mem (by decide)⟩
    intro present
    exact absurd (isGap.isSpace present) (by decide)
  have notNext : (Byte.quote :: rest).head? ≠ some Byte.dot := by
    rw [List.head?_cons]
    decide
  have refusesDot (text : Text) : recogniser (Byte.dot :: text) = none := rfl
  have refusesQuote (text : Text) : recogniser (Byte.quote :: text) = none := rfl
  rw [captures_of_refused advances_recogniser (refusesDot _),
    captures_append_of_dot_not_mem beginsWith_recogniser advances_recogniser noDot notNext,
    captures_of_refused advances_recogniser (refusesQuote _)]

/-- Foreign keys are the columns with such names, in the same order and as
often. -/
theorem ofBody_eq_filter
    (body : Text) :
    ofBody body =
      ((ColumnDeclaration.ofBody body).map ColumnDeclaration.name).filter isKeyName := by
  unfold ofBody ColumnDeclaration.ofBody
  induction body using ColumnDeclaration.advances_recogniser.induction with
  | nil => rfl
  | refused first rest refused inductionHypothesis =>
      have keyRefused : recogniser (first :: rest) = none := by
        rw [recogniser_eq, refused, Option.bind_none]
      rw [captures_of_refused advances_recogniser keyRefused,
        captures_of_refused ColumnDeclaration.advances_recogniser refused, inductionHypothesis]
  | read taken rest column nonempty read inductionHypothesis =>
      rw [captures_of_read ColumnDeclaration.advances_recogniser read, List.map_cons]
      by_cases isKey : isKeyName column.name = true
      · have keyRead : recogniser (taken ++ rest) = some (column.name, rest) := by
          rw [recogniser_eq, read, Option.bind_some, keepKeyName, if_pos isKey]
        rw [captures_of_read advances_recogniser keyRead, inductionHypothesis,
          List.filter_cons_of_pos isKey]
      · -- The search for keys goes on inside the refused column, and finds nothing there.
        rw [List.filter_cons_of_neg isKey, ← inductionHypothesis]
        have keyRefused : recogniser (taken ++ rest) = none := by
          rw [recogniser_eq, read, Option.bind_some, keepKeyName, if_neg isKey]
        obtain ⟨gap, isType, isGap, isName, cut⟩ := ColumnDeclaration.recogniser_eq_some read
        have spelled : taken ++ rest =
            116 :: (Byte.dot :: (column.type ++ gap ++ Byte.quote :: column.name ++
              Byte.quote :: rest)) := by
          rw [cut, show ascii "t." = [116, Byte.dot] from rfl]
          simp [quoted]
        rw [spelled] at keyRefused ⊢
        rw [captures_of_refused advances_recogniser keyRefused,
          captures_inside_column isType isGap isName]

/-- Foreign keys are the columns with the name of one, in order and as often. -/
theorem ofBody_eq_filter_columns (body : Text) :
    ofBody body =
      ((ColumnDeclaration.ofBody body).map ColumnDeclaration.name).filter
        fun name => IsKeyName name := by
  rw [ofBody_eq_filter]
  apply List.filter_congr
  intro name _
  rw [Bool.eq_iff_iff, isKeyName_iff, decide_eq_true_iff]

end ForeignKey
end QueryAdvisor

import QueryAdvisor.Proofs.Pattern.Basic

/-!
# Searching for patterns

A search tries a pattern at one place after the other, and after a match the next
search begins behind it.  If a recogniser agrees with a pattern at every place, its
occurrences are the matches of the pattern.
-/

namespace QueryAdvisor
namespace Pattern

/-- The leftmost place where a pattern matches, and where the match ends. -/
def search
    (pattern : Pattern) : (before rest : Text) → Option (Nat × Cursor)
  | before, [] => (pattern.first? before []).map fun found => (before.length, found)
  | before, byte :: rest =>
    match pattern.first? before (byte :: rest) with
    | some found => some (before.length, found)
    | none => pattern.search (before ++ [byte]) rest

/-- The matches in a text, each of them the leftmost one behind the one before. -/
inductive Iterates (pattern : Pattern) : (before rest : Text) → List (Occurrence (List Text)) → Prop
  | done {before rest : Text}
      (missing : pattern.search before rest = none) :
      Iterates pattern before rest []
  | found {before rest : Text} {start : Nat} {reached : Cursor}
      {others : List (Occurrence (List Text))}
      (matched : pattern.search before rest = some (start, reached))
      (behind : Iterates pattern reached.before reached.rest others) :
      Iterates pattern before rest (⟨start, reached.before.length, reached.groups⟩ :: others)

section Iterates

variable {pattern : Pattern} {before rest : Text} {occurrences : List (Occurrence (List Text))}

/-- There is one list of matches. -/
theorem Iterates.eq
    (iterates : Iterates pattern before rest occurrences)
    {others : List (Occurrence (List Text))}
    (alsoIterates : Iterates pattern before rest others) :
    occurrences = others := by
  induction iterates generalizing others with
  | done missing =>
      cases alsoIterates with
      | done _ => rfl
      | found matched _ =>
          rw [missing] at matched
          contradiction
  | found matched _ inductionHypothesis =>
      cases alsoIterates with
      | done missing =>
          rw [missing] at matched
          contradiction
      | found alsoMatched behind =>
          obtain ⟨rfl, rfl⟩ := Prod.mk.inj (Option.some.inj (matched.symm.trans alsoMatched))
          rw [inductionHypothesis behind]

theorem Iterates.head?_eq
    (iterates : Iterates pattern before rest occurrences) :
    occurrences.head? =
      (pattern.search before rest).map fun found =>
        ⟨found.1, found.2.before.length, found.2.groups⟩ := by
  cases iterates with
  | done missing => rw [missing]; rfl
  | found matched _ => rw [matched]; rfl

/-- A place where nothing matches may be passed over. -/
theorem Iterates.cons
    {byte : UInt8}
    (refused : pattern.first? before (byte :: rest) = none)
    (iterates : Iterates pattern (before ++ [byte]) rest occurrences) :
    Iterates pattern before (byte :: rest) occurrences := by
  have sameSearch : pattern.search before (byte :: rest) =
      pattern.search (before ++ [byte]) rest := by
    rw [search, refused]
  cases iterates with
  | done missing => exact .done (sameSearch.trans missing)
  | found matched behind => exact .found (sameSearch.trans matched) behind

end Iterates

/-! ### Matches are stretches of the text -/

/-- A continuation that moves within a text. -/
def Keeps (next : Cursor → Option Cursor) : Prop :=
  ∀ ⦃cursor reached⦄, next cursor = some reached →
    reached.before ++ reached.rest = cursor.before ++ cursor.rest

section Keeps

variable {next : Cursor → Option Cursor}

theorem Keeps.runOne
    (keeps : Keeps next)
    (accepts : UInt8 → Bool) :
    Keeps (runOne accepts next) := by
  intro cursor reached matched
  rw [Pattern.runOne] at matched
  split at matched
  · contradiction
  · rename_i byte rest text
    split at matched
    · rw [text]
      simpa [Cursor.advance] using keeps matched
    · contradiction

theorem Keeps.runMany
    (keeps : Keeps next)
    (accepts : UInt8 → Bool)
    {groups : List Text}
    {before rest : Text}
    {reached : Cursor}
    (matched : runMany accepts next groups before rest = some reached) :
    reached.before ++ reached.rest = before ++ rest := by
  induction rest generalizing before with
  | nil => exact keeps matched
  | cons byte rest inductionHypothesis =>
      rw [Pattern.runMany] at matched
      split at matched
      · rcases Option.or_eq_some_iff.mp matched with longer | ⟨_, here⟩
        · simpa using inductionHypothesis longer
        · exact keeps here
      · exact keeps matched

/-- Matching moves within a text. -/
theorem Keeps.run
    (pattern : Pattern)
    (keeps : Keeps next) :
    Keeps (pattern.run next) := by
  induction pattern generalizing next with
  | empty => exact keeps
  | one accepts => exact keeps.runOne accepts
  | maybe accepts =>
      intro cursor reached matched
      rw [Pattern.run] at matched
      rcases Option.or_eq_some_iff.mp matched with taken | ⟨_, left⟩
      · exact keeps.runOne accepts taken
      · exact keeps left
  | many accepts => exact fun _ _ matched => keeps.runMany accepts matched
  | boundary =>
      intro cursor reached matched
      rw [Pattern.run] at matched
      split at matched
      · exact keeps matched
      · contradiction
  | group inner inductionHypothesis =>
      intro cursor reached matched
      have captured : Keeps fun closed => next (cursor.capture closed) := by
        intro closed reached matched
        exact @keeps (cursor.capture closed) reached matched
      exact inductionHypothesis captured matched
  | sequence first second firstKeeps secondKeeps => exact firstKeeps (secondKeeps keeps)
  | choice first second firstKeeps secondKeeps =>
      intro cursor reached matched
      rw [Pattern.run] at matched
      rcases Option.or_eq_some_iff.mp matched with chosen | ⟨_, other⟩
      · exact firstKeeps keeps chosen
      · exact secondKeeps keeps other

theorem append_of_first?
    {pattern : Pattern}
    {before rest : Text}
    {reached : Cursor}
    (matched : pattern.first? before rest = some reached) :
    reached.before ++ reached.rest = before ++ rest := by
  have keeps : Keeps some := by
    intro cursor reached same
    rw [Option.some.inj same]
  exact keeps.run pattern matched

end Keeps

/-! ### Recognisers and patterns -/

/-- A recogniser succeeds exactly where a pattern matches.  Its value is made of what is
captured, and it leaves the same rest. -/
def Agrees
    {α : Type}
    (pattern : Pattern)
    (recogniser : Recogniser α)
    (value : List Text → α) : Prop :=
  ∀ before text, recogniser text =
    (pattern.first? before text).map fun found => (value found.groups, found.rest)

theorem agrees_of_continues
    {α : Type}
    {pattern : Pattern}
    {recogniser : Recogniser α}
    {captured : Recogniser (List Text)}
    {value : List Text → α}
    (continues : Continues (pattern.run some) captured)
    (same : recogniser = value <$> captured) :
    pattern.Agrees recogniser value := by
  intro before text
  have matched := continues ⟨before, text, []⟩
  have read : recogniser text = (captured text).map fun read => (value read.1, read.2) := by
    rw [same, map_eq_pure_bind, Recogniser.bind_apply]
    cases captured text <;> rfl
  rw [read, first?]
  cases found : pattern.run some ⟨before, text, []⟩ with
  | none =>
      rw [found] at matched
      rw [Option.map_eq_none_iff.mp matched.symm]
      rfl
  | some cursor =>
      rw [found] at matched
      obtain ⟨result, captures, outcome⟩ := Option.map_eq_some_iff.mp matched.symm
      have reached : result = (cursor.groups, cursor.rest) := outcome
      rw [captures, reached]
      rfl

/-- An occurrence with its value in the place of what is captured. -/
def valued
    {α : Type}
    (value : List Text → α)
    (occurrence : Occurrence (List Text)) : Occurrence α :=
  { occurrence with value := value occurrence.value }

section Agrees

variable {α : Type} {pattern : Pattern} {recogniser : Recogniser α} {value : List Text → α}

theorem Agrees.iterates_from
    (agrees : pattern.Agrees recogniser value)
    (advances : recogniser.Advances)
    (before text : Text) :
    ∃ found, Iterates pattern before text found ∧
      recogniser.occurrencesFrom before.length 0 text = found.map (valued value) := by
  induction text using advances.induction generalizing before with
  | nil =>
      have refused : pattern.first? before [] = none := by
        have same := agrees before []
        rw [advances.refuses_nil] at same
        exact Option.map_eq_none_iff.mp same.symm
      exact ⟨[], .done (by rw [search, refused]; rfl), rfl⟩
  | refused first rest refused inductionHypothesis =>
      have alsoRefused : pattern.first? before (first :: rest) = none := by
        rw [agrees before] at refused
        exact Option.map_eq_none_iff.mp refused
      obtain ⟨found, iterates, same⟩ := inductionHypothesis (before ++ [first])
      refine ⟨found, iterates.cons alsoRefused, ?_⟩
      rw [Recogniser.occurrencesFrom_of_refused refused, ← same, List.length_append]
      rfl
  | read taken rest result nonempty read inductionHypothesis =>
      obtain ⟨reached, matched, outcome⟩ :=
        Option.map_eq_some_iff.mp ((agrees before _).symm.trans read)
      obtain ⟨rfl, rfl⟩ := Prod.mk.inj outcome
      have stretch : reached.before = before ++ taken := by
        have kept := append_of_first? matched
        rw [← List.append_assoc] at kept
        exact List.append_cancel_right kept
      obtain ⟨found, iterates, same⟩ := inductionHypothesis reached.before
      have here : pattern.search before (taken ++ reached.rest) =
          some (before.length, reached) := by
        obtain ⟨first, others, rfl⟩ := List.exists_cons_of_ne_nil nonempty
        rw [List.cons_append] at matched ⊢
        rw [search, matched]
      refine ⟨_, .found here iterates, ?_⟩
      rw [Recogniser.occurrencesFrom_of_read nonempty read, List.map_cons, ← same, stretch,
        List.length_append]
      rfl

/-- The occurrences of a recogniser are the matches of its pattern. -/
theorem Agrees.iterates
    (agrees : pattern.Agrees recogniser value)
    (advances : recogniser.Advances)
    (text : Text) :
    ∃ found, Iterates pattern [] text found ∧
      recogniser.occurrences text = found.map (valued value) :=
  agrees.iterates_from advances [] text

theorem Agrees.iterates_captures
    (agrees : pattern.Agrees recogniser value)
    (advances : recogniser.Advances)
    (text : Text) :
    ∃ found, Iterates pattern [] text found ∧
      recogniser.captures text = found.map fun occurrence => value occurrence.value := by
  obtain ⟨found, iterates, same⟩ := agrees.iterates advances text
  refine ⟨found, iterates, ?_⟩
  rw [Recogniser.captures, same, List.map_map]
  rfl

/-- A recogniser first succeeds where its pattern first matches. -/
theorem Agrees.first?_eq
    (agrees : pattern.Agrees recogniser value)
    (advances : recogniser.Advances)
    (text : Text) :
    recogniser.first? text =
      (pattern.search [] text).map fun found =>
        ⟨found.1, found.2.before.length, value found.2.groups⟩ := by
  obtain ⟨found, iterates, same⟩ := agrees.iterates advances text
  rw [Recogniser.occurrences] at same
  rw [Recogniser.first?, Recogniser.firstFrom_eq_head?, same, List.head?_map, iterates.head?_eq,
    Option.map_map]
  rfl

theorem Agrees.occursIn_eq
    (agrees : pattern.Agrees recogniser value)
    (advances : recogniser.Advances)
    (text : Text) :
    recogniser.occursIn text = (pattern.search [] text).isSome := by
  rw [Recogniser.occursIn, agrees.first?_eq advances, Option.isSome_map]

end Agrees

end Pattern
end QueryAdvisor

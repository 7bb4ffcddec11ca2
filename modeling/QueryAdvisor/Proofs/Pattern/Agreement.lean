import QueryAdvisor.Proofs.Pattern.Search
import QueryAdvisor.Proofs.Query.Line
import QueryAdvisor.Proofs.Query.Grammar
import QueryAdvisor.Proofs.Schema.Declaration
import Mathlib.Data.Option.Basic

/-!
# Patterns of declarations and queries

Every recogniser reads what its pattern matches, at each place of every text, and what
it finds in a text is what a search for the pattern finds: the leftmost match, and
then the leftmost one behind each match.
-/

namespace QueryAdvisor
namespace Pattern

/-- A word in double quotes, without the quotes. -/
def quotedWord : Pattern :=
  all [one (· == Byte.quote), group (atLeastOne Byte.isWord), one (· == Byte.quote)]

theorem Continues.quotedWord
    {next : Cursor → Option Cursor}
    {recogniser : Recogniser (List Text)}
    (continues : Continues next recogniser) :
    Continues (Pattern.quotedWord.run next) (do
      let name ← Recogniser.quotedWord
      let others ← recogniser
      return name :: others) := by
  have closed := continues.byte Byte.quote
  have named := closed.capturedWord (refuses_byte (by decide) _).settled
  have opened := named.byte Byte.quote
  simpa [Recogniser.quotedWord, Pattern.quotedWord, all] using opened

theorem refuses_word
    {accepts : UInt8 → Bool}
    (outside : ∀ byte, accepts byte = true → Byte.isWord byte = false)
    {α : Type}
    (next : Text → Recogniser α) :
    Refuses accepts (Recogniser.word >>= next) := by
  intro text begins
  cases text with
  | nil => rfl
  | cons first rest =>
      have notWord := outside first (by simpa using begins)
      simp [Recogniser.word, notWord]

theorem refuses_quotedWord
    {accepts : UInt8 → Bool}
    (outside : accepts Byte.quote = false)
    {α : Type}
    (next : Text → Recogniser α) :
    Refuses accepts (Recogniser.quotedWord >>= next) := by
  have refuses := refuses_byte outside fun _ => do
    let name ← Recogniser.word
    Recogniser.byte Byte.quote
    next name
  simpa [Recogniser.quotedWord] using refuses

end Pattern

namespace TableBlock

/-- The pattern `create_table\s+"(\w+)"`. -/
def headerPattern : Pattern :=
  .all [.text (ascii "create_table"), .atLeastOne Byte.isSpace, .quotedWord]

theorem header_agrees : headerPattern.Agrees header fun groups => groups.getD 0 [] := by
  have named := Pattern.continues_some.quotedWord
  have spaced := named.someSpaces (Pattern.refuses_quotedWord (by decide) _).settled
  have began := spaced.literal (ascii "create_table")
  apply Pattern.agrees_of_continues began
  simp [header]

/-- The pattern `do\s*\|t\|`. -/
def openingPattern : Pattern :=
  .all [.text (ascii "do"), .many Byte.isSpace, .text (ascii "|t|")]

theorem opening_agrees : openingPattern.Agrees opening fun _ => () := by
  have ended := Pattern.continues_some.literal (ascii "|t|")
  have spaced := ended.spaces (Pattern.refuses_literal (by decide) _ _).settled
  have began := spaced.literal (ascii "do")
  apply Pattern.agrees_of_continues began
  simp [opening]

end TableBlock

/-- The pattern `t\.(\w+)\s+"(\w+)"`. -/
def ColumnDeclaration.pattern : Pattern :=
  .all [.text (ascii "t."), .group (.atLeastOne Byte.isWord), .atLeastOne Byte.isSpace,
    .quotedWord]

theorem ColumnDeclaration.recogniser_agrees :
    pattern.Agrees recogniser fun groups => ⟨groups.getD 0 [], groups.getD 1 []⟩ := by
  have named := Pattern.continues_some.quotedWord
  have spaced := named.someSpaces (Pattern.refuses_quotedWord (by decide) _).settled
  have typed := spaced.capturedWord
    (Pattern.refuses_someSpaces (fun _ => Byte.isSpace_eq_false_of_isWord) _).settled
  have began := typed.literal (ascii "t.")
  apply Pattern.agrees_of_continues began
  simp [recogniser]

namespace ForeignKey

/-- The pattern `t\.\w+\s+"(\w+_id)"`. -/
def pattern : Pattern :=
  .all [.text (ascii "t."), .atLeastOne Byte.isWord, .atLeastOne Byte.isSpace,
    .one (· == Byte.quote), .group (.sequence (.atLeastOne Byte.isWord) (.text (ascii "_id"))),
    .one (· == Byte.quote)]

/-- Behind its first byte, the name of a key has the ending. -/
theorem isKeyName_cons
    (first : UInt8)
    (others : Text) :
    isKeyName (first :: others) = (ascii "_id").isSuffixOf others := by
  have three : (ascii "_id").length = 3 := by decide
  rw [Bool.eq_iff_iff, isKeyName, Bool.and_eq_true, List.isSuffixOf_iff_suffix,
    List.isSuffixOf_iff_suffix, decide_eq_true_iff, List.suffix_cons_iff, List.length_cons]
  constructor
  · rintro ⟨whole | ending, long⟩
    · have length := congrArg List.length whole
      rw [List.length_cons] at length
      omega
    · exact ending
  · intro ending
    have length := ending.length_le
    exact ⟨.inr ending, by omega⟩

/-- The name of a key is matched only as a whole word, of which the ending is given
back. -/
theorem continues_keyName
    {next : Cursor → Option Cursor}
    {recogniser : Recogniser (List Text)}
    (continues : Pattern.Continues next recogniser)
    (refuses : Pattern.Refuses Byte.isWord recogniser) :
    Pattern.Continues
      ((Pattern.group (.sequence (.atLeastOne Byte.isWord) (.text (ascii "_id")))).run next) (do
        let name ← Recogniser.word
        guard (isKeyName name)
        let others ← recogniser
        return name :: others) := by
  intro cursor
  have nextRefuses : ∀ closed : Cursor, closed.rest.head?.any Byte.isWord = true →
      next (cursor.capture closed) = none := by
    intro closed begins
    rw [← Option.not_isSome_iff_eq_none, continues.isSome_eq]
    simp [Cursor.capture, refuses closed.rest begins]
  rw [Pattern.run, Pattern.run_sequence, Pattern.atLeastOne, Pattern.run_sequence, Pattern.run,
    Pattern.runOne, Recogniser.bind_apply, Pattern.word_eq]
  cases text : cursor.rest with
  | nil => rfl
  | cons first rest =>
      by_cases isWord : Byte.isWord first = true
      · have given := Pattern.runMany_text nextRefuses (show ascii "_id" ≠ [] by decide)
          (by decide) cursor.groups (cursor.before ++ [first]) rest
        simp only [isWord, if_true, Pattern.run, List.head?_cons, Option.any_some, Cursor.advance,
          List.takeWhile_cons_of_pos, List.dropWhile_cons_of_pos, Option.bind_some,
          Recogniser.bind_apply, Recogniser.guard_apply, isKeyName_cons, given]
        split
        · have closed := continues (cursor.capture ⟨cursor.before ++ [first] ++
            rest.takeWhile Byte.isWord, rest.dropWhile Byte.isWord, cursor.groups⟩)
          rw [closed]
          simp only [Cursor.capture, List.append_assoc, List.drop_left, List.singleton_append,
            Option.bind_some]
          cases recogniser (rest.dropWhile Byte.isWord) <;> simp
        · rfl
      · simp [isWord]

/-- A closing quote may be read before the name is judged. -/
theorem quote_guard_comm
    {α : Type}
    (condition : Bool)
    (next : Recogniser α) :
    (do
      Recogniser.byte Byte.quote
      guard condition
      next) = (do
      guard condition
      Recogniser.byte Byte.quote
      next : Recogniser α) := by
  funext text
  simp only [Recogniser.bind_apply, Recogniser.guard_apply]
  cases condition with
  | true => rfl
  | false => cases Recogniser.byte Byte.quote text <;> rfl

theorem recogniser_agrees : pattern.Agrees recogniser fun groups => groups.getD 0 [] := by
  have closed := Pattern.continues_some.byte Byte.quote
  have named := continues_keyName closed (Pattern.refuses_byte (by decide) _)
  have opened := named.byte Byte.quote
  have spaced := opened.someSpaces (Pattern.refuses_byte (by decide) _).settled
  have typed := spaced.word
    (Pattern.refuses_someSpaces (fun _ => Byte.isSpace_eq_false_of_isWord) _).settled
  have began := typed.literal (ascii "t.")
  apply Pattern.agrees_of_continues began
  simp only [recogniser, Recogniser.quotedWord, map_eq_pure_bind, bind_assoc, pure_bind,
    quote_guard_comm, List.getD_cons_zero]

/-- The run of word bytes gives back the last ending, and only that. -/
example : (pattern.first? [] (ascii "t.bigint \"kind_id_id\"")).map Cursor.groups =
    some [ascii "kind_id_id"] := by
  decide +kernel

end ForeignKey

/-- The pattern `t\.index\s+\[?\s*"(\w+)"`. -/
def InlineIndex.pattern : Pattern :=
  .all [.text (ascii "t.index"), .atLeastOne Byte.isSpace, .maybe (· == 91), .many Byte.isSpace,
    .quotedWord]

/-- Spaces in front of a bracket are those behind it if there is no bracket. -/
theorem Pattern.settled_bracket
    {α : Type}
    {recogniser : Recogniser α}
    (refuses : Refuses (· == 91) recogniser) :
    Settled Byte.isSpace (do
      Recogniser.optional 91
      Recogniser.spaces
      recogniser) := by
  intro text begins reads
  cases text with
  | nil => contradiction
  | cons first rest =>
      have isSpace : Byte.isSpace first = true := by simpa using begins
      have notBracket : first ≠ 91 := by
        rintro rfl
        contradiction
      rw [Recogniser.bind_apply, Recogniser.optional, if_neg notBracket, Option.bind_some,
        Recogniser.bind_apply, Recogniser.spaces, Option.bind_some] at reads
      have notSpace : ((first :: rest).dropWhile Byte.isSpace).head?.any Byte.isSpace = false :=
        Recogniser.any_head?_dropWhile _
      cases behind : (first :: rest).dropWhile Byte.isSpace with
      | nil =>
          rw [behind] at reads
          exact reads
      | cons sign others =>
          rw [behind] at reads notSpace
          have differs : sign ≠ 91 := by
            rintro rfl
            rw [refuses _ rfl] at reads
            contradiction
          rw [Recogniser.bind_apply, Recogniser.optional, if_neg differs, Option.bind_some,
            Recogniser.bind_apply, Recogniser.spaces, Option.bind_some,
            List.dropWhile_cons_of_neg (by simpa using notSpace)]
          exact reads

theorem InlineIndex.recogniser_agrees :
    pattern.Agrees recogniser fun groups => groups.getD 0 [] := by
  have named := Pattern.continues_some.quotedWord
  have noBracket : Pattern.Refuses (· == 91) (do
      let name ← Recogniser.quotedWord
      let others ← pure []
      return name :: others) :=
    Pattern.refuses_quotedWord (by decide) _
  have spaced := named.spaces (Pattern.refuses_quotedWord (by decide) _).settled
  have bracketed := spaced.optional 91
    (noBracket.spaces fun _ isBracket => by rw [eq_of_beq isBracket]; rfl).optional_settled
  have apart := bracketed.someSpaces (Pattern.settled_bracket noBracket)
  have began := apart.literal (ascii "t.index")
  apply Pattern.agrees_of_continues began
  simp [recogniser]

/-- The pattern `add_index\s+"(\w+)",\s+\[?"(\w+)"?\]?`. -/
def IndexDeclaration.pattern : Pattern :=
  .all [.text (ascii "add_index"), .atLeastOne Byte.isSpace, .quotedWord, .one (· == Byte.comma),
    .atLeastOne Byte.isSpace, .maybe (· == 91), .one (· == Byte.quote),
    .group (.atLeastOne Byte.isWord), .maybe (· == Byte.quote), .maybe (· == 93)]

theorem IndexDeclaration.recogniser_agrees :
    pattern.Agrees recogniser fun groups => ⟨groups.getD 0 [], groups.getD 1 []⟩ := by
  have total := Pattern.isSome_optional 93 (fun text => rfl : ∀ text,
    ((pure [] : Recogniser (List Text)) text).isSome = true)
  have closed := Pattern.continues_some.optional 93 fun _ _ => rfl
  have unquoted := closed.optional Byte.quote fun rest _ => total rest
  have named := unquoted.capturedWord
    (Pattern.settled_of_total (Pattern.isSome_optional Byte.quote total))
  have quoted := named.byte Byte.quote
  have bracketed := quoted.optional 91 (Pattern.refuses_byte (by decide) _).optional_settled
  have apart := bracketed.someSpaces
    ((Pattern.refuses_byte (by decide) _).optional (by decide)).settled
  have separated := apart.byte Byte.comma
  have onTable := separated.quotedWord
  have spaced := onTable.someSpaces (Pattern.refuses_quotedWord (by decide) _).settled
  have began := spaced.literal (ascii "add_index")
  apply Pattern.agrees_of_continues began
  simp [recogniser]

namespace WhereFilter

/-- The pattern `\.where\(\s*(\w+):\s*`. -/
def keywordPattern : Pattern :=
  .all [.text (ascii ".where("), .many Byte.isSpace, .group (.atLeastOne Byte.isWord),
    .one (· == 58), .many Byte.isSpace]

theorem keyword_agrees : keywordPattern.Agrees keyword fun groups => groups.getD 0 [] := by
  have ended := Pattern.continues_some.spaces (Pattern.settled_of_total fun _ => rfl)
  have marked := ended.byte 58
  have named := marked.capturedWord (Pattern.refuses_byte (by decide) _).settled
  have spaced := named.spaces
    (Pattern.refuses_word (fun _ => Byte.isWord_eq_false_of_isSpace) _).settled
  have began := spaced.literal (ascii ".where(")
  apply Pattern.agrees_of_continues began
  simp [keyword]

/-- The pattern `\.where\(["'](\w+)\s*=`. -/
def conditionPattern : Pattern :=
  .all [.text (ascii ".where("), .one [Byte.quote, Byte.apostrophe].contains,
    .group (.atLeastOne Byte.isWord), .many Byte.isSpace, .one (· == 61)]

theorem condition_agrees : conditionPattern.Agrees condition fun groups => groups.getD 0 [] := by
  have ended := Pattern.continues_some.byte 61
  have spaced := ended.spaces (Pattern.refuses_byte (by decide) _).settled
  have named := spaced.capturedWord ((Pattern.refuses_byte (by decide) _).spaces
    fun _ => Byte.isSpace_eq_false_of_isWord).settled
  have opened := named.oneOf [Byte.quote, Byte.apostrophe]
  have began := opened.literal (ascii ".where(")
  apply Pattern.agrees_of_continues began
  simp [condition]

end WhereFilter

namespace Query

/-- The pattern `\.(…)\b` with methods to choose from. -/
def callPattern (methods : List Text) : Pattern :=
  .all [.one (· == Byte.dot), .group (.any (methods.map .text)), .boundary]

/-- Behind a name is a boundary unless a word byte follows. -/
theorem isBoundary_advance
    {name : Text}
    (isName : IsName name)
    (cursor : Cursor)
    (after : Text) :
    (cursor.advance name after).isBoundary = !after.head?.any Byte.isWord := by
  rw [Cursor.isBoundary, Cursor.advance, isName.any_getLast?_append, Bool.true_bne]

/-- One of the methods in turn is matched only as a whole word. -/
theorem run_any_text
    {methods : List Text}
    (names : ∀ method ∈ methods, IsName method)
    (next : Cursor → Option Cursor)
    (cursor : Cursor) :
    (Pattern.any (methods.map .text)).run (Pattern.boundary.run next) cursor =
      if methods.contains (cursor.rest.takeWhile Byte.isWord) then
        next (cursor.advance (cursor.rest.takeWhile Byte.isWord)
          (cursor.rest.dropWhile Byte.isWord))
      else none := by
  induction methods with
  | nil =>
      rw [List.map_nil, Pattern.any, Pattern.run, Pattern.runOne]
      cases cursor.rest <;> rfl
  | cons method others inductionHypothesis =>
      obtain ⟨isName, otherNames⟩ := List.forall_mem_cons.mp names
      have refuses : ∀ after : Text, after.head?.any Byte.isWord = true →
          Pattern.boundary.run next (cursor.advance method after) = none := by
        intro after continued
        rw [Pattern.run, isBoundary_advance isName, continued]
        rfl
      have alone := Pattern.run_text_of_refuses isName.2 refuses
      rw [List.map_cons, Pattern.any, Pattern.run, alone, inductionHypothesis otherNames,
        List.contains_cons]
      by_cases whole : cursor.rest.takeWhile Byte.isWord = method
      · subst whole
        have bounded : (cursor.advance (cursor.rest.takeWhile Byte.isWord)
            (cursor.rest.dropWhile Byte.isWord)).isBoundary = true := by
          rw [isBoundary_advance isName, Recogniser.any_head?_dropWhile]
          rfl
        rw [if_pos rfl, Pattern.run, if_pos bounded, beq_self_eq_true, Bool.true_or, if_pos rfl]
        -- A later alternative would only be refused once more.
        cases next (cursor.advance _ _) with
        | some found => rfl
        | none => split <;> rfl
      · rw [if_neg whole, Option.none_or, beq_eq_false_iff_ne.mpr whole, Bool.false_or]

theorem call_agrees
    {methods : List Text}
    (names : ∀ method ∈ methods, IsName method) :
    (callPattern methods).Agrees (call methods) fun _ => () := by
  have continues : Pattern.Continues
      ((Pattern.group (.any (methods.map .text))).run (Pattern.boundary.run some)) (do
        let name ← Recogniser.word
        guard (methods.contains name)
        return [name]) := by
    intro cursor
    have chosen := run_any_text names (fun closed => some (cursor.capture closed)) cursor
    have named : methods.contains [] = false := by
      simpa using fun present => (names [] present).1 rfl
    rw [Pattern.run]
    refine (congrArg _ chosen).trans ?_
    rw [Recogniser.bind_apply, Pattern.word_eq]
    cases begins : cursor.rest.head?.any Byte.isWord with
    | true =>
        simp only [if_true, Option.bind_some, Recogniser.bind_apply, Recogniser.guard_apply]
        split
        · simp [Cursor.outcome, Cursor.capture, Cursor.advance]
        · rfl
    | false =>
        have empty : cursor.rest.takeWhile Byte.isWord = [] := by
          cases text : cursor.rest with
          | nil => rfl
          | cons first rest =>
              rw [text] at begins
              exact List.takeWhile_cons_of_neg (by simpa using begins)
        rw [empty, named]
        rfl
  have began := continues.byte Byte.dot
  apply Pattern.agrees_of_continues began
  simp [call]

/-- The pattern `@(\w+)\s*=`. -/
def assignmentPattern : Pattern :=
  .all [.one (· == 64), .group (.atLeastOne Byte.isWord), .many Byte.isSpace, .one (· == 61)]

theorem assignment_agrees :
    assignmentPattern.Agrees assignment fun groups => groups.getD 0 [] := by
  have ended := Pattern.continues_some.byte 61
  have spaced := ended.spaces (Pattern.refuses_byte (by decide) _).settled
  have named := spaced.capturedWord ((Pattern.refuses_byte (by decide) _).spaces
    fun _ => Byte.isSpace_eq_false_of_isWord).settled
  have began := named.byte 64
  apply Pattern.agrees_of_continues began
  simp [assignment]

/-- The pattern `\.\w+\.\w+`. -/
def memberChainPattern : Pattern :=
  .all [.one (· == Byte.dot), .atLeastOne Byte.isWord, .one (· == Byte.dot),
    .atLeastOne Byte.isWord]

theorem continues_memberChain :
    Pattern.Continues (memberChainPattern.run some) (memberChain >>= fun _ => pure []) := by
  have last := Pattern.continues_some.word (Pattern.settled_of_total fun _ => rfl)
  have second := last.byte Byte.dot
  have first := second.word (Pattern.refuses_byte (by decide) _).settled
  have began := first.byte Byte.dot
  simpa [memberChainPattern, Pattern.all, memberChain] using began

/-- The pattern `@name\.\w+\.\w+` for a name. -/
def chainOnPattern (variableName : Text) : Pattern :=
  .all [.one (· == 64), .text variableName, memberChainPattern]

theorem chainOn_agrees (variableName : Text) :
    (chainOnPattern variableName).Agrees (chainOn variableName) fun _ => () := by
  have began := (continues_memberChain.literal variableName).byte 64
  apply Pattern.agrees_of_continues began
  simp [chainOn]

/-- The pattern `\w+\.\w+\.\w+`. -/
def associationChainPattern : Pattern :=
  .all [.atLeastOne Byte.isWord, memberChainPattern]

theorem associationChain_agrees :
    associationChainPattern.Agrees associationChain fun _ => () := by
  have refuses : Pattern.Refuses Byte.isWord (memberChain >>= fun _ => pure ([] : List Text)) := by
    rw [memberChain, bind_assoc]
    exact Pattern.refuses_byte (by decide) _
  have began := continues_memberChain.word refuses.settled
  apply Pattern.agrees_of_continues began
  simp [associationChain]

theorem advances_associationChain : Recogniser.Advances associationChain := by
  intro text value rest read
  unfold associationChain memberChain at read
  obtain ⟨first, _, firstRead, read⟩ := Recogniser.bind_eq_some.mp read
  obtain ⟨_, _, stop, read⟩ := Recogniser.bind_eq_some.mp read
  obtain ⟨second, _, secondRead, read⟩ := Recogniser.bind_eq_some.mp read
  obtain ⟨_, _, secondStop, read⟩ := Recogniser.bind_eq_some.mp read
  obtain ⟨third, thirdRead, _⟩ := Recogniser.bind_pure_eq_some.mp read
  obtain ⟨rfl, nonempty, _⟩ := Recogniser.word_eq_some firstRead
  obtain ⟨rfl, _⟩ := Recogniser.word_eq_some secondRead
  obtain ⟨rfl, _⟩ := Recogniser.word_eq_some thirdRead
  rw [Recogniser.byte_eq_some stop, Recogniser.byte_eq_some secondStop]
  exact ⟨first ++ Byte.dot :: (second ++ Byte.dot :: third), by simp [nonempty], by simp⟩

end Query

/-- The lists of what stands in a text are made of the matches of the patterns. -/
theorem extractions_are_matches
    (text : Text) :
    (∃ found, TableBlock.headerPattern.Iterates [] text found ∧
        TableBlock.header.occurrences text =
          found.map (Pattern.valued fun groups => groups.getD 0 [])) ∧
      (∃ found, ColumnDeclaration.pattern.Iterates [] text found ∧
        ColumnDeclaration.ofBody text =
          found.map fun column => ⟨column.value.getD 0 [], column.value.getD 1 []⟩) ∧
      (∃ found, ForeignKey.pattern.Iterates [] text found ∧
        ForeignKey.ofBody text = found.map fun key => key.value.getD 0 []) ∧
      (∃ found, InlineIndex.pattern.Iterates [] text found ∧
        InlineIndex.ofBody text = found.map fun index => index.value.getD 0 []) ∧
      (∃ found, IndexDeclaration.pattern.Iterates [] text found ∧
        IndexDeclaration.ofText text =
          found.map fun index => ⟨index.value.getD 0 [], index.value.getD 1 []⟩) ∧
      (∃ found, WhereFilter.keywordPattern.Iterates [] text found ∧
        WhereFilter.keyword.occurrences text =
          found.map (Pattern.valued fun groups => groups.getD 0 [])) ∧
      ∃ found, WhereFilter.conditionPattern.Iterates [] text found ∧
        WhereFilter.condition.occurrences text =
          found.map (Pattern.valued fun groups => groups.getD 0 []) :=
  ⟨TableBlock.header_agrees.iterates TableBlock.advances_header text,
    ColumnDeclaration.recogniser_agrees.iterates_captures
      ColumnDeclaration.advances_recogniser text,
    ForeignKey.recogniser_agrees.iterates_captures ForeignKey.advances_recogniser text,
    InlineIndex.recogniser_agrees.iterates_captures InlineIndex.advances_recogniser text,
    IndexDeclaration.recogniser_agrees.iterates_captures IndexDeclaration.advances_recogniser text,
    WhereFilter.keyword_agrees.iterates WhereFilter.advances_keyword text,
    WhereFilter.condition_agrees.iterates WhereFilter.advances_condition text⟩

/-- What is looked for on a line, or behind a header, is found by a search for the
pattern. -/
theorem detections_are_searches
    (line : Text) :
    TableBlock.opening.first? line =
        ((TableBlock.openingPattern.search [] line).map fun found =>
          ⟨found.1, found.2.before.length, ()⟩) ∧
      Query.isFetch line = ((Query.callPattern Query.fetchMethods).search [] line).isSome ∧
      Query.loadsEagerly line = ((Query.callPattern Query.eagerMethods).search [] line).isSome ∧
      Query.assigned? line =
        ((Query.assignmentPattern.search [] line).map fun found => found.2.groups.getD 0 []) ∧
      (∀ variableName, IsName variableName →
        Query.reachesThrough line variableName =
          ((Query.chainOnPattern variableName).search [] line).isSome) ∧
      Query.hasAssociationChain line = (Query.associationChainPattern.search [] line).isSome := by
  refine ⟨TableBlock.opening_agrees.first?_eq TableBlock.advances_opening line,
    (Query.call_agrees (by decide)).occursIn_eq (Query.advances_call _) line,
    (Query.call_agrees (by decide)).occursIn_eq (Query.advances_call _) line, ?_, ?_,
    Query.associationChain_agrees.occursIn_eq Query.advances_associationChain line⟩
  · rw [Query.assigned?, Query.assignment_agrees.first?_eq Query.advances_assignment,
      Option.map_map]
    rfl
  · intro variableName isName
    have named : (!variableName.isEmpty && variableName.all Byte.isWord) = true := by
      simpa [IsName] using isName
    rw [Query.reachesThrough, named, Bool.true_and]
    exact (Query.chainOn_agrees variableName).occursIn_eq (Query.advances_chainOn _) line

end QueryAdvisor

import QueryAdvisor.Proofs.Query.Line

/-!
# Calls as whole words

A call is looked for as a full stop and one of several names, at whose end a word has
to end.  Some of the names begin with one another, so a search may have to give up a
name for a longer or a shorter one.  Whatever stands around it, it finds a call exactly
where the longest run of word bytes behind a full stop is one of the names.
-/

namespace QueryAdvisor
namespace Query

open Recogniser

/-- The longest run of word bytes that begins at an offset. -/
def wordAt
    (text : Text)
    (offset : Nat) : Text :=
  (text.drop offset).takeWhile Byte.isWord

/-- A full stop stands at an offset, and the word behind it is one of some methods. -/
def CallsAt
    (methods : List Text)
    (text : Text)
    (offset : Nat) : Prop :=
  text[offset]? = some Byte.dot ∧ wordAt text (offset + 1) ∈ methods

/-- A word begins or ends at an offset: of the bytes in front of it and behind it one
is a word byte and the other is not.  The ends of a text count as other bytes. -/
def isBoundary
    (text : Text)
    (offset : Nat) : Bool :=
  (text.take offset).getLast?.any Byte.isWord != (text.drop offset).head?.any Byte.isWord

/-- Whether a call is matched at an offset: a full stop, and then one of the methods in
turn, each of which is given up unless a word ends behind it. -/
def isMatchedAt
    (methods : List Text)
    (text : Text)
    (offset : Nat) : Bool :=
  text[offset]? == some Byte.dot &&
    methods.any fun method =>
      method.isPrefixOf (text.drop (offset + 1)) &&
        isBoundary text (offset + 1 + method.length)

/-- Whether a call is matched at some offset. -/
def isMatched
    (methods : List Text)
    (text : Text) : Bool :=
  (List.range text.length).any (isMatchedAt methods text)

/-! ### The word behind a full stop -/

theorem eq_cut_of_getElem?
    {text : Text}
    {offset : Nat}
    {byte : UInt8}
    (stands : text[offset]? = some byte) :
    text = text.take offset ++ byte :: text.drop (offset + 1) := by
  obtain ⟨within, rfl⟩ := List.getElem?_eq_some_iff.mp stands
  rw [← List.drop_eq_getElem_cons within, List.take_append_drop]

theorem calls_iff_exists_callsAt
    {methods : List Text}
    (names : ∀ method ∈ methods, IsName method)
    (text : Text) :
    Calls methods text ↔ ∃ offset, CallsAt methods text offset := by
  constructor
  · rintro ⟨before, method, after, rfl, listed, ended⟩
    have behind : (before ++ Byte.dot :: (method ++ after)).drop (before.length + 1) =
        method ++ after := by simp
    refine ⟨before.length, by simp, ?_⟩
    rwa [wordAt, behind, takeWhile_append_of_ended (names method listed).2 ended]
  · rintro ⟨offset, stands, listed⟩
    refine ⟨text.take offset, wordAt text (offset + 1),
      (text.drop (offset + 1)).dropWhile Byte.isWord, ?_, listed, any_head?_dropWhile _⟩
    rw [wordAt, List.takeWhile_append_dropWhile]
    exact eq_cut_of_getElem? stands

/-! ### Trying the methods in turn -/

/-- Behind a name a word ends unless a word byte follows. -/
theorem isBoundary_append
    {name : Text}
    (isName : IsName name)
    (before after : Text) :
    isBoundary (before ++ (name ++ after)) (before.length + name.length) =
      !after.head?.any Byte.isWord := by
  have length : (before ++ name).length = before.length + name.length := List.length_append
  rw [← List.append_assoc, ← length, isBoundary, List.take_left, List.drop_left,
    isName.any_getLast?_append, Bool.true_bne]

/-- A name that begins a text and is not continued there is the longest run of word
bytes. -/
theorem takeWhile_eq_name_iff
    {name rest : Text}
    (isName : IsName name) :
    rest.takeWhile Byte.isWord = name ↔
      ∃ after, rest = name ++ after ∧ after.head?.any Byte.isWord = false := by
  constructor
  · rintro rfl
    exact ⟨_, List.takeWhile_append_dropWhile.symm, any_head?_dropWhile rest⟩
  · rintro ⟨after, rfl, ended⟩
    exact takeWhile_append_of_ended isName.2 ended

/-- A name that stands at a place is given up there unless it is the whole word. -/
theorem prefix_and_isBoundary_iff
    {name : Text}
    (isName : IsName name)
    (before rest : Text) :
    name <+: rest ∧ isBoundary (before ++ rest) (before.length + name.length) = true ↔
      rest.takeWhile Byte.isWord = name := by
  rw [takeWhile_eq_name_iff isName]
  constructor
  · rintro ⟨⟨after, rfl⟩, bounded⟩
    rw [isBoundary_append isName, Bool.not_eq_true'] at bounded
    exact ⟨after, rfl, bounded⟩
  · rintro ⟨after, rfl, ended⟩
    refine ⟨List.prefix_append name after, ?_⟩
    rw [isBoundary_append isName, ended]
    rfl

/-- The methods are matched in turn exactly where the word behind a full stop is one of
them. -/
theorem isMatchedAt_iff
    {methods : List Text}
    (names : ∀ method ∈ methods, IsName method)
    (text : Text)
    (offset : Nat) :
    isMatchedAt methods text offset = true ↔ CallsAt methods text offset := by
  simp only [isMatchedAt, CallsAt, Bool.and_eq_true, beq_iff_eq, List.any_eq_true,
    List.isPrefixOf_iff_prefix]
  refine and_congr_right fun stands => ?_
  have within : offset < text.length := (List.getElem?_eq_some_iff.mp stands).1
  have length : (text.take offset ++ [Byte.dot]).length = offset + 1 := by
    simp [Nat.min_eq_left (Nat.le_of_lt within)]
  have cut : text.take offset ++ [Byte.dot] ++ text.drop (offset + 1) = text := by
    rw [List.append_assoc, List.singleton_append]
    exact (eq_cut_of_getElem? stands).symm
  have whole : ∀ method ∈ methods,
      (method <+: text.drop (offset + 1) ∧
          isBoundary text (offset + 1 + method.length) = true ↔
        wordAt text (offset + 1) = method) := by
    intro method listed
    have tried := prefix_and_isBoundary_iff (names method listed)
      (text.take offset ++ [Byte.dot]) (text.drop (offset + 1))
    rwa [cut, length] at tried
  constructor
  · rintro ⟨method, listed, matched⟩
    rwa [(whole method listed).mp matched]
  · intro listed
    exact ⟨_, listed, (whole _ listed).mpr rfl⟩

theorem isMatched_iff
    {methods : List Text}
    (names : ∀ method ∈ methods, IsName method)
    (text : Text) :
    isMatched methods text = true ↔ ∃ offset, CallsAt methods text offset := by
  simp only [isMatched, List.any_eq_true, List.mem_range, isMatchedAt_iff names]
  constructor
  · rintro ⟨offset, _, calls⟩
    exact ⟨offset, calls⟩
  · rintro ⟨offset, calls⟩
    exact ⟨offset, (List.getElem?_eq_some_iff.mp calls.1).1, calls⟩

/-- The search for a call, the methods tried in turn and the words behind full stops
come to the same. -/
theorem occursIn_call_eq
    {methods : List Text}
    (names : ∀ method ∈ methods, IsName method)
    (text : Text) :
    ((call methods).occursIn text = true ↔ ∃ offset, CallsAt methods text offset) ∧
      (call methods).occursIn text = isMatched methods text := by
  have found := (occursIn_call_iff names text).trans (calls_iff_exists_callsAt names text)
  exact ⟨found, Bool.eq_iff_iff.mpr (found.trans (isMatched_iff names text).symm)⟩

/-- A line fetches records exactly if the longest word behind one of its full stops is
the name of a fetch, and a text asks for eager loading exactly if such a word asks for
it.  Trying the names in turn, with a boundary behind each, finds the same.  Joined lines
ask for eager loading exactly if one of them does. -/
theorem detectors_find_whole_words :
    (∀ text, isFetch text = true ↔
      ∃ offset, text[offset]? = some Byte.dot ∧
        wordAt text (offset + 1) ∈ [ascii "all", ascii "where", ascii "find_by", ascii "find"]) ∧
      (∀ text, loadsEagerly text = true ↔
        ∃ offset, text[offset]? = some Byte.dot ∧
          wordAt text (offset + 1) ∈ [ascii "includes", ascii "preload", ascii "eager_load"]) ∧
      (∀ text, isFetch text = isMatched fetchMethods text ∧
        loadsEagerly text = isMatched eagerMethods text) ∧
      ∀ lines, loadsEagerly (Text.joinLines lines) = true ↔
        ∃ line ∈ lines, loadsEagerly line = true := by
  have fetchNames : ∀ method ∈ fetchMethods, IsName method := by decide
  have eagerNames : ∀ method ∈ eagerMethods, IsName method := by decide
  refine ⟨?_, ?_, ?_, ?_⟩
  · exact fun text => (occursIn_call_eq fetchNames text).1
  · exact fun text => (occursIn_call_eq eagerNames text).1
  · exact fun text => ⟨(occursIn_call_eq fetchNames text).2, (occursIn_call_eq eagerNames text).2⟩
  · intro lines
    rw [loadsEagerly_joinLines, List.any_eq_true]

example : isFetch (ascii "Post.find_by_sql.finders.find(1)") = true ∧
    isFetch (ascii "Post.find_by_sql.finders.All") = false := by
  decide +kernel

end Query
end QueryAdvisor

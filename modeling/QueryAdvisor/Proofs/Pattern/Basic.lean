import QueryAdvisor.Proofs.Recogniser.Grammar

/-!
# Patterns

A pattern is matched by trying.  A run takes as many bytes as it can and gives them
back one by one as long as what follows is refused, and a second alternative is tried
after the first.  What follows is a continuation, and the first way in which
everything matches is the match.

A recogniser takes nothing back.  It reads what a pattern matches if each run is
settled: whatever can be read behind a part of the run can be read behind all of it.
-/

namespace QueryAdvisor

/-- A place in a text, and what has been captured on the way to it. -/
structure Cursor where
  before : Text
  rest : Text
  groups : List Text
deriving DecidableEq, Repr

namespace Cursor

/-- Move on to a rest, behind some bytes. -/
def advance
    (cursor : Cursor)
    (taken rest : Text) : Cursor :=
  { cursor with before := cursor.before ++ taken, rest }

/-- Whether a word begins or ends here. -/
def isBoundary (cursor : Cursor) : Bool :=
  cursor.before.getLast?.any Byte.isWord != cursor.rest.head?.any Byte.isWord

/-- Capture what stands between two places. -/
def capture
    (opened closed : Cursor) : Cursor :=
  { closed with groups := closed.groups ++ [closed.before.drop opened.before.length] }

/-- What has been captured, and what is left. -/
def outcome (cursor : Cursor) : List Text × Text :=
  (cursor.groups, cursor.rest)

end Cursor

/-- A pattern. -/
inductive Pattern where
  | empty
  /-- One byte of a class. -/
  | one (accepts : UInt8 → Bool)
  /-- One byte of a class or none. -/
  | maybe (accepts : UInt8 → Bool)
  /-- Bytes of a class, as many as possible. -/
  | many (accepts : UInt8 → Bool)
  /-- The beginning or the end of a word. -/
  | boundary
  /-- A pattern whose text is captured. -/
  | group (inner : Pattern)
  | sequence (first second : Pattern)
  | choice (first second : Pattern)

namespace Pattern

/-! ### Matching -/

def runOne
    (accepts : UInt8 → Bool)
    (next : Cursor → Option Cursor)
    (cursor : Cursor) : Option Cursor :=
  match cursor.rest with
  | [] => none
  | byte :: rest => if accepts byte then next (cursor.advance [byte] rest) else none

/-- Go on behind the longest run, and behind shorter ones if that is refused. -/
def runMany
    (accepts : UInt8 → Bool)
    (next : Cursor → Option Cursor)
    (groups : List Text) : (before rest : Text) → Option Cursor
  | before, [] => next ⟨before, [], groups⟩
  | before, byte :: rest =>
    if accepts byte then
      (runMany accepts next groups (before ++ [byte]) rest).or (next ⟨before, byte :: rest, groups⟩)
    else next ⟨before, byte :: rest, groups⟩

/-- Match a pattern at a place, and go on behind it. -/
def run : Pattern → (Cursor → Option Cursor) → Cursor → Option Cursor
  | empty, next, cursor => next cursor
  | one accepts, next, cursor => runOne accepts next cursor
  | maybe accepts, next, cursor => (runOne accepts next cursor).or (next cursor)
  | many accepts, next, cursor => runMany accepts next cursor.groups cursor.before cursor.rest
  | boundary, next, cursor => if cursor.isBoundary then next cursor else none
  | group inner, next, cursor => inner.run (fun closed => next (cursor.capture closed)) cursor
  | sequence first second, next, cursor => first.run (second.run next) cursor
  | choice first second, next, cursor => (first.run next cursor).or (second.run next cursor)

@[simp] theorem run_empty (next : Cursor → Option Cursor) : empty.run next = next := rfl

@[simp] theorem run_sequence
    (first second : Pattern)
    (next : Cursor → Option Cursor) :
    (sequence first second).run next = first.run (second.run next) := rfl

/-- The match of a pattern at a place. -/
def first?
    (pattern : Pattern)
    (before rest : Text) : Option Cursor :=
  pattern.run some ⟨before, rest, []⟩

/-- The given bytes. -/
def text : Text → Pattern
  | [] => empty
  | byte :: rest => sequence (one (· == byte)) (text rest)

/-- At least one byte of a class. -/
def atLeastOne (accepts : UInt8 → Bool) : Pattern :=
  sequence (one accepts) (many accepts)

/-- Patterns one behind the other. -/
def all : List Pattern → Pattern
  | [] => empty
  | first :: rest => sequence first (all rest)

/-- The first one of several patterns that matches. -/
def any : List Pattern → Pattern
  | [] => one fun _ => false
  | first :: rest => choice first (any rest)

/-! ### Settled runs -/

/-- What a recogniser reads behind a part of a run, it reads behind all of it. -/
def Settled
    (accepts : UInt8 → Bool)
    {α : Type}
    (recogniser : Recogniser α) : Prop :=
  ∀ text, text.head?.any accepts = true → (recogniser text).isSome = true →
    (recogniser (text.dropWhile accepts)).isSome = true

/-- A recogniser that reads nothing inside a run. -/
def Refuses
    (accepts : UInt8 → Bool)
    {α : Type}
    (recogniser : Recogniser α) : Prop :=
  ∀ text, text.head?.any accepts = true → recogniser text = none

section Settled

variable {α β : Type} {accepts : UInt8 → Bool} {recogniser : Recogniser α}

theorem Refuses.settled
    (refuses : Refuses accepts recogniser) :
    Settled accepts recogniser := by
  intro text begins reads
  rw [refuses text begins] at reads
  contradiction

theorem settled_of_total
    (total : ∀ text, (recogniser text).isSome = true) :
    Settled accepts recogniser :=
  fun text _ _ => total (text.dropWhile accepts)

theorem isSome_optional
    (sign : UInt8)
    (total : ∀ text, (recogniser text).isSome = true)
    (text : Text) :
    ((Recogniser.optional sign >>= fun _ => recogniser) text).isSome = true := by
  rw [Recogniser.bind_apply]
  cases text with
  | nil => exact total []
  | cons first rest => exact total _

/-- A sign outside a class does not begin a run. -/
theorem ne_of_begins
    {sign first : UInt8}
    {rest : Text}
    (outside : accepts sign = false)
    (begins : (first :: rest).head?.any accepts = true) :
    first ≠ sign := by
  rintro rfl
  rw [List.head?_cons, Option.any_some, outside] at begins
  contradiction

theorem refuses_byte
    {sign : UInt8}
    (outside : accepts sign = false)
    (next : Unit → Recogniser β) :
    Refuses accepts (Recogniser.byte sign >>= next) := by
  intro text begins
  cases text with
  | nil => rfl
  | cons first rest =>
      rw [Recogniser.bind_apply, Recogniser.byte, if_neg (ne_of_begins outside begins)]
      rfl

theorem refuses_literal
    {sign : UInt8}
    (outside : accepts sign = false)
    (others : Text)
    (next : Unit → Recogniser β) :
    Refuses accepts (Recogniser.literal (sign :: others) >>= next) := by
  intro text begins
  cases text with
  | nil => rfl
  | cons first rest =>
      rw [Recogniser.bind_apply, Recogniser.literal, if_neg (ne_of_begins outside begins)]
      rfl

theorem refuses_someSpaces
    (outside : ∀ byte, accepts byte = true → Byte.isSpace byte = false)
    (next : Unit → Recogniser β) :
    Refuses accepts (Recogniser.someSpaces >>= next) := by
  intro text begins
  cases text with
  | nil => rfl
  | cons first rest =>
      have notSpace := outside first (by simpa using begins)
      rw [Recogniser.bind_apply, Recogniser.someSpaces, if_neg (by simp [notSpace])]
      rfl

theorem Refuses.spaces
    (refuses : Refuses accepts recogniser)
    (outside : ∀ byte, accepts byte = true → Byte.isSpace byte = false) :
    Refuses accepts (Recogniser.spaces >>= fun _ => recogniser) := by
  intro text begins
  cases text with
  | nil => contradiction
  | cons first rest =>
      have notSpace := outside first (by simpa using begins)
      rw [Recogniser.bind_apply, Recogniser.spaces, Option.bind_some,
        List.dropWhile_cons_of_neg (by simp [notSpace])]
      exact refuses _ begins

theorem Refuses.optional
    (refuses : Refuses accepts recogniser)
    {sign : UInt8}
    (outside : accepts sign = false) :
    Refuses accepts (Recogniser.optional sign >>= fun _ => recogniser) := by
  intro text begins
  cases text with
  | nil => contradiction
  | cons first rest =>
      rw [Recogniser.bind_apply, Recogniser.optional, if_neg (ne_of_begins outside begins),
        Option.bind_some]
      exact refuses _ begins

/-- Nothing is lost by taking a byte that is refused. -/
theorem Refuses.optional_settled
    {sign : UInt8}
    (refuses : Refuses (· == sign) recogniser)
    (rest : Text)
    (reads : (recogniser (sign :: rest)).isSome = true) :
    (recogniser rest).isSome = true := by
  rw [refuses (sign :: rest) (by simp)] at reads
  contradiction

end Settled

/-- A settled run is as long as it can be. -/
theorem runMany_eq
    {α : Type}
    {accepts : UInt8 → Bool}
    {next : Cursor → Option Cursor}
    {recogniser : Recogniser α}
    (goesOn : ∀ cursor, (next cursor).isSome = (recogniser cursor.rest).isSome)
    (settled : Settled accepts recogniser)
    (groups : List Text)
    (before rest : Text) :
    runMany accepts next groups before rest =
      next ⟨before ++ rest.takeWhile accepts, rest.dropWhile accepts, groups⟩ := by
  induction rest generalizing before with
  | nil => simp [runMany]
  | cons byte rest inductionHypothesis =>
      rw [runMany]
      split
      · rename_i accepted
        have longest : before ++ [byte] ++ rest.takeWhile accepts =
            before ++ (byte :: rest).takeWhile accepts := by
          rw [List.takeWhile_cons_of_pos accepted, List.append_assoc, List.singleton_append]
        rw [inductionHypothesis, longest, List.dropWhile_cons_of_pos accepted]
        cases behind : next ⟨before ++ (byte :: rest).takeWhile accepts, rest.dropWhile accepts,
            groups⟩ with
        | some found => rfl
        | none =>
            -- If it went on here, it would go on behind the run as well.
            rw [Option.none_or, ← Option.not_isSome_iff_eq_none, goesOn]
            intro here
            have alsoBehind := settled (byte :: rest) (by simpa using accepted) here
            rw [List.dropWhile_cons_of_pos accepted] at alsoBehind
            have wentOn := goesOn ⟨before ++ (byte :: rest).takeWhile accepts,
              rest.dropWhile accepts, groups⟩
            rw [behind, alsoBehind] at wentOn
            contradiction
      · rename_i refused
        rw [List.takeWhile_cons_of_neg refused, List.dropWhile_cons_of_neg refused,
          List.append_nil]

/-! ### Patterns and recognisers -/

/-- A continuation captures and leaves what a recogniser reads and leaves. -/
def Continues
    (next : Cursor → Option Cursor)
    (recogniser : Recogniser (List Text)) : Prop :=
  ∀ cursor, (next cursor).map Cursor.outcome =
    (recogniser cursor.rest).map fun read => (cursor.groups ++ read.1, read.2)

section Continues

variable {next : Cursor → Option Cursor} {recogniser : Recogniser (List Text)}

theorem continues_some : Continues some (pure []) := by
  intro cursor
  simp [Cursor.outcome]

theorem Continues.isSome_eq
    (continues : Continues next recogniser)
    (cursor : Cursor) :
    (next cursor).isSome = (recogniser cursor.rest).isSome := by
  have same := congrArg Option.isSome (continues cursor)
  simpa only [Option.isSome_map] using same

theorem Continues.byte
    (continues : Continues next recogniser)
    (sign : UInt8) :
    Continues ((one (· == sign)).run next)
      (Recogniser.byte sign >>= fun _ => recogniser) := by
  intro cursor
  rw [run, runOne, Recogniser.bind_apply]
  cases cursor.rest with
  | nil => rfl
  | cons first rest =>
      by_cases same : first = sign
      · simp only [Recogniser.byte, same, beq_self_eq_true, if_true, Option.bind_some]
        exact continues (cursor.advance [sign] rest)
      · simp [Recogniser.byte, same]

theorem Continues.oneOf
    (continues : Continues next recogniser)
    (signs : List UInt8) :
    Continues ((one signs.contains).run next)
      (Recogniser.oneOf signs >>= fun _ => recogniser) := by
  intro cursor
  rw [run, runOne, Recogniser.bind_apply]
  cases cursor.rest with
  | nil => rfl
  | cons first rest =>
      cases listed : signs.contains first with
      | true =>
          simp only [Recogniser.oneOf, listed, if_true, Option.bind_some]
          exact continues (cursor.advance [first] rest)
      | false => simp only [Recogniser.oneOf, listed, Bool.false_eq_true, if_false]; rfl

theorem run_text
    (next : Cursor → Option Cursor)
    (expected : Text)
    (cursor : Cursor) :
    (text expected).run next cursor =
      (Recogniser.literal expected cursor.rest).bind fun read =>
        next (cursor.advance expected read.2) := by
  induction expected generalizing cursor with
  | nil => simp [text, Recogniser.literal, Cursor.advance]
  | cons sign others inductionHypothesis =>
      rw [text, run, run, runOne]
      cases cursor.rest with
      | nil => rfl
      | cons first rest =>
          by_cases same : first = sign
          · simp [same, inductionHypothesis, Recogniser.literal, Cursor.advance]
          · simp [same, Recogniser.literal]

theorem Continues.literal
    (continues : Continues next recogniser)
    (expected : Text) :
    Continues ((text expected).run next)
      (Recogniser.literal expected >>= fun _ => recogniser) := by
  intro cursor
  rw [run_text, Recogniser.bind_apply]
  cases Recogniser.literal expected cursor.rest with
  | none => rfl
  | some read => exact continues (cursor.advance expected read.2)

theorem Continues.spaces
    (continues : Continues next recogniser)
    (settled : Settled Byte.isSpace recogniser) :
    Continues ((many Byte.isSpace).run next)
      (Recogniser.spaces >>= fun _ => recogniser) := by
  intro cursor
  rw [run, runMany_eq continues.isSome_eq settled]
  exact continues _

theorem someSpaces_eq
    (text : Text) :
    Recogniser.someSpaces text =
      if text.head?.any Byte.isSpace then some ((), text.dropWhile Byte.isSpace)
      else none := by
  cases text with
  | nil => rfl
  | cons first rest =>
      by_cases isSpace : Byte.isSpace first = true
      · simp [Recogniser.someSpaces, isSpace]
      · simp [Recogniser.someSpaces, isSpace]

theorem word_eq
    (text : Text) :
    Recogniser.word text =
      if text.head?.any Byte.isWord then
        some (text.takeWhile Byte.isWord, text.dropWhile Byte.isWord)
      else none := by
  cases text with
  | nil => rfl
  | cons first rest =>
      by_cases isWord : Byte.isWord first = true
      · simp [Recogniser.word, isWord]
      · simp [Recogniser.word, isWord]

/-- At least one byte, and then a settled run. -/
theorem run_atLeastOne
    {α : Type}
    {accepts : UInt8 → Bool}
    {other : Recogniser α}
    (goesOn : ∀ cursor, (next cursor).isSome = (other cursor.rest).isSome)
    (settled : Settled accepts other)
    (cursor : Cursor) :
    (atLeastOne accepts).run next cursor =
      if cursor.rest.head?.any accepts then
        next (cursor.advance (cursor.rest.takeWhile accepts) (cursor.rest.dropWhile accepts))
      else none := by
  rw [atLeastOne, run, run, runOne]
  cases cursor.rest with
  | nil => rfl
  | cons first rest =>
      by_cases accepted : accepts first = true
      · simp [accepted, run, Cursor.advance, runMany_eq goesOn settled]
      · simp [accepted]

theorem Continues.someSpaces
    (continues : Continues next recogniser)
    (settled : Settled Byte.isSpace recogniser) :
    Continues ((atLeastOne Byte.isSpace).run next)
      (Recogniser.someSpaces >>= fun _ => recogniser) := by
  intro cursor
  rw [run_atLeastOne continues.isSome_eq settled, Recogniser.bind_apply, someSpaces_eq]
  split
  · exact continues (cursor.advance _ _)
  · rfl

theorem Continues.word
    (continues : Continues next recogniser)
    (settled : Settled Byte.isWord recogniser) :
    Continues ((atLeastOne Byte.isWord).run next) (Recogniser.word >>= fun _ => recogniser) := by
  intro cursor
  rw [run_atLeastOne continues.isSome_eq settled, Recogniser.bind_apply, word_eq]
  split
  · exact continues (cursor.advance _ _)
  · rfl

/-- A captured word stands in front of what is captured behind it. -/
theorem Continues.capturedWord
    (continues : Continues next recogniser)
    (settled : Settled Byte.isWord recogniser) :
    Continues ((group (atLeastOne Byte.isWord)).run next) (do
      let name ← Recogniser.word
      let others ← recogniser
      return name :: others) := by
  intro cursor
  have goesOn : ∀ closed : Cursor,
      (next (cursor.capture closed)).isSome = (recogniser closed.rest).isSome :=
    fun closed => continues.isSome_eq (cursor.capture closed)
  rw [run, run_atLeastOne goesOn settled, Recogniser.bind_apply, word_eq]
  split
  · have captured := continues (cursor.capture (cursor.advance
      (cursor.rest.takeWhile Byte.isWord) (cursor.rest.dropWhile Byte.isWord)))
    rw [captured]
    simp only [Cursor.capture, Cursor.advance, List.drop_left, Option.bind_some,
      Recogniser.bind_apply]
    cases recogniser (cursor.rest.dropWhile Byte.isWord) <;> simp
  · rfl

/-- A byte that may be missing is settled if nothing is lost by taking it. -/
theorem Continues.optional
    (continues : Continues next recogniser)
    (sign : UInt8)
    (settled : ∀ rest, (recogniser (sign :: rest)).isSome = true →
      (recogniser rest).isSome = true) :
    Continues ((maybe (· == sign)).run next)
      (Recogniser.optional sign >>= fun _ => recogniser) := by
  intro cursor
  obtain ⟨before, text, groups⟩ := cursor
  rw [run, runOne, Recogniser.bind_apply]
  cases text with
  | nil => exact continues ⟨before, [], groups⟩
  | cons first rest =>
      by_cases same : first = sign
      · subst same
        have behind := continues (Cursor.advance ⟨before, first :: rest, groups⟩ [first] rest)
        simp only [beq_self_eq_true, if_true, Recogniser.optional, Option.bind_some]
        cases wentOn : next (Cursor.advance ⟨before, first :: rest, groups⟩ [first] rest) with
        | some found =>
            rw [wentOn] at behind
            exact behind
        | none =>
            have refused : recogniser rest = none := by
              rw [wentOn] at behind
              exact Option.map_eq_none_iff.mp behind.symm
            have alsoHere : next ⟨before, first :: rest, groups⟩ = none := by
              rw [← Option.not_isSome_iff_eq_none, continues.isSome_eq]
              intro here
              simpa [refused] using settled rest here
            rw [refused, alsoHere]
            rfl
      · simpa [same, Recogniser.optional] using continues ⟨before, first :: rest, groups⟩

end Continues

/-! ### Texts that end where a run ends -/

/-- If nothing of a class may follow a text of this class, the text has to be a whole
run. -/
theorem run_text_of_refuses
    {accepts : UInt8 → Bool}
    {next : Cursor → Option Cursor}
    {expected : Text}
    (inside : expected.all accepts = true)
    {cursor : Cursor}
    (refuses : ∀ after : Text, after.head?.any accepts = true →
      next (cursor.advance expected after) = none) :
    (text expected).run next cursor =
      if cursor.rest.takeWhile accepts = expected then
        next (cursor.advance expected (cursor.rest.dropWhile accepts))
      else none := by
  rw [run_text]
  cases read : Recogniser.literal expected cursor.rest with
  | none =>
      have notWhole : cursor.rest.takeWhile accepts ≠ expected := by
        intro whole
        have cut : cursor.rest = expected ++ cursor.rest.dropWhile accepts := by
          rw [← whole, List.takeWhile_append_dropWhile]
        rw [cut, Recogniser.literal_append] at read
        contradiction
      rw [if_neg notWhole]
      rfl
  | some result =>
      have cut : cursor.rest = expected ++ result.2 := Recogniser.literal_eq_some read
      rw [Option.bind_some, cut]
      cases continued : result.2.head?.any accepts with
      | false =>
          rw [Recogniser.takeWhile_append_of_ended inside continued, if_pos rfl,
            Recogniser.dropWhile_append_of_ended inside continued]
      | true =>
          have notWhole : (expected ++ result.2).takeWhile accepts ≠ expected := by
            rw [List.takeWhile_append_of_pos (List.all_eq_true.mp inside)]
            intro whole
            have nothing : result.2.takeWhile accepts = [] := List.append_right_eq_self.mp whole
            cases behind : result.2 with
            | nil => simp [behind] at continued
            | cons byte rest =>
                have accepted : accepts byte = true := by simpa [behind] using continued
                simp [behind, accepted] at nothing
          rw [if_neg notWhole]
          exact refuses result.2 continued

/-- A run gives back exactly an ending that is asked for behind it, if nothing else of
the class may follow. -/
theorem runMany_text
    {accepts : UInt8 → Bool}
    {next : Cursor → Option Cursor}
    (refuses : ∀ cursor : Cursor, cursor.rest.head?.any accepts = true → next cursor = none)
    {ending : Text}
    (notEmpty : ending ≠ [])
    (inside : ending.all accepts = true)
    (groups : List Text)
    (before rest : Text) :
    runMany accepts ((text ending).run next) groups before rest =
      if ending.isSuffixOf (rest.takeWhile accepts) then
        next ⟨before ++ rest.takeWhile accepts, rest.dropWhile accepts, groups⟩
      else none := by
  have here : ∀ cursor : Cursor, (text ending).run next cursor =
      if cursor.rest.takeWhile accepts = ending then
        next (cursor.advance ending (cursor.rest.dropWhile accepts))
      else none :=
    fun cursor => run_text_of_refuses inside fun after => refuses (cursor.advance ending after)
  have notNil : ¬ ending.isSuffixOf [] = true := by
    simpa [List.isSuffixOf_iff_suffix] using notEmpty
  induction rest generalizing before with
  | nil =>
      rw [runMany, here, List.takeWhile_nil, if_neg notEmpty.symm, if_neg notNil]
  | cons byte rest inductionHypothesis =>
      by_cases accepted : accepts byte = true
      · rw [runMany, if_pos accepted, inductionHypothesis, here,
          List.takeWhile_cons_of_pos accepted, List.dropWhile_cons_of_pos accepted]
        by_cases later : ending <:+ rest.takeWhile accepts
        · -- The ending is shorter than what is left of the run here.
          have notWhole : byte :: rest.takeWhile accepts ≠ ending := by
            intro whole
            have length := later.length_le
            rw [← whole, List.length_cons] at length
            omega
          have alsoHere := later.trans (List.suffix_cons byte _)
          rw [if_pos (List.isSuffixOf_iff_suffix.mpr later), if_neg notWhole, Option.or_none,
            if_pos (List.isSuffixOf_iff_suffix.mpr alsoHere), List.append_assoc,
            List.singleton_append]
        · rw [if_neg (mt List.isSuffixOf_iff_suffix.mp later), Option.none_or]
          simp only [List.isSuffixOf_iff_suffix, List.suffix_cons_iff, later, or_false]
          by_cases whole : ending = byte :: rest.takeWhile accepts
          · rw [if_pos whole.symm, if_pos whole, whole]
            rfl
          · rw [if_neg (Ne.symm whole), if_neg whole]
      · rw [runMany, if_neg accepted, here, List.takeWhile_cons_of_neg accepted,
          if_neg notEmpty.symm, if_neg notNil]

end Pattern
end QueryAdvisor

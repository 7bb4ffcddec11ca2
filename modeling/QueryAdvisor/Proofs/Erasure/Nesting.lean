import QueryAdvisor.Connection.Settings

/-!
# Tags that are left after erasing

When a tag is erased, the bytes around it close up and may spell a tag, which is
not looked at again.  This module says exactly when that happens: the bytes of a
tag stand in the document in their order, with nothing but whole tags between
them, and with at least one.  Erasing the tags a second time changes something
exactly if a tag was left.
-/

namespace QueryAdvisor
namespace Text

/-- The bytes of a word in their order, with any number of copies of a token between
neighbours. -/
inductive Scattered (token : Text) : (word spread : Text) → Prop
  | last
      (byte : UInt8) :
      Scattered token [byte] [byte]
  | before
      (byte : UInt8)
      (copies : Nat)
      {word spread : Text}
      (rest : Scattered token word spread) :
      Scattered token (byte :: word)
        (byte :: ((List.replicate copies token).flatten ++ spread))

/-- A token and a word do not run into each other: the word neither begins with the
end of a token nor ends inside of one, and behind its first byte no token stands in
it.  The bytes of the token differ. -/
structure Apart (token word : Text) : Prop where
  nonempty : token ≠ []
  distinct : token.Nodup
  begins : ∀ ending, ending <:+ token → ending ≠ [] → ending ≠ token → ¬ ending <+: word
  ends : ∀ byte ∈ word.getLast?, byte ∉ token.dropLast
  inside : ¬ token <:+: word.tail

/-! ### Ends of a token -/

/-- A byte with another one behind it is not the last of a token. -/
theorem mem_dropLast_of_suffix
    {token others : Text}
    {byte : UInt8}
    (isEnding : byte :: others <:+ token)
    (goesOn : others ≠ []) :
    byte ∈ token.dropLast := by
  obtain ⟨front, rfl⟩ := isEnding
  rw [List.dropLast_append_of_ne_nil (List.cons_ne_nil byte others),
    List.dropLast_cons_of_ne_nil goesOn]
  simp

/-- No token begins with its second byte or a later one. -/
theorem not_prefix_token_of_suffix
    {token others : Text}
    {byte : UInt8}
    (distinct : token.Nodup)
    (isEnding : byte :: others <:+ token)
    (goesOn : others ≠ [])
    (rest : Text) :
    ¬ others <+: token ++ rest := by
  obtain ⟨second, later, rfl⟩ := List.exists_cons_of_ne_nil goesOn
  obtain ⟨front, rfl⟩ := isEnding
  intro begins
  cases front with
  | nil =>
      obtain rfl : second = byte := (List.cons_prefix_cons.mp begins).1
      simp at distinct
  | cons first front =>
      obtain rfl : second = first := (List.cons_prefix_cons.mp begins).1
      simp at distinct

namespace Scattered

variable {token word spread : Text}

theorem ne_nil
    (scattered : Scattered token word spread) :
    word ≠ [] ∧ spread ≠ [] := by
  cases scattered <;> exact ⟨List.cons_ne_nil _ _, List.cons_ne_nil _ _⟩

theorem getLast?_eq
    (scattered : Scattered token word spread) :
    spread.getLast? = word.getLast? := by
  induction scattered with
  | last byte => rfl
  | before byte copies rest inductionHypothesis =>
      obtain ⟨wordNonempty, spreadNonempty⟩ := rest.ne_nil
      obtain ⟨final, ends⟩ := Option.isSome_iff_exists.mp
        (List.getLast?_isSome.mpr spreadNonempty)
      rw [← List.cons_append, List.getLast?_append, ends, Option.some_or, ← ends,
        inductionHypothesis, List.getLast?_cons_of_ne_nil wordNonempty]

/-- An end of the token that stands at the beginning is the beginning of the word. -/
theorem of_ending_prefix
    (scattered : Scattered token word spread)
    (distinct : token.Nodup)
    (ends : ∀ byte ∈ word.getLast?, byte ∉ token.dropLast)
    {ending : Text}
    (isEnding : ending <:+ token)
    (nonempty : ending ≠ [])
    {rest : Text}
    (begins : ending <+: spread ++ rest) :
    ∃ laterWord laterSpread, word = ending ++ laterWord ∧ spread = ending ++ laterSpread ∧
      (laterWord = [] → laterSpread = []) := by
  -- Byte by byte: a copy of the token would begin with a later byte of the token.
  induction scattered generalizing ending with
  | last byte =>
      obtain ⟨first, others, rfl⟩ := List.exists_cons_of_ne_nil nonempty
      obtain ⟨rfl, -⟩ := List.cons_prefix_cons.mp begins
      have empty : others = [] := Decidable.byContradiction fun goesOn =>
        ends first rfl (mem_dropLast_of_suffix isEnding goesOn)
      exact ⟨[], [], by rw [empty]; rfl, by rw [empty]; rfl, fun _ => rfl⟩
  | @before byte copies word spread scattered inductionHypothesis =>
      obtain ⟨first, others, rfl⟩ := List.exists_cons_of_ne_nil nonempty
      rw [List.cons_append, List.append_assoc] at begins
      obtain ⟨rfl, goesOn⟩ := List.cons_prefix_cons.mp begins
      by_cases empty : others = []
      · subst empty
        exact ⟨word, _, rfl, rfl, fun missing => absurd missing scattered.ne_nil.1⟩
      · cases copies with
        | zero =>
            rw [List.getLast?_cons_of_ne_nil scattered.ne_nil.1] at ends
            obtain ⟨laterWord, laterSpread, rfl, rfl, complete⟩ := inductionHypothesis ends
              ((List.suffix_cons first others).trans isEnding) empty goesOn
            exact ⟨laterWord, laterSpread, rfl, rfl, complete⟩
        | succ copies =>
            rw [List.replicate_succ, List.flatten_cons, List.append_assoc] at goesOn
            exact absurd goesOn (not_prefix_token_of_suffix distinct isEnding empty _)

end Scattered

/-! ### Words that are left -/

/-- Copies of the token at the beginning are erased. -/
theorem eraseAll_copies_append
    {token : Text}
    (nonempty : token ≠ [])
    (copies : Nat)
    (rest : Text) :
    eraseAll token ((List.replicate copies token).flatten ++ rest) = eraseAll token rest := by
  induction copies with
  | zero => rfl
  | succ copies inductionHypothesis =>
      rw [List.replicate_succ, List.flatten_cons, List.append_assoc,
        eraseAll_token_append nonempty, inductionHypothesis]

/-- Two parts of a text are erased one by one if no token stands over the border. -/
theorem eraseAll_append
    {token rest : Text}
    (nonempty : token ≠ [])
    (border : ∀ ending, ending <:+ token → ending ≠ [] → ending ≠ token → ¬ ending <+: rest)
    (front : Text) :
    eraseAll token (front ++ rest) = eraseAll token front ++ eraseAll token rest := by
  induction front using tokenInduction nonempty with
  | nil => rfl
  | erased front inductionHypothesis =>
      rw [List.append_assoc, eraseAll_token_append nonempty, inductionHypothesis,
        eraseAll_token_append nonempty]
  | kept first front differs inductionHypothesis =>
      have differsThere : ¬ token <+: first :: (front ++ rest) := by
        rintro ⟨remaining, cut⟩
        rw [← List.cons_append] at cut
        rcases List.append_eq_append_iff.mp cut with ⟨more, whole, -⟩ | ⟨ending, whole, goesOn⟩
        · exact differs ⟨more, whole.symm⟩
        · by_cases empty : ending = []
          · subst empty
            exact differs ⟨[], by rw [whole]; simp⟩
          · refine border ending ⟨_, whole.symm⟩ empty ?_ ⟨remaining, goesOn.symm⟩
            intro equal
            have longer := congrArg List.length whole
            rw [equal] at longer
            simp at longer
            omega
      rw [List.cons_append, eraseAll_cons differsThere, inductionHypothesis,
        eraseAll_cons differs, List.cons_append]

/-- A scattered word closes up, if no token begins at its first byte. -/
theorem Scattered.eraseAll_append
    {token word spread : Text}
    (scattered : Scattered token word spread)
    (nonempty : token ≠ [])
    (distinct : token.Nodup)
    (ends : ∀ byte ∈ word.getLast?, byte ∉ token.dropLast)
    (inside : ¬ token <:+: word.tail)
    {rest : Text}
    (differs : ¬ token <+: spread ++ rest) :
    eraseAll token (spread ++ rest) = word ++ eraseAll token rest := by
  induction scattered with
  | last byte => exact eraseAll_cons differs
  | @before byte copies word spread scattered inductionHypothesis =>
      rw [List.getLast?_cons_of_ne_nil scattered.ne_nil.1] at ends
      have differsThere : ¬ token <+: spread ++ rest := by
        intro begins
        obtain ⟨later, -, rfl, -, -⟩ :=
          scattered.of_ending_prefix distinct ends List.suffix_rfl nonempty begins
        exact inside (List.prefix_append token later).isInfix
      have insideTail : ¬ token <:+: word.tail :=
        fun found => inside (found.trans (List.tail_suffix word).isInfix)
      rw [List.cons_append] at differs ⊢
      rw [eraseAll_cons differs, List.append_assoc, eraseAll_copies_append nonempty,
        inductionHypothesis ends insideTail differsThere, List.cons_append]

/-- A word at the beginning of what is left was scattered, behind copies of the
token. -/
theorem exists_scattered_of_prefix
    {token word text : Text}
    (nonempty : token ≠ [])
    (wordNonempty : word ≠ [])
    (left : word <+: eraseAll token text) :
    ∃ copies spread rest,
      text = (List.replicate copies token).flatten ++ (spread ++ rest) ∧
        Scattered token word spread ∧ ¬ token <+: spread ++ rest := by
  induction text using tokenInduction nonempty generalizing word with
  | nil => exact absurd (List.prefix_nil.mp left) wordNonempty
  | erased text inductionHypothesis =>
      rw [eraseAll_token_append nonempty] at left
      obtain ⟨copies, spread, rest, rfl, scattered, differs⟩ :=
        inductionHypothesis wordNonempty left
      refine ⟨copies + 1, spread, rest, ?_, scattered, differs⟩
      rw [List.replicate_succ, List.flatten_cons, List.append_assoc]
  | kept first text differs inductionHypothesis =>
      obtain ⟨byte, others, rfl⟩ := List.exists_cons_of_ne_nil wordNonempty
      rw [eraseAll_cons differs] at left
      obtain ⟨rfl, leftBehind⟩ := List.cons_prefix_cons.mp left
      by_cases empty : others = []
      · subst empty
        exact ⟨0, [byte], text, rfl, .last byte, differs⟩
      · obtain ⟨copies, spread, rest, rfl, scattered, -⟩ := inductionHypothesis empty leftBehind
        refine ⟨0, _, rest, ?_, .before byte copies scattered, ?_⟩
        · simp
        · simpa using differs

/-- What is left contains a word exactly if the text contains it scattered, and no
token begins at its first byte. -/
theorem infix_eraseAll_iff
    {token word : Text}
    (apart : Apart token word)
    (wordNonempty : word ≠ [])
    (text : Text) :
    word <:+: eraseAll token text ↔
      ∃ spread, Scattered token word spread ∧ ¬ token <+: spread ∧ spread <:+: text := by
  constructor
  · intro left
    induction text using tokenInduction apart.nonempty with
    | nil => exact absurd (List.infix_nil.mp left) wordNonempty
    | erased text inductionHypothesis =>
        rw [eraseAll_token_append apart.nonempty] at left
        obtain ⟨spread, scattered, differs, found⟩ := inductionHypothesis left
        exact ⟨spread, scattered, differs, found.trans (List.suffix_append token text).isInfix⟩
    | kept first text differs inductionHypothesis =>
        rw [eraseAll_cons differs, List.infix_cons_iff, ← eraseAll_cons differs] at left
        rcases left with here | behind
        · obtain ⟨copies, spread, rest, cut, scattered, differsThere⟩ :=
            exists_scattered_of_prefix apart.nonempty wordNonempty here
          refine ⟨spread, scattered, fun begins => ?_, ?_⟩
          · exact differsThere (begins.trans (List.prefix_append spread rest))
          · rw [cut]
            exact ⟨_, rest, List.append_assoc _ _ _⟩
        · obtain ⟨spread, scattered, differsThere, found⟩ := inductionHypothesis behind
          exact ⟨spread, scattered, differsThere,
            found.trans (List.suffix_cons first text).isInfix⟩
  · rintro ⟨spread, scattered, differs, front, rest, rfl⟩
    -- No token goes over either border of the scattered word, and it closes up.
    have border : ∀ ending, ending <:+ token → ending ≠ [] → ending ≠ token →
        ¬ ending <+: spread ++ rest := by
      intro ending isEnding nonempty proper begins
      obtain ⟨later, -, cut, -, -⟩ :=
        scattered.of_ending_prefix apart.distinct apart.ends isEnding nonempty begins
      exact apart.begins ending isEnding nonempty proper ⟨later, cut.symm⟩
    have differsThere : ¬ token <+: spread ++ rest := by
      intro begins
      obtain ⟨-, later, -, cut, -⟩ := scattered.of_ending_prefix apart.distinct apart.ends
        List.suffix_rfl apart.nonempty begins
      exact differs ⟨later, cut.symm⟩
    rw [List.append_assoc, eraseAll_append apart.nonempty border, scattered.eraseAll_append
      apart.nonempty apart.distinct apart.ends apart.inside differsThere]
    exact ⟨_, _, List.append_assoc _ _ _⟩

end Text

namespace DatabaseConfig

open Text

/-- The two tags that are erased. -/
inductive Tag where
  | opening
  | closing
deriving DecidableEq, Repr

namespace Tag

/-- The bytes of a tag. -/
def text : Tag → Text
  | opening => ascii "<%="
  | closing => ascii "%>"

/-- The bytes of a tag stand in a document around other tags.  Closing tags between
them are erased last, so opening tags may stand between all bytes, also those of the
closing tags. -/
def EnclosesTags
    (tag : Tag)
    (document : Text) : Prop :=
  ∃ inner outer,
    Scattered closing.text tag.text inner ∧ inner ≠ closing.text ∧
      Scattered opening.text inner outer ∧ outer ≠ opening.text ∧
      outer <:+: document

/-- The bytes of an opening tag with closing tags between them. -/
theorem scattered_opening
    {inner : Text}
    (scattered : Scattered closing.text opening.text inner) :
    ∃ first second,
      inner = 60 :: ((List.replicate first closing.text).flatten ++
        37 :: ((List.replicate second closing.text).flatten ++ [61])) := by
  rcases scattered with _ | ⟨_, first, _ | ⟨_, second, _ | ⟨_, _, ⟨⟩⟩⟩⟩
  exact ⟨first, second, rfl⟩

/-- The bytes of a closing tag with closing tags between them. -/
theorem scattered_closing
    {inner : Text}
    (scattered : Scattered closing.text closing.text inner) :
    ∃ copies, inner = 37 :: ((List.replicate copies closing.text).flatten ++ [62]) := by
  rcases scattered with _ | ⟨_, copies, _ | ⟨_, _, ⟨⟩⟩⟩
  exact ⟨copies, rfl⟩

theorem suffix_opening
    {ending : Text}
    (isEnding : ending <:+ opening.text)
    (nonempty : ending ≠ [])
    (proper : ending ≠ opening.text) :
    ending = [37, 61] ∨ ending = [61] := by
  have spelled : opening.text = [60, 37, 61] := rfl
  rw [spelled] at isEnding proper
  simpa [List.suffix_cons_iff, nonempty, proper] using isEnding

/-- The last byte of a tag stands nowhere else in a tag. -/
theorem last_not_mem_dropLast
    {tag : Tag}
    {byte : UInt8}
    (isLast : byte ∈ tag.text.getLast?)
    (other : Tag) :
    byte ∉ other.text.dropLast := by
  cases tag with
  | opening =>
      obtain rfl : 61 = byte := Option.some.inj isLast
      cases other <;> decide
  | closing =>
      obtain rfl : 62 = byte := Option.some.inj isLast
      cases other <;> decide

/-- No closing tag runs into a tag. -/
theorem apart_closing (tag : Tag) : Apart closing.text tag.text where
  nonempty := by decide
  distinct := by decide
  begins := by
    intro ending isEnding nonempty proper
    have spelled : closing.text = [37, 62] := rfl
    rw [spelled] at isEnding proper
    obtain rfl : ending = [62] := by
      simpa [List.suffix_cons_iff, nonempty, proper] using isEnding
    cases tag <;> decide
  ends := fun _ isLast => last_not_mem_dropLast isLast closing
  inside := by cases tag <;> decide +kernel

/-- No opening tag runs into a tag with closing tags between its bytes. -/
theorem apart_opening
    {tag : Tag}
    {inner : Text}
    (scattered : Scattered closing.text tag.text inner)
    (other : inner ≠ closing.text) :
    Apart opening.text inner where
  nonempty := by decide
  distinct := by decide
  begins := by
    intro ending isEnding nonempty proper
    have spelled := suffix_opening isEnding nonempty proper
    cases tag with
    | opening =>
        obtain ⟨_, _, rfl⟩ := scattered_opening scattered
        rcases spelled with rfl | rfl <;> simp [List.cons_prefix_cons]
    | closing =>
        obtain ⟨_ | copies, rfl⟩ := scattered_closing scattered
        · exact absurd rfl other
        · rcases spelled with rfl | rfl <;>
            simp [List.cons_prefix_cons, List.replicate_succ, text, ascii]
  ends := by
    rw [scattered.getLast?_eq]
    exact fun _ isLast => last_not_mem_dropLast isLast opening
  inside := by
    have notClosing : (60 : UInt8) ∉ closing.text := by decide
    have absent : (60 : UInt8) ∉ inner.tail := by
      cases tag with
      | opening =>
          obtain ⟨_, _, rfl⟩ := scattered_opening scattered
          simp [notClosing]
      | closing =>
          obtain ⟨_, rfl⟩ := scattered_closing scattered
          simp [notClosing]
    intro found
    exact absent (found.subset (by decide))

/-- An opening tag in one piece has no closing tags between its bytes. -/
theorem eq_opening_of_prefix
    {tag : Tag}
    {inner : Text}
    (scattered : Scattered closing.text tag.text inner)
    (begins : opening.text <+: inner) :
    inner = opening.text := by
  have opens : opening.text = [60, 37, 61] := rfl
  have closes : closing.text = [37, 62] := rfl
  cases tag with
  | opening =>
      obtain ⟨first, second, rfl⟩ := scattered_opening scattered
      cases first with
      | zero =>
          cases second with
          | zero => rfl
          | succ => simp [opens, closes, List.replicate_succ, List.cons_prefix_cons] at begins
      | succ => simp [opens, closes, List.replicate_succ, List.cons_prefix_cons] at begins
  | closing =>
      obtain ⟨_, rfl⟩ := scattered_closing scattered
      simp [opens, List.cons_prefix_cons] at begins

/-- No opening tag begins at the first byte of a scattered tag, unless it is one in
one piece. -/
theorem opening_prefix_iff
    {tag : Tag}
    {inner outer : Text}
    (scattered : Scattered closing.text tag.text inner)
    (other : inner ≠ closing.text)
    (scatteredAgain : Scattered opening.text inner outer) :
    opening.text <+: outer ↔ outer = opening.text := by
  constructor
  · intro begins
    have apart := apart_opening scattered other
    obtain ⟨laterInner, laterOuter, innerCut, rfl, complete⟩ :=
      scatteredAgain.of_ending_prefix apart.distinct apart.ends List.suffix_rfl apart.nonempty
        (begins.trans (List.prefix_append outer []))
    have whole := eq_opening_of_prefix scattered ⟨laterInner, innerCut.symm⟩
    have nothingLater : laterInner = [] :=
      List.append_cancel_left (innerCut.symm.trans (whole.trans (List.append_nil _).symm))
    rw [complete nothingLater, List.append_nil]
  · rintro rfl
    exact List.prefix_rfl

/-- A closing tag begins at the first byte of a scattered tag only if it is one in one
piece. -/
theorem closing_prefix_iff
    {tag : Tag}
    {inner : Text}
    (scattered : Scattered closing.text tag.text inner) :
    closing.text <+: inner ↔ inner = closing.text := by
  have closes : closing.text = [37, 62] := rfl
  constructor
  · intro begins
    cases tag with
    | opening =>
        obtain ⟨_, _, rfl⟩ := scattered_opening scattered
        simp [closes, List.cons_prefix_cons] at begins
    | closing =>
        obtain ⟨copies, rfl⟩ := scattered_closing scattered
        cases copies with
        | zero => rfl
        | succ => simp [closes, List.replicate_succ, List.cons_prefix_cons] at begins
  · rintro rfl
    exact List.prefix_rfl

end Tag

/-- A tag is left exactly where its bytes stood around other tags. -/
theorem infix_stripTags_iff
    (tag : Tag)
    (document : Text) :
    tag.text <:+: stripTags document ↔ tag.EnclosesTags document := by
  have tagNonempty : tag.text ≠ [] := by cases tag <;> decide
  rw [show stripTags document =
      eraseAll Tag.closing.text (eraseAll Tag.opening.text document) from rfl,
    infix_eraseAll_iff tag.apart_closing tagNonempty]
  constructor
  · rintro ⟨inner, scattered, differs, found⟩
    have other : inner ≠ Tag.closing.text := mt (Tag.closing_prefix_iff scattered).mpr differs
    obtain ⟨outer, scatteredAgain, differsAgain, foundThere⟩ :=
      (infix_eraseAll_iff (Tag.apart_opening scattered other) scattered.ne_nil.2 document).mp found
    exact ⟨inner, outer, scattered, other, scatteredAgain,
      mt (Tag.opening_prefix_iff scattered other scatteredAgain).mpr differsAgain, foundThere⟩
  · rintro ⟨inner, outer, scattered, other, scatteredAgain, otherAgain, found⟩
    refine ⟨inner, scattered, mt (Tag.closing_prefix_iff scattered).mp other, ?_⟩
    exact (infix_eraseAll_iff (Tag.apart_opening scattered other) scattered.ne_nil.2 document).mpr
      ⟨outer, scatteredAgain,
        mt (Tag.opening_prefix_iff scattered other scatteredAgain).mp otherAgain, found⟩

/-- Exactly the documents in which no tag stands stay as they are. -/
theorem stripTags_eq_self_iff_forall
    (document : Text) :
    stripTags document = document ↔ ∀ tag : Tag, ¬ tag.text <:+: document := by
  rw [stripTags_eq_self_iff]
  constructor
  · rintro ⟨noOpening, noClosing⟩ (_ | _)
    · exact noOpening
    · exact noClosing
  · intro untagged
    exact ⟨untagged .opening, untagged .closing⟩

/-- What is left of a document holds a tag exactly if the bytes of that tag stood
around other tags, and erasing the tags once more changes nothing exactly if none is
left. -/
theorem stripTags_leaves_enclosing_tags
    (document : Text) :
    (∀ tag : Tag, tag.text <:+: stripTags document ↔ tag.EnclosesTags document) ∧
      (stripTags (stripTags document) = stripTags document ↔
        ∀ tag : Tag, ¬ tag.EnclosesTags document) := by
  refine ⟨fun tag => infix_stripTags_iff tag document, ?_⟩
  simp only [stripTags_eq_self_iff_forall, infix_stripTags_iff]

/-- Erasing the closing tags may leave an opening one. -/
example : stripTags (ascii "<%%>=") = ascii "<%=" := by
  decide

/-- A closing tag inside another one: one is erased and one is left, which a second
pass erases. -/
theorem stripTags_nestedClosing :
    ascii "%>" <:+: stripTags (ascii "%%>>") ∧
      stripTags (stripTags (ascii "%%>>")) ≠ stripTags (ascii "%%>>") := by
  decide +kernel

end DatabaseConfig
end QueryAdvisor

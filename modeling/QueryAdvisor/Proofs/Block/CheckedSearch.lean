import Mathlib.Data.Nat.Find
import Mathlib.Order.Bounds.Defs
import QueryAdvisor.Proofs.Block.Scanner

/-!
# The search for the end of a block, with checked reads

The search for the keyword that closes a block is given once more as loops over
offsets into the whole text.  They jump over quotations and comments, and a
backslash may carry an offset beyond the end.  Every read is checked: one behind the
end of the text makes the search fail.  It never fails, and its answer is the first
offset at which the machine of modes is in code and the keyword stands as a whole
word.
-/

namespace QueryAdvisor
namespace TableBlock

/-- The offset behind a quotation, looked for from inside it.  An open quotation runs
to the end of the text. -/
def behindQuotation
    (text : Text)
    (mark : UInt8)
    (offset : Nat) : Option Nat :=
  if offset < text.length then do
    let byte ← text[offset]?
    if byte = Byte.backslash then behindQuotation text mark (offset + 2)
    else if byte = mark then return offset + 1
    else behindQuotation text mark (offset + 1)
  else return text.length
termination_by text.length - offset

/-- The offset of the end of a line, looked for from inside it. -/
def endOfLine
    (text : Text)
    (offset : Nat) : Option Nat :=
  if offset < text.length then do
    let byte ← text[offset]?
    if byte = Byte.newline then return offset
    else endOfLine text (offset + 1)
  else return text.length
termination_by text.length - offset

/-- Whether there is a word byte before an offset. -/
def wordBefore?
    (text : Text)
    (offset : Nat) : Option Bool :=
  if offset = 0 then some false else (text[offset - 1]?).map Byte.isWord

/-- Whether there is a word byte at an offset. -/
def wordAt?
    (text : Text)
    (offset : Nat) : Option Bool :=
  if text.length ≤ offset then some false else (text[offset]?).map Byte.isWord

/-- Whether a keyword that closes a block stands at an offset, as a whole word. -/
def closesAt?
    (text : Text)
    (offset : Nat) : Option Bool :=
  if (ascii "end").isPrefixOf (text.drop offset) then do
    let afterWord ← wordBefore? text offset
    let beforeWord ← wordAt? text (offset + 3)
    return !afterWord && !beforeWord
  else return false

/-- What the search does at an offset: it goes on at another one, or stops at the
keyword. -/
inductive Move where
  | goOn (next : Nat)
  | stop (offset : Nat)
deriving DecidableEq, Repr

/-- One move of the search, from an offset outside quotations and comments. -/
def move?
    (text : Text)
    (offset : Nat) : Option Move := do
  let byte ← text[offset]?
  if byte = Byte.quote ∨ byte = Byte.apostrophe then
    return .goOn (← behindQuotation text byte (offset + 1))
  else if byte = Byte.hash then
    return .goOn (← endOfLine text (offset + 1))
  else if ← closesAt? text offset then
    return .stop offset
  else
    return .goOn (offset + 1)

/-! ### Reads inside the text -/

theorem getElem?_of_drop
    {text rest : Text}
    {offset : Nat}
    {byte : UInt8}
    (next : text.drop offset = byte :: rest) :
    text[offset]? = some byte := by
  rw [← List.head?_drop, next, List.head?_cons]

theorem drop_succ_of_drop
    {text rest : Text}
    {offset : Nat}
    {byte : UInt8}
    (next : text.drop offset = byte :: rest) :
    text.drop (offset + 1) = rest := by
  rw [← List.tail_drop, next, List.tail_cons]

theorem lt_length_of_drop
    {text rest : Text}
    {offset : Nat}
    {byte : UInt8}
    (next : text.drop offset = byte :: rest) :
    offset < text.length :=
  (List.getElem?_eq_some_iff.mp (getElem?_of_drop next)).1

theorem behindQuotation_of_le
    {text : Text}
    {offset : Nat}
    (beyond : text.length ≤ offset)
    (mark : UInt8) :
    behindQuotation text mark offset = some text.length := by
  rw [behindQuotation, if_neg (Nat.not_lt.mpr beyond)]
  rfl

theorem behindQuotation_of_drop
    {text rest : Text}
    {offset : Nat}
    {byte : UInt8}
    (next : text.drop offset = byte :: rest)
    (mark : UInt8) :
    behindQuotation text mark offset =
      if byte = Byte.backslash then behindQuotation text mark (offset + 2)
      else if byte = mark then some (offset + 1)
      else behindQuotation text mark (offset + 1) := by
  rw [behindQuotation, if_pos (lt_length_of_drop next), getElem?_of_drop next]
  rfl

theorem endOfLine_of_drop
    {text rest : Text}
    {offset : Nat}
    {byte : UInt8}
    (next : text.drop offset = byte :: rest) :
    endOfLine text offset =
      if byte = Byte.newline then some offset else endOfLine text (offset + 1) := by
  rw [endOfLine, if_pos (lt_length_of_drop next), getElem?_of_drop next]
  rfl

/-- A quotation is passed over as far as it is long, also if a backslash is the last
byte of the text. -/
theorem behindQuotation_eq
    {text remaining : Text}
    {offset : Nat}
    (inside : offset ≤ text.length)
    (cut : text.drop offset = remaining)
    (mark : UInt8) :
    behindQuotation text mark offset = some (offset + quotationLength mark remaining) := by
  fun_induction quotationLength mark remaining generalizing offset with
  | case1 =>
      have ended : text.length ≤ offset := List.drop_eq_nil_iff.mp cut
      rw [behindQuotation_of_le ended, Nat.le_antisymm ended inside]
      rfl
  | case2 last =>
      -- Behind a backslash as the last byte, the offset is beyond the end.
      have ended : text.length ≤ offset + 1 := List.drop_eq_nil_iff.mp (drop_succ_of_drop cut)
      have length : text.length = offset + 1 := Nat.le_antisymm ended (lt_length_of_drop cut)
      rw [behindQuotation_of_drop cut, behindQuotation_of_le ended,
        behindQuotation_of_le (Nat.le_succ_of_le ended), length]
      split
      · rfl
      · split <;> rfl
  | case3 second rest inductionHypothesis =>
      have later := drop_succ_of_drop (drop_succ_of_drop cut)
      have insideLater : offset + 2 ≤ text.length := lt_length_of_drop (drop_succ_of_drop cut)
      rw [behindQuotation_of_drop cut, if_pos rfl, inductionHypothesis insideLater later]
      congr 1
      omega
  | case4 second rest noEscape =>
      rw [behindQuotation_of_drop cut, if_neg noEscape, if_pos rfl]
  | case5 first second rest noEscape goesOn inductionHypothesis =>
      rw [behindQuotation_of_drop cut, if_neg noEscape, if_neg goesOn,
        inductionHypothesis (lt_length_of_drop cut) (drop_succ_of_drop cut)]
      congr 1
      omega

/-- A comment is passed over up to the end of its line. -/
theorem endOfLine_eq
    {text remaining : Text}
    {offset : Nat}
    (inside : offset ≤ text.length)
    (cut : text.drop offset = remaining) :
    endOfLine text offset = some (offset + commentLength remaining) := by
  induction remaining generalizing offset with
  | nil =>
      have ended : text.length ≤ offset := List.drop_eq_nil_iff.mp cut
      rw [endOfLine, if_neg (Nat.not_lt.mpr ended), Nat.le_antisymm ended inside]
      rfl
  | cons first rest inductionHypothesis =>
      rw [endOfLine_of_drop cut]
      split
      · rename_i ends
        subst ends
        rfl
      · rename_i goesOn
        rw [inductionHypothesis (lt_length_of_drop cut) (drop_succ_of_drop cut)]
        have longer : commentLength (first :: rest) = commentLength rest + 1 := by
          simp [commentLength, goesOn]
        congr 1
        omega

/-- A read inside the text does not fail. -/
theorem map_isWord_getElem?
    {text : Text}
    {offset : Nat}
    (inside : offset < text.length) :
    (text[offset]?).map Byte.isWord = some ((text[offset]?).any Byte.isWord) := by
  rw [List.getElem?_eq_getElem inside, Option.map_some, Option.any_some]

theorem wordBefore?_eq
    {text : Text}
    {offset : Nat}
    (inside : offset ≤ text.length) :
    wordBefore? text offset = some (isAfterWord text offset) := by
  cases offset with
  | zero => rfl
  | succ previous =>
      rw [wordBefore?, if_neg (Nat.succ_ne_zero previous)]
      exact map_isWord_getElem? inside

theorem wordAt?_eq
    (text : Text)
    (offset : Nat) :
    wordAt? text offset = some ((text.drop offset).head?.any Byte.isWord) := by
  rw [wordAt?, List.head?_drop]
  split
  · rename_i ended
    rw [List.getElem?_eq_none ended]
    rfl
  · rename_i goesOn
    exact map_isWord_getElem? (Nat.lt_of_not_le goesOn)

/-- The bytes around a keyword are read only where there are any. -/
theorem closesAt?_eq
    (text : Text)
    (offset : Nat) :
    closesAt? text offset =
      some (closesBlock (isAfterWord text offset) (text.drop offset)) := by
  rw [closesAt?, closesBlock]
  split
  · rename_i begins
    have inside : offset < text.length := by
      obtain ⟨_, cut⟩ := List.isPrefixOf_iff_prefix.mp begins
      exact lt_length_of_drop cut.symm
    rw [wordBefore?_eq (Nat.le_of_lt inside), wordAt?_eq, begins, Bool.and_true, List.drop_drop]
    rfl
  · rename_i differs
    rw [Bool.eq_false_iff.mpr differs, Bool.and_false, Bool.false_and]
    rfl

/-- One move reads nothing behind the end: it passes over a quotation or a comment as
a whole, stops at the keyword, or passes over one byte. -/
theorem move?_eq
    {text rest : Text}
    {offset : Nat}
    {first : UInt8}
    (next : text.drop offset = first :: rest) :
    move? text offset =
      some
        (if first = Byte.quote ∨ first = Byte.apostrophe then
          .goOn (offset + 1 + quotationLength first rest)
        else if first = Byte.hash then .goOn (offset + 1 + commentLength rest)
        else if closesBlock (isAfterWord text offset) (first :: rest) then .stop offset
        else .goOn (offset + 1)) := by
  have inside : offset + 1 ≤ text.length := lt_length_of_drop next
  have later := drop_succ_of_drop next
  simp only [move?, getElem?_of_drop next, behindQuotation_eq inside later,
    endOfLine_eq inside later, closesAt?_eq, next, Option.bind_eq_bind, Option.bind_some]
  split
  · rfl
  · split
    · rfl
    · split <;> rfl

theorem lt_of_move?_eq_goOn
    {text : Text}
    {offset next : Nat}
    (inside : offset < text.length)
    (moved : move? text offset = some (.goOn next)) :
    offset < next := by
  rw [move?_eq (List.drop_eq_getElem_cons inside), Option.some.injEq] at moved
  split at moved
  · injection moved with reached
    omega
  · split at moved
    · injection moved with reached
      omega
    · split at moved
      · contradiction
      · injection moved with reached
        omega

/-- Look for the closing keyword from an offset on, move by move.  There is no answer
if a read fails. -/
def searchFrom
    (text : Text)
    (offset : Nat) : Option (Option Nat) :=
  if inside : offset < text.length then
    match moved : move? text offset with
    | none => none
    | some (.stop found) => some (some found)
    | some (.goOn next) =>
      have := lt_of_move?_eq_goOn inside moved
      searchFrom text next
  else some none
termination_by text.length - offset

/-- Bytes that are jumped over only move the offset. -/
theorem endFrom_jump
    (text : Text)
    (offset skip : Nat) :
    endFrom (isAfterWord text offset) offset skip (text.drop offset) =
      endFrom (isAfterWord text (offset + skip)) (offset + skip) 0
        (text.drop (offset + skip)) := by
  induction skip generalizing offset with
  | zero => rfl
  | succ skip inductionHypothesis =>
      cases next : text.drop offset with
      | nil =>
          have beyond : text.length ≤ offset + (skip + 1) :=
            Nat.le_trans (List.drop_eq_nil_iff.mp next) (Nat.le_add_right _ _)
          rw [List.drop_eq_nil_of_le beyond, endFrom, endFrom]
      | cons first rest =>
          rw [endFrom, ← isAfterWord_succ next, ← drop_succ_of_drop next, inductionHypothesis,
            Nat.add_assoc, Nat.add_comm 1 skip]

theorem searchFrom_of_le
    {text : Text}
    {offset : Nat}
    (beyond : text.length ≤ offset) :
    searchFrom text offset = some none := by
  rw [searchFrom, dif_neg (Nat.not_lt.mpr beyond)]

theorem searchFrom_of_stop
    {text : Text}
    {offset found : Nat}
    (inside : offset < text.length)
    (moved : move? text offset = some (.stop found)) :
    searchFrom text offset = some (some found) := by
  rw [searchFrom, dif_pos inside]
  split
  · rename_i failed
    simp [moved] at failed
  · rename_i other stops
    obtain rfl : found = other := by simpa [moved] using stops
    rfl
  · rename_i next goes
    simp [moved] at goes

theorem searchFrom_of_goOn
    {text : Text}
    {offset next : Nat}
    (inside : offset < text.length)
    (moved : move? text offset = some (.goOn next)) :
    searchFrom text offset = searchFrom text next := by
  rw [searchFrom, dif_pos inside]
  split
  · rename_i failed
    simp [moved] at failed
  · rename_i found stops
    simp [moved] at stops
  · rename_i other goes
    obtain rfl : next = other := by simpa [moved] using goes
    rfl

/-- No read fails, and the search over offsets is the search through the remaining
text. -/
theorem searchFrom_eq
    (text : Text)
    (offset : Nat) :
    searchFrom text offset =
      some (endFrom (isAfterWord text offset) offset 0 (text.drop offset)) := by
  -- Every move goes on behind the offset, so that less of the text is left.
  induction left : text.length - offset using Nat.strongRecOn generalizing offset with
  | ind length inductionHypothesis =>
      cases next : text.drop offset with
      | nil =>
          rw [searchFrom_of_le (List.drop_eq_nil_iff.mp next), endFrom]
      | cons first rest =>
          have inside := lt_length_of_drop next
          have jumps (skip : Nat)
              (moved : move? text offset = some (.goOn (offset + 1 + skip))) :
              searchFrom text offset =
                some (endFrom (Byte.isWord first) (offset + 1) skip rest) := by
            rw [searchFrom_of_goOn inside moved, inductionHypothesis _ (by omega) _ rfl,
              ← isAfterWord_succ next, ← drop_succ_of_drop next, endFrom_jump text (offset + 1)]
          have moved := move?_eq next
          rw [endFrom]
          by_cases quotes : first = Byte.quote ∨ first = Byte.apostrophe
          · have noWord : Byte.isWord first = false := by
              rcases quotes with rfl | rfl <;> decide
            rw [if_pos quotes] at moved ⊢
            rw [jumps _ moved, noWord]
          · rw [if_neg quotes] at moved ⊢
            by_cases comments : first = Byte.hash
            · have noWord : Byte.isWord first = false := by
                rw [comments]
                decide
              rw [if_pos comments] at moved ⊢
              rw [jumps _ moved, noWord]
            · rw [if_neg comments] at moved ⊢
              by_cases closes : closesBlock (isAfterWord text offset) (first :: rest) = true
              · rw [if_pos closes] at moved ⊢
                exact searchFrom_of_stop inside moved
              · rw [if_neg closes] at moved ⊢
                exact jumps 0 moved

/-! ### The answer -/

/-- At an offset at or behind the beginning of a body, the machine that begins there is
in code, and the keyword stands as a whole word. -/
structure ClosesBody (text : Text) (start offset : Nat) : Prop where
  forward : start ≤ offset
  inCode : Mode.code.run ((text.drop start).take (offset - start)) = .code
  keyword : (text.drop offset).take 3 = ascii "end"
  before : ∀ byte, 0 < offset → text[offset - 1]? = some byte → Byte.isWord byte = false
  behind : ∀ byte, text[offset + 3]? = some byte → Byte.isWord byte = false

theorem any_isWord_eq_false_iff
    (read : Option UInt8) :
    read.any Byte.isWord = false ↔ ∀ byte, read = some byte → Byte.isWord byte = false := by
  cases read <;> simp

theorem isAfterWord_eq_false_iff
    (text : Text)
    (offset : Nat) :
    isAfterWord text offset = false ↔
      ∀ byte, 0 < offset → text[offset - 1]? = some byte → Byte.isWord byte = false := by
  cases offset with
  | zero => simp [isAfterWord]
  | succ previous =>
      rw [isAfterWord, any_isWord_eq_false_iff]
      simp

theorem closesAt_iff_closesBody
    {text : Text}
    {start offset : Nat} :
    ClosesAt text start offset ↔ ClosesBody text start offset := by
  have begins : (ascii "end").isPrefixOf (text.drop offset) = true ↔
      (text.drop offset).take 3 = ascii "end" := by
    rw [List.isPrefixOf_iff_prefix, List.prefix_iff_eq_take, eq_comm]
    rfl
  have ended : ((text.drop offset).drop 3).head?.any Byte.isWord = false ↔
      ∀ byte, text[offset + 3]? = some byte → Byte.isWord byte = false := by
    rw [List.drop_drop, List.head?_drop, any_isWord_eq_false_iff]
  simp only [ClosesAt, modeAt, closesBlock, Bool.and_eq_true, Bool.not_eq_true', begins, ended,
    isAfterWord_eq_false_iff]
  constructor
  · rintro ⟨forward, inCode, ⟨before, keyword⟩, behind⟩
    exact ⟨forward, inCode, keyword, before, behind⟩
  · rintro ⟨forward, inCode, keyword, before, behind⟩
    exact ⟨forward, inCode, ⟨before, keyword⟩, behind⟩

/-- A body has no end exactly if no keyword closes it. -/
theorem end?_eq_none_iff
    {text : Text}
    {start : Nat} :
    TableBlock.end? text start = none ↔ ∀ offset, ¬ ClosesAt text start offset := by
  constructor
  · intro unclosed offset closes
    have closed : ∃ stop, ClosesAt text start stop := ⟨offset, closes⟩
    have found := end?_eq_some_iff.mpr
      ⟨Nat.find_spec closed, fun earlier before => Nat.find_min closed before⟩
    rw [unclosed] at found
    contradiction
  · intro neverClosed
    cases found : TableBlock.end? text start with
    | none => rfl
    | some stop => exact absurd (end?_eq_some_iff.mp found).1 (neverClosed stop)

/-- A body ends at the least offset at which a keyword closes it. -/
theorem end?_eq_some_iff_isLeast
    {text : Text}
    {start stop : Nat} :
    TableBlock.end? text start = some stop ↔
      IsLeast {offset | ClosesAt text start offset} stop := by
  rw [end?_eq_some_iff]
  refine and_congr Iff.rfl ⟨fun least offset closes => ?_, fun least offset earlier closes => ?_⟩
  · exact Nat.le_of_not_lt fun earlier => least offset earlier closes
  · exact Nat.not_lt.mpr (least closes) earlier

/-- The search with checked reads always answers, and its answer is the least offset at
which the machine of modes is in code and the keyword stands as a whole word; there is
none exactly if there is no such offset. -/
theorem searchFrom_answers_least
    (text : Text)
    (start : Nat) :
    searchFrom text start = some (TableBlock.end? text start) ∧
      (∀ stop, TableBlock.end? text start = some stop ↔
        IsLeast {offset | ClosesBody text start offset} stop) ∧
      (TableBlock.end? text start = none ↔ ∀ offset, ¬ ClosesBody text start offset) := by
  simp only [← closesAt_iff_closesBody]
  exact ⟨searchFrom_eq text start, fun _ => end?_eq_some_iff_isLeast, end?_eq_none_iff⟩

/-- A quotation that is still open, with a backslash as the last byte. -/
example : searchFrom (ascii "end 'end\\") 3 = some none := by
  rw [searchFrom_eq]
  decide

end TableBlock
end QueryAdvisor

import QueryAdvisor.Proofs.Recogniser.Grammar
import QueryAdvisor.Schema.Block

/-!
# The search for the end of a block, byte by byte

The keyword that closes a block is looked for outside quotations and comments.
The search jumps over a quotation or a comment as a whole.  This module gives
the same search one byte at a time, as a machine with a mode for each of code,
quotation, escaped byte and comment, and proves the two equal.  With the machine
one can say where the search stops: at the first place where the mode is code
and the keyword stands as a whole word.
-/

namespace QueryAdvisor
namespace TableBlock

/-- What the next byte of a block belongs to. -/
inductive Mode where
  /-- Code, where the closing keyword counts. -/
  | code
  /-- A quotation that is closed by the mark. -/
  | quotation (mark : UInt8)
  /-- The byte after a backslash in a quotation. -/
  | escape (mark : UInt8)
  /-- A comment, up to the end of its line. -/
  | comment
deriving DecidableEq, Repr

namespace Mode

/-- The mode after one byte. -/
def step : Mode → UInt8 → Mode
  | code, byte =>
    if byte = Byte.quote ∨ byte = Byte.apostrophe then quotation byte
    else if byte = Byte.hash then comment
    else code
  | quotation mark, byte =>
    if byte = Byte.backslash then escape mark
    else if byte = mark then code
    else quotation mark
  | escape mark, _ => quotation mark
  | comment, byte => if byte = Byte.newline then code else comment

/-- The mode after a text. -/
def run
    (mode : Mode)
    (text : Text) : Mode :=
  text.foldl step mode

@[simp] theorem run_nil (mode : Mode) : mode.run [] = mode := rfl

@[simp] theorem run_cons
    (mode : Mode)
    (byte : UInt8)
    (text : Text) :
    mode.run (byte :: text) = (mode.step byte).run text := rfl

@[simp] theorem run_append
    (mode : Mode)
    (left right : Text) :
    mode.run (left ++ right) = (mode.run left).run right :=
  List.foldl_append

/-- Word bytes open neither a quotation nor a comment. -/
theorem step_code_of_isWord
    {byte : UInt8}
    (word : Byte.isWord byte = true) :
    code.step byte = code := by
  have notSign {sign : UInt8} (isSign : Byte.isWord sign = false) : byte ≠ sign := by
    rintro rfl
    simp [isSign] at word
  rw [step, if_neg, if_neg (notSign (by decide))]
  rintro (equal | equal)
  · exact notSign (by decide) equal
  · exact notSign (by decide) equal

/-- Only quotes and apostrophes open quotations. -/
def Proper : Mode → Prop
  | quotation mark | escape mark => mark = Byte.quote ∨ mark = Byte.apostrophe
  | code | comment => True

theorem Proper.step
    {mode : Mode}
    (proper : mode.Proper)
    (byte : UInt8) :
    (mode.step byte).Proper := by
  cases mode with
  | code =>
      rw [Mode.step]
      split
      · assumption
      · split <;> trivial
  | quotation mark =>
      rw [Mode.step]
      split
      · exact proper
      · split
        · trivial
        · exact proper
  | escape mark => exact proper
  | comment =>
      rw [Mode.step]
      split <;> trivial

end Mode

/-- Look for the closing keyword byte by byte, from a mode on. -/
def closingFrom :
    (mode : Mode) → (afterWord : Bool) → (offset : Nat) → Text → Option Nat
  | _, _, _, [] => none
  | mode, afterWord, offset, first :: rest =>
    if mode = .code ∧ closesBlock afterWord (first :: rest) then some offset
    else closingFrom (mode.step first) (Byte.isWord first) (offset + 1) rest

/-- The number of bytes still to be jumped over in a mode. -/
def pending : Mode → Text → Nat
  | .code, _ => 0
  | .quotation mark, text => quotationLength mark text
  | .escape _, [] => 0
  | .escape mark, _ :: rest => quotationLength mark rest + 1
  | .comment, text => commentLength text

/-- The closing keyword begins with the letter `e`. -/
theorem closesBlock_eq_false_of_ne
    {first : UInt8}
    (other : first ≠ 101)
    (afterWord : Bool)
    (rest : Text) :
    closesBlock afterWord (first :: rest) = false := by
  have differs : ((101 : UInt8) == first) = false := by simpa using other.symm
  simp only [closesBlock, show ascii "end" = [101, 110, 100] from rfl,
    List.isPrefixOf_cons_cons, differs, Bool.false_and, Bool.and_false]

/-- Outside code a byte is passed over, whatever follows it. -/
theorem closingFrom_of_ne_code
    {mode : Mode}
    (notCode : mode ≠ .code)
    (afterWord : Bool)
    (offset : Nat)
    (first : UInt8)
    (rest : Text) :
    closingFrom mode afterWord offset (first :: rest) =
      closingFrom (mode.step first) (Byte.isWord first) (offset + 1) rest := by
  rw [closingFrom, if_neg (by simp [notCode])]

/-- Where no keyword stands a byte is passed over in every mode. -/
theorem closingFrom_of_not_closes
    {afterWord : Bool}
    {first : UInt8}
    {rest : Text}
    (stillOpen : closesBlock afterWord (first :: rest) = false)
    (mode : Mode)
    (offset : Nat) :
    closingFrom mode afterWord offset (first :: rest) =
      closingFrom (mode.step first) (Byte.isWord first) (offset + 1) rest := by
  rw [closingFrom, if_neg (by simp [stillOpen])]

/-- The search that jumps over quotations and comments is the search byte by
byte. -/
theorem endFrom_eq_closingFrom
    (mode : Mode)
    (afterWord : Bool)
    (offset : Nat)
    (text : Text) :
    endFrom afterWord offset (pending mode text) text =
      closingFrom mode afterWord offset text := by
  -- One byte is read on both sides; what is left to jump over is what the next
  -- mode leaves pending.
  induction text generalizing mode afterWord offset with
  | nil => cases mode <;> simp [endFrom, closingFrom]
  | cons first rest inductionHypothesis =>
      cases mode with
      | code =>
          rw [pending, endFrom]
          split
          · rename_i opens
            have other : first ≠ 101 := by rcases opens with rfl | rfl <;> decide
            have noWord : Byte.isWord first = false := by
              rcases opens with rfl | rfl <;> decide
            rw [closingFrom_of_not_closes (closesBlock_eq_false_of_ne other _ _), noWord,
              ← inductionHypothesis, Mode.step, if_pos opens, pending]
          · rename_i noQuotation
            split
            · rename_i opens
              have other : first ≠ 101 := by rw [opens]; decide
              have noWord : Byte.isWord first = false := by rw [opens]; decide
              rw [closingFrom_of_not_closes (closesBlock_eq_false_of_ne other _ _), noWord,
                ← inductionHypothesis, Mode.step, if_neg noQuotation, if_pos opens, pending]
            · rename_i noComment
              split
              · rename_i closes
                rw [closingFrom, if_pos ⟨rfl, closes⟩]
              · rename_i closes
                rw [closingFrom_of_not_closes (by simpa using closes), ← inductionHypothesis,
                  Mode.step, if_neg noQuotation, if_neg noComment, pending]
      | quotation mark =>
          rw [closingFrom_of_ne_code (by simp), ← inductionHypothesis, pending]
          cases rest with
          | nil => simp [quotationLength, endFrom]
          | cons second others =>
              rw [quotationLength, Mode.step]
              split
              · rfl
              · split
                · rfl
                · rfl
      | escape mark =>
          rw [closingFrom_of_ne_code (by simp), ← inductionHypothesis]
          rfl
      | comment =>
          rw [closingFrom_of_ne_code (by simp), ← inductionHypothesis, pending, Mode.step]
          split
          · rename_i ends
            subst ends
            have stillOpen : closesBlock afterWord (Byte.newline :: rest) = false :=
              closesBlock_eq_false_of_ne (by decide) _ _
            rw [show commentLength (Byte.newline :: rest) = 0 from rfl, endFrom,
              if_neg (by decide), if_neg (by decide), if_neg (by simp [stillOpen]), pending]
          · rename_i goesOn
            simp [commentLength, goesOn, endFrom, pending]

/-- The mode at an offset of a text in which a body begins at `start`. -/
def modeAt
    (text : Text)
    (start offset : Nat) : Mode :=
  Mode.code.run ((text.drop start).take (offset - start))

/-- At `offset` stands a keyword that closes a body which begins at `start`. -/
def ClosesAt
    (text : Text)
    (start offset : Nat) : Prop :=
  start ≤ offset ∧ modeAt text start offset = .code ∧
    closesBlock (isAfterWord text offset) (text.drop offset) = true

instance
    (text : Text)
    (start offset : Nat) :
    Decidable (ClosesAt text start offset) :=
  inferInstanceAs (Decidable (_ ∧ _ ∧ _))

/-- The mode at the next offset is one step further. -/
theorem modeAt_succ
    {text rest : Text}
    {start offset : Nat}
    {byte : UInt8}
    (after : start ≤ offset)
    (next : text.drop offset = byte :: rest) :
    modeAt text start (offset + 1) = (modeAt text start offset).step byte := by
  have found : (text.drop start)[offset - start]? = some byte := by
    rw [List.getElem?_drop, Nat.add_sub_cancel' after, ← List.head?_drop, next, List.head?_cons]
  unfold modeAt
  rw [Nat.sub_add_comm after, List.take_add_one, found, Option.toList_some, Mode.run_append]
  rfl

theorem isAfterWord_succ
    {text rest : Text}
    {offset : Nat}
    {byte : UInt8}
    (next : text.drop offset = byte :: rest) :
    isAfterWord text (offset + 1) = Byte.isWord byte := by
  rw [isAfterWord, ← List.head?_drop, next]
  rfl

theorem isAfterWord_length
    (front rest : Text) :
    isAfterWord (front ++ rest) front.length = front.getLast?.any Byte.isWord := by
  cases front.eq_nil_or_concat with
  | inl empty => rw [empty]; rfl
  | inr ending =>
      obtain ⟨initial, last, rfl⟩ := ending
      have next : (initial ++ [last] ++ rest).drop initial.length = last :: rest := by
        rw [List.append_assoc, List.drop_left, List.singleton_append]
      rw [List.concat_eq_append, List.length_append, List.length_singleton,
        isAfterWord_succ next, List.getLast?_concat, Option.any_some]

/-- A text can be cut at every offset inside it. -/
theorem exists_append_of_le_length
    {text : Text}
    {start : Nat}
    (inside : start ≤ text.length) :
    ∃ front rest, text = front ++ rest ∧ start = front.length :=
  ⟨text.take start, text.drop start, (List.take_append_drop start text).symm,
    (List.length_take_of_le inside).symm⟩

/-- The search for the end of a body, once the text is cut where the body begins. -/
theorem end?_append
    (front rest : Text) :
    TableBlock.end? (front ++ rest) front.length =
      closingFrom .code (front.getLast?.any Byte.isWord) front.length rest := by
  rw [end?, isAfterWord_length, List.drop_left]
  exact endFrom_eq_closingFrom .code _ _ _

/-- The search byte by byte stops at the first closing keyword. -/
theorem closingFrom_eq_some_iff
    {text : Text}
    {start offset stop : Nat}
    (after : start ≤ offset) :
    closingFrom (modeAt text start offset) (isAfterWord text offset) offset
        (text.drop offset) = some stop ↔
      offset ≤ stop ∧ ClosesAt text start stop ∧
        ∀ between, offset ≤ between → between < stop → ¬ClosesAt text start between := by
  induction remaining : text.drop offset generalizing offset with
  | nil =>
      simp only [closingFrom, reduceCtorEq, false_iff, not_and]
      rintro behind ⟨-, -, closes⟩
      have empty : text.drop stop = [] :=
        List.drop_eq_nil_of_le (Nat.le_trans (List.drop_eq_nil_iff.mp remaining) behind)
      simp [empty, closesBlock, ascii] at closes
  | cons first rest inductionHypothesis =>
      have next : text.drop (offset + 1) = rest := by
        rw [← List.tail_drop, remaining, List.tail_cons]
      rw [closingFrom, ← remaining]
      by_cases closes : ClosesAt text start offset
      · rw [if_pos closes.2, Option.some.injEq]
        constructor
        · rintro rfl
          exact ⟨Nat.le_refl _, closes, fun between since before => by omega⟩
        · rintro ⟨behind, -, least⟩
          apply Nat.le_antisymm behind
          apply Nat.le_of_not_lt
          intro before
          exact least offset (Nat.le_refl _) before closes
      · have passes : ¬(modeAt text start offset = .code ∧
            closesBlock (isAfterWord text offset) (text.drop offset) = true) :=
          fun both => closes ⟨after, both⟩
        rw [if_neg passes, ← modeAt_succ after remaining, ← isAfterWord_succ remaining,
          inductionHypothesis (by omega) next]
        constructor
        · rintro ⟨behind, closesThere, least⟩
          refine ⟨by omega, closesThere, ?_⟩
          intro between since before
          rcases Nat.eq_or_lt_of_le since with rfl | later
          · exact closes
          · exact least between later before
        · rintro ⟨behind, closesThere, least⟩
          have different : offset ≠ stop := by
            rintro rfl
            exact closes closesThere
          exact ⟨by omega, closesThere, fun between since before =>
            least between (by omega) before⟩

/-- A body ends at the first place where a keyword closes it. -/
theorem end?_eq_some_iff
    {text : Text}
    {start stop : Nat} :
    TableBlock.end? text start = some stop ↔
      ClosesAt text start stop ∧ ∀ offset, offset < stop → ¬ClosesAt text start offset := by
  have begins : modeAt text start start = .code := by simp [modeAt]
  rw [end?, show 0 = pending .code (text.drop start) from rfl, endFrom_eq_closingFrom, ← begins,
    closingFrom_eq_some_iff (Nat.le_refl start)]
  constructor
  · rintro ⟨-, closes, least⟩
    exact ⟨closes, fun offset before closesEarlier =>
      least offset closesEarlier.1 before closesEarlier⟩
  · rintro ⟨closes, least⟩
    exact ⟨closes.1, closes, fun between _ before => least between before⟩

end TableBlock
end QueryAdvisor

import QueryAdvisor.Proofs.Block.Scanner

/-!
# Texts that the search for a closing keyword passes over

In code the search passes over words other than the keyword, over quotations
without escapes, and over bytes that open neither a quotation nor a comment.
-/

namespace QueryAdvisor
namespace TableBlock

/-- What stands behind a byte that is no word byte does not matter to a keyword
before it. -/
theorem closesBlock_append_sign
    {sign : UInt8}
    (isSign : Byte.isWord sign = false)
    (afterWord : Bool)
    (text rest : Text) :
    closesBlock afterWord (text ++ sign :: rest) = closesBlock afterWord text := by
  have notLetter {letter : UInt8} (isLetter : Byte.isWord letter = true) :
      (letter == sign) = false := by
    rw [beq_eq_false_iff_ne]
    rintro rfl
    simp [isLetter] at isSign
  simp only [closesBlock, show ascii "end" = [101, 110, 100] from rfl]
  -- The sign stands at one of the three letters, right behind them, or further on.
  rcases text with _ | ⟨_, _ | ⟨_, _ | ⟨_, _ | ⟨_, _⟩⟩⟩⟩
  · simp [List.isPrefixOf, notLetter (show Byte.isWord 101 = true by decide)]
  · simp [List.isPrefixOf, notLetter (show Byte.isWord 110 = true by decide)]
  · simp [List.isPrefixOf, notLetter (show Byte.isWord 100 = true by decide)]
  · simp [List.isPrefixOf, isSign]
  · simp [List.isPrefixOf]

/-- A word that is not continued closes a block only if it is the keyword. -/
theorem closesBlock_name
    {name : Text}
    (allWord : name.all Byte.isWord = true)
    (notEnd : name ≠ ascii "end")
    {sign : UInt8}
    (isSign : Byte.isWord sign = false)
    (afterWord : Bool)
    (rest : Text) :
    closesBlock afterWord (name ++ sign :: rest) = false := by
  rw [closesBlock_append_sign isSign]
  apply Bool.eq_false_iff.mpr
  intro closes
  simp only [closesBlock, Bool.and_eq_true, Bool.not_eq_true'] at closes
  obtain ⟨⟨-, begins⟩, ended⟩ := closes
  obtain ⟨others, rfl⟩ := List.isPrefixOf_iff_prefix.mp begins
  cases others with
  | nil => exact notEnd (List.append_nil _)
  | cons fourth others =>
      have continued : Byte.isWord fourth = true := by
        rw [List.all_append, List.all_cons, Bool.and_eq_true, Bool.and_eq_true] at allWord
        exact allWord.2.1
      have next : ((ascii "end" ++ fourth :: others).drop 3).head? = some fourth := rfl
      rw [next, Option.any_some, continued] at ended
      contradiction

/-- Inside a word, the search goes on to the byte behind it. -/
theorem closingFrom_afterWord
    {letters : Text}
    (allWord : letters.all Byte.isWord = true)
    {sign : UInt8}
    (isSign : Byte.isWord sign = false)
    (offset : Nat)
    (rest : Text) :
    closingFrom .code true offset (letters ++ sign :: rest) =
      closingFrom (Mode.code.step sign) false (offset + letters.length + 1) rest := by
  have stillOpen (text : Text) : closesBlock true text = false := rfl
  induction letters generalizing offset with
  | nil =>
      rw [List.nil_append, closingFrom_of_not_closes (stillOpen _), isSign]
      rfl
  | cons first others inductionHypothesis =>
      simp only [List.all_cons, Bool.and_eq_true] at allWord
      rw [List.cons_append, closingFrom_of_not_closes (stillOpen _), allWord.1,
        Mode.step_code_of_isWord allWord.1, inductionHypothesis allWord.2, List.length_cons]
      congr 1
      omega

/-- In code, a word other than the keyword is passed over with the byte behind
it. -/
theorem closingFrom_name
    {name : Text}
    (allWord : name.all Byte.isWord = true)
    (notEnd : name ≠ ascii "end")
    {sign : UInt8}
    (isSign : Byte.isWord sign = false)
    (offset : Nat)
    (rest : Text) :
    closingFrom .code false offset (name ++ sign :: rest) =
      closingFrom (Mode.code.step sign) false (offset + name.length + 1) rest := by
  have stillOpen := closesBlock_name allWord notEnd isSign false rest
  cases name with
  | nil =>
      rw [List.nil_append] at stillOpen ⊢
      rw [closingFrom_of_not_closes stillOpen, isSign]
      rfl
  | cons first others =>
      simp only [List.all_cons, Bool.and_eq_true] at allWord
      rw [List.cons_append] at stillOpen ⊢
      rw [closingFrom_of_not_closes stillOpen, allWord.1, Mode.step_code_of_isWord allWord.1,
        closingFrom_afterWord allWord.2 isSign, List.length_cons]
      congr 1
      omega

/-- In a quotation, everything up to the closing mark is passed over. -/
theorem closingFrom_quotation
    {mark : UInt8}
    {content : Text}
    (noMark : mark ∉ content)
    (noBackslash : Byte.backslash ∉ content)
    (notBackslash : mark ≠ Byte.backslash)
    (afterWord : Bool)
    (offset : Nat)
    (rest : Text) :
    closingFrom (.quotation mark) afterWord offset (content ++ mark :: rest) =
      closingFrom .code (Byte.isWord mark) (offset + content.length + 1) rest := by
  induction content generalizing afterWord offset with
  | nil =>
      rw [List.nil_append, closingFrom_of_ne_code (by simp), Mode.step, if_neg notBackslash,
        if_pos rfl]
      rfl
  | cons first others inductionHypothesis =>
      simp only [List.mem_cons, not_or] at noMark noBackslash
      rw [List.cons_append, closingFrom_of_ne_code (by simp), Mode.step,
        if_neg fun equal => noBackslash.1 equal.symm, if_neg fun equal => noMark.1 equal.symm,
        inductionHypothesis noMark.2 noBackslash.2, List.length_cons]
      congr 1
      omega

/-- A quotation that is not closed holds no closing keyword. -/
theorem closingFrom_open_quotation
    {mark : UInt8}
    {content : Text}
    (noMark : mark ∉ content)
    (noBackslash : Byte.backslash ∉ content)
    (afterWord : Bool)
    (offset : Nat) :
    closingFrom (.quotation mark) afterWord offset content = none := by
  induction content generalizing afterWord offset with
  | nil => rfl
  | cons first others inductionHypothesis =>
      simp only [List.mem_cons, not_or] at noMark noBackslash
      rw [closingFrom_of_ne_code (by simp), Mode.step,
        if_neg fun equal => noBackslash.1 equal.symm, if_neg fun equal => noMark.1 equal.symm,
        inductionHypothesis noMark.2 noBackslash.2]

/-- In code, and not inside a word, the search goes on behind the piece as it
began before it. -/
def Passes (piece : Text) : Prop :=
  ∀ offset rest,
    closingFrom .code false offset (piece ++ rest) =
      closingFrom .code false (offset + piece.length) rest

theorem passes_nil : Passes [] :=
  fun _ _ => rfl

theorem Passes.append
    {left right : Text}
    (leftPasses : Passes left)
    (rightPasses : Passes right) :
    Passes (left ++ right) := by
  intro offset rest
  rw [List.append_assoc, leftPasses, rightPasses, List.length_append, Nat.add_assoc]

/-- A word other than the keyword is passed over with a byte that opens nothing. -/
theorem passes_name
    {name : Text}
    (allWord : name.all Byte.isWord = true)
    (notEnd : name ≠ ascii "end")
    {sign : UInt8}
    (isSign : Byte.isWord sign = false)
    (plain : Mode.code.step sign = .code) :
    Passes (name ++ [sign]) := by
  intro offset rest
  rw [List.append_assoc, List.singleton_append, closingFrom_name allWord notEnd isSign, plain,
    List.length_append, List.length_singleton, Nat.add_assoc]

/-- A quotation without escapes is passed over as a whole. -/
theorem passes_quoted
    {content : Text}
    (noQuote : Byte.quote ∉ content)
    (noBackslash : Byte.backslash ∉ content) :
    Passes (quoted content) := by
  intro offset rest
  have opens : closesBlock false (Byte.quote :: (content ++ Byte.quote :: rest)) = false :=
    closesBlock_eq_false_of_ne (by decide) _ _
  have spelled : quoted content ++ rest = Byte.quote :: (content ++ Byte.quote :: rest) := by
    simp [quoted]
  rw [spelled, closingFrom_of_not_closes opens, Mode.step, if_pos (.inl rfl),
    closingFrom_quotation noQuote noBackslash (by decide)]
  have length : (quoted content).length = content.length + 2 := by simp [quoted]
  rw [length]
  congr 1
  omega

theorem passes_quoted_name
    {name : Text}
    (isName : IsName name) :
    Passes (quoted name) :=
  passes_quoted (isName.not_mem (by decide)) (isName.not_mem (by decide))

end TableBlock
end QueryAdvisor

import QueryAdvisor.Proofs.Json.String

/-!
# Numbers in JSON

The grammar of JSON numbers and a reader for them.  A number is a mantissa and
the power of ten by which it is multiplied.  The decimal digits of an integer
are a number without fraction and exponent.
-/

namespace QueryAdvisor
namespace Json

open Recogniser

/-- A nonempty run of decimal digits. -/
def IsDigits (digits : Text) : Prop :=
  digits ≠ [] ∧ digits.all Byte.isDigit = true

/-- The number that decimal digits write. -/
def decimal (digits : Text) : Nat :=
  digits.foldl (fun high digit => 10 * high + (digit.toNat - 48)) 0

/-- The whole part of a number, which has no leading zeros. -/
inductive IsWhole : Text → Prop where
  | zero : IsWhole [48]
  | positive {first : UInt8} {others : Text}
      (notZero : first ≠ 48)
      (isDigits : IsDigits (first :: others)) :
      IsWhole (first :: others)

/-- The digits of a fraction, which may be missing. -/
inductive IsFraction : Text → Text → Prop where
  | absent : IsFraction [] []
  | present {digits : Text}
      (isDigits : IsDigits digits) :
      IsFraction digits (Byte.dot :: digits)

/-- Digits with a sign, which may be missing. -/
inductive IsSigned : Int → Text → Prop where
  | unsigned {digits : Text}
      (isDigits : IsDigits digits) :
      IsSigned (decimal digits) digits
  | plus {digits : Text}
      (isDigits : IsDigits digits) :
      IsSigned (decimal digits) (43 :: digits)
  | minus {digits : Text}
      (isDigits : IsDigits digits) :
      IsSigned (-decimal digits) (45 :: digits)

/-- An exponent, which may be missing. -/
inductive IsExponent : Int → Text → Prop where
  | absent : IsExponent 0 []
  | small {exponent : Int} {text : Text}
      (isSigned : IsSigned exponent text) :
      IsExponent exponent (101 :: text)
  | capital {exponent : Int} {text : Text}
      (isSigned : IsSigned exponent text) :
      IsExponent exponent (69 :: text)

/-- A number without a sign: its mantissa and the power of ten. -/
inductive IsMagnitude : Nat → Int → Text → Prop where
  | parts {whole digits fraction text : Text} {exponent : Int}
      (isWhole : IsWhole whole)
      (isFraction : IsFraction digits fraction)
      (isExponent : IsExponent exponent text) :
      IsMagnitude (decimal (whole ++ digits)) (exponent - digits.length)
        (whole ++ (fraction ++ text))

/-- A number: its mantissa and the power of ten. -/
inductive IsNumber : Int → Int → Text → Prop where
  | positive {mantissa : Nat} {exponent : Int} {text : Text}
      (isMagnitude : IsMagnitude mantissa exponent text) :
      IsNumber mantissa exponent text
  | negative {mantissa : Nat} {exponent : Int} {text : Text}
      (isMagnitude : IsMagnitude mantissa exponent text) :
      IsNumber (-mantissa) exponent (45 :: text)

/-! ### The reader -/

/-- Read the longest run of digits, at least one. -/
def digits : Recogniser Text :=
  fun text =>
    if (text.takeWhile Byte.isDigit).isEmpty then none
    else some (text.takeWhile Byte.isDigit, text.dropWhile Byte.isDigit)

/-- Read the whole part of a number. -/
def whole : Recogniser Text :=
  branch 48 (pure [48]) digits

/-- Read the digits of a fraction, if there is one. -/
def fraction : Recogniser Text :=
  branch Byte.dot digits (pure [])

/-- Read digits with a sign, if there is one. -/
def signed : Recogniser Int :=
  branch 43 (do return decimal (← digits)) <|
    branch 45 (do return -decimal (← digits)) (do return decimal (← digits))

/-- Read an exponent, if there is one. -/
def exponent : Recogniser Int :=
  branch 101 signed (branch 69 signed (pure 0))

/-- Read a number without a sign. -/
def magnitude : Recogniser (Nat × Int) := do
  let wholeDigits ← whole
  let fractionDigits ← fraction
  let power ← exponent
  return (decimal (wholeDigits ++ fractionDigits), power - fractionDigits.length)

/-- Read a number. -/
def number : Recogniser (Int × Int) :=
  branch 45 (do let found ← magnitude; return (-found.1, found.2))
    (do let found ← magnitude; return (found.1, found.2))

/-- Bytes that may continue a number. -/
def continuesNumber (byte : UInt8) : Bool :=
  Byte.isDigit byte || byte == Byte.dot || byte == 101 || byte == 69

/-- What follows a number does not continue it. -/
def EndsNumber (rest : Text) : Prop :=
  rest.head?.any continuesNumber = false

theorem digits_sound
    {text found rest : Text}
    (read : digits text = some (found, rest)) :
    IsDigits found ∧ text = found ++ rest := by
  rw [digits] at read
  split at read
  · contradiction
  · rename_i nonempty
    obtain ⟨rfl, rfl⟩ := Prod.mk.inj (Option.some.inj read)
    exact ⟨⟨by simpa using nonempty, List.all_takeWhile⟩, List.takeWhile_append_dropWhile.symm⟩

theorem digits_complete
    {found : Text}
    (isDigits : IsDigits found)
    {rest : Text}
    (ended : rest.head?.any Byte.isDigit = false) :
    digits (found ++ rest) = some (found, rest) := by
  rw [digits, takeWhile_append_of_ended isDigits.2 ended,
    dropWhile_append_of_ended isDigits.2 ended, if_neg (by simpa using isDigits.1)]

/-! ### What is read is a number -/

theorem whole_sound
    {text found rest : Text}
    (read : whole text = some (found, rest)) :
    IsWhole found ∧ text = found ++ rest := by
  rcases branch_eq_some.mp read with ⟨following, rfl, returned⟩ | ⟨notZero, digitsRead⟩
  · obtain ⟨rfl, rfl⟩ := Prod.mk.inj (Option.some.inj returned)
    exact ⟨.zero, rfl⟩
  · obtain ⟨isDigits, rfl⟩ := digits_sound digitsRead
    obtain ⟨first, others, rfl⟩ := List.exists_cons_of_ne_nil isDigits.1
    exact ⟨.positive (by simpa using notZero) isDigits, rfl⟩

theorem fraction_sound : Sound IsFraction fraction := by
  intro text found rest read
  rcases branch_eq_some.mp read with ⟨following, rfl, digitsRead⟩ | ⟨_, returned⟩
  · obtain ⟨isDigits, rfl⟩ := digits_sound digitsRead
    exact ⟨_, .present isDigits, rfl⟩
  · obtain ⟨rfl, rfl⟩ := Prod.mk.inj (Option.some.inj returned)
    exact ⟨[], .absent, rfl⟩

theorem signed_sound : Sound IsSigned signed := by
  intro text value rest read
  rcases branch_eq_some.mp read with ⟨following, rfl, plusRead⟩ | ⟨_, otherRead⟩
  · obtain ⟨found, digitsRead, rfl⟩ := bind_pure_eq_some.mp plusRead
    obtain ⟨isDigits, rfl⟩ := digits_sound digitsRead
    exact ⟨_, .plus isDigits, rfl⟩
  · rcases branch_eq_some.mp otherRead with ⟨following, rfl, minusRead⟩ | ⟨_, unsignedRead⟩
    · obtain ⟨found, digitsRead, rfl⟩ := bind_pure_eq_some.mp minusRead
      obtain ⟨isDigits, rfl⟩ := digits_sound digitsRead
      exact ⟨_, .minus isDigits, rfl⟩
    · obtain ⟨found, digitsRead, rfl⟩ := bind_pure_eq_some.mp unsignedRead
      obtain ⟨isDigits, rfl⟩ := digits_sound digitsRead
      exact ⟨_, .unsigned isDigits, rfl⟩

theorem exponent_sound : Sound IsExponent exponent := by
  intro text value rest read
  rcases branch_eq_some.mp read with ⟨following, rfl, smallRead⟩ | ⟨_, otherRead⟩
  · obtain ⟨written, isSigned, rfl⟩ := signed_sound smallRead
    exact ⟨_, .small isSigned, rfl⟩
  · rcases branch_eq_some.mp otherRead with ⟨following, rfl, capitalRead⟩ | ⟨_, returned⟩
    · obtain ⟨written, isSigned, rfl⟩ := signed_sound capitalRead
      exact ⟨_, .capital isSigned, rfl⟩
    · obtain ⟨rfl, rfl⟩ := Prod.mk.inj (Option.some.inj returned)
      exact ⟨[], .absent, rfl⟩

theorem magnitude_sound : Sound (fun value => IsMagnitude value.1 value.2) magnitude := by
  intro text value rest read
  obtain ⟨wholeDigits, _, wholeRead, afterWhole⟩ := bind_eq_some.mp read
  obtain ⟨fractionDigits, _, fractionRead, afterFraction⟩ := bind_eq_some.mp afterWhole
  obtain ⟨power, exponentRead, rfl⟩ := bind_pure_eq_some.mp afterFraction
  obtain ⟨exponentText, isExponent, rfl⟩ := exponent_sound exponentRead
  obtain ⟨fractionText, isFraction, rfl⟩ := fraction_sound fractionRead
  obtain ⟨isWhole, rfl⟩ := whole_sound wholeRead
  exact ⟨_, .parts isWhole isFraction isExponent, by simp⟩

theorem number_sound : Sound (fun value => IsNumber value.1 value.2) number := by
  intro text value rest read
  rcases branch_eq_some.mp read with ⟨following, rfl, negativeRead⟩ | ⟨_, positiveRead⟩
  · obtain ⟨found, magnitudeRead, rfl⟩ := bind_pure_eq_some.mp negativeRead
    obtain ⟨written, isMagnitude, rfl⟩ := magnitude_sound magnitudeRead
    exact ⟨_, .negative isMagnitude, rfl⟩
  · obtain ⟨found, magnitudeRead, rfl⟩ := bind_pure_eq_some.mp positiveRead
    obtain ⟨written, isMagnitude, rfl⟩ := magnitude_sound magnitudeRead
    exact ⟨_, .positive isMagnitude, rfl⟩

/-! ### A number is read as a whole -/

section Complete

variable {rest : Text}

theorem EndsNumber.head?_ne
    (ends : EndsNumber rest)
    {sign : UInt8}
    (continues : continuesNumber sign = true) :
    rest.head? ≠ some sign := by
  intro begins
  simp [EndsNumber, begins, continues] at ends

theorem EndsNumber.ends_digits
    (ends : EndsNumber rest) :
    rest.head?.any Byte.isDigit = false := by
  cases rest with
  | nil => rfl
  | cons first others => simp_all [EndsNumber, continuesNumber]

theorem IsDigits.exists_cons
    {digits : Text}
    (isDigits : IsDigits digits) :
    ∃ first others, digits = first :: others ∧ Byte.isDigit first = true := by
  obtain ⟨first, others, rfl⟩ := List.exists_cons_of_ne_nil isDigits.1
  exact ⟨first, others, rfl, List.all_eq_true.mp isDigits.2 first List.mem_cons_self⟩

/-- Digits begin with no other sign. -/
theorem IsDigits.head?_ne
    {digits : Text}
    (isDigits : IsDigits digits)
    {sign : UInt8}
    (notDigit : Byte.isDigit sign = false) :
    (digits ++ rest).head? ≠ some sign := by
  obtain ⟨first, others, rfl, isDigit⟩ := isDigits.exists_cons
  intro begins
  obtain rfl : first = sign := by simpa using begins
  simp [isDigit] at notDigit

theorem whole_complete
    {found : Text}
    (isWhole : IsWhole found)
    (ended : rest.head?.any Byte.isDigit = false) :
    whole (found ++ rest) = some (found, rest) := by
  cases isWhole with
  | zero => exact branch_cons_self rest
  | positive notZero isDigits =>
      rw [whole, branch_of_head?_ne (by simpa using notZero)]
      exact digits_complete isDigits ended

theorem fraction_complete
    {found written : Text}
    (isFraction : IsFraction found written)
    (ended : rest.head?.any Byte.isDigit = false)
    (noFraction : rest.head? ≠ some Byte.dot) :
    fraction (written ++ rest) = some (found, rest) := by
  cases isFraction with
  | absent => exact branch_of_head?_ne noFraction
  | present isDigits => exact (branch_cons_self _).trans (digits_complete isDigits ended)

theorem signed_complete
    {value : Int}
    {written : Text}
    (isSigned : IsSigned value written)
    (ended : rest.head?.any Byte.isDigit = false) :
    signed (written ++ rest) = some (value, rest) := by
  cases isSigned with
  | unsigned isDigits =>
      rw [signed, branch_of_head?_ne (isDigits.head?_ne (by decide)),
        branch_of_head?_ne (isDigits.head?_ne (by decide))]
      exact bind_pure_eq_some.mpr ⟨_, digits_complete isDigits ended, rfl⟩
  | plus isDigits =>
      rw [signed, List.cons_append, branch_cons_self]
      exact bind_pure_eq_some.mpr ⟨_, digits_complete isDigits ended, rfl⟩
  | minus isDigits =>
      rw [signed, List.cons_append, branch_cons_of_ne (by decide), branch_cons_self]
      exact bind_pure_eq_some.mpr ⟨_, digits_complete isDigits ended, rfl⟩

theorem exponent_complete
    {value : Int}
    {written : Text}
    (isExponent : IsExponent value written)
    (ends : EndsNumber rest) :
    exponent (written ++ rest) = some (value, rest) := by
  cases isExponent with
  | absent =>
      rw [exponent, List.nil_append, branch_of_head?_ne (ends.head?_ne (by decide)),
        branch_of_head?_ne (ends.head?_ne (by decide))]
      rfl
  | small isSigned =>
      rw [exponent, List.cons_append, branch_cons_self]
      exact signed_complete isSigned ends.ends_digits
  | capital isSigned =>
      rw [exponent, List.cons_append, branch_cons_of_ne (by decide), branch_cons_self]
      exact signed_complete isSigned ends.ends_digits

/-- An exponent or what follows it ends digits and begins no fraction. -/
theorem IsExponent.ends
    {value : Int}
    {written : Text}
    (isExponent : IsExponent value written)
    (ends : EndsNumber rest) :
    (written ++ rest).head?.any Byte.isDigit = false ∧
      (written ++ rest).head? ≠ some Byte.dot := by
  cases isExponent with
  | absent => exact ⟨ends.ends_digits, ends.head?_ne (by decide)⟩
  | small isSigned => exact ⟨rfl, mt Option.some.inj (by decide)⟩
  | capital isSigned => exact ⟨rfl, mt Option.some.inj (by decide)⟩

theorem IsFraction.ends
    {found written : Text}
    (isFraction : IsFraction found written)
    (ended : rest.head?.any Byte.isDigit = false) :
    (written ++ rest).head?.any Byte.isDigit = false := by
  cases isFraction with
  | absent => exact ended
  | present isDigits => rfl

theorem magnitude_complete
    {mantissa : Nat}
    {power : Int}
    {written : Text}
    (isMagnitude : IsMagnitude mantissa power written)
    (ends : EndsNumber rest) :
    magnitude (written ++ rest) = some ((mantissa, power), rest) := by
  cases isMagnitude with
  | @parts wholeDigits fractionDigits fractionText exponentText _ isWhole isFraction isExponent =>
      obtain ⟨ended, noFraction⟩ := isExponent.ends ends
      simp only [List.append_assoc]
      refine bind_eq_some.mpr
        ⟨wholeDigits, _, whole_complete isWhole (isFraction.ends ended), ?_⟩
      refine bind_eq_some.mpr
        ⟨fractionDigits, _, fraction_complete isFraction ended noFraction, ?_⟩
      exact bind_pure_eq_some.mpr ⟨_, exponent_complete isExponent ends, rfl⟩

theorem IsMagnitude.exists_cons
    {mantissa : Nat}
    {power : Int}
    {written : Text}
    (isMagnitude : IsMagnitude mantissa power written) :
    ∃ first others, written = first :: others ∧ Byte.isDigit first = true := by
  cases isMagnitude with
  | parts isWhole isFraction isExponent =>
      cases isWhole with
      | zero => exact ⟨48, _, rfl, by decide⟩
      | positive _ isDigits =>
          obtain ⟨first, others, same, isDigit⟩ := isDigits.exists_cons
          obtain ⟨rfl, rfl⟩ := List.cons.inj same
          exact ⟨_, _, rfl, isDigit⟩

theorem number_complete
    {mantissa power : Int}
    {written : Text}
    (isNumber : IsNumber mantissa power written)
    (ends : EndsNumber rest) :
    number (written ++ rest) = some ((mantissa, power), rest) := by
  cases isNumber with
  | positive isMagnitude =>
      obtain ⟨first, others, rfl, isDigit⟩ := isMagnitude.exists_cons
      have notMinus : first ≠ 45 := by
        rintro rfl
        contradiction
      rw [number, List.cons_append, branch_cons_of_ne notMinus]
      exact bind_pure_eq_some.mpr ⟨_, magnitude_complete isMagnitude ends, rfl⟩
  | negative isMagnitude =>
      rw [number, List.cons_append, branch_cons_self]
      exact bind_pure_eq_some.mpr ⟨_, magnitude_complete isMagnitude ends, rfl⟩

/-- A number begins with a digit or with a minus sign. -/
theorem IsNumber.exists_cons
    {mantissa power : Int}
    {written : Text}
    (isNumber : IsNumber mantissa power written) :
    ∃ first others, written = first :: others ∧ (Byte.isDigit first = true ∨ first = 45) := by
  cases isNumber with
  | positive isMagnitude =>
      obtain ⟨first, others, rfl, isDigit⟩ := isMagnitude.exists_cons
      exact ⟨first, others, rfl, .inl isDigit⟩
  | negative _ => exact ⟨45, _, rfl, .inr rfl⟩

end Complete

/-! ### Integers -/

/-- The byte of a decimal digit. -/
def digitByte (digit : Nat) : UInt8 :=
  digit.toUInt8 + 48

theorem ofNat_of_lt_ten : ∀ digit < 10, Text.ofNat digit = [digitByte digit] := by decide

theorem toNat_digitByte : ∀ digit < 10, (digitByte digit).toNat - 48 = digit := by decide

theorem isDigit_digitByte : ∀ digit < 10, Byte.isDigit (digitByte digit) = true := by decide

theorem digitByte_ne_zero : ∀ digit < 10, 0 < digit → digitByte digit ≠ 48 := by decide

/-- The last digit of a number stands behind the digits of its tenth. -/
theorem ofNat_of_ten_le
    {number : Nat}
    (large : 10 ≤ number) :
    Text.ofNat number = Text.ofNat (number / 10) ++ [digitByte (number % 10)] := by
  have single : number % 10 < 10 := Nat.mod_lt _ (by decide)
  rw [← ofNat_of_lt_ten _ single, Text.ofNat, Nat.toDigits_of_base_le (by decide) large,
    List.map_append, Text.ofNat, Text.ofNat, Nat.toDigits_of_lt_base single]

/-- The digits of a number write it. -/
theorem decimal_ofNat (number : Nat) : decimal (Text.ofNat number) = number := by
  induction number using Nat.strongRecOn with
  | _ number inductionHypothesis =>
      by_cases small : number < 10
      · rw [ofNat_of_lt_ten number small]
        simpa [decimal] using toNat_digitByte number small
      · have single : number % 10 < 10 := Nat.mod_lt _ (by decide)
        have tenth := inductionHypothesis (number / 10) (by omega)
        rw [decimal] at tenth
        rw [ofNat_of_ten_le (by omega), decimal, List.foldl_append, tenth, List.foldl_cons,
          List.foldl_nil, toNat_digitByte _ single]
        omega

/-- Only zero begins with a zero. -/
theorem isWhole_ofNat (number : Nat) : IsWhole (Text.ofNat number) := by
  have positive : 0 < number →
      ∃ first others, Text.ofNat number = first :: others ∧ first ≠ 48 ∧
        (first :: others).all Byte.isDigit = true := by
    induction number using Nat.strongRecOn with
    | _ number inductionHypothesis =>
        intro notZero
        by_cases small : number < 10
        · exact ⟨digitByte number, [], ofNat_of_lt_ten number small,
            digitByte_ne_zero number small notZero, by simp [isDigit_digitByte number small]⟩
        · have single : number % 10 < 10 := Nat.mod_lt _ (by decide)
          obtain ⟨first, others, tenth, firstNotZero, allDigits⟩ :=
            inductionHypothesis (number / 10) (by omega) (by omega)
          refine ⟨first, others ++ [digitByte (number % 10)], ?_, firstNotZero, ?_⟩
          · rw [ofNat_of_ten_le (by omega), tenth, List.cons_append]
          · rw [← List.cons_append, List.all_append, allDigits]
            simp [isDigit_digitByte _ single]
  by_cases isZero : number = 0
  · rw [isZero]
    exact .zero
  · obtain ⟨first, others, same, notZero, allDigits⟩ := positive (Nat.pos_of_ne_zero isZero)
    rw [same]
    exact .positive notZero ⟨List.cons_ne_nil _ _, allDigits⟩

theorem isMagnitude_ofNat (number : Nat) : IsMagnitude number 0 (Text.ofNat number) := by
  have parts := IsMagnitude.parts (isWhole_ofNat number) .absent .absent
  simpa [decimal_ofNat] using parts

/-- The digits of an integer, with its sign, write a number. -/
theorem isNumber_ofInt (number : Int) : IsNumber number 0 (Text.ofInt number) := by
  cases number with
  | ofNat number => exact .positive (isMagnitude_ofNat number)
  | negSucc number => exact .negative (isMagnitude_ofNat (number + 1))

end Json
end QueryAdvisor

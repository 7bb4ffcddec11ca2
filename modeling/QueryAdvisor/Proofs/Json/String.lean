import QueryAdvisor.Proofs.Recogniser.Grammar

/-!
# Strings in JSON

The grammar of JSON strings over bytes, with what they stand for, and a reader
for them.  A byte from `0x80` on stands for itself.  The escape of a code unit
stands for the bytes that encode it in UTF-8, and two surrogates that belong
together stand for one character; a surrogate by itself stands for nothing and
is refused.  The reader reads exactly what the grammar writes.
-/

namespace QueryAdvisor

namespace Recogniser

variable {α : Type}

/-- Whatever a recogniser takes is written for the value that it reads. -/
def Sound
    (writes : α → Text → Prop)
    (recogniser : Recogniser α) : Prop :=
  ∀ ⦃text value rest⦄, recogniser text = some (value, rest) →
    ∃ taken, writes value taken ∧ text = taken ++ rest

/-- Go on one way behind a sign and another way where it does not stand. -/
def branch
    (sign : UInt8)
    (behind otherwise : Recogniser α) : Recogniser α
  | [] => otherwise []
  | first :: rest => if first = sign then behind rest else otherwise (first :: rest)

section Branch

variable {sign : UInt8} {behind otherwise : Recogniser α}

@[simp] theorem branch_cons_self (rest : Text) :
    branch sign behind otherwise (sign :: rest) = behind rest :=
  if_pos rfl

theorem branch_of_head?_ne
    {text : Text}
    (absent : text.head? ≠ some sign) :
    branch sign behind otherwise text = otherwise text := by
  cases text with
  | nil => rfl
  | cons first rest => exact if_neg fun equal => absent (congrArg some equal)

@[simp] theorem branch_cons_of_ne
    {first : UInt8}
    (different : first ≠ sign)
    (rest : Text) :
    branch sign behind otherwise (first :: rest) = otherwise (first :: rest) :=
  if_neg different

/-- One of the two ways was gone. -/
theorem branch_eq_some
    {text rest : Text}
    {value : α} :
    branch sign behind otherwise text = some (value, rest) ↔
      (∃ following, text = sign :: following ∧ behind following = some (value, rest)) ∨
        text.head? ≠ some sign ∧ otherwise text = some (value, rest) := by
  cases text with
  | nil => simp [branch]
  | cons first following =>
      by_cases same : first = sign
      · subst same
        simp
      · simp [same]

end Branch

end Recogniser

namespace Json

open Recogniser

/-! ### Code units -/

/-- The value of a hexadecimal digit. -/
def hexValue? (digit : UInt8) : Option Nat :=
  if 48 ≤ digit ∧ digit ≤ 57 then some (digit.toNat - 48)
  else if 97 ≤ digit ∧ digit ≤ 102 then some (digit.toNat - 87)
  else if 65 ≤ digit ∧ digit ≤ 70 then some (digit.toNat - 55)
  else none

/-- Four hexadecimal digits write a code unit. -/
inductive IsCodeUnit : Nat → Text → Prop where
  | digits {a b c d : UInt8} {first second third fourth : Nat}
      (firstValue : hexValue? a = some first)
      (secondValue : hexValue? b = some second)
      (thirdValue : hexValue? c = some third)
      (fourthValue : hexValue? d = some fourth) :
      IsCodeUnit (((first * 16 + second) * 16 + third) * 16 + fourth) [a, b, c, d]

/-- Read a hexadecimal digit. -/
def hexDigit : Recogniser Nat
  | [] => none
  | first :: rest => (hexValue? first).map fun value => (value, rest)

/-- Read a code unit. -/
def codeUnit : Recogniser Nat := do
  let first ← hexDigit
  let second ← hexDigit
  let third ← hexDigit
  let fourth ← hexDigit
  return ((first * 16 + second) * 16 + third) * 16 + fourth

theorem hexDigit_eq_some
    {text rest : Text}
    {value : Nat} :
    hexDigit text = some (value, rest) ↔
      ∃ digit, text = digit :: rest ∧ hexValue? digit = some value := by
  cases text with
  | nil => simp [hexDigit]
  | cons first following =>
      simp only [hexDigit, Option.map_eq_some_iff, Prod.mk.injEq, List.cons.injEq]
      constructor
      · rintro ⟨_, found, rfl, rfl⟩
        exact ⟨first, ⟨rfl, rfl⟩, found⟩
      · rintro ⟨_, ⟨rfl, rfl⟩, found⟩
        exact ⟨value, found, rfl, rfl⟩

theorem codeUnit_eq_some
    {text rest : Text}
    {unit : Nat} :
    codeUnit text = some (unit, rest) ↔
      ∃ digits, IsCodeUnit unit digits ∧ text = digits ++ rest := by
  simp only [codeUnit, bind_eq_some, hexDigit_eq_some, pure_apply, Option.some.injEq,
    Prod.mk.injEq]
  constructor
  · rintro ⟨_, _, ⟨a, rfl, firstValue⟩, _, _, ⟨b, rfl, secondValue⟩, _, _, ⟨c, rfl, thirdValue⟩,
      _, _, ⟨d, rfl, fourthValue⟩, rfl, rfl⟩
    exact ⟨_, .digits firstValue secondValue thirdValue fourthValue, rfl⟩
  · rintro ⟨_, ⟨firstValue, secondValue, thirdValue, fourthValue⟩, rfl⟩
    exact ⟨_, _, ⟨_, rfl, firstValue⟩, _, _, ⟨_, rfl, secondValue⟩, _, _, ⟨_, rfl, thirdValue⟩,
      _, _, ⟨_, rfl, fourthValue⟩, rfl, rfl⟩

/-! ### Pieces of strings -/

/-- The first of two surrogates. -/
def IsHighSurrogate (unit : Nat) : Prop :=
  0xD800 ≤ unit ∧ unit < 0xDC00

/-- The second of two surrogates. -/
def IsLowSurrogate (unit : Nat) : Prop :=
  0xDC00 ≤ unit ∧ unit < 0xE000

instance (unit : Nat) : Decidable (IsHighSurrogate unit) :=
  inferInstanceAs (Decidable (_ ∧ _))

instance (unit : Nat) : Decidable (IsLowSurrogate unit) :=
  inferInstanceAs (Decidable (_ ∧ _))

/-- The bytes of a character, given by its number. -/
def encode (character : Nat) : Text :=
  String.utf8EncodeChar (Char.ofNat character)

/-- The character that two surrogates stand for. -/
def combine (high low : Nat) : Nat :=
  0x10000 + (high - 0xD800) * 0x400 + (low - 0xDC00)

/-- The signs that stand for a byte behind a backslash. -/
def shortEscapes : List (UInt8 × UInt8) :=
  [(34, 34), (92, 92), (47, 47), (98, 8), (102, 12), (110, 10), (114, 13), (116, 9)]

/-- A byte that stands for itself in a string. -/
def isPlain (byte : UInt8) : Bool :=
  32 ≤ byte && byte != Byte.quote && byte != Byte.backslash

theorem isPlain_iff (byte : UInt8) :
    isPlain byte = true ↔ 32 ≤ byte ∧ byte ≠ Byte.quote ∧ byte ≠ Byte.backslash := by
  simp [isPlain, and_assoc]

/-- The bytes that the code units of an escape stand for. -/
inductive IsUnits : Text → Text → Prop where
  | single {unit : Nat} {digits : Text}
      (isUnit : IsCodeUnit unit digits)
      (notHigh : ¬ IsHighSurrogate unit)
      (notLow : ¬ IsLowSurrogate unit) :
      IsUnits (encode unit) digits
  | pair {high low : Nat} {highDigits lowDigits : Text}
      (highUnit : IsCodeUnit high highDigits)
      (isHigh : IsHighSurrogate high)
      (lowUnit : IsCodeUnit low lowDigits)
      (isLow : IsLowSurrogate low) :
      IsUnits (encode (combine high low))
        (highDigits ++ Byte.backslash :: 117 :: lowDigits)

/-- The bytes that one plain byte or one escape stands for. -/
inductive IsPiece : Text → Text → Prop where
  | plain {byte : UInt8}
      (plain : isPlain byte = true) :
      IsPiece [byte] [byte]
  | short {sign byte : UInt8}
      (escapes : (sign, byte) ∈ shortEscapes) :
      IsPiece [byte] [Byte.backslash, sign]
  | units {bytes digits : Text}
      (isUnits : IsUnits bytes digits) :
      IsPiece bytes (Byte.backslash :: 117 :: digits)

/-- The bytes that the inside of a string stands for. -/
inductive IsCharacters : Text → Text → Prop where
  | nil : IsCharacters [] []
  | cons {bytes piece others rest : Text}
      (first : IsPiece bytes piece)
      (following : IsCharacters others rest) :
      IsCharacters (bytes ++ others) (piece ++ rest)

/-- Read a byte that stands for itself. -/
def plain : Recogniser Text
  | [] => none
  | first :: rest => if isPlain first then some ([first], rest) else none

/-- Read the sign of a short escape. -/
def short : Recogniser Text
  | [] => none
  | first :: rest => (shortEscapes.lookup first).map fun byte => ([byte], rest)

/-- Read the escape of a second surrogate. -/
def secondUnit : Recogniser Nat := do
  byte Byte.backslash
  byte 117
  let low ← codeUnit
  guard (IsLowSurrogate low)
  return low

/-- Read the code units of an escape, behind its backslash and letter. -/
def units : Recogniser Text := do
  let unit ← codeUnit
  if IsHighSurrogate unit then
    let low ← secondUnit
    return encode (combine unit low)
  else
    guard (¬ IsLowSurrogate unit)
    return encode unit

/-- Read one plain byte or one escape. -/
def piece : Recogniser Text :=
  branch Byte.backslash (branch 117 units short) plain

/-- Read the inside of a string and its closing quote. -/
def characters : Nat → Recogniser Text
  | 0 => fun _ => none
  | fuel + 1 => branch Byte.quote (pure []) do
    let bytes ← piece
    let others ← characters fuel
    return bytes ++ others

theorem plain_eq_some
    {text bytes rest : Text} :
    plain text = some (bytes, rest) ↔
      ∃ byte, isPlain byte = true ∧ bytes = [byte] ∧ text = byte :: rest := by
  cases text with
  | nil => simp [plain]
  | cons first following =>
      simp only [plain, Option.ite_none_right_eq_some, Option.some.injEq, Prod.mk.injEq,
        List.cons.injEq]
      constructor
      · rintro ⟨standsForItself, rfl, rfl⟩
        exact ⟨first, standsForItself, rfl, rfl, rfl⟩
      · rintro ⟨_, standsForItself, rfl, rfl, rfl⟩
        exact ⟨standsForItself, rfl, rfl⟩

theorem short_eq_some
    {text bytes rest : Text} :
    short text = some (bytes, rest) ↔
      ∃ sign byte, (sign, byte) ∈ shortEscapes ∧ bytes = [byte] ∧ text = sign :: rest := by
  have lookedUp : shortEscapes.all (fun entry =>
      decide (shortEscapes.lookup entry.1 = some entry.2)) = true := by decide
  cases text with
  | nil => simp [short]
  | cons first following =>
      simp only [short, Option.map_eq_some_iff, Prod.mk.injEq, List.cons.injEq]
      constructor
      · rintro ⟨byte, found, rfl, rfl⟩
        obtain ⟨_, _, cut, _⟩ := List.lookup_eq_some_iff.mp found
        exact ⟨first, byte, by simp [cut], rfl, rfl, rfl⟩
      · rintro ⟨sign, byte, escapes, rfl, rfl, rfl⟩
        exact ⟨byte, of_decide_eq_true (List.all_eq_true.mp lookedUp _ escapes), rfl, rfl⟩

theorem secondUnit_eq_some
    {text rest : Text}
    {low : Nat} :
    secondUnit text = some (low, rest) ↔
      ∃ digits, IsCodeUnit low digits ∧ IsLowSurrogate low ∧
        text = Byte.backslash :: 117 :: (digits ++ rest) := by
  constructor
  · intro read
    obtain ⟨_, _, backslash, read⟩ := bind_eq_some.mp read
    obtain ⟨_, _, letter, read⟩ := bind_eq_some.mp read
    obtain ⟨unit, _, unitRead, read⟩ := bind_eq_some.mp read
    obtain ⟨_, _, guarded, read⟩ := bind_eq_some.mp read
    obtain ⟨isLow, rfl⟩ := guard_eq_some.mp guarded
    obtain ⟨rfl, rfl⟩ := Prod.mk.inj (Option.some.inj read)
    obtain ⟨digits, isUnit, rfl⟩ := codeUnit_eq_some.mp unitRead
    rw [byte_eq_some backslash, byte_eq_some letter]
    exact ⟨digits, isUnit, isLow, rfl⟩
  · rintro ⟨digits, isUnit, isLow, rfl⟩
    refine bind_eq_some.mpr ⟨(), _, byte_cons_self _ _, ?_⟩
    refine bind_eq_some.mpr ⟨(), _, byte_cons_self _ _, ?_⟩
    refine bind_eq_some.mpr ⟨low, rest, codeUnit_eq_some.mpr ⟨digits, isUnit, rfl⟩, ?_⟩
    exact bind_eq_some.mpr ⟨(), rest, guard_eq_some.mpr ⟨isLow, rfl⟩, rfl⟩

theorem units_eq_some
    {text bytes rest : Text} :
    units text = some (bytes, rest) ↔ ∃ digits, IsUnits bytes digits ∧ text = digits ++ rest := by
  constructor
  · intro read
    obtain ⟨unit, _, unitRead, following⟩ := bind_eq_some.mp read
    obtain ⟨digits, isUnit, rfl⟩ := codeUnit_eq_some.mp unitRead
    by_cases isHigh : IsHighSurrogate unit
    · rw [if_pos isHigh] at following
      obtain ⟨low, lowRead, rfl⟩ := bind_pure_eq_some.mp following
      obtain ⟨lowDigits, lowUnit, isLow, rfl⟩ := secondUnit_eq_some.mp lowRead
      exact ⟨_, .pair isUnit isHigh lowUnit isLow, by simp⟩
    · rw [if_neg isHigh] at following
      obtain ⟨_, guarded, rfl⟩ := bind_pure_eq_some.mp following
      obtain ⟨notLow, rfl⟩ := guard_eq_some.mp guarded
      exact ⟨digits, .single isUnit isHigh notLow, rfl⟩
  · rintro ⟨digits, isUnits, rfl⟩
    cases isUnits with
    | @single unit _ isUnit notHigh notLow =>
        refine bind_eq_some.mpr ⟨unit, rest, codeUnit_eq_some.mpr ⟨digits, isUnit, rfl⟩, ?_⟩
        rw [if_neg notHigh]
        exact bind_eq_some.mpr ⟨(), rest, guard_eq_some.mpr ⟨notLow, rfl⟩, rfl⟩
    | @pair high low highDigits lowDigits highUnit isHigh lowUnit isLow =>
        refine bind_eq_some.mpr ⟨high, Byte.backslash :: 117 :: (lowDigits ++ rest),
          codeUnit_eq_some.mpr ⟨highDigits, highUnit, by simp⟩, ?_⟩
        rw [if_pos isHigh]
        exact bind_eq_some.mpr
          ⟨low, rest, secondUnit_eq_some.mpr ⟨lowDigits, lowUnit, isLow, rfl⟩, rfl⟩

/-- A piece is read exactly if it stands at the beginning. -/
theorem piece_eq_some
    {text bytes rest : Text} :
    piece text = some (bytes, rest) ↔ ∃ written, IsPiece bytes written ∧ text = written ++ rest := by
  have noUnit : shortEscapes.all (fun entry => entry.1 != 117) = true := by decide
  constructor
  · intro read
    rcases branch_eq_some.mp read with ⟨escaped, rfl, escapeRead⟩ | ⟨_, plainRead⟩
    · rcases branch_eq_some.mp escapeRead with ⟨following, rfl, unitsRead⟩ | ⟨_, shortRead⟩
      · obtain ⟨digits, isUnits, rfl⟩ := units_eq_some.mp unitsRead
        exact ⟨_, .units isUnits, rfl⟩
      · obtain ⟨sign, byte, escapes, rfl, rfl⟩ := short_eq_some.mp shortRead
        exact ⟨_, .short escapes, rfl⟩
    · obtain ⟨byte, standsForItself, rfl, rfl⟩ := plain_eq_some.mp plainRead
      exact ⟨_, .plain standsForItself, rfl⟩
  · rintro ⟨written, isPiece, rfl⟩
    cases isPiece with
    | @plain byte standsForItself =>
        have notBackslash := ((isPlain_iff byte).mp standsForItself).2.2
        refine branch_eq_some.mpr (.inr ⟨by simpa using notBackslash, ?_⟩)
        exact plain_eq_some.mpr ⟨byte, standsForItself, rfl, rfl⟩
    | @short sign byte escapes =>
        refine branch_eq_some.mpr (.inl ⟨sign :: rest, rfl, ?_⟩)
        refine branch_eq_some.mpr (.inr ⟨by simpa using List.all_eq_true.mp noUnit _ escapes, ?_⟩)
        exact short_eq_some.mpr ⟨sign, byte, escapes, rfl, rfl⟩
    | @units _ digits isUnits =>
        refine branch_eq_some.mpr (.inl ⟨117 :: (digits ++ rest), rfl, ?_⟩)
        refine branch_eq_some.mpr (.inl ⟨digits ++ rest, rfl, ?_⟩)
        exact units_eq_some.mpr ⟨digits, isUnits, rfl⟩

/-- No piece begins with a quote. -/
theorem IsPiece.exists_cons
    {bytes written : Text}
    (isPiece : IsPiece bytes written) :
    ∃ first others, written = first :: others ∧ first ≠ Byte.quote := by
  cases isPiece with
  | @plain byte standsForItself =>
      exact ⟨byte, [], rfl, ((isPlain_iff byte).mp standsForItself).2.1⟩
  | @short sign _ _ => exact ⟨Byte.backslash, [sign], rfl, by decide⟩
  | @units _ digits _ => exact ⟨Byte.backslash, 117 :: digits, rfl, by decide⟩

/-! ### Whole strings -/

/-- What is read up to a quote is the inside of a string. -/
theorem characters_sound
    {fuel : Nat}
    {text content rest : Text}
    (read : characters fuel text = some (content, rest)) :
    ∃ written, IsCharacters content written ∧ text = written ++ Byte.quote :: rest := by
  induction fuel generalizing text content with
  | zero => contradiction
  | succ fuel inductionHypothesis =>
      rcases branch_eq_some.mp read with ⟨following, rfl, ended⟩ | ⟨_, continued⟩
      · obtain ⟨rfl, rfl⟩ := Prod.mk.inj (Option.some.inj ended)
        exact ⟨[], .nil, rfl⟩
      · obtain ⟨bytes, _, pieceRead, afterPiece⟩ := bind_eq_some.mp continued
        obtain ⟨others, othersRead, rfl⟩ := bind_pure_eq_some.mp afterPiece
        obtain ⟨written, isCharacters, rfl⟩ := inductionHypothesis othersRead
        obtain ⟨first, isPiece, rfl⟩ := piece_eq_some.mp pieceRead
        exact ⟨first ++ written, .cons isPiece isCharacters, by simp⟩

/-- The inside of a string is read up to the closing quote. -/
theorem characters_complete
    {content written : Text}
    (isCharacters : IsCharacters content written)
    {fuel : Nat}
    (enough : written.length < fuel)
    (rest : Text) :
    characters fuel (written ++ Byte.quote :: rest) = some (content, rest) := by
  induction isCharacters generalizing fuel with
  | nil =>
      obtain ⟨fuel, rfl⟩ := Nat.exists_eq_succ_of_ne_zero (Nat.ne_zero_of_lt enough)
      exact branch_cons_self rest
  | @cons bytes piece others written first following inductionHypothesis =>
      obtain ⟨fuel, rfl⟩ := Nat.exists_eq_succ_of_ne_zero (Nat.ne_zero_of_lt enough)
      obtain ⟨sign, signs, rfl, notQuote⟩ := first.exists_cons
      have enoughLeft : written.length < fuel := by
        simp only [List.length_append, List.length_cons] at enough
        omega
      rw [List.append_assoc]
      refine branch_eq_some.mpr (.inr ⟨by simpa using notQuote, ?_⟩)
      refine bind_eq_some.mpr ⟨bytes, _, piece_eq_some.mpr ⟨_, first, rfl⟩, ?_⟩
      exact bind_eq_some.mpr ⟨others, rest, inductionHypothesis enoughLeft, rfl⟩

end Json
end QueryAdvisor

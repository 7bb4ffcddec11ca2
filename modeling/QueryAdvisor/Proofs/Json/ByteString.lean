import QueryAdvisor.Proofs.Report.RoundTrip

/-!
# Strings of bytes in JSON

A reader for strings whose characters are single bytes.  It goes through a text byte
by byte: two signs of a short escape and a code unit below `0x100` give one byte, and
a byte from `0x80` on gives itself.  Every text can be escaped and read back, whatever
follows its closing quote.
-/

namespace QueryAdvisor
namespace Json

/-- Where a reader of bytes stands inside a string. -/
inductive Mode where
  | between
  /-- Behind a backslash. -/
  | escape
  /-- In a code unit, with the number of digits that are left after the next one and the
  value of those before it. -/
  | codeUnit (left value : Nat)

/-- Put a byte in front of what is read. -/
def withByte
    (byte : UInt8)
    (read : Option (Text × Text)) : Option (Text × Text) :=
  read.map fun result => (byte :: result.1, result.2)

/-- Read bytes up to the closing quote. -/
def bytesFrom : Mode → Text → Option (Text × Text)
  | _, [] => none
  | .between, first :: rest =>
    if first = Byte.quote then some ([], rest)
    else if first = Byte.backslash then bytesFrom .escape rest
    else if first < 32 then none
    else withByte first (bytesFrom .between rest)
  | .escape, first :: rest =>
    if first = 117 then bytesFrom (.codeUnit 3 0) rest
    else
      match shortEscapes.lookup first with
      | some byte => withByte byte (bytesFrom .between rest)
      | none => none
  | .codeUnit left value, first :: rest =>
    match hexValue? first with
    | none => none
    | some digit =>
      if 0 < left then bytesFrom (.codeUnit (left - 1) (value * 16 + digit)) rest
      else if value * 16 + digit < 256 then
        withByte (value * 16 + digit).toUInt8 (bytesFrom .between rest)
      else none

/-- Read a string of bytes with its quotes. -/
def byteString : Recogniser Text := do
  Recogniser.byte Byte.quote
  bytesFrom .between

/-! ### No control bytes -/

theorem large_of_hexValue?
    {digit : UInt8}
    {value : Nat}
    (isDigit : hexValue? digit = some value) :
    32 ≤ digit := by
  rw [hexValue?] at isDigit
  split_ifs at isDigit with decimal small capital
  · exact UInt8.le_trans (by decide) decimal.1
  · exact UInt8.le_trans (by decide) small.1
  · exact UInt8.le_trans (by decide) capital.1

theorem IsCodeUnit.large
    {unit : Nat}
    {digits : Text}
    (isUnit : IsCodeUnit unit digits) :
    ∀ byte ∈ digits, 32 ≤ byte := by
  obtain ⟨firstValue, secondValue, thirdValue, fourthValue⟩ := isUnit
  simp only [List.forall_mem_cons]
  exact ⟨large_of_hexValue? firstValue, large_of_hexValue? secondValue,
    large_of_hexValue? thirdValue, large_of_hexValue? fourthValue, by simp⟩

theorem IsUnits.large
    {bytes digits : Text}
    (isUnits : IsUnits bytes digits) :
    ∀ byte ∈ digits, 32 ≤ byte := by
  cases isUnits with
  | single isUnit _ _ => exact isUnit.large
  | pair highUnit _ lowUnit _ =>
      rw [List.forall_mem_append, List.forall_mem_cons, List.forall_mem_cons]
      exact ⟨highUnit.large, by decide, by decide, lowUnit.large⟩

/-- What is written inside a string holds no control byte. -/
theorem IsPiece.large
    {bytes written : Text}
    (isPiece : IsPiece bytes written) :
    ∀ byte ∈ written, 32 ≤ byte := by
  have signs : shortEscapes.all (fun entry => 32 ≤ entry.1) = true := by decide
  cases isPiece with
  | plain plain =>
      rw [List.forall_mem_singleton]
      exact ((isPlain_iff _).mp plain).1
  | short escapes =>
      rw [List.forall_mem_cons, List.forall_mem_singleton]
      exact ⟨by decide, of_decide_eq_true (List.all_eq_true.mp signs _ escapes)⟩
  | units isUnits =>
      rw [List.forall_mem_cons, List.forall_mem_cons]
      exact ⟨by decide, by decide, isUnits.large⟩

theorem IsCharacters.large
    {content written : Text}
    (isCharacters : IsCharacters content written) :
    ∀ byte ∈ written, 32 ≤ byte := by
  induction isCharacters with
  | nil => simp
  | cons first _ inductionHypothesis =>
      rw [List.forall_mem_append]
      exact ⟨first.large, inductionHypothesis⟩

end Json

namespace Report
namespace Json

open QueryAdvisor.Json

/-! ### The form of one byte -/

theorem bytesFrom_plain
    {byte : UInt8}
    (plain : isPlain byte = true)
    (rest : Text) :
    bytesFrom .between (byte :: rest) = withByte byte (bytesFrom .between rest) := by
  obtain ⟨large, notQuote, notBackslash⟩ := (isPlain_iff byte).mp plain
  rw [bytesFrom, if_neg notQuote, if_neg notBackslash, if_neg (UInt8.not_lt.mpr large)]

theorem bytesFrom_short
    {sign byte : UInt8}
    (notUnit : sign ≠ 117)
    (escapes : shortEscapes.lookup sign = some byte)
    (rest : Text) :
    bytesFrom .between (Byte.backslash :: sign :: rest) =
      withByte byte (bytesFrom .between rest) := by
  rw [bytesFrom, if_neg (by decide), if_pos rfl, bytesFrom, if_neg notUnit, escapes]

section Digit

variable {left value digit : Nat} {first : UInt8}

theorem bytesFrom_digit
    (isDigit : hexValue? first = some digit)
    (rest : Text) :
    bytesFrom (.codeUnit (left + 1) value) (first :: rest) =
      bytesFrom (.codeUnit left (value * 16 + digit)) rest := by
  rw [bytesFrom, isDigit]
  exact if_pos (Nat.succ_pos left)

theorem bytesFrom_lastDigit
    (isDigit : hexValue? first = some digit)
    (small : value * 16 + digit < 256)
    (rest : Text) :
    bytesFrom (.codeUnit 0 value) (first :: rest) =
      withByte (value * 16 + digit).toUInt8 (bytesFrom .between rest) := by
  rw [bytesFrom, isDigit]
  exact if_pos small

end Digit

/-- The four digits of a code unit are read one after the other. -/
theorem bytesFrom_unit
    {unit : Nat}
    {digits : Text}
    (isUnit : IsCodeUnit unit digits)
    (small : unit < 256)
    (rest : Text) :
    bytesFrom .between (Byte.backslash :: 117 :: (digits ++ rest)) =
      withByte unit.toUInt8 (bytesFrom .between rest) := by
  obtain ⟨firstValue, secondValue, thirdValue, fourthValue⟩ := isUnit
  rw [bytesFrom, if_neg (by decide), if_pos rfl, bytesFrom, if_pos rfl]
  simp only [List.cons_append, List.nil_append, bytesFrom_digit firstValue,
    bytesFrom_digit secondValue, bytesFrom_digit thirdValue, Nat.zero_mul, Nat.zero_add]
  exact bytesFrom_lastDigit fourthValue small rest

/-- The form of a byte is read as this byte. -/
theorem bytesFrom_escapeByte
    (byte : UInt8)
    (rest : Text) :
    bytesFrom .between (escapeByte byte ++ rest) = withByte byte (bytesFrom .between rest) := by
  unfold escapeByte
  split_ifs with isQuote isBackslash isBackspace isFormFeed isNewline isReturn isTab control
  · rw [isQuote]
    exact bytesFrom_short (by decide) rfl rest
  · rw [isBackslash]
    exact bytesFrom_short (by decide) rfl rest
  · exact isBackspace ▸ bytesFrom_short (by decide) rfl rest
  · exact isFormFeed ▸ bytesFrom_short (by decide) rfl rest
  · exact isNewline ▸ bytesFrom_short (by decide) rfl rest
  · exact isReturn ▸ bytesFrom_short (by decide) rfl rest
  · exact isTab ▸ bytesFrom_short (by decide) rfl rest
  · have small : byte.toNat < 32 := UInt8.lt_iff_toNat_lt.mp control
    have read := bytesFrom_unit (isCodeUnit_control control) (by omega) rest
    rwa [Nat.toUInt8_eq, UInt8.ofNat_toNat] at read
  · exact bytesFrom_plain
      ((isPlain_iff byte).mpr ⟨UInt8.not_lt.mp control, isQuote, isBackslash⟩) rest

theorem bytesFrom_escape
    (text rest : Text) :
    bytesFrom .between (escape text ++ Byte.quote :: rest) = some (text, rest) := by
  induction text with
  | nil => rfl
  | cons first others inductionHypothesis =>
      rw [escape, List.flatMap_cons, List.append_assoc, bytesFrom_escapeByte]
      exact congrArg (withByte first) inductionHypothesis

theorem byteString_escape
    (text rest : Text) :
    byteString (Byte.quote :: (escape text ++ Byte.quote :: rest)) = some (text, rest) := by
  refine Recogniser.bind_eq_some.mpr ⟨(), _, Recogniser.byte_cons_self _ _, ?_⟩
  exact bytesFrom_escape text rest

/-- An escaped text between quotes is read back as this text, and what follows it is
left.  So no two texts are written alike, whatever follows them.  A reader of all
strings of JSON reads the same, and no control byte is written. -/
theorem escape_reads_back
    (text rest : Text) :
    byteString (Byte.quote :: (escape text ++ Byte.quote :: rest)) = some (text, rest) ∧
      characters ((escape text).length + 1) (escape text ++ Byte.quote :: rest) =
        some (text, rest) ∧
      (∀ other otherRest,
        string text ++ rest = string other ++ otherRest ↔ text = other ∧ rest = otherRest) ∧
      ∀ byte ∈ escape text, 32 ≤ byte := by
  have spelled : ∀ other otherRest : Text, string other ++ otherRest =
      Byte.quote :: (escape other ++ Byte.quote :: otherRest) := by
    intro other otherRest
    simp [string]
  refine ⟨byteString_escape text rest, ?_, ?_, (isCharacters_escape text).large⟩
  · exact characters_complete (isCharacters_escape text) (Nat.lt_succ_self _) rest
  · intro other otherRest
    constructor
    · intro same
      have read := byteString_escape text rest
      rw [← spelled, same, spelled, byteString_escape] at read
      obtain ⟨sameText, sameRest⟩ := Prod.mk.inj (Option.some.inj read)
      exact ⟨sameText.symm, sameRest.symm⟩
    · rintro ⟨rfl, rfl⟩
      rfl

/-- A text that ends in a backslash, before a text that begins with a quote. -/
theorem backslash_reads_back :
    byteString (ascii "\"\\\"\\u0001\\n" ++ 255 :: ascii "\\\\\"\", x") =
        some (ascii "\"" ++ [1, 10, 255] ++ ascii "\\", ascii "\", x") ∧
      32 ≤ (255 : UInt8) := by
  obtain ⟨read, _, _, large⟩ :=
    escape_reads_back (ascii "\"" ++ [1, 10, 255] ++ ascii "\\") (ascii "\", x")
  exact ⟨read, large 255 (by decide)⟩

end Json
end Report
end QueryAdvisor

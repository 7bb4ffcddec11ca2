/-!
# Texts

Schema dumps, source files, paths and reports are all *texts*: lists of bytes
about whose encoding nothing is assumed.  This module fixes the byte classes
the advisor distinguishes and the elementary operations on texts.

Only ASCII bytes belong to a class.  A byte from `0x80` on is neither a word
byte nor a space, so a text in any encoding can be examined byte by byte.
-/

namespace QueryAdvisor

/-- A text is a list of bytes. -/
abbrev Text := List UInt8

namespace Byte

/-- Line feed. -/
abbrev newline : UInt8 := 10

/-- Carriage return. -/
abbrev carriageReturn : UInt8 := 13

/-- Double quote. -/
abbrev quote : UInt8 := 34

/-- Number sign, which opens a comment. -/
abbrev hash : UInt8 := 35

/-- Single quote. -/
abbrev apostrophe : UInt8 := 39

/-- Comma. -/
abbrev comma : UInt8 := 44

/-- Full stop. -/
abbrev dot : UInt8 := 46

/-- Slash, the separator of path names. -/
abbrev slash : UInt8 := 47

/-- Backslash, which takes the next byte of a quotation literally. -/
abbrev backslash : UInt8 := 92

/-- Decimal digits. -/
def isDigit (byte : UInt8) : Bool :=
  48 ≤ byte && byte ≤ 57

/-- Capital letters. -/
def isUpper (byte : UInt8) : Bool :=
  65 ≤ byte && byte ≤ 90

/-- Small letters. -/
def isLower (byte : UInt8) : Bool :=
  97 ≤ byte && byte ≤ 122

/-- Letters, digits and the underscore make up words. -/
def isWord (byte : UInt8) : Bool :=
  isLower byte || isUpper byte || isDigit byte || byte == 95

/-- Tab, line feed, vertical tab, form feed, carriage return and blank. -/
def isSpace (byte : UInt8) : Bool :=
  byte == 32 || (9 ≤ byte && byte ≤ 13)

/-- The small letter of a capital; any other byte is kept. -/
def toLower (byte : UInt8) : UInt8 :=
  if isUpper byte then byte + 32 else byte

end Byte

/-- The bytes of a literal whose characters are all ASCII. -/
def ascii (literal : String) : Text :=
  literal.toList.map fun character => character.toNat.toUInt8

namespace Text

/-- The decimal digits of a natural number, without leading zeros. -/
def ofNat (number : Nat) : Text :=
  (Nat.toDigits 10 number).map fun digit => digit.toNat.toUInt8

/-- Decimal digits with a leading minus sign for negative numbers. -/
def ofInt : Int → Text
  | .ofNat number => ofNat number
  | .negSucc number => ascii "-" ++ ofNat (number + 1)

/-- Every capital letter becomes small. -/
def toLower (text : Text) : Text :=
  text.map Byte.toLower

/-- Remove the longest tail of bytes that satisfy a predicate. -/
def dropTailWhile
    (predicate : UInt8 → Bool)
    (text : Text) : Text :=
  (text.reverse.dropWhile predicate).reverse

theorem length_dropTailWhile_le
    (predicate : UInt8 → Bool)
    (text : Text) :
    (dropTailWhile predicate text).length ≤ text.length := by
  have shorter := (List.dropWhile_sublist (l := text.reverse) predicate).length_le
  simpa [dropTailWhile] using shorter

/-- Something is removed if the last byte satisfies the predicate. -/
theorem length_dropTailWhile_lt
    (predicate : UInt8 → Bool)
    (text : Text)
    (last : UInt8)
    (endsIn : text.getLast? = some last)
    (removed : predicate last = true) :
    (dropTailWhile predicate text).length < text.length := by
  obtain ⟨initial, rfl⟩ := List.getLast?_eq_some_iff.mp endsIn
  have shorter := length_dropTailWhile_le predicate initial
  simp only [dropTailWhile, List.reverse_append, List.reverse_cons, List.reverse_nil,
    List.nil_append, List.singleton_append, List.dropWhile_cons, removed, if_true,
    List.length_append, List.length_singleton] at shorter ⊢
  omega

/-- Remove the spaces at both ends. -/
def trim (text : Text) : Text :=
  dropTailWhile Byte.isSpace (text.dropWhile Byte.isSpace)

theorem dropTailWhile_prefix
    (predicate : UInt8 → Bool)
    (text : Text) :
    dropTailWhile predicate text <+: text := by
  rw [← List.reverse_suffix, dropTailWhile, List.reverse_reverse]
  exact List.dropWhile_suffix predicate

theorem eq_false_of_head?_dropWhile
    {predicate : UInt8 → Bool}
    {text : Text}
    {first : UInt8}
    (begins : (text.dropWhile predicate).head? = some first) :
    predicate first = false := by
  have stops := List.head?_dropWhile_not predicate text
  rwa [begins] at stops

/-- What is left ends in a byte that fails the predicate. -/
theorem eq_false_of_getLast?_dropTailWhile
    {predicate : UInt8 → Bool}
    {text : Text}
    {last : UInt8}
    (ends : (dropTailWhile predicate text).getLast? = some last) :
    predicate last = false := by
  rw [dropTailWhile, List.getLast?_reverse] at ends
  exact eq_false_of_head?_dropWhile ends

/-- A trimmed text does not begin with a space. -/
theorem isSpace_of_head?_trim
    {text : Text}
    {first : UInt8}
    (begins : (trim text).head? = some first) :
    Byte.isSpace first = false := by
  obtain ⟨removed, whole⟩ := dropTailWhile_prefix Byte.isSpace (text.dropWhile Byte.isSpace)
  have sameBeginning : (text.dropWhile Byte.isSpace).head? = some first := by
    rw [← whole, List.head?_append, ← trim, begins]
    rfl
  exact eq_false_of_head?_dropWhile sameBeginning

/-- A trimmed text does not end with a space. -/
theorem isSpace_of_getLast?_trim
    {text : Text}
    {last : UInt8}
    (ends : (trim text).getLast? = some last) :
    Byte.isSpace last = false :=
  eq_false_of_getLast?_dropTailWhile ends

theorem trim_subset (text : Text) : trim text ⊆ text := by
  have kept := dropTailWhile_prefix Byte.isSpace (text.dropWhile Byte.isSpace)
  exact List.Subset.trans kept.subset (List.dropWhile_sublist Byte.isSpace).subset

/-- Only spaces are removed, and only at both ends. -/
theorem exists_append_trim (text : Text) :
    ∃ before after,
      before.all Byte.isSpace = true ∧ after.all Byte.isSpace = true ∧
        text = before ++ trim text ++ after := by
  refine ⟨text.takeWhile Byte.isSpace,
    ((text.dropWhile Byte.isSpace).reverse.takeWhile Byte.isSpace).reverse,
    List.all_takeWhile, by rw [List.all_reverse, List.all_takeWhile], ?_⟩
  rw [trim, dropTailWhile, List.append_assoc, ← List.reverse_append,
    List.takeWhile_append_dropWhile, List.reverse_reverse, List.takeWhile_append_dropWhile]

theorem dropWhile_isSpace_of_solid
    {text : Text}
    (solid : text.any Byte.isSpace = false) :
    text.dropWhile Byte.isSpace = text := by
  cases text with
  | nil => rfl
  | cons first rest =>
      exact List.dropWhile_cons_of_neg (List.any_eq_false.mp solid first List.mem_cons_self)

theorem dropTailWhile_append_of_solid
    {inner after : Text}
    (solid : inner.any Byte.isSpace = false)
    (spacesAfter : after.all Byte.isSpace = true) :
    dropTailWhile Byte.isSpace (inner ++ after) = inner := by
  have spaces : ∀ byte ∈ after.reverse, Byte.isSpace byte = true := by
    intro byte present
    exact List.all_eq_true.mp spacesAfter byte (List.mem_reverse.mp present)
  rw [dropTailWhile, List.reverse_append, List.dropWhile_append_of_pos spaces,
    dropWhile_isSpace_of_solid (by rwa [List.any_reverse]), List.reverse_reverse]

/-- Spaces around a text without spaces are removed. -/
theorem trim_append
    {before inner after : Text}
    (spacesBefore : before.all Byte.isSpace = true)
    (spacesAfter : after.all Byte.isSpace = true)
    (solid : inner.any Byte.isSpace = false) :
    trim (before ++ inner ++ after) = inner := by
  rw [trim, List.append_assoc, List.dropWhile_append_of_pos (List.all_eq_true.mp spacesBefore)]
  cases inner with
  | nil =>
      rw [List.nil_append, ← List.append_nil after,
        List.dropWhile_append_of_pos (List.all_eq_true.mp spacesAfter)]
      rfl
  | cons first rest =>
      have solidFirst : ¬ Byte.isSpace first = true :=
        List.any_eq_false.mp solid first List.mem_cons_self
      rw [List.cons_append, List.dropWhile_cons_of_neg solidFirst, ← List.cons_append,
        dropTailWhile_append_of_solid solid spacesAfter]

/-- No piece of a text holds the separator it was split at. -/
theorem not_mem_of_mem_splitOn
    {separator : UInt8}
    {text piece : Text}
    (present : piece ∈ text.splitOn separator) :
    separator ∉ piece := by
  induction text generalizing piece with
  | nil =>
      obtain rfl := List.mem_singleton.mp present
      exact List.not_mem_nil
  | cons first rest inductionHypothesis =>
      rw [List.splitOn_cons_eq_if_modifyHead] at present
      split at present
      · rcases List.mem_cons.mp present with rfl | behind
        · exact List.not_mem_nil
        · exact inductionHypothesis behind
      · rename_i other
        cases split : rest.splitOn separator with
        | nil => exact absurd split (List.splitOn_ne_nil _ _)
        | cons here behind =>
            rw [split] at present inductionHypothesis
            rcases List.mem_cons.mp present with rfl | later
            · rw [List.mem_cons, not_or]
              exact ⟨fun equal => other (beq_iff_eq.mpr equal.symm),
                inductionHypothesis List.mem_cons_self⟩
            · exact inductionHypothesis (List.mem_cons_of_mem here later)

/-- The part before the first NUL byte.  Names handed to the operating system,
and messages, end there. -/
def beforeNul (text : Text) : Text :=
  text.takeWhile fun byte => byte != 0

/-- Concatenate texts with a separator between neighbours. -/
def join (separator : Text) : List Text → Text
  | [] => []
  | [last] => last
  | first :: second :: rest => first ++ separator ++ join separator (second :: rest)

@[simp] theorem join_nil (separator : Text) : join separator [] = [] := rfl

@[simp] theorem join_singleton (separator text : Text) : join separator [text] = text := rfl

/-- Joined texts are the first one and the others, each behind a separator. -/
theorem join_cons
    (separator first : Text)
    (others : List Text) :
    join separator (first :: others) =
      first ++ others.flatMap fun text => separator ++ text := by
  induction others generalizing first with
  | nil => simp
  | cons second others inductionHypothesis =>
      rw [join, inductionHypothesis, List.flatMap_cons]
      simp only [List.append_assoc]

/-- Lexicographic comparison by byte value; a proper initial part comes first. -/
def precedes : Text → Text → Bool
  | [], _ => true
  | _ :: _, [] => false
  | left :: leftRest, right :: rightRest =>
    left < right || (left == right && precedes leftRest rightRest)

end Text
end QueryAdvisor

import Mathlib.Logic.Basic
import QueryAdvisor.Proofs.Json.Number

/-!
# JSON texts

The values of JSON, the grammar of the texts that write them, and a reader for
such texts.  The reader reads a value off a text exactly if the grammar writes
the text for it, so that no text is written for two values.
-/

namespace QueryAdvisor
namespace Json

open Recogniser

variable {α : Type}

/-- A value.  A number is a mantissa and the power of ten it is multiplied by. -/
inductive Value where
  | null
  | boolean (value : Bool)
  | number (mantissa exponent : Int)
  | string (content : Text)
  | array (elements : List Value)
  | object (members : List (Text × Value))
deriving Repr

/-- Blanks may stand around values and signs. -/
def isBlank (byte : UInt8) : Bool :=
  byte == 32 || byte == 9 || byte == 10 || byte == 13

/-! ### The grammar -/

/-- Items with commas between them.  Blanks may follow an item and a comma. -/
inductive Separated (writes : α → Text → Prop) : List α → Text → Prop where
  | last {item : α} {text blanks : Text}
      (written : writes item text)
      (allBlank : blanks.all isBlank = true) :
      Separated writes [item] (text ++ blanks)
  | cons {item : α} {items : List α} {text blanks moreBlanks others : Text}
      (written : writes item text)
      (allBlank : blanks.all isBlank = true)
      (moreAllBlank : moreBlanks.all isBlank = true)
      (following : Separated writes items others) :
      Separated writes (item :: items) (text ++ (blanks ++ Byte.comma :: (moreBlanks ++ others)))

/-- What stands between brackets: only blanks, or items. -/
inductive Bracketed (writes : α → Text → Prop) : List α → Text → Prop where
  | empty {blanks : Text}
      (allBlank : blanks.all isBlank = true) :
      Bracketed writes [] blanks
  | items {items : List α} {blanks text : Text}
      (allBlank : blanks.all isBlank = true)
      (separated : Separated writes items text) :
      Bracketed writes items (blanks ++ text)

/-- A member of an object: its name, a colon and its value. -/
inductive IsMember (writes : Value → Text → Prop) : Text × Value → Text → Prop where
  | named {name written blanks moreBlanks text : Text} {value : Value}
      (isName : IsCharacters name written)
      (allBlank : blanks.all isBlank = true)
      (moreAllBlank : moreBlanks.all isBlank = true)
      (valueWritten : writes value text) :
      IsMember writes (name, value)
        (Byte.quote :: (written ++ Byte.quote :: (blanks ++ 58 :: (moreBlanks ++ text))))

/-- The text writes the value. -/
inductive Writes : Value → Text → Prop where
  | null : Writes .null (ascii "null")
  | yes : Writes (.boolean true) (ascii "true")
  | no : Writes (.boolean false) (ascii "false")
  | number {mantissa exponent : Int} {text : Text}
      (isNumber : IsNumber mantissa exponent text) :
      Writes (.number mantissa exponent) text
  | string {content written : Text}
      (isCharacters : IsCharacters content written) :
      Writes (.string content) (Byte.quote :: (written ++ [Byte.quote]))
  | array {elements : List Value} {text : Text}
      (inside : Bracketed Writes elements text) :
      Writes (.array elements) (91 :: (text ++ [93]))
  | object {members : List (Text × Value)} {text : Text}
      (inside : Bracketed (IsMember Writes) members text) :
      Writes (.object members) (123 :: (text ++ [125]))

/-- A text that writes a value, perhaps with blanks around it. -/
def IsDocument
    (value : Value)
    (text : Text) : Prop :=
  ∃ before inside after,
    before.all isBlank = true ∧ Writes value inside ∧ after.all isBlank = true ∧
      text = before ++ (inside ++ after)

/-- Induction on the grammar, in which elements and members carry what is to be
proved of their values. -/
theorem Writes.induction
    {motive : ∀ value text, Writes value text → Prop}
    (null : motive .null (ascii "null") .null)
    (yes : motive (.boolean true) (ascii "true") .yes)
    (no : motive (.boolean false) (ascii "false") .no)
    (number : ∀ {mantissa exponent text} (isNumber : IsNumber mantissa exponent text),
      motive (.number mantissa exponent) text (.number isNumber))
    (string : ∀ {content written} (isCharacters : IsCharacters content written),
      motive (.string content) (Byte.quote :: (written ++ [Byte.quote])) (.string isCharacters))
    (array : ∀ {elements text} (inside : Bracketed Writes elements text),
      Bracketed (fun value inside => ∃ writes, motive value inside writes) elements text →
        motive (.array elements) (91 :: (text ++ [93])) (.array inside))
    (object : ∀ {members text} (inside : Bracketed (IsMember Writes) members text),
      Bracketed (IsMember fun value inside => ∃ writes, motive value inside writes) members text →
        motive (.object members) (123 :: (text ++ [125])) (.object inside))
    {value : Value}
    {text : Text}
    (writes : Writes value text) :
    motive value text writes :=
  @Writes.rec motive
    (fun elements text _ =>
      Bracketed (fun value inside => ∃ writes, motive value inside writes) elements text)
    (fun members text _ =>
      Bracketed (IsMember fun value inside => ∃ writes, motive value inside writes) members text)
    (fun elements text _ =>
      Separated (fun value inside => ∃ writes, motive value inside writes) elements text)
    (fun members text _ =>
      Separated (IsMember fun value inside => ∃ writes, motive value inside writes) members text)
    (fun member text _ =>
      IsMember (fun value inside => ∃ writes, motive value inside writes) member text)
    null yes no number string array object
    (fun allBlank => .empty allBlank)
    (fun allBlank _ separated => .items allBlank separated)
    (fun allBlank => .empty allBlank)
    (fun allBlank _ separated => .items allBlank separated)
    (fun written allBlank holds => .last ⟨written, holds⟩ allBlank)
    (fun written allBlank moreAllBlank _ holds following =>
      .cons ⟨written, holds⟩ allBlank moreAllBlank following)
    (fun _ allBlank isMember => .last isMember allBlank)
    (fun _ allBlank moreAllBlank _ isMember following =>
      .cons isMember allBlank moreAllBlank following)
    (fun isName allBlank moreAllBlank written holds =>
      .named isName allBlank moreAllBlank ⟨written, holds⟩)
    value text writes

/-! ### The reader -/

/-- Pass over blanks. -/
def blanks : Recogniser Unit :=
  fun text => some ((), text.dropWhile isBlank)

/-- Read items and the closing bracket. -/
def items
    (item : Recogniser α)
    (close : UInt8) : Nat → Recogniser (List α)
  | 0 => fun _ => none
  | fuel + 1 => do
    let first ← item
    blanks
    branch Byte.comma
      (do
        blanks
        let others ← items item close fuel
        return first :: others)
      (do
        byte close
        return [first])

/-- Read what stands between brackets, and the closing bracket. -/
def bracketed
    (item : Recogniser α)
    (close : UInt8)
    (fuel : Nat) : Recogniser (List α) := do
  blanks
  branch close (pure []) (items item close fuel)

/-- Read a member of an object. -/
def member
    (value : Recogniser Value)
    (fuel : Nat) : Recogniser (Text × Value) := do
  byte Byte.quote
  let name ← characters fuel
  blanks
  byte 58
  blanks
  let found ← value
  return (name, found)

/-- Read a value. -/
def value : Nat → Recogniser Value
  | 0 => fun _ => none
  | fuel + 1 =>
    branch Byte.quote (do return .string (← characters fuel)) <|
    branch 91 (do return .array (← bracketed (value fuel) 93 fuel)) <|
    branch 123 (do return .object (← bracketed (member (value fuel) fuel) 125 fuel)) <|
    branch 110 (do literal (ascii "ull"); return .null) <|
    branch 116 (do literal (ascii "rue"); return .boolean true) <|
    branch 102 (do literal (ascii "alse"); return .boolean false) <|
    (do let found ← number; return .number found.1 found.2)

/-- Read a value with blanks around it. -/
def document (fuel : Nat) : Recogniser Value := do
  blanks
  let found ← value fuel
  blanks
  return found

/-- The value that a whole text writes. -/
def parse (text : Text) : Option Value :=
  (document (text.length + 1) text).bind fun result =>
    if result.2.isEmpty then some result.1 else none

/-! ### What is read is written -/

theorem blanks_sound
    {text rest : Text}
    {value : Unit}
    (read : blanks text = some (value, rest)) :
    ∃ taken, taken.all isBlank = true ∧ text = taken ++ rest := by
  obtain rfl : text.dropWhile isBlank = rest := (Prod.mk.inj (Option.some.inj read)).2
  exact ⟨text.takeWhile isBlank, List.all_takeWhile, List.takeWhile_append_dropWhile.symm⟩

section Sound

variable {item : Recogniser α} {writes : α → Text → Prop} {close : UInt8}

theorem items_sound
    (sound : Sound writes item)
    {fuel : Nat}
    {text rest : Text}
    {found : List α}
    (read : items item close fuel text = some (found, rest)) :
    ∃ taken, Separated writes found taken ∧ text = taken ++ close :: rest := by
  induction fuel generalizing text found with
  | zero => contradiction
  | succ fuel inductionHypothesis =>
      obtain ⟨first, _, firstRead, afterFirst⟩ := bind_eq_some.mp read
      obtain ⟨_, _, blanksRead, afterBlanks⟩ := bind_eq_some.mp afterFirst
      obtain ⟨taken, written, rfl⟩ := sound firstRead
      obtain ⟨gap, allBlank, rfl⟩ := blanks_sound blanksRead
      rcases branch_eq_some.mp afterBlanks with ⟨following, rfl, continued⟩ | ⟨_, closed⟩
      · obtain ⟨_, _, moreRead, afterMore⟩ := bind_eq_some.mp continued
        obtain ⟨others, othersRead, rfl⟩ := bind_pure_eq_some.mp afterMore
        obtain ⟨moreGap, moreAllBlank, rfl⟩ := blanks_sound moreRead
        obtain ⟨rest, separated, rfl⟩ := inductionHypothesis othersRead
        exact ⟨_, .cons written allBlank moreAllBlank separated, by simp⟩
      · obtain ⟨_, closeRead, rfl⟩ := bind_pure_eq_some.mp closed
        rw [byte_eq_some closeRead]
        exact ⟨_, .last written allBlank, by simp⟩

theorem bracketed_sound
    (sound : Sound writes item)
    {fuel : Nat}
    {text rest : Text}
    {found : List α}
    (read : bracketed item close fuel text = some (found, rest)) :
    ∃ taken, Bracketed writes found taken ∧ text = taken ++ close :: rest := by
  obtain ⟨_, _, blanksRead, afterBlanks⟩ := bind_eq_some.mp read
  obtain ⟨gap, allBlank, rfl⟩ := blanks_sound blanksRead
  rcases branch_eq_some.mp afterBlanks with ⟨following, rfl, returned⟩ | ⟨_, itemsRead⟩
  · obtain ⟨rfl, rfl⟩ := Prod.mk.inj (Option.some.inj returned)
    exact ⟨gap, .empty allBlank, rfl⟩
  · obtain ⟨taken, separated, rfl⟩ := items_sound sound itemsRead
    exact ⟨gap ++ taken, .items allBlank separated, by simp⟩

end Sound

theorem member_sound
    {reader : Recogniser Value}
    {writes : Value → Text → Prop}
    (sound : Sound writes reader)
    (fuel : Nat) :
    Sound (IsMember writes) (member reader fuel) := by
  intro text found rest read
  obtain ⟨_, _, quoteRead, afterQuote⟩ := bind_eq_some.mp read
  obtain ⟨name, _, nameRead, afterName⟩ := bind_eq_some.mp afterQuote
  obtain ⟨_, _, blanksRead, afterBlanks⟩ := bind_eq_some.mp afterName
  obtain ⟨_, _, colonRead, afterColon⟩ := bind_eq_some.mp afterBlanks
  obtain ⟨_, _, moreRead, afterMore⟩ := bind_eq_some.mp afterColon
  obtain ⟨value, valueRead, rfl⟩ := bind_pure_eq_some.mp afterMore
  obtain ⟨taken, written, rfl⟩ := sound valueRead
  obtain ⟨moreGap, moreAllBlank, rfl⟩ := blanks_sound moreRead
  obtain rfl := byte_eq_some colonRead
  obtain ⟨gap, allBlank, rfl⟩ := blanks_sound blanksRead
  obtain ⟨nameText, isName, rfl⟩ := characters_sound nameRead
  obtain rfl := byte_eq_some quoteRead
  exact ⟨_, .named isName allBlank moreAllBlank written, by simp⟩

/-- Whatever is read off a text is written at its beginning. -/
theorem value_sound (fuel : Nat) : Sound Writes (value fuel) := by
  induction fuel with
  | zero =>
      intro text found rest read
      contradiction
  | succ fuel inductionHypothesis =>
      intro text found rest read
      rcases branch_eq_some.mp read with ⟨following, rfl, stringRead⟩ | ⟨_, noString⟩
      · obtain ⟨content, charactersRead, rfl⟩ := bind_pure_eq_some.mp stringRead
        obtain ⟨written, isCharacters, rfl⟩ := characters_sound charactersRead
        exact ⟨_, .string isCharacters, by simp⟩
      rcases branch_eq_some.mp noString with ⟨following, rfl, arrayRead⟩ | ⟨_, noArray⟩
      · obtain ⟨elements, elementsRead, rfl⟩ := bind_pure_eq_some.mp arrayRead
        obtain ⟨inside, isInside, rfl⟩ := bracketed_sound inductionHypothesis elementsRead
        exact ⟨_, .array isInside, by simp⟩
      rcases branch_eq_some.mp noArray with ⟨following, rfl, objectRead⟩ | ⟨_, noObject⟩
      · obtain ⟨members, membersRead, rfl⟩ := bind_pure_eq_some.mp objectRead
        obtain ⟨inside, isInside, rfl⟩ :=
          bracketed_sound (member_sound inductionHypothesis fuel) membersRead
        exact ⟨_, .object isInside, by simp⟩
      rcases branch_eq_some.mp noObject with ⟨following, rfl, nullRead⟩ | ⟨_, noNull⟩
      · obtain ⟨_, lettersRead, rfl⟩ := bind_pure_eq_some.mp nullRead
        rw [literal_eq_some lettersRead]
        exact ⟨_, .null, rfl⟩
      rcases branch_eq_some.mp noNull with ⟨following, rfl, trueRead⟩ | ⟨_, noTrue⟩
      · obtain ⟨_, lettersRead, rfl⟩ := bind_pure_eq_some.mp trueRead
        rw [literal_eq_some lettersRead]
        exact ⟨_, .yes, rfl⟩
      rcases branch_eq_some.mp noTrue with ⟨following, rfl, falseRead⟩ | ⟨_, numberRead⟩
      · obtain ⟨_, lettersRead, rfl⟩ := bind_pure_eq_some.mp falseRead
        rw [literal_eq_some lettersRead]
        exact ⟨_, .no, rfl⟩
      obtain ⟨found, foundRead, rfl⟩ := bind_pure_eq_some.mp numberRead
      obtain ⟨written, isNumber, rfl⟩ := number_sound foundRead
      exact ⟨written, .number isNumber, rfl⟩

/-! ### What is written is read -/

/-- A text that begins with a value or a name: with neither a blank nor a
closing bracket. -/
def Begins (text : Text) : Prop :=
  ∃ first others, text = first :: others ∧ isBlank first = false ∧ first ≠ 93 ∧ first ≠ 125

theorem Begins.append
    {text : Text}
    (begins : Begins text)
    (rest : Text) :
    (text ++ rest).head?.any isBlank = false ∧ (text ++ rest).head? ≠ some 93 ∧
      (text ++ rest).head? ≠ some 125 := by
  obtain ⟨first, others, rfl, notBlank, notBracket, notBrace⟩ := begins
  exact ⟨by simpa using notBlank, by simpa using notBracket, by simpa using notBrace⟩

theorem IsNumber.begins
    {mantissa exponent : Int}
    {text : Text}
    (isNumber : IsNumber mantissa exponent text) :
    Begins text := by
  obtain ⟨first, others, rfl, isDigit | rfl⟩ := isNumber.exists_cons
  · have different {sign : UInt8} (notDigit : Byte.isDigit sign = false) : first ≠ sign := by
      rintro rfl
      simp [isDigit] at notDigit
    refine ⟨first, others, rfl, ?_, different (by decide), different (by decide)⟩
    simp only [isBlank, Bool.or_eq_false_iff, beq_eq_false_iff_ne]
    exact ⟨⟨⟨different (by decide), different (by decide)⟩, different (by decide)⟩,
      different (by decide)⟩
  · exact ⟨45, others, rfl, by decide, by decide, by decide⟩

theorem Writes.begins
    {value : Value}
    {text : Text}
    (writes : Writes value text) :
    Begins text := by
  cases writes with
  | null => exact ⟨_, _, rfl, by decide, by decide, by decide⟩
  | yes => exact ⟨_, _, rfl, by decide, by decide, by decide⟩
  | no => exact ⟨_, _, rfl, by decide, by decide, by decide⟩
  | number isNumber => exact isNumber.begins
  | string _ => exact ⟨_, _, rfl, by decide, by decide, by decide⟩
  | array _ => exact ⟨_, _, rfl, by decide, by decide, by decide⟩
  | object _ => exact ⟨_, _, rfl, by decide, by decide, by decide⟩

theorem IsMember.begins
    {writes : Value → Text → Prop}
    {member : Text × Value}
    {text : Text}
    (isMember : IsMember writes member text) :
    Begins text := by
  cases isMember with
  | named _ _ _ _ => exact ⟨_, _, rfl, by decide, by decide, by decide⟩

theorem blanks_complete
    {gap rest : Text}
    (allBlank : gap.all isBlank = true)
    (ended : rest.head?.any isBlank = false) :
    blanks (gap ++ rest) = some ((), rest) := by
  rw [blanks, dropWhile_append_of_ended allBlank ended]

/-- Blanks end a number. -/
theorem endsNumber_append
    {gap rest : Text}
    (allBlank : gap.all isBlank = true)
    (ends : EndsNumber rest) :
    EndsNumber (gap ++ rest) := by
  cases gap with
  | nil => exact ends
  | cons first others =>
      have blank : isBlank first = true := by simp_all
      simp only [isBlank, Bool.or_eq_true, beq_iff_eq] at blank
      rcases blank with ((rfl | rfl) | rfl) | rfl <;> rfl

/-- Whatever is written is read, if it is short enough and what follows does not
continue a number. -/
def Complete
    (bound : Nat)
    (writes : α → Text → Prop)
    (reader : Recogniser α) : Prop :=
  ∀ ⦃item text⦄, writes item text → text.length < bound → ∀ ⦃rest⦄, EndsNumber rest →
    reader (text ++ rest) = some (item, rest)

section Complete

variable {reader : Recogniser α} {writes : α → Text → Prop} {close : UInt8}

/-- A sign that closes an array or an object. -/
def Closes (close : UInt8) : Prop :=
  close = 93 ∨ close = 125

theorem Closes.ends
    (closes : Closes close)
    (rest : Text) :
    (close :: rest).head?.any isBlank = false ∧ EndsNumber (close :: rest) ∧
      (close :: rest).head? ≠ some Byte.comma := by
  rcases closes with rfl | rfl
  · exact ⟨rfl, rfl, mt Option.some.inj (by decide)⟩
  · exact ⟨rfl, rfl, mt Option.some.inj (by decide)⟩

theorem Begins.head?_ne_close
    {text : Text}
    (begins : Begins text)
    (closes : Closes close)
    (rest : Text) :
    (text ++ rest).head? ≠ some close := by
  rcases closes with rfl | rfl
  · exact (begins.append rest).2.1
  · exact (begins.append rest).2.2

theorem Separated.begins
    (begins : ∀ {item text}, writes item text → Begins text)
    {found : List α}
    {text : Text}
    (separated : Separated writes found text) :
    Begins text := by
  have longer {first : Text} (firstBegins : Begins first) (others : Text) :
      Begins (first ++ others) := by
    obtain ⟨byte, bytes, rfl, holds⟩ := firstBegins
    exact ⟨byte, bytes ++ others, rfl, holds⟩
  cases separated with
  | last written _ => exact longer (begins written) _
  | cons written _ _ _ => exact longer (begins written) _

theorem items_complete
    (closes : Closes close)
    (begins : ∀ {item text}, writes item text → Begins text)
    {bound : Nat}
    (complete : Complete bound writes reader)
    {found : List α}
    {text : Text}
    (separated : Separated writes found text)
    (inBound : text.length < bound)
    {fuel : Nat}
    (enough : text.length < fuel)
    (rest : Text) :
    items reader close fuel (text ++ close :: rest) = some (found, rest) := by
  induction separated generalizing fuel with
  | @last item text gap written allBlank =>
      obtain ⟨fuel, rfl⟩ := Nat.exists_eq_succ_of_ne_zero (Nat.ne_zero_of_lt enough)
      obtain ⟨notBlank, ends, notComma⟩ := closes.ends rest
      rw [List.length_append] at inBound
      rw [List.append_assoc]
      refine bind_eq_some.mpr
        ⟨item, _, complete written (by omega) (endsNumber_append allBlank ends), ?_⟩
      refine bind_eq_some.mpr ⟨(), _, blanks_complete allBlank notBlank, ?_⟩
      refine branch_eq_some.mpr (.inr ⟨notComma, ?_⟩)
      exact bind_eq_some.mpr ⟨(), rest, byte_cons_self close rest, rfl⟩
  | @cons item found text gap moreGap others written allBlank moreAllBlank following
      inductionHypothesis =>
      obtain ⟨fuel, rfl⟩ := Nat.exists_eq_succ_of_ne_zero (Nat.ne_zero_of_lt enough)
      have beginning := (following.begins begins).append (close :: rest)
      simp only [List.length_append, List.length_cons] at inBound enough
      simp only [List.append_assoc, List.cons_append]
      refine bind_eq_some.mpr
        ⟨item, _, complete written (by omega) (endsNumber_append allBlank rfl), ?_⟩
      refine bind_eq_some.mpr ⟨(), _, blanks_complete allBlank rfl, ?_⟩
      refine branch_eq_some.mpr (.inl ⟨_, rfl, ?_⟩)
      refine bind_eq_some.mpr ⟨(), _, blanks_complete moreAllBlank beginning.1, ?_⟩
      exact bind_eq_some.mpr ⟨found, rest, inductionHypothesis (by omega) (by omega), rfl⟩

theorem bracketed_complete
    (closes : Closes close)
    (begins : ∀ {item text}, writes item text → Begins text)
    {fuel : Nat}
    (complete : Complete fuel writes reader)
    {found : List α}
    {text : Text}
    (inside : Bracketed writes found text)
    (enough : text.length < fuel)
    (rest : Text) :
    bracketed reader close fuel (text ++ close :: rest) = some (found, rest) := by
  cases inside with
  | empty allBlank =>
      refine bind_eq_some.mpr ⟨(), _, blanks_complete allBlank (closes.ends rest).1, ?_⟩
      exact branch_cons_self rest
  | @items _ gap text allBlank separated =>
      have beginning := separated.begins begins
      rw [List.length_append] at enough
      rw [List.append_assoc]
      refine bind_eq_some.mpr
        ⟨(), _, blanks_complete allBlank (beginning.append _).1, ?_⟩
      refine branch_eq_some.mpr (.inr ⟨beginning.head?_ne_close closes _, ?_⟩)
      exact items_complete closes begins complete separated (by omega) (by omega) rest

end Complete

theorem member_complete
    {reader : Recogniser Value}
    {writes : Value → Text → Prop}
    (begins : ∀ {value text}, writes value text → Begins text)
    {fuel : Nat}
    (complete : Complete fuel writes reader) :
    Complete fuel (IsMember writes) (member reader fuel) := by
  intro found text isMember enough rest ends
  cases isMember with
  | @named name nameText gap moreGap text value isName allBlank moreAllBlank written =>
      simp only [List.length_append, List.length_cons] at enough
      simp only [List.append_assoc, List.cons_append]
      refine bind_eq_some.mpr ⟨(), _, byte_cons_self _ _, ?_⟩
      refine bind_eq_some.mpr ⟨name, _, characters_complete isName (by omega) _, ?_⟩
      refine bind_eq_some.mpr ⟨(), _, blanks_complete allBlank rfl, ?_⟩
      refine bind_eq_some.mpr ⟨(), _, byte_cons_self _ _, ?_⟩
      refine bind_eq_some.mpr
        ⟨(), _, blanks_complete moreAllBlank ((begins written).append rest).1, ?_⟩
      exact bind_eq_some.mpr ⟨value, rest, complete written (by omega) ends, rfl⟩

/-- A number is read where no other value begins. -/
theorem value_number
    {mantissa exponent : Int}
    {text : Text}
    (isNumber : IsNumber mantissa exponent text)
    (fuel : Nat)
    {rest : Text}
    (ends : EndsNumber rest) :
    value (fuel + 1) (text ++ rest) = some (.number mantissa exponent, rest) := by
  obtain ⟨first, others, rfl, begins⟩ := isNumber.exists_cons
  have different {sign : UInt8} (notDigit : Byte.isDigit sign = false) (notMinus : sign ≠ 45) :
      first ≠ sign := by
    rintro rfl
    rcases begins with isDigit | isMinus
    · simp [isDigit] at notDigit
    · exact notMinus isMinus
  rw [List.cons_append, value, branch_cons_of_ne (different (by decide) (by decide)),
    branch_cons_of_ne (different (by decide) (by decide)),
    branch_cons_of_ne (different (by decide) (by decide)),
    branch_cons_of_ne (different (by decide) (by decide)),
    branch_cons_of_ne (different (by decide) (by decide)),
    branch_cons_of_ne (different (by decide) (by decide))]
  exact bind_pure_eq_some.mpr ⟨_, number_complete isNumber ends, rfl⟩

/-- One more unit of fuel than the length of a text is enough to read it. -/
theorem complete_of_succ
    {writes : Value → Text → Prop}
    (reads : ∀ {found text}, writes found text → ∀ {fuel}, text.length ≤ fuel →
      ∀ {rest}, EndsNumber rest → value (fuel + 1) (text ++ rest) = some (found, rest))
    (fuel : Nat) :
    Complete fuel writes (value fuel) := by
  intro found text written enough rest ends
  obtain ⟨fuel, rfl⟩ := Nat.exists_eq_succ_of_ne_zero (Nat.ne_zero_of_lt enough)
  exact reads written (Nat.le_of_lt_succ enough) ends

/-- Whatever is written at the beginning of a text is read off it. -/
theorem value_of_writes
    {found : Value}
    {text : Text}
    (writes : Writes found text)
    {fuel : Nat}
    (enough : text.length ≤ fuel)
    {rest : Text}
    (ends : EndsNumber rest) :
    value (fuel + 1) (text ++ rest) = some (found, rest) := by
  induction writes using Writes.induction generalizing fuel rest with
  | null => rfl
  | yes => rfl
  | no => rfl
  | number isNumber => exact value_number isNumber fuel ends
  | string isCharacters =>
      simp only [List.length_append, List.length_cons, List.length_nil] at enough
      rw [List.cons_append, List.append_assoc, value, branch_cons_self]
      exact bind_pure_eq_some.mpr ⟨_, characters_complete isCharacters (by omega) rest, rfl⟩
  | @array elements text _ inside =>
      have enoughInside : text.length < fuel := by
        simp only [List.length_append, List.length_cons, List.length_nil] at enough
        omega
      have elementsRead : bracketed (value fuel) 93 fuel (text ++ 93 :: rest) =
          some (elements, rest) :=
        bracketed_complete (.inl rfl) (fun holds => holds.fst.begins)
          (complete_of_succ (fun holds => holds.snd) fuel) inside enoughInside rest
      rw [List.cons_append, List.append_assoc, value, branch_cons_of_ne (by decide),
        branch_cons_self]
      exact bind_eq_some.mpr ⟨elements, rest, elementsRead, rfl⟩
  | @object members text _ inside =>
      have enoughInside : text.length < fuel := by
        simp only [List.length_append, List.length_cons, List.length_nil] at enough
        omega
      have membersRead : bracketed (member (value fuel) fuel) 125 fuel (text ++ 125 :: rest) =
          some (members, rest) :=
        bracketed_complete (.inr rfl) IsMember.begins
          (member_complete (fun holds => holds.fst.begins)
            (complete_of_succ (fun holds => holds.snd) fuel)) inside enoughInside rest
      rw [List.cons_append, List.append_assoc, value, branch_cons_of_ne (by decide),
        branch_cons_of_ne (by decide), branch_cons_self]
      exact bind_eq_some.mpr ⟨members, rest, membersRead, rfl⟩

/-! ### Whole texts -/

/-- The reader accepts exactly the texts of the grammar, and finds what they
write. -/
theorem parse_eq_some_iff
    {text : Text}
    {found : Value} :
    parse text = some found ↔ IsDocument found text := by
  rw [parse, Option.bind_eq_some_iff]
  constructor
  · rintro ⟨⟨_, rest⟩, read, ended⟩
    obtain ⟨noRest, rfl⟩ : rest = [] ∧ _ = found := by simpa using ended
    obtain ⟨_, _, blanksRead, afterBlanks⟩ := bind_eq_some.mp read
    obtain ⟨_, _, valueRead, afterValue⟩ := bind_eq_some.mp afterBlanks
    obtain ⟨_, moreRead, rfl⟩ := bind_pure_eq_some.mp afterValue
    obtain ⟨before, beforeBlank, cut⟩ := blanks_sound blanksRead
    obtain ⟨inside, writes, rfl⟩ := value_sound _ valueRead
    obtain ⟨after, afterBlank, rfl⟩ := blanks_sound moreRead
    exact ⟨before, inside, after, beforeBlank, writes, afterBlank, by simp [cut, noRest]⟩
  · rintro ⟨before, inside, after, beforeBlank, writes, afterBlank, rfl⟩
    refine ⟨(found, []), ?_, by simp⟩
    refine bind_eq_some.mpr
      ⟨(), _, blanks_complete beforeBlank (writes.begins.append after).1, ?_⟩
    have ends : EndsNumber after := by
      simpa using endsNumber_append afterBlank (show EndsNumber [] from rfl)
    refine bind_eq_some.mpr ⟨found, after, value_of_writes writes ?_ ends, ?_⟩
    · simp only [List.length_append]
      omega
    · refine bind_eq_some.mpr ⟨(), [], ?_, rfl⟩
      simpa using blanks_complete afterBlank (show ([] : Text).head?.any isBlank = false from rfl)

/-- A text that writes a value is read as that value. -/
theorem parse_of_writes
    {found : Value}
    {text : Text}
    (writes : Writes found text) :
    parse text = some found :=
  parse_eq_some_iff.mpr ⟨[], text, [], rfl, writes, rfl, by simp⟩

/-- No text is written for two values. -/
theorem Writes.unique
    {left right : Value}
    {text : Text}
    (leftWrites : Writes left text)
    (rightWrites : Writes right text) :
    left = right :=
  Option.some.inj ((parse_of_writes leftWrites).symm.trans (parse_of_writes rightWrites))

end Json
end QueryAdvisor

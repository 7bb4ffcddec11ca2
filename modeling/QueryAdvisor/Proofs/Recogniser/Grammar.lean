import QueryAdvisor.Proofs.Recogniser.Occurrence

/-!
# What recognisers take

For each elementary recogniser, the shape of the bytes that it takes, and the
texts on which it is known to succeed or to refuse.  The shape of a composite
recogniser follows by `bind_eq_some`.
-/

namespace QueryAdvisor

/-- No word byte is a space. -/
theorem Byte.isSpace_eq_false_of_isWord
    {byte : UInt8}
    (word : Byte.isWord byte = true) :
    Byte.isSpace byte = false := by
  simp only [Byte.isWord, Byte.isLower, Byte.isUpper, Byte.isDigit, Byte.isSpace,
    Bool.or_eq_true, Bool.and_eq_true, decide_eq_true_eq, beq_iff_eq, Bool.or_eq_false_iff,
    Bool.and_eq_false_iff, beq_eq_false_iff_ne, decide_eq_false_iff_not, ne_eq,
    UInt8.le_iff_toNat_le, ← UInt8.toNat_inj, UInt8.reduceToNat] at word ⊢
  omega

theorem Byte.isWord_eq_false_of_isSpace
    {byte : UInt8}
    (space : Byte.isSpace byte = true) :
    Byte.isWord byte = false := by
  rw [Bool.eq_false_iff]
  intro word
  rw [Byte.isSpace_eq_false_of_isWord word] at space
  contradiction

/-- A name is a nonempty run of word bytes. -/
def IsName (name : Text) : Prop :=
  name ≠ [] ∧ name.all Byte.isWord = true

instance (name : Text) : Decidable (IsName name) :=
  inferInstanceAs (Decidable (_ ∧ _))

/-- A gap is a nonempty run of spaces. -/
def IsGap (gap : Text) : Prop :=
  gap ≠ [] ∧ gap.all Byte.isSpace = true

/-- A text in double quotes. -/
def quoted (text : Text) : Text :=
  Byte.quote :: text ++ [Byte.quote]

theorem IsName.isWord
    {name : Text}
    (isName : IsName name)
    {byte : UInt8}
    (present : byte ∈ name) :
    Byte.isWord byte = true :=
  List.all_eq_true.mp isName.2 byte present

theorem IsName.not_mem
    {name : Text}
    (isName : IsName name)
    {sign : UInt8}
    (isSign : Byte.isWord sign = false) :
    sign ∉ name := by
  intro present
  simp [isName.isWord present] at isSign

/-- What ends in a name ends in a word byte. -/
theorem IsName.any_getLast?_append
    {name : Text}
    (isName : IsName name)
    (before : Text) :
    (before ++ name).getLast?.any Byte.isWord = true := by
  rw [List.getLast?_append, List.getLast?_eq_some_getLast isName.1, Option.some_or,
    Option.any_some]
  exact isName.isWord (List.getLast_mem isName.1)

/-- A name does not begin with a space. -/
theorem IsName.head?_append
    {name : Text}
    (isName : IsName name)
    (rest : Text) :
    (name ++ rest).head?.any Byte.isSpace = false := by
  obtain ⟨first, others, rfl⟩ := List.exists_cons_of_ne_nil isName.1
  have notSpace := Byte.isSpace_eq_false_of_isWord (isName.isWord List.mem_cons_self)
  simpa using notSpace

theorem IsName.not_mem_quoted
    {name : Text}
    (isName : IsName name)
    {sign : UInt8}
    (isSign : Byte.isWord sign = false)
    (notQuote : sign ≠ Byte.quote) :
    sign ∉ quoted name := by
  simp only [quoted, List.mem_append, List.mem_cons, List.not_mem_nil, or_false, not_or]
  exact ⟨⟨notQuote, isName.not_mem isSign⟩, notQuote⟩

theorem IsGap.isSpace
    {gap : Text}
    (isGap : IsGap gap)
    {byte : UInt8}
    (present : byte ∈ gap) :
    Byte.isSpace byte = true :=
  List.all_eq_true.mp isGap.2 byte present

/-- A run of spaces holds no other byte. -/
theorem not_mem_of_all_isSpace
    {gap : Text}
    (allSpace : gap.all Byte.isSpace = true)
    {sign : UInt8}
    (isSign : Byte.isSpace sign = false) :
    sign ∉ gap := by
  intro present
  simp [List.all_eq_true.mp allSpace sign present] at isSign

/-- Neither spaces nor a sign behind them go on with a word. -/
theorem head?_gap_append
    {gap : Text}
    (allSpace : gap.all Byte.isSpace = true)
    {sign : UInt8}
    (isSign : Byte.isWord sign = false)
    (rest : Text) :
    (gap ++ sign :: rest).head?.any Byte.isWord = false := by
  cases gap with
  | nil => simpa using isSign
  | cons first others =>
      have space : Byte.isSpace first = true := by
        simp only [List.all_cons, Bool.and_eq_true] at allSpace
        exact allSpace.1
      simpa using mt Byte.isSpace_eq_false_of_isWord (by simp [space])

namespace Recogniser

/-- A literal takes itself. -/
theorem literal_eq_some
    {expected text rest : Text}
    {value : Unit}
    (read : literal expected text = some (value, rest)) :
    text = expected ++ rest := by
  induction expected generalizing text with
  | nil => simpa [literal] using read
  | cons byte others inductionHypothesis =>
      cases text with
      | nil => simp [literal] at read
      | cons first following =>
          rw [literal] at read
          split at read
          · rename_i equal
            rw [equal, inductionHypothesis read, List.cons_append]
          · contradiction

@[simp] theorem byte_cons_self
    (expected : UInt8)
    (rest : Text) :
    byte expected (expected :: rest) = some ((), rest) :=
  if_pos rfl

@[simp] theorem optional_cons_self
    (expected : UInt8)
    (rest : Text) :
    optional expected (expected :: rest) = some ((), rest) := by
  simp [optional]

theorem byte_eq_some
    {expected : UInt8}
    {text rest : Text}
    {value : Unit}
    (read : byte expected text = some (value, rest)) :
    text = expected :: rest := by
  cases text with
  | nil => simp [byte] at read
  | cons first following =>
      rw [byte] at read
      split at read
      · rename_i equal
        simpa [equal] using read
      · contradiction

theorem oneOf_eq_some
    {expected : List UInt8}
    {text rest : Text}
    {value : Unit}
    (read : oneOf expected text = some (value, rest)) :
    ∃ taken, taken ∈ expected ∧ text = taken :: rest := by
  cases text with
  | nil => simp [oneOf] at read
  | cons first following =>
      rw [oneOf] at read
      split at read
      · rename_i member
        exact ⟨first, by simpa using member, by simpa using read⟩
      · contradiction

theorem optional_eq_some
    {expected : UInt8}
    {text rest : Text}
    {value : Unit}
    (read : optional expected text = some (value, rest)) :
    ∃ taken, (taken = [] ∨ taken = [expected]) ∧ text = taken ++ rest := by
  cases text with
  | nil => exact ⟨[], .inl rfl, by simpa [optional] using read⟩
  | cons first following =>
      simp only [optional, Option.some.injEq, Prod.mk.injEq, true_and] at read
      split at read
      · rename_i equal
        exact ⟨[expected], .inr rfl, by simp [equal, read]⟩
      · exact ⟨[], .inl rfl, read⟩

/-- Spaces take a run of spaces, perhaps an empty one. -/
theorem spaces_eq_some
    {text rest : Text}
    {value : Unit}
    (read : spaces text = some (value, rest)) :
    ∃ gap, gap.all Byte.isSpace = true ∧ text = gap ++ rest := by
  refine ⟨text.takeWhile Byte.isSpace, List.all_takeWhile, ?_⟩
  obtain rfl : text.dropWhile Byte.isSpace = rest := by
    simpa [spaces] using read
  exact List.takeWhile_append_dropWhile.symm

theorem someSpaces_eq_some
    {text rest : Text}
    {value : Unit}
    (read : someSpaces text = some (value, rest)) :
    ∃ gap, IsGap gap ∧ text = gap ++ rest := by
  cases text with
  | nil => simp [someSpaces] at read
  | cons first following =>
      rw [someSpaces] at read
      split at read
      · rename_i space
        obtain ⟨gap, allSpace, rfl⟩ := spaces_eq_some read
        exact ⟨first :: gap, ⟨List.cons_ne_nil _ _, by simp [space, allSpace]⟩, rfl⟩
      · contradiction

/-- A quoted word takes its quotes along. -/
theorem quotedWord_eq_some
    {text name rest : Text}
    (read : quotedWord text = some (name, rest)) :
    IsName name ∧ text = quoted name ++ rest := by
  unfold quotedWord at read
  obtain ⟨_, opened, openingQuote, read⟩ := bind_eq_some.mp read
  obtain ⟨_, named, nameRead, read⟩ := bind_eq_some.mp read
  obtain ⟨_, closed, closingQuote, read⟩ := bind_eq_some.mp read
  obtain ⟨rfl, rfl⟩ : _ = name ∧ closed = rest := by simpa using read
  obtain ⟨rfl, nonempty, allWord, _⟩ := word_eq_some nameRead
  rw [byte_eq_some openingQuote, byte_eq_some closingQuote]
  exact ⟨⟨nonempty, allWord⟩, by simp [quoted]⟩

/-- A run that is taken as a whole is not continued. -/
theorem any_head?_dropWhile
    {predicate : UInt8 → Bool}
    (text : Text) :
    (text.dropWhile predicate).head?.any predicate = false := by
  cases begins : (text.dropWhile predicate).head? with
  | none => rfl
  | some first => exact Text.eq_false_of_head?_dropWhile begins

/-- A run that is not continued is taken as a whole. -/
theorem takeWhile_append_of_ended
    {predicate : UInt8 → Bool}
    {run rest : Text}
    (allInside : run.all predicate = true)
    (ended : rest.head?.any predicate = false) :
    (run ++ rest).takeWhile predicate = run := by
  rw [List.takeWhile_append_of_pos (List.all_eq_true.mp allInside)]
  cases rest with
  | nil => simp
  | cons byte others => simp_all

theorem dropWhile_append_of_ended
    {predicate : UInt8 → Bool}
    {run rest : Text}
    (allInside : run.all predicate = true)
    (ended : rest.head?.any predicate = false) :
    (run ++ rest).dropWhile predicate = rest := by
  rw [List.dropWhile_append_of_pos (List.all_eq_true.mp allInside)]
  cases rest with
  | nil => rfl
  | cons byte others => simp_all

/-- A name that is not continued is read as a whole. -/
theorem word_append
    {name rest : Text}
    (isName : IsName name)
    (ended : rest.head?.any Byte.isWord = false) :
    word (name ++ rest) = some (name, rest) := by
  rw [word, takeWhile_append_of_ended isName.2 ended, dropWhile_append_of_ended isName.2 ended,
    if_neg (by simpa using isName.1)]

/-- Spaces that are not continued are taken as a whole. -/
theorem spaces_append
    {gap rest : Text}
    (allSpace : gap.all Byte.isSpace = true)
    (ended : rest.head?.any Byte.isSpace = false) :
    spaces (gap ++ rest) = some ((), rest) := by
  rw [spaces, dropWhile_append_of_ended allSpace ended]

@[simp] theorem quotedWord_quoted
    {name : Text}
    (isName : IsName name)
    (rest : Text) :
    quotedWord (quoted name ++ rest) = some (name, rest) := by
  have named : word (name ++ Byte.quote :: rest) = some (name, Byte.quote :: rest) :=
    word_append isName (by rw [List.head?_cons]; decide)
  simp only [quotedWord, quoted, bind_apply, pure_apply, List.cons_append, List.append_assoc,
    List.nil_append, byte_cons_self, Option.bind_some, named]

/-- One blank is all the space before a byte that is none. -/
theorem someSpaces_blank
    {first : UInt8}
    (notSpace : Byte.isSpace first = false)
    (rest : Text) :
    someSpaces (32 :: first :: rest) = some ((), first :: rest) := by
  rw [someSpaces, if_pos (by decide), List.dropWhile_cons_of_neg (by simp [notSpace])]

end Recogniser
end QueryAdvisor

import QueryAdvisor.Proofs.Recogniser.Edit
import QueryAdvisor.Schema.Basic

/-!
# The grammar of a schema dump

For every recogniser of a schema dump: the shape of what it takes, that it
takes something, and that it respects a new line.  All of them but the opening
of a block take a quoted name, hence two double quotes.
-/

namespace QueryAdvisor

open Recogniser

/-- A quoted name brings two double quotes. -/
theorem two_le_count_quote
    (before name after : Text) :
    2 ≤ (before ++ (quoted name ++ after)).count Byte.quote := by
  simp only [quoted, List.count_append, List.count_cons, List.count_nil, beq_self_eq_true,
    if_true]
  omega

namespace TableBlock

/-- A header takes its keyword, spaces and a quoted name. -/
theorem header_eq_some
    {text name rest : Text}
    (read : header text = some (name, rest)) :
    ∃ gap, IsGap gap ∧ IsName name ∧
      text = ascii "create_table" ++ gap ++ (quoted name ++ rest) := by
  simp only [header, bind_eq_some] at read
  obtain ⟨_, _, keyword, _, _, spaced, named⟩ := read
  obtain ⟨gap, isGap, rfl⟩ := someSpaces_eq_some spaced
  obtain ⟨isName, rfl⟩ := quotedWord_eq_some named
  exact ⟨gap, isGap, isName, by rw [literal_eq_some keyword, List.append_assoc]⟩

/-- An opening takes its keyword, perhaps spaces, and the variable between bars. -/
theorem opening_eq_some
    {text rest : Text}
    {value : Unit}
    (read : opening text = some (value, rest)) :
    ∃ gap, text = ascii "do" ++ gap ++ ascii "|t|" ++ rest := by
  simp only [opening, bind_eq_some] at read
  obtain ⟨_, _, keyword, _, _, spaced, variableRead⟩ := read
  obtain ⟨gap, _, rfl⟩ := spaces_eq_some spaced
  refine ⟨gap, ?_⟩
  rw [literal_eq_some keyword, literal_eq_some variableRead, List.append_assoc,
    List.append_assoc]

theorem advances_header : Advances header := by
  intro text name rest read
  obtain ⟨gap, isGap, _, rfl⟩ := header_eq_some read
  exact ⟨ascii "create_table" ++ gap ++ quoted name, by simp [isGap.1], by simp⟩

theorem advances_opening : Advances opening := by
  intro text value rest read
  obtain ⟨gap, rfl⟩ := opening_eq_some read
  refine ⟨ascii "do" ++ gap ++ ascii "|t|", ?_, rfl⟩
  simp [ascii]

theorem two_le_count_of_header
    {text name rest : Text}
    (read : header text = some (name, rest)) :
    2 ≤ text.count Byte.quote := by
  obtain ⟨gap, _, _, rfl⟩ := header_eq_some read
  exact two_le_count_quote _ name rest

theorem respects_header
    {following : Text}
    (beginning : BeginsWithWord following) :
    Respects (· ++ Byte.newline :: following) header :=
  (respects_literal (by decide)).bind fun _ =>
    respects_someSpaces_bind beginning needsSign_quotedWord respects_quotedWord

theorem linewise_header : Linewise header :=
  ⟨advances_header, respects_header⟩

theorem respects_opening
    {following : Text}
    (beginning : BeginsWithWord following) :
    Respects (· ++ Byte.newline :: following) opening :=
  (respects_literal (by decide)).bind fun _ =>
    respects_spaces_bind beginning
      (needsSign_literal (by decide) (ascii "t|")) (respects_literal (by decide))

theorem linewise_opening : Linewise opening :=
  ⟨advances_opening, respects_opening⟩

end TableBlock

namespace ColumnDeclaration

theorem recogniser_eq_some
    {text rest : Text}
    {column : ColumnDeclaration}
    (read : recogniser text = some (column, rest)) :
    ∃ gap, IsName column.type ∧ IsGap gap ∧ IsName column.name ∧
      text = ascii "t." ++ column.type ++ gap ++ (quoted column.name ++ rest) := by
  simp only [recogniser, bind_eq_some, pure_apply, Option.some.injEq, Prod.mk.injEq] at read
  obtain ⟨_, _, dotted, type, _, typed, _, _, spaced, name, _, named, rfl, rfl⟩ := read
  obtain ⟨rfl, nonempty, allWord, _⟩ := word_eq_some typed
  obtain ⟨gap, isGap, rfl⟩ := someSpaces_eq_some spaced
  obtain ⟨isName, rfl⟩ := quotedWord_eq_some named
  refine ⟨gap, ⟨nonempty, allWord⟩, isGap, isName, ?_⟩
  rw [literal_eq_some dotted, List.append_assoc, List.append_assoc]

theorem two_le_count_of_recogniser
    {text rest : Text}
    {column : ColumnDeclaration}
    (read : recogniser text = some (column, rest)) :
    2 ≤ text.count Byte.quote := by
  obtain ⟨gap, _, _, _, rfl⟩ := recogniser_eq_some read
  exact two_le_count_quote _ column.name rest

theorem advances_recogniser : Advances recogniser := by
  intro text column rest read
  obtain ⟨gap, _, _, _, rfl⟩ := recogniser_eq_some read
  exact ⟨ascii "t." ++ column.type ++ gap ++ quoted column.name, by simp [ascii], by simp⟩

theorem respects_recogniser
    {following : Text}
    (beginning : BeginsWithWord following) :
    Respects (· ++ Byte.newline :: following) recogniser :=
  (respects_literal (by decide)).bind fun _ =>
    respects_word.bind fun _ =>
      respects_someSpaces_bind beginning (needsSign_quotedWord.bind _)
        (respects_quotedWord.bind fun _ => .pure _)

theorem linewise_recogniser : Linewise recogniser :=
  ⟨advances_recogniser, respects_recogniser⟩

end ColumnDeclaration

namespace InlineIndex

theorem recogniser_eq_some
    {text name rest : Text}
    (read : recogniser text = some (name, rest)) :
    ∃ before, IsName name ∧
      text = ascii "t.index" ++ before ++ (quoted name ++ rest) := by
  simp only [recogniser, bind_eq_some] at read
  obtain ⟨_, _, keyword, _, _, spaced, _, _, bracketed, _, _, indented, named⟩ := read
  obtain ⟨gap, _, rfl⟩ := someSpaces_eq_some spaced
  obtain ⟨bracket, _, rfl⟩ := optional_eq_some bracketed
  obtain ⟨indent, _, rfl⟩ := spaces_eq_some indented
  obtain ⟨isName, rfl⟩ := quotedWord_eq_some named
  refine ⟨gap ++ bracket ++ indent, isName, ?_⟩
  rw [literal_eq_some keyword]
  simp only [List.append_assoc]

theorem two_le_count_of_recogniser
    {text name rest : Text}
    (read : recogniser text = some (name, rest)) :
    2 ≤ text.count Byte.quote := by
  obtain ⟨before, _, rfl⟩ := recogniser_eq_some read
  exact two_le_count_quote _ name rest

theorem advances_recogniser : Advances recogniser := by
  intro text name rest read
  obtain ⟨before, _, rfl⟩ := recogniser_eq_some read
  exact ⟨ascii "t.index" ++ before ++ quoted name, by simp [ascii], by simp⟩

theorem respects_recogniser
    {following : Text}
    (beginning : BeginsWithWord following) :
    Respects (· ++ Byte.newline :: following) recogniser :=
  (respects_literal (by decide)).bind fun _ =>
    respects_someSpaces_bind beginning
      (needsSign_optional_bind (by decide) (needsSign_spaces_bind needsSign_quotedWord))
      ((respects_optional (by decide)).bind fun _ =>
        respects_spaces_bind beginning needsSign_quotedWord respects_quotedWord)

theorem linewise_recogniser : Linewise recogniser :=
  ⟨advances_recogniser, respects_recogniser⟩

end InlineIndex

namespace IndexDeclaration

/-- The column behind the comma of an index declaration. -/
def leadingColumn (table : Text) : Recogniser IndexDeclaration := do
  optional 91
  byte Byte.quote
  let column ← word
  optional Byte.quote
  optional 93
  return { table, column }

/-- The table and the first column of an index declaration. -/
def operands : Recogniser IndexDeclaration := do
  let table ← quotedWord
  byte Byte.comma
  someSpaces
  leadingColumn table

theorem recogniser_eq :
    recogniser = (literal (ascii "add_index") >>= fun _ => someSpaces >>= fun _ => operands) :=
  rfl

theorem recogniser_eq_some
    {text rest : Text}
    {index : IndexDeclaration}
    (read : recogniser text = some (index, rest)) :
    ∃ gap after, IsName index.table ∧
      text = ascii "add_index" ++ gap ++ (quoted index.table ++ (after ++ rest)) := by
  simp only [recogniser, bind_eq_some, pure_apply, Option.some.injEq, Prod.mk.injEq] at read
  obtain ⟨_, _, keyword, _, _, spaced, table, _, tableRead, _, _, comma, _, _, spacedAgain,
    _, _, bracketed, _, _, quote, column, _, columnRead, _, _, closed, _, _, bracketClosed,
    rfl, rfl⟩ := read
  obtain ⟨gap, _, rfl⟩ := someSpaces_eq_some spaced
  obtain ⟨isName, rfl⟩ := quotedWord_eq_some tableRead
  obtain ⟨secondGap, _, rfl⟩ := someSpaces_eq_some spacedAgain
  obtain ⟨bracket, _, rfl⟩ := optional_eq_some bracketed
  obtain ⟨rfl, _, _, _⟩ := word_eq_some columnRead
  obtain ⟨closing, _, rfl⟩ := optional_eq_some closed
  obtain ⟨closingBracket, _, rfl⟩ := optional_eq_some bracketClosed
  refine ⟨gap, Byte.comma :: (secondGap ++ bracket ++ Byte.quote :: column ++ closing ++
    closingBracket), isName, ?_⟩
  rw [literal_eq_some keyword, byte_eq_some comma, byte_eq_some quote]
  simp only [List.append_assoc, List.cons_append]

theorem two_le_count_of_recogniser
    {text rest : Text}
    {index : IndexDeclaration}
    (read : recogniser text = some (index, rest)) :
    2 ≤ text.count Byte.quote := by
  obtain ⟨gap, after, _, rfl⟩ := recogniser_eq_some read
  exact two_le_count_quote _ index.table (after ++ rest)

theorem advances_recogniser : Advances recogniser := by
  intro text index rest read
  obtain ⟨gap, after, _, rfl⟩ := recogniser_eq_some read
  exact ⟨ascii "add_index" ++ gap ++ quoted index.table ++ after, by simp [ascii], by simp⟩

theorem respects_recogniser
    {following : Text}
    (beginning : BeginsWithWord following) :
    Respects (· ++ Byte.newline :: following) recogniser := by
  have respectsColumn (table : Text) :
      Respects (· ++ Byte.newline :: following) (leadingColumn table) :=
    (respects_optional (by decide)).bind fun _ =>
      (respects_byte (by decide)).bind fun _ =>
        respects_word.bind fun _ =>
          (respects_optional (by decide)).bind fun _ =>
            (respects_optional (by decide)).bind fun _ => .pure _
  have columnNeedsSign (table : Text) : NeedsSign (leadingColumn table) :=
    needsSign_optional_bind (by decide) ((needsSign_byte (by decide)).bind _)
  have respectsOperands : Respects (· ++ Byte.newline :: following) operands :=
    respects_quotedWord.bind fun table =>
      (respects_byte (by decide)).bind fun _ =>
        respects_someSpaces_bind beginning (columnNeedsSign table) (respectsColumn table)
  rw [recogniser_eq]
  exact (respects_literal (by decide)).bind fun _ =>
    respects_someSpaces_bind beginning (needsSign_quotedWord.bind _) respectsOperands

theorem linewise_recogniser : Linewise recogniser :=
  ⟨advances_recogniser, respects_recogniser⟩

end IndexDeclaration
end QueryAdvisor

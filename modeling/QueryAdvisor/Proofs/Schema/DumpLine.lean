import QueryAdvisor.Proofs.Schema.Declaration
import QueryAdvisor.Proofs.Schema.Dump

/-!
# The lines of a dump, one recogniser at a time

Every recogniser of schema dumps is run on every kind of line.  It reads what
the line is there to declare, or nothing: neither the bytes of a default value
nor the words of another kind of line are mistaken for a declaration.
-/

namespace QueryAdvisor

open Recogniser

variable {α : Type}

/-- After its indentation the line begins with a word. -/
def BeginsLine (line : Text) : Prop :=
  (line.dropWhile Byte.isSpace).head?.any Byte.isWord = true

theorem BeginsLine.append
    {line : Text}
    (begins : BeginsLine line)
    (rest : Text) :
    BeginsWithWord (line ++ rest) := by
  unfold BeginsLine at begins
  unfold BeginsWithWord
  rw [List.dropWhile_append]
  cases remaining : line.dropWhile Byte.isSpace with
  | nil => simp [remaining] at begins
  | cons first others => simpa [remaining] using begins

theorem beginsWithWord_nil : BeginsWithWord [] := rfl

theorem beginsWithWord_unlines_append
    {lines : List Text}
    (begin : ∀ line ∈ lines, BeginsLine line)
    {rest : Text}
    (beginning : BeginsWithWord rest) :
    BeginsWithWord (unlines lines ++ rest) := by
  cases lines with
  | nil => exact beginning
  | cons line others =>
      rw [unlines_cons, List.append_assoc]
      exact (begin line List.mem_cons_self).append _

/-- A text is searched line by line. -/
theorem captures_unlines
    {recogniser : Recogniser α}
    (linewise : Linewise recogniser)
    {lines : List Text}
    (begin : ∀ line ∈ lines, BeginsLine line) :
    captures recogniser (unlines lines) = lines.flatMap (captures recogniser) := by
  induction lines with
  | nil => rfl
  | cons line others inductionHypothesis =>
      have othersBegin : ∀ line ∈ others, BeginsLine line :=
        fun other member => begin other (List.mem_cons_of_mem line member)
      have beginning := beginsWithWord_unlines_append othersBegin beginsWithWord_nil
      rw [List.append_nil] at beginning
      rw [unlines_cons, linewise.captures_newLine beginning, inductionHypothesis othersBegin,
        List.flatMap_cons]

/-- Lines in which nothing is read are passed over. -/
theorem occurrencesFrom_unlines_append
    {recogniser : Recogniser α}
    (linewise : Linewise recogniser)
    {lines : List Text}
    (begin : ∀ line ∈ lines.tail, BeginsLine line)
    (nothing : ∀ line ∈ lines, captures recogniser line = [])
    {rest : Text}
    (beginning : BeginsWithWord rest)
    (offset : Nat) :
    occurrencesFrom recogniser offset 0 (unlines lines ++ rest) =
      occurrencesFrom recogniser (offset + (unlines lines).length) 0 rest := by
  induction lines generalizing offset with
  | nil => rfl
  | cons line others inductionHypothesis =>
      rw [List.tail_cons] at begin
      rw [unlines_cons, List.append_assoc, List.cons_append,
        linewise.occurrencesFrom_newLine (beginsWithWord_unlines_append begin beginning),
        occurrencesFrom_eq_nil linewise.advances (nothing line List.mem_cons_self),
        List.nil_append, inductionHypothesis (fun other member => begin other
          (List.mem_of_mem_tail member)) fun other member =>
            nothing other (List.mem_cons_of_mem line member)]
      congr 1
      simp only [List.length_append, List.length_cons]
      omega

namespace TableBlock

theorem header_eq_keyed :
    header = keyed (ascii "create_table") quotedWord := rfl

theorem advances_keyed : Advances (keyed (ascii "create_table") quotedWord) :=
  advances_header

end TableBlock

namespace IndexDeclaration

theorem recogniser_eq_keyed :
    recogniser = keyed (ascii "add_index") operands := rfl

theorem advances_keyed : Advances (keyed (ascii "add_index") operands) :=
  advances_recogniser

end IndexDeclaration

namespace Dump

/-- What stands behind the first column of an index. -/
def IndexColumns.listRest (columns : IndexColumns) : Text :=
  (columns.others.flatMap fun name => ascii ", " ++ quoted name.text) ++ ascii "]"

theorem IndexColumns.list_eq (columns : IndexColumns) :
    columns.list = ascii "[" ++ (quoted columns.first.text ++ columns.listRest) := by
  rw [IndexColumns.list, List.map_cons, Text.join_cons, List.flatMap_map, IndexColumns.listRest]
  simp only [List.append_assoc]

theorem Column.line_eq (column : Column) :
    column.line =
      ascii "  t." ++ (column.type.text ++ 32 ::
        (quoted column.name.text ++ column.defaultClause)) := by
  rw [Column.line, show ascii " " = [32] from rfl]
  simp only [List.append_assoc, List.cons_append, List.nil_append]

/-- A default value adds nothing: behind its first byte only one double quote is
left, and two are needed. -/
theorem captures_defaultClause
    {expected : Text}
    {recogniser : Recogniser α}
    (begins : BeginsWith expected recogniser)
    (advances : Advances recogniser)
    (mismatches : Mismatches expected (ascii ", default: \""))
    (needed : ∀ ⦃text value rest⦄, recogniser text = some (value, rest) →
      2 ≤ text.count Byte.quote)
    (column : Column) :
    captures recogniser column.defaultClause = [] := by
  unfold Column.defaultClause
  cases column.defaultValue with
  | none => rfl
  | some value =>
      have spelled : ascii ", default: " ++ quoted value.text =
          ascii ", default: \"" ++ (value.text ++ [Byte.quote]) := by
        rw [show ascii ", default: \"" = ascii ", default: " ++ [Byte.quote] by decide]
        simp [quoted]
      have single : (value.text ++ [Byte.quote]).count Byte.quote < 2 := by
        rw [List.count_append, List.count_eq_zero.mpr value.noQuote]
        decide
      simp only [spelled]
      rw [begins.captures_append_of_mismatches advances mismatches,
        captures_eq_nil_of_count_lt advances needed single]

section Keyed

variable {keyword : Text} {next : Recogniser α}

theorem captures_keyed_listRest
    (advances : Advances (keyed keyword next))
    (isKeyword : IsName keyword)
    (columns : IndexColumns) :
    captures (keyed keyword next) columns.listRest = [] := by
  unfold IndexColumns.listRest
  rw [show ascii "]" = [93] from rfl]
  induction columns.others with
  | nil =>
      rw [List.flatMap_nil, List.nil_append,
        captures_keyed_sign advances isKeyword (by decide), captures_nil]
  | cons second others inductionHypothesis =>
      rw [List.flatMap_cons, List.append_assoc, List.append_assoc,
        show ascii ", " = [44, 32] from rfl, List.cons_append, List.cons_append, List.nil_append,
        captures_keyed_sign advances isKeyword (by decide),
        captures_keyed_sign advances isKeyword (by decide),
        captures_keyed_quoted advances isKeyword second.isName]
      exact inductionHypothesis

theorem captures_keyed_list
    (advances : Advances (keyed keyword next))
    (isKeyword : IsName keyword)
    (columns : IndexColumns) :
    captures (keyed keyword next) columns.list = [] := by
  rw [columns.list_eq, show ascii "[" = [91] from rfl, List.cons_append, List.nil_append,
    captures_keyed_sign advances isKeyword (by decide),
    captures_keyed_quoted advances isKeyword columns.first.isName,
    captures_keyed_listRest advances isKeyword]

/-- The line of a column adds nothing, unless its type ends in the keyword and
its name and default value are what has to follow. -/
theorem captures_keyed_columnLine
    (advances : Advances (keyed keyword next))
    (isKeyword : IsName keyword)
    (indentation : Mismatches keyword (ascii "  t."))
    (defaultWord : Mismatches keyword (ascii ", default: \""))
    (needed : ∀ ⦃text value rest⦄, keyed keyword next text = some (value, rest) →
      2 ≤ text.count Byte.quote)
    (column : Column)
    (refused : keyword <:+ column.type.text →
      next (quoted column.name.text ++ column.defaultClause) = none) :
    captures (keyed keyword next) column.line = [] := by
  have begins := beginsWith_keyed keyword next
  have typeRefused : keyword <:+ column.type.text → Byte.isSpace 32 = true →
      next ((quoted column.name.text ++ column.defaultClause).dropWhile Byte.isSpace) = none :=
    fun isEnding _ => refused isEnding
  rw [column.line_eq, begins.captures_append_of_mismatches advances indentation,
    captures_keyed_name advances isKeyword column.type.isName.2 (by decide) typeRefused,
    captures_keyed_quoted advances isKeyword column.name.isName,
    captures_defaultClause begins advances defaultWord needed]

end Keyed

/-! ### Headers -/

theorem header_openingLine
    (table : Table)
    (rest : Text) :
    TableBlock.header (ascii "create_table " ++ quoted table.name.text ++ rest) =
      some (table.name.text, rest) := by
  have spelled : ascii "create_table " ++ quoted table.name.text ++ rest =
      ascii "create_table" ++ 32 :: (quoted table.name.text ++ rest) := by
    rw [show ascii "create_table " = ascii "create_table" ++ [32] from rfl]
    simp only [List.append_assoc, List.cons_append, List.nil_append]
  have spaced : someSpaces (32 :: (quoted table.name.text ++ rest)) =
      some ((), quoted table.name.text ++ rest) :=
    someSpaces_blank (by decide) _
  rw [spelled, TableBlock.header, bind_apply, literal_append, Option.bind_some, bind_apply, spaced,
    Option.bind_some, quotedWord_quoted table.name.isName]

/-- The line of a column holds no header: no type ends in its keyword. -/
theorem captures_header_columnLine
    (column : Column) :
    captures TableBlock.header column.line = [] := by
  rw [TableBlock.header_eq_keyed]
  apply captures_keyed_columnLine TableBlock.advances_keyed (by decide) (by decide) (by decide)
    fun _ _ _ => TableBlock.two_le_count_of_header
  intro isEnding
  exact absurd isEnding column.type.notHeader

theorem captures_header_indexLine
    (columns : IndexColumns) :
    captures TableBlock.header columns.line = [] := by
  have begins := beginsWith_keyed (ascii "create_table") quotedWord
  rw [IndexColumns.line, TableBlock.header_eq_keyed,
    begins.captures_append_of_mismatches TableBlock.advances_keyed (by decide),
    captures_keyed_list TableBlock.advances_keyed (by decide)]

theorem captures_header_innerLine
    {table : Table}
    {line : Text}
    (present : line ∈ table.innerLines) :
    captures TableBlock.header line = [] := by
  rw [Table.innerLines, List.mem_append, List.mem_map, List.mem_map] at present
  rcases present with ⟨column, _, rfl⟩ | ⟨columns, _, rfl⟩
  · exact captures_header_columnLine column
  · exact captures_header_indexLine columns

theorem captures_header_standaloneLine
    (index : StandaloneIndex) :
    captures TableBlock.header index.line = [] := by
  have begins := beginsWith_keyed (ascii "create_table") quotedWord
  rw [StandaloneIndex.line, List.append_assoc, List.append_assoc, TableBlock.header_eq_keyed,
    begins.captures_append_of_mismatches TableBlock.advances_keyed (by decide),
    captures_keyed_quoted TableBlock.advances_keyed (by decide) index.table.isName,
    begins.captures_append_of_mismatches TableBlock.advances_keyed (by decide),
    captures_keyed_list TableBlock.advances_keyed (by decide)]

/-! ### Standalone indexes -/

theorem captures_index_openingLine
    (table : Table) :
    captures IndexDeclaration.recogniser table.openingLine = [] := by
  have begins := beginsWith_keyed (ascii "add_index") IndexDeclaration.operands
  rw [Table.openingLine, List.append_assoc, IndexDeclaration.recogniser_eq_keyed,
    begins.captures_append_of_mismatches IndexDeclaration.advances_keyed (by decide),
    captures_keyed_quoted IndexDeclaration.advances_keyed (by decide) table.name.isName,
    begins.captures_eq_nil_of_mismatches IndexDeclaration.advances_keyed (by decide)]

/-- The line of a column declares no standalone index. -/
theorem captures_index_columnLine
    (column : Column) :
    captures IndexDeclaration.recogniser column.line = [] := by
  rw [IndexDeclaration.recogniser_eq_keyed]
  apply captures_keyed_columnLine IndexDeclaration.advances_keyed (by decide) (by decide)
    (by decide) fun _ _ _ => IndexDeclaration.two_le_count_of_recogniser
  intro _
  -- A type that ends in the keyword is followed by a name, but by no column list.
  unfold IndexDeclaration.operands Column.defaultClause
  rw [bind_apply, quotedWord_quoted column.name.isName, Option.bind_some]
  cases column.defaultValue <;> rfl

theorem captures_index_indexLine
    (columns : IndexColumns) :
    captures IndexDeclaration.recogniser columns.line = [] := by
  have begins := beginsWith_keyed (ascii "add_index") IndexDeclaration.operands
  rw [IndexColumns.line, IndexDeclaration.recogniser_eq_keyed,
    begins.captures_append_of_mismatches IndexDeclaration.advances_keyed (by decide),
    captures_keyed_list IndexDeclaration.advances_keyed (by decide)]

/-- The closing bracket is read with the first column if it stands right behind
it. -/
theorem leadingColumn_list
    (table : Text)
    (columns : IndexColumns) :
    IndexDeclaration.leadingColumn table columns.list =
      some (⟨table, columns.first.text⟩,
        if columns.others = [] then [] else columns.listRest) := by
  have named : word (columns.first.text ++ Byte.quote :: columns.listRest) =
      some (columns.first.text, Byte.quote :: columns.listRest) :=
    word_append columns.first.isName (by rw [List.head?_cons]; decide)
  have spelled : columns.list =
      91 :: Byte.quote :: (columns.first.text ++ Byte.quote :: columns.listRest) := by
    rw [columns.list_eq, show ascii "[" = [91] from rfl]
    simp [quoted]
  have closed : Recogniser.optional 93 columns.listRest =
      some ((), if columns.others = [] then [] else columns.listRest) := by
    unfold IndexColumns.listRest
    cases columns.others with
    | nil => rfl
    | cons second others => rfl
  rw [spelled]
  simp only [IndexDeclaration.leadingColumn, bind_apply, pure_apply, optional_cons_self,
    byte_cons_self, Option.bind_some, named, closed]

/-- The line of a standalone index declares its first column. -/
theorem captures_index_standaloneLine
    (index : StandaloneIndex) :
    captures IndexDeclaration.recogniser index.line =
      [⟨index.table.text, index.columns.first.text⟩] := by
  have spelled : index.line =
      ascii "add_index" ++ 32 :: (quoted index.table.text ++
        Byte.comma :: 32 :: index.columns.list) := by
    rw [StandaloneIndex.line, show ascii "add_index " = ascii "add_index" ++ [32] from rfl,
      show ascii ", " = [44, 32] from rfl]
    simp only [List.append_assoc, List.cons_append, List.nil_append]
  have spaced : someSpaces (32 :: (quoted index.table.text ++
        Byte.comma :: 32 :: index.columns.list)) =
      some ((), quoted index.table.text ++ Byte.comma :: 32 :: index.columns.list) :=
    someSpaces_blank (by decide) _
  have spacedAgain : someSpaces (32 :: index.columns.list) = some ((), index.columns.list) := by
    rw [index.columns.list_eq]
    exact someSpaces_blank (by decide) _
  have read : IndexDeclaration.recogniser index.line =
      some (⟨index.table.text, index.columns.first.text⟩,
        if index.columns.others = [] then [] else index.columns.listRest) := by
    rw [spelled, IndexDeclaration.recogniser_eq_keyed]
    simp only [keyed, IndexDeclaration.operands, bind_apply, literal_append, Option.bind_some,
      spaced, quotedWord_quoted index.table.isName, byte_cons_self, spacedAgain,
      leadingColumn_list]
  rw [captures_of_read IndexDeclaration.advances_recogniser read]
  split
  · rfl
  · rw [IndexDeclaration.recogniser_eq_keyed,
      captures_keyed_listRest IndexDeclaration.advances_keyed (by decide)]

/-! ### Columns and inline indexes -/

/-- The line of a column declares it, whatever its default value says. -/
theorem captures_column_columnLine
    (column : Column) :
    captures ColumnDeclaration.recogniser column.line =
      [⟨column.type.text, column.name.text⟩] := by
  have begins := ColumnDeclaration.beginsWith_recogniser
  have advances := ColumnDeclaration.advances_recogniser
  have spelled : column.line =
      ascii "  " ++ (ascii "t." ++ (column.type.text ++ 32 ::
        (quoted column.name.text ++ column.defaultClause))) := by
    rw [column.line_eq, show ascii "  t." = ascii "  " ++ ascii "t." from rfl, List.append_assoc]
  have typed : word (column.type.text ++ 32 ::
        (quoted column.name.text ++ column.defaultClause)) =
      some (column.type.text, 32 :: (quoted column.name.text ++ column.defaultClause)) :=
    word_append column.type.isName (by rw [List.head?_cons]; decide)
  have spaced : someSpaces (32 :: (quoted column.name.text ++ column.defaultClause)) =
      some ((), quoted column.name.text ++ column.defaultClause) :=
    someSpaces_blank (by decide) _
  have read : ColumnDeclaration.recogniser (ascii "t." ++ (column.type.text ++ 32 ::
        (quoted column.name.text ++ column.defaultClause))) =
      some (⟨column.type.text, column.name.text⟩, column.defaultClause) := by
    simp only [ColumnDeclaration.recogniser, bind_apply, pure_apply, literal_append,
      Option.bind_some, typed, spaced, quotedWord_quoted column.name.isName]
  rw [spelled, begins.captures_append_of_mismatches advances (by decide),
    captures_of_read advances read, captures_defaultClause begins advances (by decide)
      fun _ _ _ => ColumnDeclaration.two_le_count_of_recogniser]

theorem dot_not_mem_quoted
    (name : Word) :
    Byte.dot ∉ quoted name.text :=
  name.isName.not_mem_quoted (by decide) (by decide)

theorem dot_not_mem_listRest
    (columns : IndexColumns) :
    Byte.dot ∉ columns.listRest := by
  unfold IndexColumns.listRest
  simp only [List.mem_append, List.mem_flatMap, not_or, not_exists, not_and]
  refine ⟨?_, by decide⟩
  intro name _
  exact ⟨by decide, dot_not_mem_quoted name⟩

/-- If nothing is read at the beginning of an inner line, then nothing is read
up to the next full stop. -/
theorem captures_innerLine_of_refused
    {recogniser : Recogniser α}
    (begins : BeginsWith (ascii "t.") recogniser)
    (advances : Advances recogniser)
    {stretch rest : Text}
    (refused : recogniser (ascii "t." ++ (stretch ++ rest)) = none)
    (noDot : Byte.dot ∉ stretch)
    (notNext : rest.head? ≠ some Byte.dot) :
    captures recogniser (ascii "  t." ++ (stretch ++ rest)) = captures recogniser rest := by
  have spelled : ascii "  t." ++ (stretch ++ rest) =
      ascii "  " ++ (116 :: Byte.dot :: (stretch ++ rest)) := rfl
  have atFirst : recogniser (116 :: Byte.dot :: (stretch ++ rest)) = none := refused
  have dotRefused : recogniser (Byte.dot :: (stretch ++ rest)) = none := by
    apply begins.eq_none
    rintro ⟨after, equal⟩
    rw [show ascii "t." = [116, Byte.dot] from rfl] at equal
    exact absurd (List.cons.inj equal).1 (by decide)
  rw [spelled, begins.captures_append_of_mismatches advances (by decide),
    captures_of_refused advances atFirst, captures_of_refused advances dotRefused,
    captures_append_of_dot_not_mem begins advances noDot notNext]

/-- A column list is not the name of a column. -/
theorem captures_column_indexLine
    (columns : IndexColumns) :
    captures ColumnDeclaration.recogniser columns.line = [] := by
  have spelled : columns.line = ascii "  t." ++ ((ascii "index " ++ columns.list) ++ []) := by
    rw [List.append_nil]
    rfl
  have noDot : Byte.dot ∉ ascii "index " ++ columns.list := by
    have inName : Byte.dot ∉ quoted columns.first.text := dot_not_mem_quoted columns.first
    have inRest := dot_not_mem_listRest columns
    rw [columns.list_eq]
    simp only [List.mem_append, not_or]
    exact ⟨by decide, by decide, inName, inRest⟩
  have refused : ColumnDeclaration.recogniser
      (ascii "t." ++ ((ascii "index " ++ columns.list) ++ [])) = none := by
    rw [List.append_nil, columns.list_eq]
    rfl
  rw [spelled, captures_innerLine_of_refused ColumnDeclaration.beginsWith_recogniser
    ColumnDeclaration.advances_recogniser refused noDot (by simp), captures_nil]

/-- The type `index` is excluded, so the line of a column declares no index. -/
theorem captures_inlineIndex_columnLine
    (column : Column) :
    captures InlineIndex.recogniser column.line = [] := by
  have begins := InlineIndex.beginsWith_recogniser
  have advances := InlineIndex.advances_recogniser
  have spelled : column.line =
      ascii "  t." ++ ((column.type.text ++ 32 :: quoted column.name.text) ++
        column.defaultClause) := by
    rw [column.line_eq]
    simp only [List.append_assoc, List.cons_append]
  have noDot : Byte.dot ∉ column.type.text ++ 32 :: quoted column.name.text := by
    have inName : Byte.dot ∉ quoted column.name.text := dot_not_mem_quoted column.name
    simp only [List.mem_append, List.mem_cons, not_or]
    exact ⟨column.type.isName.not_mem (by decide), by decide, inName⟩
  have notNext : column.defaultClause.head? ≠ some Byte.dot := by
    unfold Column.defaultClause
    cases column.defaultValue with
    | none => simp
    | some value =>
        rw [show ascii ", default: " = 44 :: ascii " default: " from rfl]
        simp only [List.cons_append, List.head?_cons]
        decide
  have refused : InlineIndex.recogniser (ascii "t." ++
      ((column.type.text ++ 32 :: quoted column.name.text) ++ column.defaultClause)) = none := by
    have typeRefused := keyed_append (show (ascii "index").all Byte.isWord = true by decide)
      column.type.isName.2 (show Byte.isWord 32 = false by decide)
      (Recogniser.optional 91 >>= fun _ => spaces >>= fun _ => quotedWord)
      (quoted column.name.text ++ column.defaultClause)
    rw [if_neg fun both => column.type.notIndex both.1] at typeRefused
    rw [List.append_assoc, List.cons_append]
    exact typeRefused
  rw [spelled, captures_innerLine_of_refused begins advances refused noDot notNext,
    captures_defaultClause begins advances (by decide)
      fun _ _ _ => InlineIndex.two_le_count_of_recogniser]

/-- The line of an index declares its first column. -/
theorem captures_inlineIndex_indexLine
    (columns : IndexColumns) :
    captures InlineIndex.recogniser columns.line = [columns.first.text] := by
  have begins := InlineIndex.beginsWith_recogniser
  have advances := InlineIndex.advances_recogniser
  have spelled : columns.line = ascii "  " ++ (ascii "t.index" ++ 32 :: 91 ::
      (quoted columns.first.text ++ columns.listRest)) := by
    rw [IndexColumns.line, columns.list_eq]
    rfl
  have spaced : someSpaces (32 :: 91 :: (quoted columns.first.text ++ columns.listRest)) =
      some ((), 91 :: (quoted columns.first.text ++ columns.listRest)) :=
    someSpaces_blank (by decide) _
  have unspaced : spaces (quoted columns.first.text ++ columns.listRest) =
      some ((), quoted columns.first.text ++ columns.listRest) := rfl
  have read : InlineIndex.recogniser (ascii "t.index" ++ 32 :: 91 ::
        (quoted columns.first.text ++ columns.listRest)) =
      some (columns.first.text, columns.listRest) := by
    simp only [InlineIndex.recogniser, bind_apply, literal_append, Option.bind_some, spaced,
      optional_cons_self, unspaced, quotedWord_quoted columns.first.isName]
  rw [spelled, begins.captures_append_of_mismatches advances (by decide),
    captures_of_read advances read,
    captures_eq_nil_of_dot_not_mem begins advances (dot_not_mem_listRest columns)]

end Dump
end QueryAdvisor

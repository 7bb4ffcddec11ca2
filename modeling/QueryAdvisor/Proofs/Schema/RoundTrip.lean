import QueryAdvisor.Proofs.Block.Passage
import QueryAdvisor.Proofs.Block.Span
import QueryAdvisor.Proofs.Schema.Contents
import QueryAdvisor.Proofs.Schema.DumpLine

/-!
# Reading back a printed dump

The schema that is read off the text of a dump is the schema that the dump
declares.  The text is taken apart table by table: the header and the opening
of a block stand on its first line, and the search for the closing keyword
passes over the lines inside.
-/

namespace QueryAdvisor
namespace Dump

open Recogniser

/-! ### Lines begin with words -/

theorem beginsLine_innerLine
    {table : Table}
    {line : Text}
    (present : line ∈ table.innerLines) :
    BeginsLine line := by
  rw [Table.innerLines, List.mem_append, List.mem_map, List.mem_map] at present
  rcases present with ⟨column, _, rfl⟩ | ⟨columns, _, rfl⟩
  · rw [column.line_eq]
    rfl
  · rfl

theorem beginsLine_of_mem_lines
    {table : Table}
    {line : Text}
    (present : line ∈ table.lines) :
    BeginsLine line := by
  rw [Table.lines, List.mem_append, List.mem_cons, List.mem_singleton] at present
  rcases present with (rfl | inner) | rfl
  · rfl
  · exact beginsLine_innerLine inner
  · rfl

theorem beginsLine_of_mem
    {dump : Dump}
    {line : Text}
    (present : line ∈ dump.lines) :
    BeginsLine line := by
  rw [lines, List.mem_append, List.mem_flatMap, List.mem_map] at present
  rcases present with ⟨table, _, inTable⟩ | ⟨index, _, rfl⟩
  · exact beginsLine_of_mem_lines inTable
  · rfl

/-! ### The body of a block -/

/-- The text between the opening and the closing keyword of a block. -/
def Table.body (table : Table) : Text :=
  Byte.newline :: unlines table.innerLines

/-- The block of a table. -/
def Table.block (table : Table) : TableBlock where
  name := table.name.text
  body := table.body

/-- A body is searched line by line. -/
theorem captures_body
    {α : Type}
    {recogniser : Recogniser α}
    (linewise : Linewise recogniser)
    (table : Table) :
    captures recogniser table.body = table.innerLines.flatMap (captures recogniser) := by
  have begin : ∀ line ∈ table.innerLines, BeginsLine line :=
    fun line => beginsLine_innerLine
  have beginning := beginsWithWord_unlines_append begin beginsWithWord_nil
  rw [List.append_nil] at beginning
  rw [Table.body, captures_of_refused linewise.advances (linewise.refuses_newline beginning),
    captures_unlines linewise begin]

theorem flatMap_nil
    {α β : Type}
    (elements : List α) :
    (elements.flatMap fun _ => ([] : List β)) = [] :=
  List.flatMap_eq_nil_iff.mpr fun _ _ => rfl

theorem columns_body
    (table : Table) :
    ColumnDeclaration.ofBody table.body =
      table.columns.map fun column => ⟨column.type.text, column.name.text⟩ := by
  rw [ColumnDeclaration.ofBody, captures_body ColumnDeclaration.linewise_recogniser,
    Table.innerLines, List.flatMap_append, List.flatMap_map, List.flatMap_map]
  simp only [captures_column_columnLine, captures_column_indexLine]
  rw [← List.map_eq_flatMap, flatMap_nil, List.append_nil]

theorem inlineIndexes_body
    (table : Table) :
    InlineIndex.ofBody table.body = table.indexes.map fun columns => columns.first.text := by
  rw [InlineIndex.ofBody, captures_body InlineIndex.linewise_recogniser,
    Table.innerLines, List.flatMap_append, List.flatMap_map, List.flatMap_map]
  simp only [captures_inlineIndex_columnLine, captures_inlineIndex_indexLine]
  rw [← List.map_eq_flatMap, flatMap_nil, List.nil_append]

/-- The table read off a block is what the block declares. -/
theorem ofBlock_block
    (table : Table) :
    QueryAdvisor.Table.ofBlock table.block = table.contents := by
  unfold QueryAdvisor.Table.ofBlock Table.block Table.contents
  rw [ForeignKey.ofBody_eq_filter_columns, columns_body, inlineIndexes_body, List.map_map]
  rfl

/-! ### The search for the closing keyword -/

open TableBlock

theorem passes_defaultClause
    (column : Column) :
    Passes column.defaultClause := by
  unfold Column.defaultClause
  cases column.defaultValue with
  | none => exact passes_nil
  | some value =>
      have word : Passes (ascii ", default: ") := fun _ _ => rfl
      exact word.append (passes_quoted value.noQuote value.noBackslash)

/-- The search passes over the line of a column with its default value, which it
takes for a quotation. -/
theorem passes_columnLine
    (column : Column) :
    Passes (column.line ++ [Byte.newline]) := by
  have indentation : Passes (ascii "  t.") := fun _ _ => rfl
  have type : Passes (column.type.text ++ [32]) :=
    passes_name column.type.isName.2 column.type.notEnd (by decide) rfl
  have name := passes_quoted_name column.name.isName
  have lineEnd : Passes [Byte.newline] := fun _ _ => rfl
  exact (((indentation.append type).append name).append (passes_defaultClause column)).append
    lineEnd

theorem passes_listRest
    (columns : IndexColumns) :
    Passes columns.listRest := by
  have bracket : Passes (ascii "]") := fun _ _ => rfl
  have comma : Passes (ascii ", ") := fun _ _ => rfl
  unfold IndexColumns.listRest
  refine Passes.append ?_ bracket
  induction columns.others with
  | nil => exact passes_nil
  | cons second others inductionHypothesis =>
      rw [List.flatMap_cons]
      exact (comma.append (passes_quoted_name second.isName)).append inductionHypothesis

theorem passes_indexLine
    (columns : IndexColumns) :
    Passes (columns.line ++ [Byte.newline]) := by
  have indentation : Passes (ascii "  t.index ") := fun _ _ => rfl
  have bracket : Passes (ascii "[") := fun _ _ => rfl
  have lineEnd : Passes [Byte.newline] := fun _ _ => rfl
  rw [IndexColumns.line, columns.list_eq]
  exact (indentation.append (bracket.append ((passes_quoted_name columns.first.isName).append
    (passes_listRest columns)))).append lineEnd

theorem passes_unlines
    {lines : List Text}
    (pass : ∀ line ∈ lines, Passes (line ++ [Byte.newline])) :
    Passes (unlines lines) := by
  induction lines with
  | nil => exact passes_nil
  | cons line others inductionHypothesis =>
      have first := pass line List.mem_cons_self
      have rest := inductionHypothesis fun other member =>
        pass other (List.mem_cons_of_mem line member)
      exact first.append rest

/-- The search passes over a whole body. -/
theorem passes_body
    (table : Table) :
    Passes table.body := by
  have lineEnd : Passes [Byte.newline] := fun _ _ => rfl
  refine lineEnd.append (passes_unlines ?_)
  intro line present
  rw [Table.innerLines, List.mem_append, List.mem_map, List.mem_map] at present
  rcases present with ⟨column, _, rfl⟩ | ⟨columns, _, rfl⟩
  · exact passes_columnLine column
  · exact passes_indexLine columns

/-! ### Headers and blocks -/

/-- What the header of a block takes. -/
def Table.headerText (table : Table) : Text :=
  ascii "create_table " ++ quoted table.name.text

/-- What stands between the header and the body of a block. -/
def openingText : Text :=
  ascii ", force: :cascade do |t|"

/-- A printed table, cut at the places where recognisers and searches stop. -/
theorem unlines_lines_append
    (table : Table)
    (rest : Text) :
    unlines table.lines ++ rest =
      table.headerText ++ (openingText ++
        (table.body ++ (ascii "end" ++ Byte.newline :: rest))) := by
  rw [Table.lines, unlines_append, unlines_cons, Table.openingLine, Table.headerText, Table.body,
    openingText]
  simp [unlines]

/-- A block opens at the end of its first line. -/
theorem first?_openingText
    (rest : Text) :
    opening.first? (openingText ++ rest) = some { start := 18, stop := 24, value := () } := by
  have begins : BeginsWith (ascii "do") opening := by
    intro text value remainder read
    obtain ⟨gap, rfl⟩ := opening_eq_some read
    rw [List.append_assoc, List.append_assoc]
    exact List.prefix_append _ _
  have spelled : openingText = ascii ", force: :cascade " ++ ascii "do |t|" := by decide
  have read : opening (ascii "do |t|" ++ rest) = some ((), rest) := rfl
  rw [first?, firstFrom_eq_head?, spelled, List.append_assoc,
    begins.occurrencesFrom_append_of_mismatches (by decide),
    occurrencesFrom_of_read (by decide) read, List.head?_cons]
  rfl

/-- A body is closed by the keyword on the last line of its block. -/
theorem end?_table
    (table : Table)
    (front rest : Text) :
    TableBlock.end?
        (front ++ openingText ++ (table.body ++ (ascii "end" ++ Byte.newline :: rest)))
        (front ++ openingText).length =
      some ((front ++ openingText).length + table.body.length) := by
  have notAfterWord : (front ++ openingText).getLast?.any Byte.isWord = false := by
    rw [show openingText = ascii ", force: :cascade do |t" ++ [124] from rfl, ← List.append_assoc,
      List.getLast?_concat]
    decide
  rw [end?_append, notAfterWord, passes_body]
  rfl

/-- The block of a header is the one that was printed, wherever it stands and
whatever follows it. -/
theorem ofHeader?_table
    (table : Table)
    (front rest : Text)
    {limit : Nat}
    (far : front.length + (unlines table.lines).length ≤ limit) :
    ofHeader? (front ++ (unlines table.lines ++ rest))
        { start := front.length
          stop := front.length + table.headerText.length
          value := table.name.text }
        limit = some table.block := by
  have whole := congrArg List.length (unlines_lines_append table [])
  simp only [List.append_nil, List.length_append] at whole
  have opens : openingText.length ≤ limit - (front ++ table.headerText).length := by
    rw [List.length_append]
    omega
  have closes := end?_table table (front ++ table.headerText) rest
  rw [unlines_lines_append, ← List.append_assoc, ← List.length_append, ofHeader?]
  simp only [List.drop_left, List.take_append, List.take_of_length_le opens, first?_openingText,
    Option.bind_eq_bind, Option.bind_some]
  rw [← List.append_assoc, show 24 = openingText.length from rfl, ← List.length_append, closes]
  simp [Table.block]

/-! ### The text of a dump -/

/-- Behind its header a printed table holds no other. -/
theorem captures_header_tailLine
    {table : Table}
    {line : Text}
    (present : line ∈ openingText :: (table.innerLines ++ [ascii "end"])) :
    captures header line = [] := by
  have begins := beginsWith_keyed (ascii "create_table") quotedWord
  rw [List.mem_cons, List.mem_append, List.mem_singleton] at present
  rcases present with rfl | inner | rfl
  · exact begins.captures_eq_nil_of_mismatches advances_keyed (by decide)
  · exact captures_header_innerLine inner
  · exact begins.captures_eq_nil_of_mismatches advances_keyed (by decide)

/-- A printed table has one header, at its beginning. -/
theorem occurrencesFrom_header_table
    (table : Table)
    {rest : Text}
    (beginning : BeginsWithWord rest)
    (offset : Nat) :
    occurrencesFrom header offset 0 (unlines table.lines ++ rest) =
      { start := offset
        stop := offset + table.headerText.length
        value := table.name.text } ::
        occurrencesFrom header (offset + (unlines table.lines).length) 0 rest := by
  have spelled : unlines table.lines ++ rest = table.headerText ++
      (unlines (openingText :: (table.innerLines ++ [ascii "end"])) ++ rest) := by
    simp [Table.lines, Table.openingLine, Table.headerText, openingText]
  have lengths := congrArg List.length spelled
  simp only [List.length_append] at lengths
  have begin : ∀ line ∈ (openingText :: (table.innerLines ++ [ascii "end"])).tail,
      BeginsLine line := by
    intro line present
    exact beginsLine_of_mem_lines (List.mem_cons_of_mem table.openingLine present)
  have nonempty : table.headerText ≠ [] := by simp [Table.headerText, ascii]
  rw [spelled, occurrencesFrom_of_read nonempty (header_openingLine table _),
    occurrencesFrom_unlines_append linewise_header begin (fun line => captures_header_tailLine)
      beginning]
  congr 2
  omega

/-- The headers of printed tables give their blocks. -/
theorem ofHeaders_tables
    (tables : List Table)
    (front : Text)
    {rest : Text}
    (beginning : BeginsWithWord rest)
    (noHeader : captures header rest = []) :
    ofHeaders (front ++ (unlines (tables.flatMap Table.lines) ++ rest))
        (occurrencesFrom header front.length 0 (unlines (tables.flatMap Table.lines) ++ rest)) =
      tables.map Table.block := by
  -- The front grows by a table in each step, so that offsets are lengths of fronts.
  induction tables generalizing front with
  | nil =>
      rw [List.flatMap_nil, unlines_nil, List.nil_append,
        occurrencesFrom_eq_nil advances_header noHeader]
      rfl
  | cons table others inductionHypothesis =>
      have begin : ∀ line ∈ others.flatMap Table.lines, BeginsLine line := by
        intro line present
        obtain ⟨other, _, inTable⟩ := List.mem_flatMap.mp present
        exact beginsLine_of_mem_lines inTable
      have othersBegin := beginsWithWord_unlines_append begin beginning
      have behind := inductionHypothesis (front ++ unlines table.lines)
      rw [List.append_assoc, List.length_append] at behind
      rw [List.flatMap_cons, unlines_append, List.append_assoc,
        occurrencesFrom_header_table table othersBegin, ofHeaders_cons, behind,
        ofHeader?_table table front, Option.toList_some, List.map_cons, List.singleton_append]
      apply le_limitOf
      simp only [List.length_append]
      omega

theorem text_eq
    (dump : Dump) :
    dump.text = unlines (dump.tables.flatMap Table.lines) ++
      unlines (dump.indexes.map StandaloneIndex.line) := by
  rw [text, lines, unlines_append]

/-- The table blocks of a dump are those of its tables. -/
theorem blocks_text
    (dump : Dump) :
    TableBlock.ofText dump.text = dump.tables.map Table.block := by
  have begin : ∀ line ∈ dump.indexes.map StandaloneIndex.line, BeginsLine line := by
    intro line present
    exact beginsLine_of_mem (List.mem_append_right (dump.tables.flatMap Table.lines) present)
  have beginning := beginsWithWord_unlines_append begin beginsWithWord_nil
  rw [List.append_nil] at beginning
  have noHeader : captures header (unlines (dump.indexes.map StandaloneIndex.line)) = [] := by
    rw [captures_unlines linewise_header begin, List.flatMap_map]
    simp only [captures_header_standaloneLine, flatMap_nil]
  have blocks := ofHeaders_tables dump.tables [] beginning noHeader
  rw [List.nil_append, ← text_eq] at blocks
  exact blocks

theorem captures_index_tableLine
    {table : Table}
    {line : Text}
    (present : line ∈ table.lines) :
    captures IndexDeclaration.recogniser line = [] := by
  rw [Table.lines, List.mem_append, List.mem_cons, List.mem_singleton, Table.innerLines,
    List.mem_append, List.mem_map, List.mem_map] at present
  rcases present with (rfl | ⟨column, _, rfl⟩ | ⟨columns, _, rfl⟩) | rfl
  · exact captures_index_openingLine table
  · exact captures_index_columnLine column
  · exact captures_index_indexLine columns
  · rfl

/-- The standalone indexes of a dump are those printed below its blocks. -/
theorem indexes_text
    (dump : Dump) :
    IndexDeclaration.ofText dump.text =
      dump.indexes.map fun index => ⟨index.table.text, index.columns.first.text⟩ := by
  have inTables : (dump.tables.flatMap Table.lines).flatMap
      (captures IndexDeclaration.recogniser) = [] := by
    apply List.flatMap_eq_nil_iff.mpr
    intro line present
    obtain ⟨table, _, inTable⟩ := List.mem_flatMap.mp present
    exact captures_index_tableLine inTable
  rw [IndexDeclaration.ofText, text,
    captures_unlines IndexDeclaration.linewise_recogniser fun line => beginsLine_of_mem, lines,
    List.flatMap_append, inTables, List.nil_append, List.flatMap_map]
  simp only [captures_index_standaloneLine]
  exact List.map_eq_flatMap.symm

/-- The table that is kept under a name, with the standalone indexes added to it. -/
theorem tableNamed?_eq
    (dump : Dump)
    (name : Text) :
    (((dump.tables.map Table.contents).reverse.find? fun table => table.name = name).map
        fun table =>
          { table with
            indexes := table.indexes ++
              ((dump.indexes.map fun index => IndexDeclaration.mk index.table.text
                index.columns.first.text).filter fun index =>
                  index.table = table.name).map IndexDeclaration.column }) =
      dump.tableNamed? name := by
  have named : (fun table : QueryAdvisor.Table => decide (table.name = name)) ∘ Table.contents =
      fun table => decide (table.name.text = name) := rfl
  rw [← List.map_reverse, List.find?_map, named, Option.map_map, tableNamed?]
  cases found : dump.tables.reverse.find? fun table => decide (table.name.text = name) with
  | none => rfl
  | some table =>
      have satisfied := List.find?_some found
      have isNamed : table.contents.name = name := of_decide_eq_true satisfied
      simp only [Option.map_some, Function.comp_apply, isNamed, List.filter_map, List.map_map]
      rfl

/-- The schema read off the text of a dump is the one that the dump declares. -/
theorem ofText_text
    (dump : Dump) :
    Schema.ofText dump.text = dump.schema := by
  have contents : (dump.tables.map Table.block).map QueryAdvisor.Table.ofBlock =
      dump.tables.map Table.contents := by
    rw [List.map_map]
    exact List.map_congr_left fun table _ => ofBlock_block table
  have names : (dump.tables.map Table.contents).map QueryAdvisor.Table.name =
      dump.tables.map fun table => table.name.text := by
    rw [List.map_map]
    rfl
  have tables : (Schema.ofText dump.text).tables = dump.schema.tables := by
    rw [Schema.ofText, blocks_text, indexes_text, Schema.ofBlocks_eq_putAll, contents,
      Schema.tables_addIndexes, Schema.tables_putAll, names, List.map_filterMap]
    simp only [tableNamed?_eq]
    rfl
  exact congrArg Schema.mk tables

/-- A dump that declares one table twice, with a default value that looks like the
end of a block and like another header. -/
def hostileDump : Dump where
  tables :=
    [{ name := ⟨ascii "posts", by decide⟩
       columns := [{
         type := ⟨⟨ascii "string", by decide⟩, by decide, by decide, by decide⟩
         name := ⟨ascii "old_id", by decide⟩
         defaultValue := none }]
       indexes := [] },
     { name := ⟨ascii "users", by decide⟩
       columns := []
       indexes := [⟨⟨ascii "age", by decide⟩, []⟩] },
     { name := ⟨ascii "posts", by decide⟩
       columns := [
         { type := ⟨⟨ascii "text", by decide⟩, by decide, by decide, by decide⟩
           name := ⟨ascii "_id", by decide⟩
           defaultValue :=
             some ⟨ascii "#\nend\ncreate_table 'x' do |t| t.b 'y_id", by decide, by decide⟩ },
         { type := ⟨⟨ascii "bigint", by decide⟩, by decide, by decide, by decide⟩
           name := ⟨ascii "user_id", by decide⟩
           defaultValue := none }]
       indexes := [⟨⟨ascii "user_id", by decide⟩, [⟨ascii "_id", by decide⟩]⟩] }]
  indexes := [
    { table := ⟨ascii "posts", by decide⟩
      columns := ⟨⟨ascii "_id", by decide⟩, []⟩ },
    { table := ⟨ascii "tags", by decide⟩
      columns := ⟨⟨ascii "name", by decide⟩, []⟩ }]

/-- The second table takes the place of the first, and an index of no table is
left out. -/
example :
    Schema.ofText hostileDump.text =
      { tables :=
          [{ name := ascii "posts"
             columns := [ascii "_id", ascii "user_id"]
             foreignKeys := [ascii "user_id"]
             indexes := [ascii "user_id", ascii "_id"] },
           { name := ascii "users"
             columns := []
             foreignKeys := []
             indexes := [ascii "age"] }] } := by
  decide +kernel

end Dump
end QueryAdvisor

import QueryAdvisor.Proofs.Block.Passage
import QueryAdvisor.Proofs.Block.Span
import QueryAdvisor.Proofs.Schema.Contents
import QueryAdvisor.Proofs.Schema.DumpLine
import QueryAdvisor.Rule.Schema

/-!
# Declaring one more index

A line that declares an index is added below a schema dump.  However the dump
ends, in an open block, a quotation, a comment or half a statement, the line
adds one index and changes nothing else: no recogniser reads across the line
feed, and from no mode does the search for a closing keyword stop in the line.
So the rules on the schema report what they reported before, without the
findings on the column that got its index.
-/

namespace QueryAdvisor

open Recogniser

/-- A line that declares an index on one column. -/
def indexLine
    (table column : Text) : Text :=
  ascii "add_index " ++ quoted table ++ ascii ", [" ++ quoted column ++ ascii "]\n"

/-- A text with a line below it that declares one more index. -/
def declaringIndex
    (text table column : Text) : Text :=
  text ++ Byte.newline :: indexLine table column

/-- The index that the line declares. -/
def Dump.StandaloneIndex.single
    (table column : Word) : Dump.StandaloneIndex where
  table := table
  columns := { first := column, others := [] }

/-- The line is that of a standalone index of a dump. -/
theorem indexLine_eq
    (table column : Word) :
    indexLine table.text column.text =
      (Dump.StandaloneIndex.single table column).line ++ Byte.newline :: [] := by
  have between : ascii ", [" = ascii ", " ++ ascii "[" := rfl
  have closing : ascii "]\n" = ascii "]" ++ [Byte.newline] := rfl
  rw [indexLine, between, closing]
  simp [Dump.StandaloneIndex.line, Dump.StandaloneIndex.single, Dump.IndexColumns.list]

/-- Apart from the names, the line is made of its keyword and a few signs. -/
theorem not_mem_indexLine
    (table column : Word)
    {sign : UInt8}
    (isSign : Byte.isWord sign = false)
    (other : sign ∉ ascii "add_index \",[]\n") :
    sign ∉ indexLine table.text column.text := by
  have outside {piece : Text} (within : piece ⊆ ascii "add_index \",[]\n") : sign ∉ piece :=
    fun present => other (within present)
  have notQuote : sign ≠ Byte.quote := by
    rintro rfl
    exact other (by decide)
  simp only [indexLine, List.mem_append, not_or]
  exact ⟨⟨⟨⟨outside (by decide), table.isName.not_mem_quoted isSign notQuote⟩,
    outside (by decide)⟩, column.isName.not_mem_quoted isSign notQuote⟩, outside (by decide)⟩

namespace TableBlock

/-! ### The search for a closing keyword -/

/-- What holds no closing keyword for any mode can be added after a line feed. -/
theorem closingFrom_append
    {following : Text}
    (nothing : ∀ mode, Mode.Proper mode → ∀ afterWord offset,
      closingFrom mode afterWord offset (Byte.newline :: following) = none)
    {mode : Mode}
    (proper : mode.Proper)
    (afterWord : Bool)
    (offset : Nat)
    (text : Text) :
    closingFrom mode afterWord offset (text ++ Byte.newline :: following) =
      closingFrom mode afterWord offset text := by
  induction text generalizing mode afterWord offset with
  | nil => exact nothing mode proper afterWord offset
  | cons first rest inductionHypothesis =>
      have closes := closesBlock_append_sign (show Byte.isWord Byte.newline = false by decide)
        afterWord (first :: rest) following
      rw [List.cons_append] at closes ⊢
      rw [closingFrom, closingFrom, closes, inductionHypothesis (proper.step first)]

section Line

variable {table column : Word}

/-- In code the line is passed over. -/
theorem closingFrom_line_code
    (table column : Word)
    (offset : Nat) :
    closingFrom .code false offset (indexLine table.text column.text) = none := by
  have keyword : Passes (ascii "add_index ") := fun _ _ => rfl
  have comma : Passes (ascii ", [") := fun _ _ => rfl
  have bracket : Passes (ascii "]\n") := fun _ _ => rfl
  have passes := ((((keyword.append (passes_quoted_name table.isName)).append comma).append
    (passes_quoted_name column.isName)).append bracket) offset []
  rw [List.append_nil] at passes
  rw [indexLine, passes]
  rfl

/-- Inside a quotation the names are taken for code, and what stands between
them for quotations. -/
theorem closingFrom_line_quotation
    (tableNotEnd : table.text ≠ ascii "end")
    (columnNotEnd : column.text ≠ ascii "end")
    (afterWord : Bool)
    (offset : Nat) :
    closingFrom (.quotation Byte.quote) afterWord offset (indexLine table.text column.text) =
      none := by
  have spelled : indexLine table.text column.text =
      ascii "add_index " ++ Byte.quote :: (table.text ++ Byte.quote ::
        (ascii ", [" ++ Byte.quote :: (column.text ++ Byte.quote :: ascii "]\n"))) := by
    simp [indexLine, quoted]
  have noWord : Byte.isWord Byte.quote = false := by decide
  have opened : Mode.code.step Byte.quote = .quotation Byte.quote := rfl
  rw [spelled, closingFrom_quotation (by decide) (by decide) (by decide), noWord,
    closingFrom_name table.isName.2 tableNotEnd noWord, opened,
    closingFrom_quotation (by decide) (by decide) (by decide), noWord,
    closingFrom_name column.isName.2 columnNotEnd noWord, opened,
    closingFrom_open_quotation (by decide) (by decide)]

/-- Between apostrophes the whole line belongs to the quotation. -/
theorem closingFrom_line_apostrophe
    (table column : Word)
    (afterWord : Bool)
    (offset : Nat) :
    closingFrom (.quotation Byte.apostrophe) afterWord offset
      (indexLine table.text column.text) = none :=
  closingFrom_open_quotation (not_mem_indexLine table column (by decide) (by decide))
    (not_mem_indexLine table column (by decide) (by decide)) afterWord offset

/-- Whatever mode a text ends in, no keyword in the line closes a block. -/
theorem closingFrom_newline_line
    (tableNotEnd : table.text ≠ ascii "end")
    (columnNotEnd : column.text ≠ ascii "end")
    (mode : Mode)
    (proper : mode.Proper)
    (afterWord : Bool)
    (offset : Nat) :
    closingFrom mode afterWord offset (Byte.newline :: indexLine table.text column.text) =
      none := by
  have quotation {mark : UInt8} (isMark : mark = Byte.quote ∨ mark = Byte.apostrophe) :
      closingFrom (.quotation mark) (Byte.isWord Byte.newline) (offset + 1)
        (indexLine table.text column.text) = none := by
    rcases isMark with rfl | rfl
    · exact closingFrom_line_quotation tableNotEnd columnNotEnd _ _
    · exact closingFrom_line_apostrophe table column _ _
  rw [closingFrom_of_not_closes (closesBlock_eq_false_of_ne (by decide) _ _)]
  -- The line feed ends a comment and an escape, so the line is read as code or
  -- in a quotation.
  cases mode with
  | code => exact closingFrom_line_code table column (offset + 1)
  | comment => exact closingFrom_line_code table column (offset + 1)
  | escape mark => exact quotation proper
  | quotation mark =>
      have stays : (Mode.quotation mark).step Byte.newline = .quotation mark := by
        rcases proper with rfl | rfl <;> rfl
      rw [stays]
      exact quotation proper

/-- Every body ends where it ended before. -/
theorem end?_declaringIndex
    (tableNotEnd : table.text ≠ ascii "end")
    (columnNotEnd : column.text ≠ ascii "end")
    {text : Text}
    {start : Nat}
    (inside : start ≤ text.length) :
    TableBlock.end? (declaringIndex text table.text column.text) start =
      TableBlock.end? text start := by
  obtain ⟨front, rest, rfl, rfl⟩ := exists_append_of_le_length inside
  have nothing := closingFrom_newline_line tableNotEnd columnNotEnd
  rw [declaringIndex, List.append_assoc, end?_append, end?_append,
    closingFrom_append nothing (show Mode.Proper .code from trivial)]

/-! ### Headers and openings -/

theorem beginsWithWord_indexLine
    (table column : Text) :
    BeginsWithWord (indexLine table column) := by
  unfold indexLine
  rfl

/-- The line holds no header and completes none. -/
theorem header_occurrences_declaringIndex
    (table column : Word)
    (text : Text) :
    header.occurrences (declaringIndex text table.text column.text) =
      header.occurrences text := by
  have noHeader : captures header (indexLine table.text column.text) = [] := by
    rw [indexLine_eq, linewise_header.captures_newLine beginsWithWord_nil,
      Dump.captures_header_standaloneLine, captures_nil, List.append_nil]
  rw [occurrences, declaringIndex,
    linewise_header.occurrencesFrom_newLine (beginsWithWord_indexLine _ _),
    occurrencesFrom_eq_nil advances_header noHeader, List.append_nil, occurrences]

/-- The line holds no vertical bar, which every opening needs. -/
theorem captures_opening_indexLine
    (table column : Word) :
    captures opening (indexLine table.text column.text) = [] := by
  have needed : ∀ ⦃text value rest⦄, opening text = some (value, rest) → 1 ≤ text.count 124 := by
    intro text value rest read
    obtain ⟨gap, rfl⟩ := opening_eq_some read
    apply List.count_pos_iff.mpr
    simp only [List.mem_append]
    exact .inl (.inr (by decide))
  have few : (indexLine table.text column.text).count 124 < 1 := by
    rw [Nat.lt_one_iff, List.count_eq_zero]
    exact not_mem_indexLine table column (by decide) (by decide)
  exact captures_eq_nil_of_count_lt advances_opening needed few

/-- The line holds no opening and completes none. -/
theorem opening_first?_declaringIndex
    (table column : Word)
    (text : Text) :
    opening.first? (declaringIndex text table.text column.text) = opening.first? text := by
  have noOpening := captures_opening_indexLine table column
  rw [first?, first?, firstFrom_eq_head?, firstFrom_eq_head?, declaringIndex,
    linewise_opening.occurrencesFrom_newLine (beginsWithWord_indexLine _ _),
    occurrencesFrom_eq_nil advances_opening noOpening, List.append_nil]

/-! ### Blocks -/

/-- An opening that is found before a limit, if headers go on, and anywhere
otherwise, is found at the same place. -/
theorem opening_first?_limitOf
    (table column : Word)
    {text : Text}
    {stop : Nat}
    (inside : stop ≤ text.length)
    {later : List (Occurrence Text)}
    (laterInside : ∀ next ∈ later, next.start ≤ text.length) :
    opening.first?
        (((declaringIndex text table.text column.text).drop stop).take
          (limitOf (declaringIndex text table.text column.text) later - stop)) =
      opening.first? ((text.drop stop).take (limitOf text later - stop)) := by
  have dropped : (declaringIndex text table.text column.text).drop stop =
      declaringIndex (text.drop stop) table.text column.text := by
    rw [declaringIndex, declaringIndex, List.drop_append_of_le_length inside]
  rw [dropped]
  -- Only the last header is followed by the new line: the others have to open
  -- before the next header.
  cases later with
  | nil =>
      have whole : (declaringIndex (text.drop stop) table.text column.text).take
            (limitOf (declaringIndex text table.text column.text) [] - stop) =
          declaringIndex (text.drop stop) table.text column.text := by
        apply List.take_of_length_le
        simp only [limitOf, ← dropped, List.length_drop, Nat.le_refl]
      have wholeText : (text.drop stop).take (limitOf text [] - stop) = text.drop stop := by
        apply List.take_of_length_le
        simp only [limitOf, List.length_drop, Nat.le_refl]
      rw [whole, wholeText, opening_first?_declaringIndex]
  | cons next others =>
      have before := laterInside next List.mem_cons_self
      rw [limitOf, limitOf, declaringIndex, List.take_append_of_le_length]
      rw [List.length_drop]
      omega

/-- The body of a header stands where it stood before. -/
theorem span?_declaringIndex
    (tableNotEnd : table.text ≠ ascii "end")
    (columnNotEnd : column.text ≠ ascii "end")
    {text : Text}
    {found : Occurrence Text}
    (inside : found.stop ≤ text.length)
    {later : List (Occurrence Text)}
    (laterInside : ∀ next ∈ later, next.start ≤ text.length) :
    span? (declaringIndex text table.text column.text) found
        (limitOf (declaringIndex text table.text column.text) later) =
      span? text found (limitOf text later) := by
  unfold span?
  rw [opening_first?_limitOf table column inside laterInside]
  cases opens : opening.first? ((text.drop found.stop).take (limitOf text later - found.stop)) with
  | none => rfl
  | some opened =>
      have bounded := (bounds_of_first?_eq_some advances_opening opens).2
      rw [List.length_take, List.length_drop] at bounded
      have startInside : found.stop + opened.stop ≤ text.length := by omega
      have closes := end?_declaringIndex tableNotEnd columnNotEnd startInside
      simp only [Option.bind_eq_bind, Option.bind_some, closes]

theorem spansOf_declaringIndex
    (tableNotEnd : table.text ≠ ascii "end")
    (columnNotEnd : column.text ≠ ascii "end")
    {text : Text}
    {headers : List (Occurrence Text)}
    (inside : ∀ found ∈ headers, found.start ≤ text.length ∧ found.stop ≤ text.length) :
    spansOf (declaringIndex text table.text column.text) headers = spansOf text headers := by
  induction headers with
  | nil => rfl
  | cons found later inductionHypothesis =>
      have laterInside : ∀ next ∈ later, next.start ≤ text.length ∧ next.stop ≤ text.length :=
        fun next member => inside next (List.mem_cons_of_mem found member)
      rw [spansOf, spansOf, inductionHypothesis laterInside,
        span?_declaringIndex tableNotEnd columnNotEnd (inside found List.mem_cons_self).2
          fun next member => (laterInside next member).1]

/-- The line changes no table block. -/
theorem ofText_declaringIndex
    (tableNotEnd : table.text ≠ ascii "end")
    (columnNotEnd : column.text ≠ ascii "end")
    (text : Text) :
    ofText (declaringIndex text table.text column.text) = ofText text := by
  have inside : ∀ found ∈ header.occurrences text,
      found.start ≤ text.length ∧ found.stop ≤ text.length := by
    intro found present
    have bounds := bounds_of_mem_occurrencesFrom advances_header present
    omega
  have sameSpans : spans (declaringIndex text table.text column.text) = spans text := by
    rw [spans, header_occurrences_declaringIndex,
      spansOf_declaringIndex tableNotEnd columnNotEnd inside, spans]
  rw [ofText_eq_map_spans, sameSpans, ofText_eq_map_spans]
  apply List.map_congr_left
  intro span present
  obtain ⟨forward, inText⟩ := bounds_of_mem_spans present
  rw [Span.block, Span.block, declaringIndex, List.drop_append_of_le_length (by omega),
    List.take_append_of_le_length]
  rw [List.length_drop]
  omega

end Line

end TableBlock

/-- The line declares one more index, behind the others. -/
theorem IndexDeclaration.ofText_declaringIndex
    (table column : Word)
    (text : Text) :
    ofText (declaringIndex text table.text column.text) =
      ofText text ++ [⟨table.text, column.text⟩] := by
  rw [ofText, declaringIndex,
    linewise_recogniser.captures_newLine (TableBlock.beginsWithWord_indexLine _ _), indexLine_eq,
    linewise_recogniser.captures_newLine beginsWithWord_nil, Dump.captures_index_standaloneLine,
    captures_nil, List.append_nil, ofText]
  rfl

namespace Schema

/-- The tables of a schema are called by names. -/
theorem isName_of_mem_tables
    {text : Text}
    {table : Table}
    (present : table ∈ (ofText text).tables) :
    IsName table.name := by
  obtain ⟨block, blockPresent, _, rfl⟩ := exists_block_of_mem_tables present
  exact TableBlock.isName_of_mem_ofText blockPresent

/-- The line gives its table one more index. -/
theorem ofText_declaringIndex
    (table column : Word)
    (tableNotEnd : table.text ≠ ascii "end")
    (columnNotEnd : column.text ≠ ascii "end")
    (text : Text) :
    ofText (declaringIndex text table.text column.text) =
      (ofText text).addIndex table.text column.text := by
  rw [ofText, TableBlock.ofText_declaringIndex tableNotEnd columnNotEnd,
    IndexDeclaration.ofText_declaringIndex, addIndexes, List.foldl_append]
  rfl

end Schema

namespace SchemaRule

/-- Findings on those candidates of each table that no index begins with. -/
def withoutIndex
    (candidates : Table → List Text)
    (report : Table → Text → Finding)
    (schema : Schema) : List Finding :=
  schema.tables.flatMap fun table =>
    ((candidates table).filter fun column => !table.hasIndexOn column).map (report table)

/-- One more index settles the findings on its column, and no others. -/
theorem withoutIndex_addIndex
    {candidates : Table → List Text}
    {report : Table → Text → Finding}
    (sameCandidates : ∀ table indexes, candidates { table with indexes } = candidates table)
    (sameReport : ∀ table indexes, report { table with indexes } = report table)
    (located : ∀ table column, (report table column).location = .schema table.name column)
    (schema : Schema)
    (name column : Text) :
    withoutIndex candidates report (schema.addIndex name column) =
      (withoutIndex candidates report schema).filter fun finding =>
        finding.location ≠ .schema name column := by
  rw [withoutIndex, withoutIndex, Schema.addIndex, List.flatMap_map, List.filter_flatMap]
  apply List.flatMap_congr
  intro table _
  rw [List.filter_map, List.filter_filter]
  by_cases same : table.name = name
  · rw [if_pos same, sameCandidates, sameReport]
    congr 1
    apply List.filter_congr
    intro candidate _
    simp [Table.hasIndexOn, located, same, Bool.and_comm]
  · rw [if_neg same]
    congr 1
    apply List.filter_congr
    intro candidate _
    simp [located, same]

theorem missingForeignKeyIndex_eq
    (schema : Schema) :
    missingForeignKeyIndex.examine schema =
      withoutIndex Table.foreignKeys missingKeyIndex schema := rfl

/-- The candidates of this rule are the columns that look boolean. -/
theorem booleanIndexOpportunity_eq
    (schema : Schema) :
    booleanIndexOpportunity.examine schema =
      withoutIndex (fun table => table.columns.filter looksBoolean) partialIndex schema := by
  simp only [booleanIndexOpportunity, withoutIndex, List.filter_filter, Bool.and_comm]

/-- A line below a dump that declares an index on a column of a known table adds
that index and changes nothing else in the schema.  The rules report what they
reported before, without the findings on that column. -/
theorem examine_declaringIndex
    (text : Text)
    {table : Table}
    {column : Text}
    (known : table ∈ (Schema.ofText text).tables)
    (isColumn : IsName column)
    (tableNotEnd : table.name ≠ ascii "end")
    (columnNotEnd : column ≠ ascii "end") :
    (Schema.ofText (declaringIndex text table.name column)).tables =
        ((Schema.ofText text).tables.map fun other =>
          if other.name = table.name then { other with indexes := other.indexes ++ [column] }
          else other) ∧
      missingForeignKeyIndex.examine (Schema.ofText (declaringIndex text table.name column)) =
        ((missingForeignKeyIndex.examine (Schema.ofText text)).filter fun finding =>
          finding.location ≠ .schema table.name column) ∧
      booleanIndexOpportunity.examine (Schema.ofText (declaringIndex text table.name column)) =
        ((booleanIndexOpportunity.examine (Schema.ofText text)).filter fun finding =>
          finding.location ≠ .schema table.name column) := by
  have added : Schema.ofText (declaringIndex text table.name column) =
      (Schema.ofText text).addIndex table.name column :=
    Schema.ofText_declaringIndex ⟨table.name, Schema.isName_of_mem_tables known⟩
      ⟨column, isColumn⟩ tableNotEnd columnNotEnd text
  rw [added]
  refine ⟨rfl, ?_, ?_⟩
  · simp only [missingForeignKeyIndex_eq]
    exact withoutIndex_addIndex (fun _ _ => rfl) (fun _ _ => rfl) (fun _ _ => rfl) _ _ _
  · simp only [booleanIndexOpportunity_eq]
    exact withoutIndex_addIndex (fun _ _ => rfl) (fun _ _ => rfl) (fun _ _ => rfl) _ _ _

/-- A dump that ends inside a quotation, with two columns that lack an index. -/
def unindexedDump : Text :=
  ascii "create_table \"posts\" do |t|\n  t.integer \"user_id\"\n  t.boolean \"is_live\"\nend\n\"po"

/-- The table of the dump. -/
def unindexedPosts : Table where
  name := ascii "posts"
  columns := [ascii "user_id", ascii "is_live"]
  foreignKeys := [ascii "user_id"]
  indexes := []

theorem unindexedDump_settled :
    unindexedPosts ∈ (Schema.ofText unindexedDump).tables ∧
      missingForeignKeyIndex.examine (Schema.ofText unindexedDump) =
        [missingKeyIndex unindexedPosts (ascii "user_id")] ∧
      missingForeignKeyIndex.examine
        (Schema.ofText (declaringIndex unindexedDump unindexedPosts.name (ascii "user_id"))) = [] ∧
      booleanIndexOpportunity.examine
        (Schema.ofText (declaringIndex unindexedDump unindexedPosts.name (ascii "user_id"))) =
          [partialIndex unindexedPosts (ascii "is_live")] := by
  have known : unindexedPosts ∈ (Schema.ofText unindexedDump).tables := by decide +kernel
  obtain ⟨_, keys, booleans⟩ := examine_declaringIndex unindexedDump known
    (show IsName (ascii "user_id") by decide) (by decide) (by decide)
  refine ⟨known, by decide +kernel, ?_, ?_⟩
  · rw [keys]
    decide +kernel
  · rw [booleans]
    decide +kernel

end SchemaRule
end QueryAdvisor

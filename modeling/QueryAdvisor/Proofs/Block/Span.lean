import QueryAdvisor.Proofs.Block.Scanner
import QueryAdvisor.Proofs.Schema.Grammar

/-!
# Where the bodies of table blocks stand

A block has to open before the next header, but the keyword that closes it is
looked for to the end of the text.  So a body stops before the next header
exactly when a keyword closes it there.  If every body does, then bodies do not
overlap, and each declaration belongs to one table.
-/

namespace QueryAdvisor
namespace TableBlock

open Recogniser

/-- The offsets between which the body of a block stands. -/
structure Span where
  name : Text
  start : Nat
  stop : Nat
deriving DecidableEq, Repr

/-- The block whose body stands at a span. -/
def Span.block
    (text : Text)
    (span : Span) : TableBlock where
  name := span.name
  body := (text.drop span.start).take (span.stop - span.start)

/-- The span of the block of a header, if it opens before `limit` and is closed. -/
def span?
    (text : Text)
    (header : Occurrence Text)
    (limit : Nat) : Option Span := do
  let opened ← opening.first? ((text.drop header.stop).take (limit - header.stop))
  let start := header.stop + opened.stop
  let stop ← end? text start
  return { name := header.value, start, stop }

/-- Where a header has to open its block: before the first of the later headers. -/
def limitOf
    (text : Text) : List (Occurrence Text) → Nat
  | [] => text.length
  | next :: _ => next.start

/-- The spans of the blocks of successive headers. -/
def spansOf (text : Text) : List (Occurrence Text) → List Span
  | [] => []
  | header :: later => (span? text header (limitOf text later)).toList ++ spansOf text later

/-- The spans of all blocks, in the order of their headers. -/
def spans (text : Text) : List Span :=
  spansOf text (header.occurrences text)

/-- The next header, if there is one, stands where the search for it began or
behind. -/
theorem le_limitOf
    {text rest : Text}
    {offset : Nat}
    (inside : offset ≤ text.length) :
    offset ≤ limitOf text (occurrencesFrom header offset 0 rest) := by
  cases later : occurrencesFrom header offset 0 rest with
  | nil => exact inside
  | cons next others =>
      have present : next ∈ occurrencesFrom header offset 0 rest := by simp [later]
      exact (bounds_of_mem_occurrencesFrom advances_header present).1

/-- The blocks of headers, without a case for the last one. -/
theorem ofHeaders_cons
    (text : Text)
    (header : Occurrence Text)
    (later : List (Occurrence Text)) :
    ofHeaders text (header :: later) =
      (ofHeader? text header (limitOf text later)).toList ++ ofHeaders text later := by
  cases later with
  | nil => simp [ofHeaders, limitOf]
  | cons next rest => rfl

theorem ofHeader?_eq_map_span?
    (text : Text)
    (header : Occurrence Text)
    (limit : Nat) :
    ofHeader? text header limit = (span? text header limit).map (Span.block text) := by
  unfold ofHeader? span?
  cases opening.first? ((text.drop header.stop).take (limit - header.stop)) with
  | none => rfl
  | some opened =>
      simp only [Option.bind_eq_bind, Option.bind_some]
      cases TableBlock.end? text (header.stop + opened.stop) <;> rfl

/-- The blocks of a text are those at its spans. -/
theorem ofText_eq_map_spans
    (text : Text) :
    ofText text = (spans text).map (Span.block text) := by
  unfold ofText spans
  induction header.occurrences text with
  | nil => rfl
  | cons header later inductionHypothesis =>
      rw [ofHeaders_cons, spansOf, List.map_append, ← inductionHypothesis,
        ofHeader?_eq_map_span?]
      cases span? text header (limitOf text later) <;> rfl

/-- A body begins behind its header and before the limit, and ends where the
closing keyword was found. -/
theorem span?_eq_some
    {text : Text}
    {header : Occurrence Text}
    {limit : Nat}
    {span : Span}
    (found : span? text header limit = some span) :
    header.stop ≤ span.start ∧ span.start ≤ limit ∧
      TableBlock.end? text span.start = some span.stop := by
  simp only [span?, Option.bind_eq_bind, Option.bind_eq_some_iff, Option.pure_def,
    Option.some.injEq] at found
  obtain ⟨opened, opens, stop, closes, rfl⟩ := found
  obtain ⟨nonempty, inside⟩ := bounds_of_first?_eq_some advances_opening opens
  rw [List.length_take] at inside
  exact ⟨by simp, by simp only; omega, closes⟩

theorem name_of_span?_eq_some
    {text : Text}
    {header : Occurrence Text}
    {limit : Nat}
    {span : Span}
    (found : span? text header limit = some span) :
    span.name = header.value := by
  simp only [span?, Option.bind_eq_bind, Option.bind_eq_some_iff, Option.pure_def,
    Option.some.injEq] at found
  obtain ⟨_, _, _, _, rfl⟩ := found
  rfl

/-- Every span comes from a header and the headers behind it. -/
theorem exists_header_of_mem_spansOf
    {text : Text}
    {headers : List (Occurrence Text)}
    {span : Span}
    (present : span ∈ spansOf text headers) :
    ∃ header later,
      header :: later <:+ headers ∧ span? text header (limitOf text later) = some span := by
  induction headers with
  | nil => simp [spansOf] at present
  | cons header later inductionHypothesis =>
      rw [spansOf, List.mem_append, Option.mem_toList] at present
      rcases present with here | behind
      · exact ⟨header, later, List.suffix_rfl, here⟩
      · obtain ⟨found, rest, isEnding, spanned⟩ := inductionHypothesis behind
        exact ⟨found, rest, isEnding.trans (List.suffix_cons header later), spanned⟩

/-- The end of every body is the first place where a keyword closes it. -/
theorem end?_of_mem_spans
    {text : Text}
    {span : Span}
    (present : span ∈ spans text) :
    TableBlock.end? text span.start = some span.stop := by
  obtain ⟨header, later, -, spanned⟩ := exists_header_of_mem_spansOf present
  exact (span?_eq_some spanned).2.2

/-- The keyword that closes a body stands inside the text, behind its beginning. -/
theorem bounds_of_mem_spans
    {text : Text}
    {span : Span}
    (present : span ∈ spans text) :
    span.start ≤ span.stop ∧ span.stop < text.length := by
  obtain ⟨⟨forward, -, closes⟩, -⟩ := end?_eq_some_iff.mp (end?_of_mem_spans present)
  refine ⟨forward, Nat.lt_of_not_le fun behind => ?_⟩
  rw [List.drop_eq_nil_of_le behind] at closes
  simp [closesBlock, ascii] at closes

/-- Tables are called by names. -/
theorem isName_of_mem_ofText
    {text : Text}
    {block : TableBlock}
    (present : block ∈ ofText text) :
    IsName block.name := by
  rw [ofText_eq_map_spans, List.mem_map] at present
  obtain ⟨span, spanPresent, rfl⟩ := present
  obtain ⟨found, later, isEnding, spanned⟩ := exists_header_of_mem_spansOf spanPresent
  have headerPresent : found ∈ header.occurrences text := isEnding.subset List.mem_cons_self
  obtain ⟨_, _, _, _, _, read, _, _⟩ :=
    exists_cut_of_mem_occurrencesFrom advances_header headerPresent
  obtain ⟨_, _, isName, _⟩ := header_eq_some read
  rw [Span.block, name_of_span?_eq_some spanned]
  exact isName

/-- Behind the beginning of an earlier body stands the header of a later one. -/
theorem pairwise_spansOf
    {text : Text}
    {headers : List (Occurrence Text)}
    (ordered : headers.Pairwise fun earlier later => earlier.start ≤ later.start)
    (forward : ∀ header ∈ headers, header.start ≤ header.stop) :
    (spansOf text headers).Pairwise fun earlier later =>
      ∃ header ∈ headers, earlier.start ≤ header.start ∧ header.start ≤ later.start := by
  induction headers with
  | nil => exact .nil
  | cons header rest inductionHypothesis =>
      have restOrdered := (List.pairwise_cons.mp ordered).2
      have restForward : ∀ later ∈ rest, later.start ≤ later.stop := by
        intro later member
        exact forward later (List.mem_cons_of_mem header member)
      have restPairwise : (spansOf text rest).Pairwise fun earlier later =>
          ∃ found ∈ header :: rest,
            earlier.start ≤ found.start ∧ found.start ≤ later.start := by
        refine (inductionHypothesis restOrdered restForward).imp ?_
        rintro earlier later ⟨found, member, bounds⟩
        exact ⟨found, List.mem_cons_of_mem header member, bounds⟩
      rw [spansOf]
      cases here : span? text header (limitOf text rest) with
      | none => exact restPairwise
      | some span =>
          refine List.pairwise_cons.mpr ⟨?_, restPairwise⟩
          intro later present
          obtain ⟨found, remaining, isEnding, spanned⟩ := exists_header_of_mem_spansOf present
          have member : found ∈ rest := isEnding.subset List.mem_cons_self
          refine ⟨found, List.mem_cons_of_mem header member, ?_, ?_⟩
          · refine Nat.le_trans (span?_eq_some here).2.1 ?_
            cases rest with
            | nil => contradiction
            | cons next others =>
                rcases List.mem_cons.mp member with rfl | behind
                · exact Nat.le_refl _
                · exact (List.pairwise_cons.mp restOrdered).1 found behind
          · exact Nat.le_trans (restForward found member) (span?_eq_some spanned).1

/-- A header begins with the letter `c`. -/
theorem head?_drop_of_mem_headers
    {text : Text}
    {found : Occurrence Text}
    (present : found ∈ header.occurrences text) :
    (text.drop found.start).head? = some 99 := by
  obtain ⟨before, taken, after, cut, -, read, start, -⟩ :=
    exists_cut_of_mem_occurrencesFrom advances_header present
  obtain ⟨gap, -, -, spelled⟩ := header_eq_some read
  rw [start, Nat.zero_add, cut, List.drop_left, spelled]
  rfl

/-- No header begins inside a closing keyword. -/
theorem closing_before_header
    {text : Text}
    {start offset : Nat}
    {next : Occurrence Text}
    (closes : ClosesAt text start offset)
    (present : next ∈ header.occurrences text)
    (before : offset ≤ next.start) :
    offset + 3 ≤ next.start := by
  have letter := head?_drop_of_mem_headers present
  have keyword : ascii "end" <+: text.drop offset := by
    have parts := closes.2.2
    simp only [closesBlock, Bool.and_eq_true] at parts
    exact List.isPrefixOf_iff_prefix.mp parts.1.2
  obtain ⟨rest, spelled⟩ := keyword
  rw [show ascii "end" = [101, 110, 100] from rfl] at spelled
  obtain ⟨distance, apart⟩ := Nat.exists_eq_add_of_le before
  rw [apart, ← List.drop_drop, ← spelled] at letter
  have near : distance = 0 ∨ distance = 1 ∨ distance = 2 ∨ 3 ≤ distance := by omega
  rcases near with rfl | rfl | rfl | behind
  · simp at letter
  · simp at letter
  · simp at letter
  · omega

/-- The body of a span ends at or before the beginning of the next header. -/
def EndsBeforeNextHeader
    (text : Text)
    (span : Span) : Prop :=
  ∀ next ∈ header.occurrences text, span.start ≤ next.start → span.stop ≤ next.start

instance
    (text : Text)
    (span : Span) :
    Decidable (EndsBeforeNextHeader text span) :=
  inferInstanceAs (Decidable (∀ next ∈ header.occurrences text, _ → _))

/-- Before the next header stands a keyword that closes the body of a span. -/
def ClosedBeforeNextHeader
    (text : Text)
    (span : Span) : Prop :=
  ∀ next ∈ header.occurrences text, span.start ≤ next.start →
    ∃ offset, offset + 3 ≤ next.start ∧ ClosesAt text span.start offset

/-- A body that ends before the next header is closed there, and the other way
round. -/
theorem endsBeforeNextHeader_iff
    {text : Text}
    {span : Span}
    (present : span ∈ spans text) :
    EndsBeforeNextHeader text span ↔ ClosedBeforeNextHeader text span := by
  obtain ⟨closes, least⟩ := end?_eq_some_iff.mp (end?_of_mem_spans present)
  constructor
  · intro ends next member behind
    exact ⟨span.stop, closing_before_header closes member (ends next member behind), closes⟩
  · intro closed next member behind
    obtain ⟨offset, before, closesEarlier⟩ := closed next member behind
    have notLater : ¬offset < span.stop := fun earlier => least offset earlier closesEarlier
    omega

/-- The offsets at which the columns and the inline indexes of a block are
declared. -/
def Span.declarationOffsets
    (text : Text)
    (span : Span) : List Nat :=
  (ColumnDeclaration.recogniser.occurrences (span.block text).body).map
      (fun column => span.start + column.start) ++
    (InlineIndex.recogniser.occurrences (span.block text).body).map
      (fun index => span.start + index.start)

/-- What a block declares stands inside its body. -/
theorem bounds_of_mem_declarationOffsets
    {text : Text}
    {span : Span}
    {offset : Nat}
    (present : offset ∈ span.declarationOffsets text) :
    span.start ≤ offset ∧ offset < span.stop := by
  have inside {α : Type} {recogniser : Recogniser α} (advances : Advances recogniser)
      {found : Occurrence α}
      (member : found ∈ recogniser.occurrences (span.block text).body) :
      span.start + found.start < span.stop := by
    obtain ⟨_, nonempty, within⟩ := bounds_of_mem_occurrencesFrom advances member
    rw [Span.block, List.length_take] at within
    omega
  rw [Span.declarationOffsets, List.mem_append, List.mem_map, List.mem_map] at present
  rcases present with ⟨column, member, rfl⟩ | ⟨index, member, rfl⟩
  · exact ⟨Nat.le_add_right _ _, inside ColumnDeclaration.advances_recogniser member⟩
  · exact ⟨Nat.le_add_right _ _, inside InlineIndex.advances_recogniser member⟩

/-- Of two blocks, the header of the later one stands behind the beginning of
the earlier body. -/
theorem pairwise_spans
    (text : Text) :
    (spans text).Pairwise fun earlier later =>
      ∃ next ∈ header.occurrences text,
        earlier.start ≤ next.start ∧ next.start ≤ later.start := by
  have forward : ∀ found ∈ header.occurrences text, found.start ≤ found.stop := by
    intro found present
    exact Nat.le_of_lt (bounds_of_mem_occurrencesFrom advances_header present).2.1
  apply pairwise_spansOf ?_ forward
  refine (pairwise_occurrencesFrom advances_header 0 text).imp_of_mem ?_
  intro earlier later present _ apart
  exact Nat.le_trans (forward earlier present) apart

/-- A body ends at or before the next header exactly when a keyword closes it
before that header.  Such a body has no byte and no declaration in common with
a later one; in general two bodies are apart exactly when a keyword closes the
earlier one before the later one begins. -/
theorem body_ends_before_next_header_iff
    (text : Text) :
    ofText text = (spans text).map (Span.block text) ∧
      (∀ span ∈ spans text,
        EndsBeforeNextHeader text span ↔ ClosedBeforeNextHeader text span) ∧
      (spans text).Pairwise fun earlier later =>
        (earlier.stop ≤ later.start ↔
          ∃ offset, offset ≤ later.start ∧ ClosesAt text earlier.start offset) ∧
        (ClosedBeforeNextHeader text earlier →
          earlier.stop ≤ later.start ∧
            ∀ offset ∈ earlier.declarationOffsets text,
              offset ∉ later.declarationOffsets text) := by
  refine ⟨ofText_eq_map_spans text, fun span => endsBeforeNextHeader_iff, ?_⟩
  refine (pairwise_spans text).imp_of_mem ?_
  rintro earlier later earlierPresent _ ⟨next, member, behind, ahead⟩
  obtain ⟨closes, least⟩ := end?_eq_some_iff.mp (end?_of_mem_spans earlierPresent)
  refine ⟨⟨fun apart => ⟨earlier.stop, apart, closes⟩, ?_⟩, ?_⟩
  · rintro ⟨offset, before, closesEarlier⟩
    have notLater : ¬offset < earlier.stop := fun sooner => least offset sooner closesEarlier
    omega
  · intro closed
    have ends := (endsBeforeNextHeader_iff earlierPresent).mpr closed next member behind
    refine ⟨Nat.le_trans ends ahead, ?_⟩
    intro offset inEarlier inLater
    have upper := (bounds_of_mem_declarationOffsets inEarlier).2
    have lower := (bounds_of_mem_declarationOffsets inLater).1
    omega

/-- Two blocks, each closed before the next header. -/
def closedDump : Text :=
  ascii "create_table \"a\" do |t|\n  t.string \"x\"\nend\ncreate_table \"b\" do |t|\nend\n"

theorem closedDump_bodies_apart :
    spans closedDump = [⟨ascii "a", 23, 39⟩, ⟨ascii "b", 66, 67⟩] ∧
      ClosedBeforeNextHeader closedDump ⟨ascii "a", 23, 39⟩ ∧
      (39 ≤ 66 ↔ ∃ offset, offset ≤ 66 ∧ ClosesAt closedDump 23 offset) ∧
      ∀ offset ∈ Span.declarationOffsets closedDump ⟨ascii "a", 23, 39⟩,
        offset ∉ Span.declarationOffsets closedDump ⟨ascii "b", 66, 67⟩ := by
  have spanned : spans closedDump = [⟨ascii "a", 23, 39⟩, ⟨ascii "b", 66, 67⟩] := by
    decide +kernel
  obtain ⟨_, endsIff, apart⟩ := body_ends_before_next_header_iff closedDump
  rw [spanned] at endsIff apart
  have closed : ClosedBeforeNextHeader closedDump ⟨ascii "a", 23, 39⟩ :=
    (endsIff _ (by simp)).mp (by decide +kernel)
  obtain ⟨apartIff, separate⟩ := (List.pairwise_cons.mp apart).1 _ (List.mem_singleton_self _)
  exact ⟨spanned, closed, apartIff, (separate closed).2⟩

/-- The first block of this dump has no closing keyword of its own. -/
def nestedDump : Text :=
  ascii "create_table \"a\" do |t|\ncreate_table \"b\" do |t|\n  t.string \"x\"\nend\n"

/-- A block that is not closed before the next header takes in the next block,
and a column is then declared in two tables. -/
theorem nestedDump_body_overruns :
    ¬(∀ span ∈ spans nestedDump, EndsBeforeNextHeader nestedDump span) ∧
      ¬((spans nestedDump).Pairwise fun earlier later => earlier.stop ≤ later.start) ∧
      (Schema.ofText nestedDump).tables.map (fun table => (table.name, table.columns)) =
        [(ascii "a", [ascii "x"]), (ascii "b", [ascii "x"])] := by
  decide +kernel

end TableBlock
end QueryAdvisor

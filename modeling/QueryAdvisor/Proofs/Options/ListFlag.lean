import Mathlib.Data.List.Basic
import QueryAdvisor.Proofs.Options.Grammar

/-!
# Flags that take lists

The values of `--rules` and `--format` are lists with commas between their entries.
Such a flag may be given several times, and its lists are read as if they were one.
Empty pieces are passed over, an entry that is there already is not added again, and
so the entries stand in the order in which they are mentioned first.
-/

namespace QueryAdvisor
namespace Options

/-! ### Two lists as one -/

/-- The flags whose values are lists. -/
def listFlags : List Flag :=
  [.rules, .format]

theorem listed_append_comma (first second : Text) :
    listed (first ++ Byte.comma :: second) = listed first ++ listed second := by
  rw [listed, List.splitOn_append_cons_self, List.map_append, List.filter_append]
  rfl

/-- One list adds what two lists add one after the other. -/
theorem Flag.apply_append_comma
    {flag : Flag}
    (takesList : flag ∈ listFlags)
    (first second : Text)
    (options : Options) :
    flag.apply (first ++ Byte.comma :: second) options =
      flag.apply first options >>= flag.apply second := by
  simp only [listFlags, List.mem_cons, List.not_mem_nil, or_false] at takesList
  rcases takesList with rfl | rfl
  · have added : addValues options.rules (first ++ Byte.comma :: second) =
        addValues (addValues options.rules first) second := by
      rw [addValues, listed_append_comma, List.foldl_append]
      rfl
    simp only [apply, added]
    rfl
  · have added : addFormats options.formats (first ++ Byte.comma :: second) =
        addFormats options.formats first >>= fun formats => addFormats formats second := by
      rw [addFormats, listed_append_comma, List.map_append, List.foldlM_append]
      rfl
    simp only [apply, added, bind_assoc, pure_bind]

/-- Arguments behind which a flag is read as one, if it is read at all: nothing but
items, or items and something at which the reading ends. -/
def IsComplete (arguments : List Text) : Prop :=
  ∃ (items : List Item) (rest : List Text), arguments = items.flatMap Item.words ++ rest ∧
    (rest = [] ∨ IsHelp rest ∨ ∃ argument others, rest = argument :: others ∧ IsUnknown argument)

/-- All other arguments end with a flag that waits for its value. -/
theorem isComplete_or_exists_flag (arguments : List Text) :
    IsComplete arguments ∨
      ∃ (items : List Item) (flag : Flag),
        arguments = items.flatMap Item.words ++ [flag.word] := by
  obtain ⟨items, rest, cut, finished | isHelp | unknown | ⟨flag, rfl⟩⟩ :=
    exists_items_append arguments
  · exact .inl ⟨items, rest, cut, .inl finished⟩
  · exact .inl ⟨items, rest, cut, .inr (.inl isHelp)⟩
  · exact .inl ⟨items, rest, cut, .inr (.inr unknown)⟩
  · exact .inr ⟨items, flag, cut⟩

theorem readArguments_two_lists
    {flag : Flag}
    (takesList : flag ∈ listFlags)
    (first second : Text)
    (after : List Text)
    (options : Options) :
    readArguments options (flag.word :: first :: flag.word :: second :: after) =
      readArguments options (flag.word :: (first ++ Byte.comma :: second) :: after) := by
  rw [readArguments_flag, readArguments_flag, Flag.apply_append_comma takesList, bind_assoc]
  congr 1
  funext next
  exact readArguments_flag next flag second after

/-- Wherever a flag is read as one, two lists behind it are read as one list. -/
theorem ofArguments_two_lists
    {flag : Flag}
    (takesList : flag ∈ listFlags)
    {before : List Text}
    (complete : IsComplete before)
    (first second : Text)
    (after : List Text) :
    ofArguments (before ++ [flag.word, first, flag.word, second] ++ after) =
      ofArguments (before ++ [flag.word, first ++ Byte.comma :: second] ++ after) := by
  obtain ⟨items, rest, rfl, ending⟩ := complete
  simp only [ofArguments, List.append_assoc, readArguments_items]
  congr 1
  funext options
  rcases ending with rfl | ⟨call, asks, others, rfl⟩ | ⟨argument, others, rfl, unknown⟩
  · exact readArguments_two_lists takesList first second after options
  · have helped (behind : List Text) :
        readArguments options (call :: behind) = .ok { options with showHelp := true } :=
      readArguments_help options ⟨call, asks, behind, rfl⟩
    simp only [List.cons_append, helped]
  · simp only [List.cons_append, readArguments_unknown options unknown]

/-! ### The order of entries -/

/-- A list holds what is mentioned, each entry once and in the order in which they are
mentioned first. -/
structure ListsFirst (entries mentions : List Text) : Prop where
  mem_iff : ∀ entry, entry ∈ entries ↔ entry ∈ mentions
  ordered : entries.Pairwise fun earlier later => mentions.idxOf earlier < mentions.idxOf later

namespace ListsFirst

variable {entries mentions : List Text}

theorem nodup (lists : ListsFirst entries mentions) : entries.Nodup :=
  lists.ordered.imp fun before same => by simp [same] at before

/-- One more entry is mentioned. -/
theorem concat
    (lists : ListsFirst entries mentions)
    (entry : Text) :
    ListsFirst (addNew entries entry) (mentions ++ [entry]) := by
  have unmoved {other : Text} (present : other ∈ entries) :
      (mentions ++ [entry]).idxOf other = mentions.idxOf other :=
    List.idxOf_append_of_mem ((lists.mem_iff other).mp present)
  have stillOrdered : entries.Pairwise fun earlier later =>
      (mentions ++ [entry]).idxOf earlier < (mentions ++ [entry]).idxOf later := by
    refine lists.ordered.imp_of_mem ?_
    intro earlier later earlierPresent laterPresent before
    rwa [unmoved earlierPresent, unmoved laterPresent]
  rw [addNew]
  split
  · rename_i known
    have present : entry ∈ entries := by simpa using known
    refine ⟨?_, stillOrdered⟩
    intro other
    rw [List.mem_append, List.mem_singleton, ← lists.mem_iff]
    refine ⟨.inl, ?_⟩
    rintro (there | rfl)
    · exact there
    · exact present
  · rename_i unknown
    have absent : entry ∉ entries := by simpa using unknown
    have notMentioned : entry ∉ mentions := mt (lists.mem_iff entry).mpr absent
    refine ⟨?_, List.pairwise_append.mpr ⟨stillOrdered, List.pairwise_singleton _ _, ?_⟩⟩
    · intro other
      rw [List.mem_append, List.mem_append, lists.mem_iff]
    · intro earlier present last isLast
      obtain rfl := List.mem_singleton.mp isLast
      rw [unmoved present, List.idxOf_append_of_notMem notMentioned, List.idxOf_cons_self]
      exact List.idxOf_lt_length_of_mem ((lists.mem_iff earlier).mp present)

/-- Several entries are mentioned. -/
theorem foldl_addNew
    (lists : ListsFirst entries mentions)
    (more : List Text) :
    ListsFirst (more.foldl addNew entries) (mentions ++ more) := by
  induction more generalizing entries mentions with
  | nil => simpa using lists
  | cons entry rest inductionHypothesis =>
      have next := inductionHypothesis (lists.concat entry)
      rwa [List.append_assoc] at next

end ListsFirst

/-! ### What the items mention -/

/-- The entries of a list: the pieces between commas in the form in which they are
taken, without the empty ones. -/
def entriesOf
    (form : Text → Text)
    (value : Text) : List Text :=
  ((value.splitOn Byte.comma).map form).filter fun entry => entry ≠ []

/-- The entries that a flag mentions in all its lists, as often as it does. -/
def mentions
    (flag : Flag)
    (form : Text → Text)
    (items : List Item) : List Text :=
  (items.filterMap (Item.value? flag)).flatMap (entriesOf form)

/-- The rules that are mentioned.  Spaces around them do not count. -/
def ruleMentions (items : List Item) : List Text :=
  mentions .rules Text.trim items

/-- The formats that are mentioned.  Neither spaces around them nor capitals count. -/
def formatMentions (items : List Item) : List Text :=
  mentions .format (fun piece => Text.toLower (Text.trim piece)) items

theorem mentions_concat
    (flag : Flag)
    (form : Text → Text)
    (items : List Item)
    (item : Item) :
    mentions flag form (items ++ [item]) =
      mentions flag form items ++ mentions flag form [item] := by
  rw [mentions, List.filterMap_append, List.flatMap_append]
  rfl

theorem mentions_valued
    (flag : Flag)
    (form : Text → Text)
    (value : Text) :
    mentions flag form [.valued flag value] = entriesOf form value := by
  simp [mentions, Item.value?]

theorem listed_eq_entriesOf (value : Text) : listed value = entriesOf Text.trim value := by
  apply List.filter_congr
  intro entry _
  cases entry <;> simp

/-- Small letters make no entry empty. -/
theorem map_toLower_listed (value : Text) :
    (listed value).map Text.toLower =
      entriesOf (fun piece => Text.toLower (Text.trim piece)) value := by
  have split : (value.splitOn Byte.comma).map (fun piece => Text.toLower (Text.trim piece)) =
      ((value.splitOn Byte.comma).map Text.trim).map Text.toLower := by
    rw [List.map_map]
    rfl
  rw [entriesOf, split, List.filter_map, listed]
  congr 1
  apply List.filter_congr
  intro entry _
  cases entry <;> simp [Text.toLower]

/-- A format is added like a rule, provided that it is offered. -/
theorem addFormat_eq_ok_iff
    {formats next : List Text}
    {format : Text} :
    addFormat formats format = .ok next ↔
      format ∈ offeredFormats ∧ addNew formats format = next := by
  rw [addFormat]
  split <;> simp_all

theorem addFormats_eq_ok
    {formats next : List Text}
    {value : Text}
    (accepted : addFormats formats value = .ok next) :
    next = (formatMentions [.valued .format value]).foldl addNew formats ∧
      ∀ format ∈ formatMentions [.valued .format value], format ∈ offeredFormats := by
  rw [formatMentions, mentions_valued, ← map_toLower_listed]
  refine holds_of_foldlM_eq_ok (fun more next => next = more.foldl addNew formats ∧
    ∀ format ∈ more, format ∈ offeredFormats) ?_ ?_ accepted
  · exact ⟨rfl, by simp⟩
  · rintro more format state next ⟨rfl, offered⟩ added
    obtain ⟨isOffered, rfl⟩ := addFormat_eq_ok_iff.mp added
    refine ⟨(List.foldl_concat ..).symm, ?_⟩
    intro other present
    rcases List.mem_append.mp present with earlier | isLast
    · exact offered other earlier
    · exact List.mem_singleton.mp isLast ▸ isOffered

/-- What an item does to the lists. -/
theorem Item.lists_of_apply_eq_ok
    {options next : Options}
    {item : Item}
    (applied : item.apply options = .ok next) :
    next.rules = (ruleMentions [item]).foldl addNew options.rules ∧
      next.formats = (formatMentions [item]).foldl addNew options.formats ∧
      ∀ format ∈ formatMentions [item], format ∈ offeredFormats := by
  have untouched {format : Text} (absent : format ∈ ([] : List Text)) :
      format ∈ offeredFormats := absurd absent List.not_mem_nil
  cases item with
  | alone switch =>
      obtain rfl := Except.ok.inj applied
      exact ⟨rfl, rfl, fun _ => untouched⟩
  | valued flag value =>
      cases flag with
      | rules =>
          obtain rfl := Except.ok.inj applied
          refine ⟨?_, rfl, fun _ => untouched⟩
          rw [ruleMentions, mentions_valued, ← listed_eq_entriesOf]
          rfl
      | format =>
          obtain ⟨formats, accepted, updated⟩ := exists_of_bind_eq_ok applied
          obtain rfl := Except.ok.inj updated
          exact ⟨rfl, addFormats_eq_ok accepted⟩
      | logLevel =>
          obtain ⟨level, _, updated⟩ := exists_of_bind_eq_ok applied
          obtain rfl := Except.ok.inj updated
          exact ⟨rfl, rfl, fun _ => untouched⟩
      | _ =>
          obtain rfl := Except.ok.inj applied
          exact ⟨rfl, rfl, fun _ => untouched⟩

/-- Both lists hold what the items mention, and all formats are offered. -/
structure ListsMentions
    (options : Options)
    (items : List Item) : Prop where
  rules : ListsFirst options.rules (ruleMentions items)
  formats : ListsFirst options.formats (formatMentions items)
  offered : ∀ format ∈ formatMentions items, format ∈ offeredFormats

/-- One item more. -/
theorem ListsMentions.concat
    {options next : Options}
    {items : List Item}
    {item : Item}
    (lists : options.ListsMentions items)
    (applied : item.apply options = .ok next) :
    next.ListsMentions (items ++ [item]) := by
  obtain ⟨rules, formats, offered⟩ := Item.lists_of_apply_eq_ok applied
  have moreRules : ruleMentions (items ++ [item]) = ruleMentions items ++ ruleMentions [item] :=
    mentions_concat ..
  have moreFormats : formatMentions (items ++ [item]) =
      formatMentions items ++ formatMentions [item] := mentions_concat ..
  constructor
  · rw [rules, moreRules]
    exact lists.rules.foldl_addNew _
  · rw [formats, moreFormats]
    exact lists.formats.foldl_addNew _
  · intro format present
    rw [moreFormats] at present
    rcases List.mem_append.mp present with earlier | isLast
    · exact lists.offered format earlier
    · exact offered format isLast

/-- From the start, all items together. -/
theorem listsMentions_of_foldlM_eq_ok
    {items : List Item}
    {options : Options}
    (applied : items.foldlM Item.apply {} = .ok options) :
    options.ListsMentions items := by
  refine holds_of_foldlM_eq_ok (fun items options => options.ListsMentions items) ?_ ?_ applied
  · exact ⟨⟨by simp [ruleMentions, mentions], .nil⟩, ⟨by simp [formatMentions, mentions], .nil⟩,
      by simp [formatMentions, mentions]⟩
  · intro earlier item state next lists last
    exact lists.concat last

theorem exists_isWritten_of_eq_ok
    {arguments : List Text}
    {options : Options}
    (accepted : ofArguments arguments = .ok options) :
    ∃ items tail, IsWritten arguments items tail := by
  by_contra notWritten
  obtain ⟨fault, refused, _⟩ := ofArguments_of_not_isWritten notWritten
  rw [accepted] at refused
  contradiction

/-- A call for help behind the items leaves the lists as they are. -/
theorem listsMentions_of_isWritten
    {arguments tail : List Text}
    {items : List Item}
    {options : Options}
    (isWritten : IsWritten arguments items tail)
    (accepted : ofArguments arguments = .ok options) :
    options.ListsMentions items := by
  rw [ofArguments, isWritten.words, readArguments_items] at accepted
  obtain ⟨read, applied, ended⟩ := exists_of_bind_eq_ok accepted
  have lists := listsMentions_of_foldlM_eq_ok applied
  rcases isWritten.ending with rfl | isHelp
  · obtain rfl := Except.ok.inj ended
    exact lists
  · rw [readArguments_help read isHelp] at ended
    obtain rfl := Except.ok.inj ended
    exact { lists with }

/-- A text that can stand in a list as it is: it is not empty, holds no comma and
neither begins nor ends with a space. -/
structure IsEntry (entry : Text) : Prop where
  nonempty : entry ≠ []
  noComma : Byte.comma ∉ entry
  noSpaceFirst : ∀ byte, entry.head? = some byte → Byte.isSpace byte = false
  noSpaceLast : ∀ byte, entry.getLast? = some byte → Byte.isSpace byte = false

theorem isEntry_of_mem_ruleMentions
    {items : List Item}
    {entry : Text}
    (mentioned : entry ∈ ruleMentions items) :
    IsEntry entry := by
  obtain ⟨value, _, inValue⟩ := List.mem_flatMap.mp mentioned
  obtain ⟨isPiece, nonempty⟩ := List.mem_filter.mp inValue
  obtain ⟨piece, split, rfl⟩ := List.mem_map.mp isPiece
  constructor
  · exact of_decide_eq_true nonempty
  · exact fun comma => Text.not_mem_of_mem_splitOn split (Text.trim_subset piece comma)
  · exact fun byte => Text.isSpace_of_head?_trim
  · exact fun byte => Text.isSpace_of_getLast?_trim

/-- Lists that a flag is given one after the other are read as one list with a comma
between them, with the same options or the same fault, unless the flag is itself the
value of another one.  Whenever arguments are accepted, each list holds what its flag
mentions, in the order of first appearance and nothing twice; rules are entries as they
can stand in a list, and formats are offered. -/
theorem ofArguments_joins_lists :
    (∀ flag ∈ listFlags, ∀ before after first second, IsComplete before →
      ofArguments (before ++ [flag.word, first, flag.word, second] ++ after) =
        ofArguments (before ++ [flag.word, first ++ Byte.comma :: second] ++ after)) ∧
      (∀ before, IsComplete before ∨ ∃ (items : List Item) (flag : Flag),
        before = items.flatMap Item.words ++ [flag.word]) ∧
      ∀ arguments options, ofArguments arguments = .ok options →
        options.rules.Nodup ∧ (∀ rule ∈ options.rules, IsEntry rule) ∧
          options.formats.Nodup ∧
          (∀ format ∈ options.formats, format = ascii "text" ∨ format = ascii "json") ∧
          (∃ items tail, IsWritten arguments items tail) ∧
          ∀ items tail, IsWritten arguments items tail →
            ListsFirst options.rules (ruleMentions items) ∧
              ListsFirst options.formats (formatMentions items) := by
  refine ⟨?_, isComplete_or_exists_flag, ?_⟩
  · intro flag takesList before after first second complete
    exact ofArguments_two_lists takesList complete first second after
  · intro arguments options accepted
    obtain ⟨items, tail, isWritten⟩ := exists_isWritten_of_eq_ok accepted
    have lists := listsMentions_of_isWritten isWritten accepted
    refine ⟨lists.rules.nodup, ?_, lists.formats.nodup, ?_, ⟨items, tail, isWritten⟩, ?_⟩
    · intro rule present
      exact isEntry_of_mem_ruleMentions ((lists.rules.mem_iff rule).mp present)
    · intro format present
      simpa [offeredFormats] using
        lists.offered format ((lists.formats.mem_iff format).mp present)
    · intro others ending othersWritten
      have othersListed := listsMentions_of_isWritten othersWritten accepted
      exact ⟨othersListed.rules, othersListed.formats⟩

/-- A flag in the place of a value, where it does not wait for one itself. -/
def completeItems : List Item :=
  [.alone .verbose, .valued .root (ascii "--rules")]

theorem completeItems_joined :
    IsComplete (completeItems.flatMap Item.words) ∧
      ofArguments (completeItems.flatMap Item.words ++
        [ascii "--format", ascii "JSON, pdf", ascii "--format", ascii "text"] ++
          [ascii "--bogus"]) = .error (.unknownFormat (ascii "pdf")) ∧
      ∃ options, ofArguments (completeItems.flatMap Item.words ++
          [ascii "--rules", ascii " a b, ,c", ascii "--rules", ascii "c,a b,,d\t"] ++
            [ascii "-h"]) = .ok options ∧
        options.rules = [ascii "a b", ascii "c", ascii "d"] ∧ options.rules.Nodup ∧
        ∀ rule ∈ options.rules, IsEntry rule := by
  have complete : IsComplete (completeItems.flatMap Item.words) :=
    ⟨completeItems, [], by simp, .inl rfl⟩
  obtain ⟨joins, _, lists⟩ := ofArguments_joins_lists
  refine ⟨complete, ?_, ?_⟩
  · exact (joins .format (by decide) _ _ _ _ complete).trans rfl
  · have readAsOne : ofArguments (completeItems.flatMap Item.words ++
        [ascii "--rules", ascii " a b, ,c" ++ Byte.comma :: ascii "c,a b,,d\t"] ++
          [ascii "-h"]) = .ok
            { root := some (ascii "--rules")
              level := some .info
              rules := [ascii "a b", ascii "c", ascii "d"]
              showHelp := true } := rfl
    have accepted := (joins .rules (by decide) _ _ _ _ complete).trans readAsOne
    obtain ⟨distinct, entries, _⟩ := lists _ _ accepted
    exact ⟨_, accepted, rfl, distinct, entries⟩

end Options
end QueryAdvisor

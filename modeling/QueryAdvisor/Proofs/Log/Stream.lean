import QueryAdvisor.Log
import QueryAdvisor.Proofs.Recogniser.Grammar

/-!
# Reading a log

A log is one stream of bytes.  Quotations may hold every byte, also those that
separate records and fields, so the stream is not split at separators but read
from the front: behind each part it is certain which part begins.  Every reader
is stated in front of an arbitrary rest.
-/

namespace QueryAdvisor

namespace Recogniser

variable {α : Type}

/-- Read items one after the other until a stop is met.  An item that takes
nothing is refused, since it would be read for ever. -/
def repeated
    (stops : Text → Bool)
    (item : Recogniser α)
    (text : Text) : Option (List α × Text) :=
  if stops text then some ([], text)
  else
    match item text with
    | none => none
    | some (value, rest) =>
      if rest.length < text.length then
        (repeated stops item rest).map fun (values, remainder) => (value :: values, remainder)
      else none
termination_by text.length

theorem repeated_cons
    {stops : Text → Bool}
    {item : Recogniser α}
    {text rest : Text}
    {value : α}
    (goesOn : stops text = false)
    (read : item text = some (value, rest))
    (shorter : rest.length < text.length) :
    repeated stops item text =
      (repeated stops item rest).map fun (values, remainder) => (value :: values, remainder) := by
  rw [repeated, goesOn, read]
  simp only [Bool.false_eq_true, if_false, shorter, if_true]

/-- Items that are written one after the other are read one after the other. -/
theorem repeated_flatMap
    {stops : Text → Bool}
    {item : Recogniser α}
    {writes : α → Text}
    {values : List α}
    {rest : Text}
    (nonempty : ∀ value, writes value ≠ [])
    (goesOn : ∀ value following, stops (writes value ++ following) = false)
    (reads : ∀ value ∈ values, ∀ following,
      item (writes value ++ following) = some (value, following))
    (stopped : stops rest = true) :
    repeated stops item (values.flatMap writes ++ rest) = some (values, rest) := by
  induction values with
  | nil => rw [List.flatMap_nil, List.nil_append, repeated, if_pos stopped]
  | cons value others inductionHypothesis =>
      have shorter : (others.flatMap writes ++ rest).length <
          (writes value ++ (others.flatMap writes ++ rest)).length := by
        have positive := List.length_pos_iff.mpr (nonempty value)
        simp only [List.length_append]
        omega
      rw [List.flatMap_cons, List.append_assoc,
        repeated_cons (goesOn value _) (reads value List.mem_cons_self _) shorter,
        inductionHypothesis fun other member => reads other (List.mem_cons_of_mem value member)]
      rfl

end Recogniser

namespace Level

/-- All levels. -/
def all : List Level :=
  [error, warn, info, debug]

/-- The level with a name. -/
def named? (name : Text) : Option Level :=
  all.find? fun level => level.name = name

@[simp] theorem named?_name (level : Level) : named? level.name = some level := by
  cases level <;> decide

theorem isName_name (level : Level) : IsName level.name := by
  cases level <;> decide

end Level

namespace Log

open Recogniser

/-- Closing bracket, which ends a time. -/
abbrev closingBracket : UInt8 := 93

/-- Closing brace, which ends fields. -/
abbrev closingBrace : UInt8 := 125

/-- Something logged at a time. -/
structure Entry where
  time : Text
  event : Event
deriving DecidableEq, Repr

/-- What a log of a level holds once entries have been logged. -/
def stream
    (limit : Level)
    (entries : List Entry) : Text :=
  entries.flatMap fun entry => entry.event.written limit entry.time

/-! ### The reader -/

/-- Read the rest of a quotation.  Behind a backslash, every byte stands for
itself. -/
def quotationRest : (behindBackslash : Bool) → Recogniser Text
  | _, [] => none
  | true, first :: rest =>
    (quotationRest false rest).map fun (text, remainder) => (first :: text, remainder)
  | false, first :: rest =>
    if first = Byte.quote then some ([], rest)
    else if first = Byte.backslash then quotationRest true rest
    else (quotationRest false rest).map fun (text, remainder) => (first :: text, remainder)

/-- Read a quotation. -/
def quotation : Recogniser Text := do
  byte Byte.quote
  quotationRest false

/-- Read a field. -/
def field : Recogniser (Text × Text) := do
  let name ← quotation
  literal (ascii ": ")
  let value ← quotation
  return (name, value)

/-- Whether the fields end here. -/
def endsFields (text : Text) : Bool :=
  text.head? = some closingBrace

/-- Read the fields, up to the brace that ends them. -/
def fields : Recogniser (List (Text × Text)) := fun text =>
  if endsFields text then some ([], text)
  else
    (do
      let first ← field
      let others ← repeated endsFields (do literal (ascii ", "); field)
      return first :: others : Recogniser (List (Text × Text))) text

/-- Read a time, up to the bracket that ends it. -/
def time : Recogniser Text := fun text =>
  some (text.takeWhile fun byte => byte != closingBracket,
    text.dropWhile fun byte => byte != closingBracket)

/-- Read the name of a level. -/
def level : Recogniser Level := do
  let name ← word
  StateT.lift (Level.named? name)

/-- Read an entry. -/
def entry : Recogniser Entry := do
  literal (ascii "[")
  let time ← time
  literal (ascii "] level=")
  let level ← level
  literal (ascii " message=")
  let message ← quotation
  literal (ascii " fields=\x7b")
  let fields ← fields
  literal (ascii "\x7d\n")
  return ⟨time, ⟨level, message, fields⟩⟩

/-- Read a whole log. -/
def read (text : Text) : Option (List Entry) :=
  (repeated List.isEmpty entry text).map Prod.fst

/-! ### Reading what was written -/

theorem quotationRest_escape
    (text rest : Text) :
    quotationRest false (Event.escape text ++ Byte.quote :: rest) = some (text, rest) := by
  induction text with
  | nil => rfl
  | cons first others inductionHypothesis =>
      rw [Event.escape]
      by_cases special : first = Byte.quote ∨ first = Byte.backslash
      · rw [if_pos special, List.cons_append, List.cons_append, quotationRest, if_neg (by decide),
          if_pos rfl, quotationRest, inductionHypothesis]
        rfl
      · obtain ⟨notQuote, notBackslash⟩ := not_or.mp special
        rw [if_neg special, List.cons_append, quotationRest, if_neg notQuote,
          if_neg notBackslash, inductionHypothesis]
        rfl

theorem quotation_quoted
    (text rest : Text) :
    quotation (Event.quoted text ++ rest) = some (text, rest) := by
  simp [quotation, Event.quoted, quotationRest_escape]

theorem field_fieldText
    (written : Text × Text)
    (rest : Text) :
    field (Event.fieldText written ++ rest) = some (written, rest) := by
  simp only [field, Event.fieldText, List.append_assoc, bind_apply, quotation_quoted,
    Option.bind_some, literal_append, pure_apply]

theorem head?_fieldText
    (written : Text × Text)
    (rest : Text) :
    (Event.fieldText written ++ rest).head? = some Byte.quote := rfl

theorem fields_join
    (written : List (Text × Text))
    {rest : Text}
    (ended : endsFields rest = true) :
    fields (Text.join (ascii ", ") (written.map Event.fieldText) ++ rest) =
      some (written, rest) := by
  cases written with
  | nil => exact if_pos ended
  | cons first others =>
      have goesOn : endsFields (Text.join (ascii ", ")
          ((first :: others).map Event.fieldText) ++ rest) = false := by
        rw [List.map_cons, Text.join_cons, List.append_assoc, endsFields, head?_fieldText]
        decide
      have othersRead : repeated endsFields (do literal (ascii ", "); field)
          (others.flatMap (fun other => ascii ", " ++ Event.fieldText other) ++ rest) =
            some (others, rest) := by
        refine repeated_flatMap ?_ ?_ ?_ ended
        · intro other empty
          exact absurd (List.append_eq_nil_iff.mp empty).1 (by decide)
        · intro other following
          rw [endsFields, List.append_assoc, List.head?_append]
          rfl
        · intro other _ following
          rw [List.append_assoc, bind_apply, literal_append]
          exact field_fieldText other following
      rw [fields, goesOn, List.map_cons, Text.join_cons, List.flatMap_map, List.append_assoc]
      simp only [Bool.false_eq_true, if_false, bind_apply, field_fieldText, Option.bind_some]
      rw [othersRead]
      rfl

theorem time_append
    {stamp rest : Text}
    (unbracketed : closingBracket ∉ stamp)
    (ended : rest.head? = some closingBracket) :
    time (stamp ++ rest) = some (stamp, rest) := by
  have allInside : stamp.all (fun byte => byte != closingBracket) = true := by
    rw [List.all_eq_true]
    intro byte member
    rw [bne_iff_ne]
    rintro rfl
    exact unbracketed member
  have stops : rest.head?.any (fun byte => byte != closingBracket) = false := by
    rw [ended]
    rfl
  rw [time, takeWhile_append_of_ended allInside stops, dropWhile_append_of_ended allInside stops]

theorem level_name
    (shown : Level)
    {rest : Text}
    (ended : rest.head?.any Byte.isWord = false) :
    level (shown.name ++ rest) = some (shown, rest) := by
  rw [level, bind_apply, word_append shown.isName_name ended, Option.bind_some,
    Level.named?_name]
  rfl

theorem entry_record
    {written : Entry}
    (unbracketed : closingBracket ∉ written.time)
    (rest : Text) :
    entry (written.event.record written.time ++ rest) = some (written, rest) := by
  have timeRead : ∀ following, time (written.time ++ (ascii "] level=" ++ following)) =
      some (written.time, ascii "] level=" ++ following) := by
    intro following
    refine time_append unbracketed ?_
    rw [List.head?_append]
    rfl
  have levelRead : ∀ following, level (written.event.level.name ++
      (ascii " message=" ++ following)) =
        some (written.event.level, ascii " message=" ++ following) := by
    intro following
    refine level_name written.event.level ?_
    rw [List.head?_append]
    rfl
  have fieldsRead : fields (Text.join (ascii ", ") (written.event.fields.map Event.fieldText) ++
      (ascii "\x7d\n" ++ rest)) = some (written.event.fields, ascii "\x7d\n" ++ rest) := by
    refine fields_join written.event.fields ?_
    rw [endsFields, List.head?_append]
    rfl
  simp only [entry, Event.record, List.append_assoc, bind_apply, literal_append, timeRead,
    levelRead, quotation_quoted, fieldsRead, Option.bind_some, pure_apply]

/-- Hidden entries leave no trace. -/
theorem stream_eq_flatMap_record
    (limit : Level)
    (entries : List Entry) :
    stream limit entries =
      (entries.filter fun entry => entry.event.level.isShownAt limit).flatMap
        fun entry => entry.event.record entry.time := by
  induction entries with
  | nil => rfl
  | cons entry others inductionHypothesis =>
      rw [stream, List.flatMap_cons, ← stream, inductionHypothesis, Event.written]
      cases shown : entry.event.level.isShownAt limit with
      | true => simp [shown]
      | false => simp [shown]

/-- A log is read back to the entries that it shows. -/
theorem read_stream
    (limit : Level)
    {entries : List Entry}
    (unbracketed : ∀ entry ∈ entries, closingBracket ∉ entry.time) :
    read (stream limit entries) =
      some (entries.filter fun entry => entry.event.level.isShownAt limit) := by
  have nonempty : ∀ entry : Entry, entry.event.record entry.time ≠ [] := by
    intro entry
    simp [Event.record, ascii]
  have wholeRead : ∀ shown : List Entry, (∀ entry ∈ shown, closingBracket ∉ entry.time) →
      repeated List.isEmpty entry
        ((shown.flatMap fun entry => entry.event.record entry.time) ++ []) = some (shown, []) := by
    intro shown unbracketed
    refine repeated_flatMap nonempty ?_ ?_ rfl
    · intro entry following
      rw [List.isEmpty_eq_false_iff]
      exact List.append_ne_nil_of_left_ne_nil (nonempty entry) following
    · intro entry member following
      exact entry_record (unbracketed entry member) following
  rw [read, stream_eq_flatMap_record, ← List.append_nil (List.flatMap _ _), wholeRead]
  · rfl
  · intro entry member
    exact unbracketed entry (List.mem_filter.mp member).1

/-- What is logged can be read back from the bytes of a log: the events that the
log shows, in order, with level, message and fields.  So logs with the same bytes
show the same events, whatever their levels and whatever else was logged. -/
theorem stream_determines_events
    (limit : Level)
    (entries : List Entry)
    (unbracketed : ∀ entry ∈ entries, closingBracket ∉ entry.time) :
    (read (stream limit entries)).map (List.map Entry.event) =
        some (Event.shown limit (entries.map Entry.event)) ∧
      ∀ (otherLimit : Level) (others : List Entry),
        (∀ entry ∈ others, closingBracket ∉ entry.time) →
        stream otherLimit others = stream limit entries →
        Event.shown otherLimit (others.map Entry.event) =
          Event.shown limit (entries.map Entry.event) := by
  have eventsRead : ∀ (limit : Level) (entries : List Entry),
      (∀ entry ∈ entries, closingBracket ∉ entry.time) →
      (read (stream limit entries)).map (List.map Entry.event) =
        some (Event.shown limit (entries.map Entry.event)) := by
    intro limit entries unbracketed
    rw [read_stream limit unbracketed, Option.map_some, Event.shown, List.filter_map]
    rfl
  refine ⟨eventsRead limit entries unbracketed, ?_⟩
  intro otherLimit others othersUnbracketed sameBytes
  have othersRead := eventsRead otherLimit others othersUnbracketed
  rw [sameBytes, eventsRead limit entries unbracketed] at othersRead
  exact (Option.some.inj othersRead).symm

/-- Entries whose texts look like parts of a record. -/
def deceptiveEntries : List Entry :=
  [⟨ascii "12:00", ⟨.warn, ascii "a\" fields=\x7b\x7d\n[12:01] level=error message=\"b",
      [(ascii "\\", ascii "\", \"c\": \""), ([], ascii "\x7d\n")]⟩⟩,
    ⟨[], ⟨.debug, ascii "hidden", [(ascii "d", ascii "e")]⟩⟩,
    ⟨ascii "[", ⟨.error, [], []⟩⟩]

theorem read_stream_deceptiveEntries :
    (∀ entry ∈ deceptiveEntries, closingBracket ∉ entry.time) ∧
      (read (stream .info deceptiveEntries)).map (List.map Entry.event) =
        some (Event.shown .info (deceptiveEntries.map Entry.event)) ∧
      (Event.shown .info (deceptiveEntries.map Entry.event)).length = 2 := by
  have unbracketed : ∀ entry ∈ deceptiveEntries, closingBracket ∉ entry.time := by decide
  exact ⟨unbracketed, (stream_determines_events .info deceptiveEntries unbracketed).1, by decide⟩

end Log
end QueryAdvisor

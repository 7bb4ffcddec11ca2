import QueryAdvisor.Proofs.Log.Stream

/-!
# Lines of a log

A record ends in a line feed.  Quotations keep the line feeds of their texts, so
a record holds one line feed more than its time, its message and its fields
together.  It is one line exactly if none of these holds a line feed, and a log
has as many lines as it shows events exactly if this is so for all of them.
-/

namespace QueryAdvisor

namespace Text

/-- One line: the only line feed is the last byte. -/
def IsLine (text : Text) : Prop :=
  ∃ content, text = content ++ [Byte.newline] ∧ Byte.newline ∉ content

/-- Of the texts that end in a line feed, those with no other are lines. -/
theorem isLine_concat_iff (content : Text) :
    IsLine (content ++ [Byte.newline]) ↔ content.count Byte.newline = 0 := by
  rw [List.count_eq_zero]
  constructor
  · rintro ⟨other, equal, free⟩
    rw [List.append_cancel_right equal]
    exact free
  · intro free
    exact ⟨content, rfl, free⟩

theorem count_flatMap_separator
    {separator : Text}
    {byte : UInt8}
    (free : separator.count byte = 0)
    (texts : List Text) :
    (texts.flatMap fun text => separator ++ text).count byte = texts.flatten.count byte := by
  induction texts with
  | nil => rfl
  | cons text rest inductionHypothesis =>
      rw [List.flatMap_cons, List.flatten_cons, List.count_append, List.count_append,
        List.count_append, free, Nat.zero_add, inductionHypothesis]

/-- A byte that the separator does not hold occurs as often as in the texts it
joins. -/
theorem count_join
    {separator : Text}
    {byte : UInt8}
    (free : separator.count byte = 0)
    (texts : List Text) :
    (join separator texts).count byte = texts.flatten.count byte := by
  cases texts with
  | nil => rfl
  | cons first others =>
      rw [join_cons, List.flatten_cons, List.count_append, List.count_append,
        count_flatMap_separator free]

end Text

namespace Event

/-- The texts that an event brings with it: its message, and the names and values
of its fields. -/
def texts (event : Event) : List Text :=
  event.message :: event.fields.flatMap fun field => [field.1, field.2]

/-- The number of line feeds in the texts of an event. -/
def lineFeeds (event : Event) : Nat :=
  event.texts.flatten.count Byte.newline

theorem lineFeeds_eq_zero_iff (event : Event) :
    event.lineFeeds = 0 ↔ ∀ text ∈ event.texts, Byte.newline ∉ text := by
  rw [lineFeeds, List.count_eq_zero, List.mem_flatten]
  constructor
  · intro free text present newline
    exact free ⟨text, present, newline⟩
  · rintro free ⟨text, present, newline⟩
    exact free text present newline

/-- Line feeds are not escaped. -/
theorem count_newline_escape (text : Text) :
    (escape text).count Byte.newline = text.count Byte.newline := by
  induction text with
  | nil => rfl
  | cons first rest inductionHypothesis =>
      have backslash : (Byte.backslash == Byte.newline) = false := by decide
      rw [escape]
      split
      · simp only [List.count_cons, backslash, inductionHypothesis, Bool.false_eq_true, if_false,
          Nat.add_zero]
      · simp only [List.count_cons, inductionHypothesis]

theorem count_newline_quoted (text : Text) :
    (quoted text).count Byte.newline = text.count Byte.newline := by
  have quote : (Byte.quote == Byte.newline) = false := by decide
  simp [quoted, List.count_cons, count_newline_escape, quote]

theorem count_newline_fieldText (field : Text × Text) :
    (fieldText field).count Byte.newline =
      field.1.count Byte.newline + field.2.count Byte.newline := by
  have separator : (ascii ": ").count Byte.newline = 0 := by decide
  simp only [fieldText, List.count_append, count_newline_quoted, separator, Nat.add_zero]

theorem count_newline_fields (fields : List (Text × Text)) :
    (Text.join (ascii ", ") (fields.map fieldText)).count Byte.newline =
      (fields.flatMap fun field => [field.1, field.2]).flatten.count Byte.newline := by
  have separator : (ascii ", ").count Byte.newline = 0 := by decide
  rw [Text.count_join separator]
  induction fields with
  | nil => rfl
  | cons field others inductionHypothesis =>
      rw [List.map_cons, List.flatten_cons, List.count_append, count_newline_fieldText,
        inductionHypothesis, List.flatMap_cons, List.flatten_append, List.count_append]
      simp only [List.flatten_cons, List.flatten_nil, List.append_nil, List.count_append]

theorem count_newline_name (level : Level) :
    level.name.count Byte.newline = 0 := by
  cases level <;> decide

/-- A record ends in a line feed, and all others come from the time and the texts
of the event. -/
theorem exists_record_eq
    (time : Text)
    (event : Event) :
    ∃ content, event.record time = content ++ [Byte.newline] ∧
      content.count Byte.newline = time.count Byte.newline + event.lineFeeds := by
  have ending : ascii "\x7d\n" = ascii "\x7d" ++ [Byte.newline] := by decide
  have opening : (ascii "[").count Byte.newline = 0 := by decide
  have beforeLevel : (ascii "] level=").count Byte.newline = 0 := by decide
  have beforeMessage : (ascii " message=").count Byte.newline = 0 := by decide
  have beforeFields : (ascii " fields=\x7b").count Byte.newline = 0 := by decide
  have closing : (ascii "\x7d").count Byte.newline = 0 := by decide
  refine ⟨_, by rw [record, ending, ← List.append_assoc], ?_⟩
  simp only [List.count_append, opening, beforeLevel, beforeMessage, beforeFields, closing,
    count_newline_name, count_newline_quoted, count_newline_fields, lineFeeds, texts,
    List.flatten_cons]
  omega

theorem getLast?_record
    (time : Text)
    (event : Event) :
    (event.record time).getLast? = some Byte.newline := by
  obtain ⟨content, equal, _⟩ := exists_record_eq time event
  rw [equal, List.getLast?_concat]

theorem count_newline_record
    (time : Text)
    (event : Event) :
    (event.record time).count Byte.newline = time.count Byte.newline + event.lineFeeds + 1 := by
  obtain ⟨content, equal, counted⟩ := exists_record_eq time event
  rw [equal, List.count_append, counted, List.count_singleton_self]

theorem isLine_record_iff
    {time : Text}
    (onOneLine : Byte.newline ∉ time)
    (event : Event) :
    (event.record time).IsLine ↔ ∀ text ∈ event.texts, Byte.newline ∉ text := by
  obtain ⟨content, equal, counted⟩ := exists_record_eq time event
  rw [equal, Text.isLine_concat_iff, counted, List.count_eq_zero.mpr onOneLine, Nat.zero_add,
    lineFeeds_eq_zero_iff]

end Event

namespace Log

open Event

/-- The line feeds of a log are those that end records and those in the texts of
the events that it shows. -/
theorem count_newline_stream
    (limit : Level)
    {entries : List Entry}
    (onOneLine : ∀ entry ∈ entries, Byte.newline ∉ entry.time) :
    (stream limit entries).count Byte.newline =
      (shown limit (entries.map Entry.event)).length +
        ((shown limit (entries.map Entry.event)).flatMap texts).flatten.count Byte.newline := by
  induction entries with
  | nil => rfl
  | cons entry others inductionHypothesis =>
      have othersCounted := inductionHypothesis fun other present =>
        onOneLine other (List.mem_cons_of_mem entry present)
      have noneInTime := List.count_eq_zero.mpr (onOneLine entry List.mem_cons_self)
      have shownFirst : shown limit ((entry :: others).map Entry.event) =
          if entry.event.level.isShownAt limit then
            entry.event :: shown limit (others.map Entry.event)
          else shown limit (others.map Entry.event) :=
        List.filter_cons
      rw [stream, List.flatMap_cons, ← stream, List.count_append, othersCounted, written,
        shownFirst]
      split
      · rw [count_newline_record, noneInTime, lineFeeds, List.length_cons, List.flatMap_cons,
          List.flatten_append, List.count_append]
        omega
      · rw [List.count_nil, Nat.zero_add]

/-- What is written for an event that a log shows ends in a line feed.  It is one
line exactly if neither the message nor the name or the value of a field holds a
line feed, and a log has as many lines as it shows events exactly if this is so
for each of them: every line feed in a text begins a further line. -/
theorem stream_lines_iff
    (limit : Level)
    (entries : List Entry)
    (onOneLine : ∀ entry ∈ entries, Byte.newline ∉ entry.time) :
    (∀ entry ∈ entries, entry.event.level.isShownAt limit = true →
      (entry.event.written limit entry.time).getLast? = some Byte.newline ∧
        (entry.event.written limit entry.time).count Byte.newline = entry.event.lineFeeds + 1 ∧
        ((entry.event.written limit entry.time).IsLine ↔
          ∀ text ∈ entry.event.texts, Byte.newline ∉ text)) ∧
      ((stream limit entries).count Byte.newline =
          (shown limit (entries.map Entry.event)).length ↔
        ∀ event ∈ shown limit (entries.map Entry.event),
          ∀ text ∈ event.texts, Byte.newline ∉ text) := by
  constructor
  · intro entry present isShown
    have noneInTime := onOneLine entry present
    rw [written, if_pos isShown]
    refine ⟨getLast?_record _ _, ?_, isLine_record_iff noneInTime entry.event⟩
    rw [count_newline_record, List.count_eq_zero.mpr noneInTime, Nat.zero_add]
  · rw [count_newline_stream limit onOneLine, Nat.add_eq_left, List.count_eq_zero,
      List.mem_flatten]
    constructor
    · intro free event present text inEvent newline
      exact free ⟨text, List.mem_flatMap.mpr ⟨event, present, inEvent⟩, newline⟩
    · rintro free ⟨text, inEvents, newline⟩
      obtain ⟨event, present, inEvent⟩ := List.mem_flatMap.mp inEvents
      exact free event present text inEvent newline

/-- A shown record with quotes and backslashes, and a hidden one with a line feed. -/
def unreadFiles : List Entry :=
  [⟨ascii "12:00", ⟨.warn, ascii "scan.read_failed", [(ascii "file", ascii "\"a\\n\".rb")]⟩⟩,
    ⟨ascii "12:01", ⟨.debug, ascii "two\nlines", []⟩⟩]

theorem unreadFiles_one_line :
    (∀ entry ∈ unreadFiles, Byte.newline ∉ entry.time) ∧
      (stream .warn unreadFiles).count Byte.newline =
        (shown .warn (unreadFiles.map Entry.event)).length ∧
      (shown .warn (unreadFiles.map Entry.event)).length = 1 := by
  have onOneLine : ∀ entry ∈ unreadFiles, Byte.newline ∉ entry.time := by decide
  have free : ∀ event ∈ shown .warn (unreadFiles.map Entry.event),
      ∀ text ∈ event.texts, Byte.newline ∉ text := by decide
  exact ⟨onOneLine, (stream_lines_iff .warn unreadFiles onOneLine).2.mpr free, by decide⟩

/-- A file that could not be read and has a line feed in its name. -/
def brokenName : Entry where
  time := ascii "12:00"
  event := ⟨.warn, ascii "scan.read_failed", [(ascii "file", ascii "app/models/a\nb.rb")]⟩

/-- What is logged about this file goes over two lines. -/
theorem brokenName_two_lines :
    Byte.newline ∉ brokenName.time ∧
      shown .warn [brokenName.event] = [brokenName.event] ∧
      ¬ (brokenName.event.written .warn brokenName.time).IsLine ∧
      (stream .warn [brokenName]).count Byte.newline = 2 := by
  have onOneLine : Byte.newline ∉ brokenName.time := by decide
  refine ⟨onOneLine, by decide, ?_, by decide⟩
  have isShown : brokenName.event.level.isShownAt .warn = true := by decide
  rw [written, if_pos isShown, isLine_record_iff onOneLine]
  decide

end Log
end QueryAdvisor

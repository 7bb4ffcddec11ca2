import QueryAdvisor.Fault

/-!
# Log events

An event has a level, a message and named fields.  A log shows the events up
to its level, one record each:

`[time] level=warn message="scan.read_failed" fields={"file": "a.rb"}`

In quotations a backslash stands before every quote and every backslash, and
nothing else is changed.
-/

namespace QueryAdvisor

/-- How much a log tells, from least to most. -/
inductive Level where
  | error
  | warn
  | info
  | debug
deriving DecidableEq, Repr

namespace Level

/-- The name of a level. -/
def name : Level → Text
  | error => ascii "error"
  | warn => ascii "warn"
  | info => ascii "info"
  | debug => ascii "debug"

/-- The number of levels below. -/
def rank : Level → Nat
  | error => 0
  | warn => 1
  | info => 2
  | debug => 3

/-- Whether a log of level `limit` shows events of this level. -/
def isShownAt (level limit : Level) : Bool :=
  level.rank ≤ limit.rank

/-- Read a level.  Spaces anywhere and capitals do not matter. -/
def parse (word : Text) : Except Fault Level :=
  let plain := Text.toLower (word.filter fun byte => !Byte.isSpace byte)
  if plain = ascii "error" then .ok error
  else if plain = ascii "warn" ∨ plain = ascii "warning" then .ok warn
  else if plain = ascii "info" then .ok info
  else if plain = ascii "debug" then .ok debug
  else .error (.unknownLevel word)

end Level

/-- Something worth noting during a run. -/
structure Event where
  level : Level
  message : Text
  fields : List (Text × Text)
deriving DecidableEq, Repr

namespace Event

/-- Put a backslash before quotes and backslashes. -/
def escape : Text → Text
  | [] => []
  | first :: rest =>
    if first = Byte.quote ∨ first = Byte.backslash then Byte.backslash :: first :: escape rest
    else first :: escape rest

/-- A text between quotes. -/
def quoted (text : Text) : Text :=
  Byte.quote :: escape text ++ [Byte.quote]

/-- A field with its name. -/
def fieldText (field : Text × Text) : Text :=
  quoted field.1 ++ ascii ": " ++ quoted field.2

/-- The record of an event, given the time. -/
def record
    (time : Text)
    (event : Event) : Text :=
  ascii "[" ++ time ++ ascii "] level=" ++ event.level.name ++
    ascii " message=" ++ quoted event.message ++
    ascii " fields=\x7b" ++ Text.join (ascii ", ") (event.fields.map fieldText) ++ ascii "\x7d\n"

/-- What a log of a level writes for an event; hidden events leave nothing. -/
def written
    (limit : Level)
    (time : Text)
    (event : Event) : Text :=
  if event.level.isShownAt limit then event.record time else []

/-- The events that a log of a level shows. -/
def shown
    (limit : Level)
    (events : List Event) : List Event :=
  events.filter fun event => event.level.isShownAt limit

end Event
end QueryAdvisor

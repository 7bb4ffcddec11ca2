import QueryAdvisor.Text.Recogniser

/-!
# Table blocks

A table block begins with a header `create_table "name"`, opens with `do |t|`
before the next header, and runs to the keyword `end`.  Inside quotations and
comments nothing counts as a keyword, and neither does a part of a longer word.
-/

namespace QueryAdvisor

/-- A table block: the name in its header and the text between its opening and
its closing keyword. -/
structure TableBlock where
  name : Text
  body : Text
deriving DecidableEq, Repr

namespace TableBlock

open Recogniser

/-- The header of a block, whose value is the table's name. -/
def header : Recogniser Text := do
  literal (ascii "create_table")
  someSpaces
  quotedWord

/-- The opening of a block. -/
def opening : Recogniser Unit := do
  literal (ascii "do")
  spaces
  literal (ascii "|t|")

/-- The number of bytes from behind an opening quote to behind the closing one.
A backslash takes the next byte with it, and an open quotation runs to the end
of the text. -/
def quotationLength (mark : UInt8) : Text → Nat
  | [] => 0
  | [_] => 1
  | first :: second :: rest =>
    if first = Byte.backslash then quotationLength mark rest + 2
    else if first = mark then 1
    else quotationLength mark (second :: rest) + 1

/-- The number of bytes before the end of the line. -/
def commentLength (text : Text) : Nat :=
  (text.takeWhile fun byte => byte != Byte.newline).length

/-- Whether a text begins with the keyword `end`, which neither goes on with a
word byte nor stands after one. -/
def closesBlock
    (afterWord : Bool)
    (text : Text) : Bool :=
  !afterWord && (ascii "end").isPrefixOf text && !(text.drop 3).head?.any Byte.isWord

/-- Look for the closing keyword in a text that begins at `offset`, perhaps
after a word byte.  The first `skip` bytes belong to a quotation or a comment. -/
def endFrom :
    (afterWord : Bool) → (offset skip : Nat) → Text → Option Nat
  | _, _, _, [] => none
  | _, offset, skip + 1, first :: rest =>
    endFrom (Byte.isWord first) (offset + 1) skip rest
  | afterWord, offset, 0, first :: rest =>
    if first = Byte.quote ∨ first = Byte.apostrophe then
      endFrom false (offset + 1) (quotationLength first rest) rest
    else if first = Byte.hash then
      endFrom false (offset + 1) (commentLength rest) rest
    else if closesBlock afterWord (first :: rest) then some offset
    else endFrom (Byte.isWord first) (offset + 1) 0 rest

/-- Whether the byte before an offset is a word byte. -/
def isAfterWord
    (text : Text) : Nat → Bool
  | 0 => false
  | offset + 1 => text[offset]?.any Byte.isWord

/-- The offset of the keyword that closes a block whose body begins at `start`. -/
def end?
    (text : Text)
    (start : Nat) : Option Nat :=
  endFrom (isAfterWord text start) start 0 (text.drop start)

/-- The block of a header, if it opens before `limit` and is closed. -/
def ofHeader?
    (text : Text)
    (header : Occurrence Text)
    (limit : Nat) : Option TableBlock := do
  let opened ← opening.first? ((text.drop header.stop).take (limit - header.stop))
  let start := header.stop + opened.stop
  let stop ← end? text start
  return { name := header.value, body := (text.drop start).take (stop - start) }

/-- The blocks of successive headers.  Each has to open before the next one. -/
def ofHeaders (text : Text) : List (Occurrence Text) → List TableBlock
  | [] => []
  | [last] => (ofHeader? text last text.length).toList
  | first :: next :: rest =>
    (ofHeader? text first next.start).toList ++ ofHeaders text (next :: rest)

/-- All table blocks of a schema dump, in the order of their headers. -/
def ofText (text : Text) : List TableBlock :=
  ofHeaders text (header.occurrences text)

end TableBlock
end QueryAdvisor

import QueryAdvisor.Report.Basic

/-!
# JSON reports

The report for programs: one JSON object with the suite, the project, the
counters, all findings by group and the files that were skipped.  Bytes from
`0x80` on are written as they are.
-/

namespace QueryAdvisor
namespace Report
namespace Json

/-- A hexadecimal digit. -/
def hexDigit (value : UInt8) : UInt8 :=
  if value < 10 then 48 + value else 87 + value

/-- The form of a byte inside a JSON string. -/
def escapeByte (byte : UInt8) : Text :=
  if byte = Byte.quote then [Byte.backslash, Byte.quote]
  else if byte = Byte.backslash then [Byte.backslash, Byte.backslash]
  else if byte = 8 then ascii "\\b"
  else if byte = 12 then ascii "\\f"
  else if byte = Byte.newline then ascii "\\n"
  else if byte = Byte.carriageReturn then ascii "\\r"
  else if byte = 9 then ascii "\\t"
  else if byte < 32 then ascii "\\u00" ++ [hexDigit (byte / 16), hexDigit (byte % 16)]
  else [byte]

/-- The form of a text inside a JSON string. -/
def escape (text : Text) : Text :=
  text.flatMap escapeByte

/-- A JSON string. -/
def string (text : Text) : Text :=
  Byte.quote :: escape text ++ [Byte.quote]

/-- A member of an object: its name, a colon, a blank and its value. -/
def member
    (name : String)
    (value : Text) : Text :=
  Byte.quote :: ascii name ++ ascii "\": " ++ value

/-- An object whose members are divided by the given text. -/
def object
    (divider : String)
    (members : List Text) : Text :=
  ascii "\x7b" ++ Text.join (ascii divider) members ++ ascii "\x7d"

/-- An array. -/
def array (elements : List Text) : Text :=
  ascii "[" ++ Text.join (ascii ",") elements ++ ascii "]"

/-- A location.  The column of a source location is left out if it is empty. -/
def location : Location → Text
  | .schema table column =>
    object ", " [member "kind" (string (ascii "schema")), member "table" (string table),
      member "column" (string column)]
  | .source file line column =>
    object ", " ([member "kind" (string (ascii "source")), member "file" (string file),
      member "line" (Text.ofInt line)] ++
      if column.isEmpty then [] else [member "column" (string column)])
  | .config environment setting =>
    object ", " [member "kind" (string (ascii "config")),
      member "environment" (string environment), member "setting" (string setting)]

/-- A suggestion, or null. -/
def suggestion : Option Text → Text
  | none => ascii "null"
  | some text => string text

/-- A finding. -/
def finding (finding : Finding) : Text :=
  object "," [member "type" (string finding.type.name),
    member "severity" (string finding.severity.name),
    member "message" (string finding.message),
    member "suggestion" (suggestion finding.suggestion),
    member "location" (location finding.location)]

/-- A group of findings. -/
def group (group : FindingGroup) : Text :=
  object ", " [member "type" (string group.type.name),
    member "count" (Text.ofNat group.count),
    member "findings" (array (group.all.map finding))]

/-- A skipped file. -/
def scanError (error : ScanError) : Text :=
  object ", " [member "file" (string error.file), member "message" (string error.message)]

/-- The counters of a run. -/
def counters
    (aggregate : Aggregate)
    (summary : Summary) : Text :=
  object ", " [member "total" (Text.ofNat aggregate.total),
    member "warnings" (Text.ofNat aggregate.warningCount),
    member "info" (Text.ofNat aggregate.infoCount),
    member "duplicates_dropped" (Text.ofNat aggregate.duplicatesDropped),
    member "tables" (Text.ofNat summary.tableCount),
    member "files_scanned" (Text.ofNat summary.filesScanned)]

/-- The whole report. -/
def render
    (aggregate : Aggregate)
    (summary : Summary)
    (request : Request) : Text :=
  object "," [member "suite" (string request.suite.name),
    member "project_root" (string summary.projectRoot),
    member "summary" (counters aggregate summary),
    member "groups" (array (aggregate.groups.map group)),
    member "scan_errors" (array (summary.scanErrors.map scanError))]

end Json
end Report
end QueryAdvisor

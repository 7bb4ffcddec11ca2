import QueryAdvisor.Proofs.Json.Value
import QueryAdvisor.Report.Reporter

/-!
# The contents of a JSON report

What a JSON report tells, as a JSON value, and how it is found in such a value
again.  Members are looked up by name.  A source location without a column has an
empty one, and a suggestion is null exactly if there is none.
-/

namespace QueryAdvisor

namespace Json
namespace Value

/-- The member of an object with a name. -/
def member?
    (value : Value)
    (name : String) : Option Value :=
  match value with
  | .object members => members.lookup (ascii name)
  | _ => none

def text? : Value → Option Text
  | .string content => some content
  | _ => none

def integer? : Value → Option Int
  | .number mantissa exponent => if exponent = 0 then some mantissa else none
  | _ => none

def natural? (value : Value) : Option Nat :=
  value.integer?.bind fun number => if 0 ≤ number then some number.toNat else none

/-- A text that may be missing. -/
def textOrNull? : Value → Option (Option Text)
  | .null => some none
  | .string content => some (some content)
  | _ => none

/-- The elements of an array, each read in the same way. -/
def elements? {α : Type}
    (read : Value → Option α) : Value → Option (List α)
  | .array elements => elements.mapM read
  | _ => none

theorem elements?_map {α : Type}
    {read : Value → Option α}
    {write : α → Value}
    (inverse : ∀ element, read (write element) = some element)
    (elements : List α) :
    elements? read (.array (elements.map write)) = some elements := by
  rw [elements?]
  induction elements with
  | nil => rfl
  | cons first rest inductionHypothesis =>
      rw [List.map_cons, List.mapM_cons, inverse, inductionHypothesis]
      rfl

end Value
end Json

open Json

/-- The type with a name. -/
def FindingType.ofName? (name : Text) : Option FindingType :=
  all.find? fun type => type.name = name

/-- The severity with a name. -/
def Severity.ofName? (name : Text) : Option Severity :=
  [warning, info].find? fun severity => severity.name = name

/-- The suite with a name. -/
def Suite.ofName? (name : Text) : Option Suite :=
  [indexes, nPlusOne, config].find? fun suite => suite.name = name

theorem FindingType.ofName?_name (type : FindingType) : ofName? type.name = some type := by
  cases type <;> decide

theorem Severity.ofName?_name (severity : Severity) : ofName? severity.name = some severity := by
  cases severity <;> decide

theorem Suite.ofName?_name (suite : Suite) : ofName? suite.name = some suite := by
  cases suite <;> decide

namespace Location

def toJson : Location → Value
  | .schema table column =>
    .object [(ascii "kind", .string (ascii "schema")), (ascii "table", .string table),
      (ascii "column", .string column)]
  | .source file line column =>
    .object ([(ascii "kind", .string (ascii "source")), (ascii "file", .string file),
      (ascii "line", .number line 0)] ++
      if column.isEmpty then [] else [(ascii "column", .string column)])
  | .config environment setting =>
    .object [(ascii "kind", .string (ascii "config")),
      (ascii "environment", .string environment), (ascii "setting", .string setting)]

def ofJson? (value : Value) : Option Location := do
  let kind ← (← value.member? "kind").text?
  if kind = ascii "schema" then
    let table ← (← value.member? "table").text?
    let column ← (← value.member? "column").text?
    return .schema table column
  else if kind = ascii "source" then
    let file ← (← value.member? "file").text?
    let line ← (← value.member? "line").integer?
    let column ← ((value.member? "column").getD (.string [])).text?
    return .source file line column
  else if kind = ascii "config" then
    let environment ← (← value.member? "environment").text?
    let setting ← (← value.member? "setting").text?
    return .config environment setting
  else none

theorem ofJson?_toJson (location : Location) : ofJson? location.toJson = some location := by
  cases location with
  | schema table column => rfl
  | source file line column =>
      cases column with
      | nil => rfl
      | cons first rest => rfl
  | config environment setting => rfl

end Location

namespace Finding

def toJson (finding : Finding) : Value :=
  .object [(ascii "type", .string finding.type.name),
    (ascii "severity", .string finding.severity.name),
    (ascii "message", .string finding.message),
    (ascii "suggestion", finding.suggestion.elim .null .string),
    (ascii "location", finding.location.toJson)]

def ofJson? (value : Value) : Option Finding := do
  let type ← FindingType.ofName? (← (← value.member? "type").text?)
  let severity ← Severity.ofName? (← (← value.member? "severity").text?)
  let message ← (← value.member? "message").text?
  let suggestion ← (← value.member? "suggestion").textOrNull?
  let location ← Location.ofJson? (← value.member? "location")
  return ⟨type, severity, message, suggestion, location⟩

theorem ofJson?_toJson (finding : Finding) : ofJson? finding.toJson = some finding := by
  obtain ⟨type, severity, message, suggestion, location⟩ := finding
  have suggested : Value.textOrNull? (suggestion.elim .null .string) = some suggestion := by
    cases suggestion <;> rfl
  change ((FindingType.ofName? type.name).bind fun type =>
    (Severity.ofName? severity.name).bind fun severity =>
      (Value.textOrNull? (suggestion.elim .null .string)).bind fun suggestion =>
        (Location.ofJson? location.toJson).bind fun location =>
          some (Finding.mk type severity message suggestion location)) = _
  rw [FindingType.ofName?_name, Severity.ofName?_name, suggested, Location.ofJson?_toJson]
  rfl

end Finding

namespace ScanError

def toJson (error : ScanError) : Value :=
  .object [(ascii "file", .string error.file), (ascii "message", .string error.message)]

def ofJson? (value : Value) : Option ScanError := do
  let file ← (← value.member? "file").text?
  let message ← (← value.member? "message").text?
  return ⟨file, message⟩

theorem ofJson?_toJson (error : ScanError) : ofJson? error.toJson = some error := rfl

end ScanError

namespace Report

/-- What a report tells about a group: its type, its count, and its findings,
warnings first. -/
structure GroupContents where
  type : FindingType
  count : Nat
  findings : List Finding

namespace GroupContents

def ofGroup (group : FindingGroup) : GroupContents where
  type := group.type
  count := (group.warnings ++ group.infos).length
  findings := group.warnings ++ group.infos

def toJson (group : GroupContents) : Value :=
  .object [(ascii "type", .string group.type.name), (ascii "count", .number group.count 0),
    (ascii "findings", .array (group.findings.map Finding.toJson))]

def ofJson? (value : Value) : Option GroupContents := do
  let type ← FindingType.ofName? (← (← value.member? "type").text?)
  let count ← (← value.member? "count").natural?
  let findings ← (← value.member? "findings").elements? Finding.ofJson?
  return ⟨type, count, findings⟩

theorem ofJson?_toJson (group : GroupContents) : ofJson? group.toJson = some group := by
  obtain ⟨type, count, findings⟩ := group
  change ((FindingType.ofName? type.name).bind fun type =>
    (Value.elements? Finding.ofJson? (.array (findings.map Finding.toJson))).bind fun findings =>
      some (GroupContents.mk type count findings)) = _
  rw [FindingType.ofName?_name, Value.elements?_map Finding.ofJson?_toJson]
  rfl

end GroupContents

/-- What a JSON report tells. -/
structure Contents where
  suite : Suite
  projectRoot : Path
  total : Nat
  warnings : Nat
  info : Nat
  duplicatesDropped : Nat
  tables : Nat
  filesScanned : Nat
  groups : List GroupContents
  scanErrors : List ScanError

namespace Contents

/-- What is to be told about aggregated findings. -/
def ofRun
    (aggregate : Aggregate)
    (summary : Summary)
    (request : Request) : Contents where
  suite := request.suite
  projectRoot := summary.projectRoot
  total := aggregate.total
  warnings := aggregate.warningCount
  info := aggregate.infoCount
  duplicatesDropped := aggregate.duplicatesDropped
  tables := summary.tableCount
  filesScanned := summary.filesScanned
  groups := aggregate.groups.map GroupContents.ofGroup
  scanErrors := summary.scanErrors

/-- The numbers of a report. -/
def counters (contents : Contents) : Value :=
  .object [(ascii "total", .number contents.total 0),
    (ascii "warnings", .number contents.warnings 0),
    (ascii "info", .number contents.info 0),
    (ascii "duplicates_dropped", .number contents.duplicatesDropped 0),
    (ascii "tables", .number contents.tables 0),
    (ascii "files_scanned", .number contents.filesScanned 0)]

def toJson (contents : Contents) : Value :=
  .object [(ascii "suite", .string contents.suite.name),
    (ascii "project_root", .string contents.projectRoot),
    (ascii "summary", contents.counters),
    (ascii "groups", .array (contents.groups.map GroupContents.toJson)),
    (ascii "scan_errors", .array (contents.scanErrors.map ScanError.toJson))]

def ofJson? (value : Value) : Option Contents := do
  let suite ← Suite.ofName? (← (← value.member? "suite").text?)
  let projectRoot ← (← value.member? "project_root").text?
  let counters ← value.member? "summary"
  let total ← (← counters.member? "total").natural?
  let warnings ← (← counters.member? "warnings").natural?
  let info ← (← counters.member? "info").natural?
  let duplicatesDropped ← (← counters.member? "duplicates_dropped").natural?
  let tables ← (← counters.member? "tables").natural?
  let filesScanned ← (← counters.member? "files_scanned").natural?
  let groups ← (← value.member? "groups").elements? GroupContents.ofJson?
  let scanErrors ← (← value.member? "scan_errors").elements? ScanError.ofJson?
  return ⟨suite, projectRoot, total, warnings, info, duplicatesDropped, tables, filesScanned,
    groups, scanErrors⟩

/-- The contents are found again in their JSON value. -/
theorem ofJson?_toJson (contents : Contents) : ofJson? contents.toJson = some contents := by
  obtain ⟨suite, projectRoot, total, warnings, info, duplicatesDropped, tables, filesScanned,
    groups, scanErrors⟩ := contents
  change ((Suite.ofName? suite.name).bind fun suite =>
    (Value.elements? GroupContents.ofJson? (.array (groups.map GroupContents.toJson))).bind
      fun groups =>
      (Value.elements? ScanError.ofJson? (.array (scanErrors.map ScanError.toJson))).bind
        fun scanErrors =>
        some (Contents.mk suite projectRoot total warnings info duplicatesDropped tables
          filesScanned groups scanErrors)) = _
  rw [Suite.ofName?_name, Value.elements?_map GroupContents.ofJson?_toJson,
    Value.elements?_map ScanError.ofJson?_toJson]
  rfl

end Contents
end Report
end QueryAdvisor

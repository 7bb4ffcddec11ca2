import QueryAdvisor.Report.Basic

/-!
# Plain reports

The report for people: a heading, one section for each group of findings, the
files that were skipped, and a closing remark.
-/

namespace QueryAdvisor
namespace Report
namespace Plain

/-- The line under the heading. -/
def rule : Text :=
  List.replicate 80 61

/-- The line under the title of a section. -/
def divider : Text :=
  List.replicate 80 45

/-- A line with its end. -/
def line (content : Text) : Text :=
  content ++ [Byte.newline]

/-- What a suite looks at. -/
def subject : Suite → Text
  | .indexes => ascii "database schema"
  | .nPlusOne => ascii "Rails application"
  | .config => ascii "database configuration"

/-- What a suite calls its findings. -/
def findingsNoun : Suite → Text
  | .indexes => ascii "indexing opportunities"
  | .nPlusOne => ascii "potential issues"
  | .config => ascii "configuration recommendations"

/-- The remark on a project without findings. -/
def cleanMessage : Suite → Text
  | .indexes => ascii "No obvious indexing issues detected!"
  | .nPlusOne => ascii "No obvious N+1 query issues detected!"
  | .config => ascii "Database configuration looks good!"

/-- The title of the section for a type. -/
def title : FindingType → Text
  | .missingForeignKeyIndex => ascii "MISSING FOREIGN KEY INDEXES"
  | .booleanIndexOpportunity => ascii "BOOLEAN COLUMN INDEXING OPPORTUNITIES"
  | .whereClauseColumn => ascii "COLUMNS USED IN WHERE CLAUSES"
  | .potentialNPlusOne => ascii "POTENTIAL N+1 QUERIES"
  | .viewAssociationAccess => ascii "ASSOCIATION ACCESS IN VIEWS"
  | .connectionPoolSize => ascii "CONNECTION POOL SIZE"
  | .statementTimeout => ascii "STATEMENT TIMEOUT"
  | .connectTimeout => ascii "CONNECT TIMEOUT"
  | .checkoutTimeout => ascii "CHECKOUT TIMEOUT"
  | .preparedStatements => ascii "PREPARED STATEMENTS"
  | .reapingFrequency => ascii "REAPING FREQUENCY"
  | .sslConfiguration => ascii "SSL CONFIGURATION"
  | .performanceExtension => ascii "PERFORMANCE EXTENSIONS"

/-- What a suggestion is called. -/
def suggestionLabel : Location → Text
  | .schema _ _ => ascii "Migration"
  | _ => ascii "Recommendation"

/-- Indent all lines but the first by four blanks. -/
def indent (text : Text) : Text :=
  text.flatMap fun byte => if byte = Byte.newline then byte :: ascii "    " else [byte]

/-- The suggestion of a finding, if it has one. -/
def suggestion (finding : Finding) : Text :=
  match finding.suggestion with
  | none => []
  | some text =>
    line (ascii "  " ++ suggestionLabel finding.location ++ ascii ": " ++ indent text)

/-- An itemised finding. -/
def finding (finding : Finding) : Text :=
  line (ascii "  [" ++ finding.severity.name ++ ascii "] " ++ finding.location.label) ++
    line (ascii "  -> " ++ finding.message) ++
    suggestion finding ++ line []

/-- The number of elements left out, if there are any. -/
def overflow
    (mark : Text)
    (count : Nat) : Text :=
  if 0 < count then line (mark ++ ascii "... and " ++ Text.ofNat count ++ ascii " more") else []

/-- The section that lists filtered columns. -/
def columnSection
    (limits : Limits)
    (group : FindingGroup) : Text :=
  let preview := group.columnPreview limits
  line [] ++
    line (title group.type ++ ascii " (" ++ Text.ofNat group.columns.length ++
      ascii " columns):") ++
    line divider ++
    line (ascii "  Consider adding indexes to these columns if queries are slow:") ++
    (preview.shown.map fun column => line (ascii "  - " ++ column)).flatten ++
    overflow (ascii "  - ") preview.overflow ++ line []

/-- The section that itemises the findings of a group. -/
def itemSection
    (limits : Limits)
    (group : FindingGroup) : Text :=
  let preview := group.preview limits
  line [] ++
    line (title group.type ++ ascii " (" ++ Text.ofNat group.count ++
      (if group.count = 1 then ascii " item" else ascii " items") ++ ascii "):") ++
    line divider ++
    (preview.shown.map finding).flatten ++
    overflow (ascii "  ") preview.overflow

/-- The section of a group. -/
def groupSection
    (limits : Limits)
    (group : FindingGroup) : Text :=
  if group.type = .whereClauseColumn then columnSection limits group
  else itemSection limits group

/-- The section of skipped files, if there are any. -/
def skippedSection (errors : List ScanError) : Text :=
  if errors.isEmpty then []
  else
    line [] ++ line (ascii "SKIPPED FILES (" ++ Text.ofNat errors.length ++ ascii "):") ++
      line divider ++
      (errors.map fun error =>
        line (ascii "  " ++ error.file ++ ascii ": " ++ error.message)).flatten

/-- The heading, with the numbers of tables and files where they matter. -/
def heading
    (suite : Suite)
    (summary : Summary) : Text :=
  line (ascii "Analyzing " ++ subject suite ++ ascii " at: " ++ summary.projectRoot) ++
    line rule ++
    (if suite = .indexes then
      line (ascii "Found " ++ Text.ofNat summary.tableCount ++ ascii " tables")
    else []) ++
    (if 0 < summary.filesScanned ∨ summary.scanErrors ≠ [] then
      line (ascii "Scanned " ++ Text.ofNat summary.filesScanned ++ ascii " source files")
    else [])

/-- The numbers of findings. -/
def totals
    (suite : Suite)
    (aggregate : Aggregate) : Text :=
  line [] ++
    line (ascii "Found " ++ Text.ofNat aggregate.total ++ ascii " " ++ findingsNoun suite ++
      ascii " (" ++ Text.ofNat aggregate.warningCount ++ ascii " warnings, " ++
      Text.ofNat aggregate.infoCount ++ ascii " info):")

/-- The closing remark. -/
def closing
    (suite : Suite)
    (aggregate : Aggregate) : Text :=
  if aggregate.total = 0 then line (cleanMessage suite)
  else if suite = .config then
    line [] ++ line rule ++
      line (ascii "For more information, see the High Performance PostgreSQL for Rails book") ++
      line (ascii "   Chapters: 2 (Administration Basics), 5 (Optimizing Active Record)")
  else []

/-- The whole report. -/
def render
    (aggregate : Aggregate)
    (summary : Summary)
    (request : Request) : Text :=
  heading request.suite summary ++
    totals request.suite aggregate ++
    (aggregate.groups.map (groupSection request.limits)).flatten ++
    skippedSection summary.scanErrors ++
    closing request.suite aggregate

end Plain
end Report
end QueryAdvisor

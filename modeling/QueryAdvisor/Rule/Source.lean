import QueryAdvisor.Finding.Basic
import QueryAdvisor.Log
import QueryAdvisor.Project.Scope
import QueryAdvisor.Project.Source
import QueryAdvisor.Query.Call
import QueryAdvisor.Query.Filter
import QueryAdvisor.Text.Line

/-!
# Rules on source files

Columns that queries filter by, queries whose records are likely to be
followed by one query each, and association accesses in views.
-/

namespace QueryAdvisor

/-- A rule that examines the source files of a scope, one at a time. -/
structure SourceRule where
  scope : Scope
  examine : SourceFile → List Finding
  /-- What the rule notes in the log on the way. -/
  events : SourceFile → List Event := fun _ => []

namespace SourceFile

/-- The path by which a file is shown. -/
def displayPath (file : SourceFile) : Path :=
  if file.relativePath.isEmpty then file.path else file.relativePath

end SourceFile

namespace SourceRule

/-- The first filter of each column. -/
def firstUses : List Text → List WhereFilter → List WhereFilter
  | _, [] => []
  | seen, filter :: rest =>
    if seen.contains filter.column then firstUses seen rest
    else filter :: firstUses (filter.column :: seen) rest

/-- The finding on a filtered column. -/
def filteredColumn
    (file : SourceFile)
    (filter : WhereFilter) : Finding where
  type := .whereClauseColumn
  severity := .info
  message :=
    ascii "Column \"" ++ filter.column ++
      ascii "\" used in WHERE clause - consider indexing if queries are slow"
  suggestion := none
  location := .source file.displayPath filter.line filter.column

/-- Report each column that a model or controller filters by, once a file. -/
def whereClauseColumn : SourceRule where
  scope := ⟨[ascii "app/models", ascii "app/controllers"], [ascii ".rb"]⟩
  examine file := (firstUses [] (WhereFilter.ofText file.content)).map (filteredColumn file)

/-- A fetch that may be followed by one query for each record.  Lines are counted
without a bound, so that no number wraps around. -/
structure Candidate where
  /-- The line of the fetch. -/
  line : Nat
  /-- The instance variable that holds the records. -/
  variableName : Text
  /-- The line of the first access through the variable. -/
  accessLine : Nat
deriving DecidableEq, Repr

/-- How many lines before and after a fetch are searched for eager loading. -/
def eagerWindow : Nat := 2

/-- How many lines after a fetch are searched for an access. -/
def accessWindow : Nat := 20

/-- The lines around a line, given by its index. -/
def surrounding
    (lines : List Text)
    (index : Nat) : List Text :=
  (lines.take (index + eagerWindow + 1)).drop (index - eagerWindow)

/-- The number of the first line after an index that reaches through a variable. -/
def access?
    (lines : List Text)
    (index : Nat)
    (variableName : Text) : Option Nat :=
  (((lines.drop (index + 1)).take accessWindow).findIdx? fun line =>
    Query.reachesThrough line variableName).map (· + index + 2)

/-- The candidate on the line with an index, if there is one. -/
def candidate?
    (lines : List Text)
    (index : Nat)
    (line : Text) : Option Candidate := do
  guard (Query.isFetch line)
  guard (!Query.loadsEagerly (Text.joinLines (surrounding lines index)))
  let variableName ← Query.assigned? line
  let accessLine ← access? lines index variableName
  return { line := index + 1, variableName, accessLine }

/-- All candidates of a text, by line. -/
def candidates (content : Text) : List Candidate :=
  let lines := Text.lines content
  lines.zipIdx.filterMap fun (line, index) => candidate? lines index line

/-- The finding on a candidate. -/
def repeatedQuery
    (file : SourceFile)
    (candidate : Candidate) : Finding where
  type := .potentialNPlusOne
  severity := .warning
  message :=
    ascii "Potential N+1 query: Query at line " ++ Text.ofNat candidate.line ++
      ascii " may need eager loading"
  suggestion := none
  location := .source file.displayPath candidate.line []

/-- The event for a candidate. -/
def candidateEvent
    (file : SourceFile)
    (candidate : Candidate) : Event where
  level := .debug
  message := ascii "n_plus_one.candidate"
  fields :=
    [(ascii "file", file.displayPath), (ascii "line", Text.ofNat candidate.line),
      (ascii "variable", candidate.variableName),
      (ascii "access_line", Text.ofNat candidate.accessLine)]

/-- Report each fetch in a controller that no eager loading surrounds and whose
records are soon accessed through a member. -/
def controllerNPlusOne : SourceRule where
  scope := ⟨[ascii "app/controllers"], [ascii ".rb"]⟩
  examine file := (candidates file.content).map (repeatedQuery file)
  events file := (candidates file.content).map (candidateEvent file)

/-- The finding on an association access in a view. -/
def viewAccess
    (file : SourceFile)
    (line : Nat) : Finding where
  type := .viewAssociationAccess
  severity := .info
  message := ascii "Association access in view - verify eager loading in controller"
  suggestion := none
  location := .source file.displayPath line []

/-- Report each line of a view that reaches through an association. -/
def viewAssociationAccess : SourceRule where
  scope := ⟨[ascii "app/views"], [ascii ".erb", ascii ".haml"]⟩
  examine file := (Text.lines file.content).zipIdx.filterMap fun (line, index) =>
    if Query.hasAssociationChain line then some (viewAccess file (index + 1)) else none

end SourceRule
end QueryAdvisor

import QueryAdvisor.Path.Basic

/-!
# Findings

A finding is what a rule reports: its type, its severity, a message, possibly
a suggestion, and the location it is about.
-/

namespace QueryAdvisor

/-- How serious a finding is. -/
inductive Severity where
  | warning
  | info
deriving DecidableEq, Repr

namespace Severity

/-- The name of a severity. -/
def name : Severity → Text
  | warning => ascii "warning"
  | info => ascii "info"

end Severity

/-- What a finding is about. -/
inductive FindingType where
  | missingForeignKeyIndex
  | booleanIndexOpportunity
  | whereClauseColumn
  | potentialNPlusOne
  | viewAssociationAccess
  | connectionPoolSize
  | statementTimeout
  | connectTimeout
  | checkoutTimeout
  | preparedStatements
  | reapingFrequency
  | sslConfiguration
  | performanceExtension
deriving DecidableEq, Repr

namespace FindingType

/-- All types, in the order in which reports list them. -/
def all : List FindingType :=
  [missingForeignKeyIndex, booleanIndexOpportunity, whereClauseColumn, potentialNPlusOne,
    viewAssociationAccess, connectionPoolSize, statementTimeout, connectTimeout,
    checkoutTimeout, preparedStatements, reapingFrequency, sslConfiguration,
    performanceExtension]

/-- The name of a type. -/
def name : FindingType → Text
  | missingForeignKeyIndex => ascii "missing_foreign_key_index"
  | booleanIndexOpportunity => ascii "boolean_index_opportunity"
  | whereClauseColumn => ascii "where_clause_column"
  | potentialNPlusOne => ascii "potential_n_plus_one"
  | viewAssociationAccess => ascii "view_association_access"
  | connectionPoolSize => ascii "connection_pool_size"
  | statementTimeout => ascii "statement_timeout"
  | connectTimeout => ascii "connect_timeout"
  | checkoutTimeout => ascii "checkout_timeout"
  | preparedStatements => ascii "prepared_statements"
  | reapingFrequency => ascii "reaping_frequency"
  | sslConfiguration => ascii "ssl_configuration"
  | performanceExtension => ascii "performance_extension"

end FindingType

/-- Where a finding applies. -/
inductive Location where
  /-- A column of a table. -/
  | schema (table column : Text)
  /-- A line of a source file, and the column it is about or an empty text. -/
  | source (file : Text) (line : Int) (column : Text)
  /-- A setting of an environment. -/
  | config (environment setting : Text)
deriving DecidableEq, Repr

/-- What a rule reports. -/
structure Finding where
  type : FindingType
  severity : Severity
  message : Text
  suggestion : Option Text
  location : Location
deriving DecidableEq, Repr

namespace Location

/-- The location as reports show it. -/
def label : Location → Text
  | schema table column => ascii "Table: " ++ table ++ ascii ", Column: " ++ column
  | source file line _ =>
    if 0 < line then file ++ ascii ":" ++ Text.ofInt line else file
  | config environment setting => ascii "[" ++ environment ++ ascii "] " ++ setting

end Location

namespace Finding

/-- Findings with the same key repeat each other.  A filtered column is known by
the name of its file, without directory and extension; other findings have an
empty key and repeat nothing. -/
def key (finding : Finding) : Text :=
  match finding.type, finding.location with
  | .whereClauseColumn, .source file _ column => Path.stem file ++ ascii ":" ++ column
  | _, _ => []

end Finding
end QueryAdvisor

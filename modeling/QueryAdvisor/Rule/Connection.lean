import QueryAdvisor.Connection.Settings
import QueryAdvisor.Finding.Basic

/-!
# Rules on connection settings

Each rule but the last looks at the analysed environments, in order, that the
configuration holds.
-/

namespace QueryAdvisor

/-- A rule that examines the database configuration. -/
structure ConfigRule where
  examine : DatabaseConfig → List Finding

namespace ConfigRule

/-- A finding on a setting of an environment. -/
def settingFinding
    (type : FindingType)
    (severity : Severity)
    (environment setting : Text)
    (message recommendation : Text) : Finding where
  type := type
  severity := severity
  message := message
  suggestion := some recommendation
  location := .config environment setting

/-- The number that a value stands for. -/
def integer? : Document → Option Int
  | .scalar value => value.integer?
  | _ => none

/-- Whether a value stands for false. -/
def isFalse : Document → Bool
  | .scalar value => value.boolean? == some false
  | _ => false

/-- Whether a key is a text. -/
def hasText
    (text : Text) : DocumentKey → Bool
  | .ok name => name == text
  | .error _ => false

/-- A rule that looks at each analysed environment by itself. -/
def onEnvironments (examine : Environment → List Finding) : ConfigRule where
  examine config := (DatabaseConfig.analyzed.filterMap config.find?).flatMap examine

/-- The environment that serves users. -/
def production : Text :=
  ascii "production"

/-- A pool smaller than this is reported. -/
def minimumPool : Int := 5

/-- A pool larger than this is reported. -/
def maximumPool : Int := 20

/-- Report a pool size that is not set, small or large. -/
def connectionPool : ConfigRule :=
  onEnvironments fun environment =>
    let report severity message recommendation :=
      settingFinding .connectionPoolSize severity environment.name (ascii "pool")
        message recommendation
    if environment.isUnset (ascii "pool") then
      [report .warning (ascii "Connection pool size not explicitly set (defaults to 5)")
        (ascii ("Set pool size based on your application threads/workers. " ++
          "For Puma with 5 threads: pool: 5"))]
    else
      match (environment.setting? (ascii "pool")).bind integer? with
      | some size =>
        if size < minimumPool then
          [report .warning
            (ascii "Connection pool size (" ++ Text.ofInt size ++ ascii ") is quite small")
            (ascii "Consider increasing pool size to match your web server threads/workers")]
        else if maximumPool < size then
          [report .info
            (ascii "Connection pool size (" ++ Text.ofInt size ++ ascii ") is quite large")
            (ascii ("Verify this matches your actual concurrency needs. " ++
              "Too many connections can strain PostgreSQL"))]
        else []
      | none => []

/-- Whether the session variables set a statement timeout. -/
def setsStatementTimeout (environment : Environment) : Bool :=
  match environment.setting? (ascii "variables") with
  | some (.mapping entries) => entries.any fun (key, _) => hasText (ascii "statement_timeout") key
  | _ => false

/-- Report timeouts that are not set. -/
def timeouts : ConfigRule :=
  onEnvironments fun environment =>
    (if setsStatementTimeout environment then []
    else
      [settingFinding .statementTimeout .warning environment.name (ascii "statement_timeout")
        (ascii "statement_timeout not configured")
        (ascii ("Add to database.yml:\n  variables:\n" ++
          "    statement_timeout: 30000  # 30 seconds in milliseconds"))]) ++
    (if (environment.setting? (ascii "connect_timeout")).isSome then []
    else
      [settingFinding .connectTimeout .info environment.name (ascii "connect_timeout")
        (ascii "connect_timeout not configured")
        (ascii "Add connect_timeout: 5 to prevent hanging on database connection issues")]) ++
    (if (environment.setting? (ascii "checkout_timeout")).isSome then []
    else
      [settingFinding .checkoutTimeout .info environment.name (ascii "checkout_timeout")
        (ascii "checkout_timeout not configured (defaults to 5 seconds)")
        (ascii "Explicitly set checkout_timeout: 5 for clarity")])

/-- Report prepared statements that are disabled, or left open in production. -/
def preparedStatements : ConfigRule :=
  onEnvironments fun environment =>
    let report message recommendation :=
      settingFinding .preparedStatements .info environment.name (ascii "prepared_statements")
        message recommendation
    if environment.isUnset (ascii "prepared_statements") then
      if environment.name == production then
        [report (ascii "Prepared statements setting not explicit")
          (ascii ("Add prepared_statements: true for better query performance " ++
            "(enabled by default)"))]
      else []
    else if (environment.setting? (ascii "prepared_statements")).any isFalse then
      [report (ascii "Prepared statements are disabled")
        (ascii ("Prepared statements improve performance. " ++
          "Only disable if using PgBouncer in transaction mode"))]
    else []

/-- Report that stale connections are not reaped in production. -/
def reapingFrequency : ConfigRule :=
  onEnvironments fun environment =>
    if environment.name == production &&
        (environment.setting? (ascii "reaping_frequency")).isNone then
      [settingFinding .reapingFrequency .info environment.name (ascii "reaping_frequency")
        (ascii "reaping_frequency not configured")
        (ascii "Consider adding reaping_frequency: 60 to clean up stale connections (seconds)")]
    else []

/-- Whether a value of `sslmode` switches encryption off.  Scalars that stand for
false or for zero do so as well as `disable`. -/
def disablesSsl : Document → Bool
  | .scalar value =>
    value.boolean? == some false || value.integer? == some 0 || value.text.isEmpty ||
      value.text == ascii "disable"
  | _ => false

/-- Report connections that are not encrypted in production. -/
def sslConfiguration : ConfigRule :=
  onEnvironments fun environment =>
    if environment.name == production &&
        (environment.isUnset (ascii "sslmode") ||
          (environment.setting? (ascii "sslmode")).any disablesSsl) then
      [settingFinding .sslConfiguration .warning environment.name (ascii "sslmode")
        (ascii "SSL/TLS not enforced for production database connections")
        (ascii "Add sslmode: require or sslmode: verify-full for secure connections")]
    else []

/-- Recommend the extension that collects statistics on statements. -/
def performanceExtension : ConfigRule where
  examine _ :=
    [settingFinding .performanceExtension .info (ascii "all") (ascii "extensions")
      (ascii "Consider enabling pg_stat_statements extension")
      (ascii ("Enable in PostgreSQL config:\n" ++
        "  shared_preload_libraries = 'pg_stat_statements'\n" ++
        "Then run: CREATE EXTENSION IF NOT EXISTS pg_stat_statements;"))]

end ConfigRule
end QueryAdvisor

import QueryAdvisor.Registry.Basic

/-!
# The standard registry

All rules of the library, the standard reporter, and the rules of each suite.
-/

namespace QueryAdvisor
namespace Registry

/-- The registry with all components of the library. -/
def standard : Registry where
  schemaRules :=
    [(ascii "missing-foreign-key-index", .makes .missingForeignKeyIndex),
      (ascii "boolean-index-opportunity", .makes .booleanIndexOpportunity)]
  sourceRules :=
    [(ascii "where-clause-column", .makes .whereClauseColumn),
      (ascii "controller-n-plus-one", .makes .controllerNPlusOne),
      (ascii "view-association-access", .makes .viewAssociationAccess)]
  configRules :=
    [(ascii "connection-pool", .makes .connectionPool),
      (ascii "timeouts", .makes .timeouts),
      (ascii "prepared-statements", .makes .preparedStatements),
      (ascii "reaping-frequency", .makes .reapingFrequency),
      (ascii "ssl-configuration", .makes .sslConfiguration),
      (ascii "performance-extension", .makes .performanceExtension)]
  reporters := [(ascii "text", .makes .standard)]
  defaultReporter := ascii "text"
  suiteRules
    | .indexes =>
      [ascii "missing-foreign-key-index", ascii "where-clause-column",
        ascii "boolean-index-opportunity"]
    | .nPlusOne => [ascii "controller-n-plus-one", ascii "view-association-access"]
    | .config =>
      [ascii "connection-pool", ascii "timeouts", ascii "prepared-statements",
        ascii "reaping-frequency", ascii "ssl-configuration", ascii "performance-extension"]

end Registry
end QueryAdvisor

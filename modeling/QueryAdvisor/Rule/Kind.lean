import QueryAdvisor.Text.Basic

/-!
# Kinds of rules

A rule looks at the schema, at one source file at a time, or at the database
configuration.
-/

namespace QueryAdvisor

/-- What a rule examines. -/
inductive RuleKind where
  | schema
  | source
  | config
deriving DecidableEq, Repr

namespace RuleKind

/-- The name of a kind. -/
def name : RuleKind → Text
  | schema => ascii "schema"
  | source => ascii "source"
  | config => ascii "config"

end RuleKind
end QueryAdvisor

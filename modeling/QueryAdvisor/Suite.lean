import QueryAdvisor.Fault

/-!
# Suites

A suite is a set of rules that is run together under one command.
-/

namespace QueryAdvisor

/-- The commands of the advisor. -/
inductive Suite where
  /-- Missing indexes, boolean columns and filtered columns. -/
  | indexes
  /-- Queries that are likely to be repeated for every record. -/
  | nPlusOne
  /-- Connection settings. -/
  | config
deriving DecidableEq, Repr

namespace Suite

/-- The name of a suite, which is also its command. -/
def name : Suite → Text
  | indexes => ascii "indexes"
  | nPlusOne => ascii "n-plus-one"
  | config => ascii "config"

/-- The suite of a command. -/
def parse (command : Text) : Except Fault Suite :=
  if command = indexes.name then .ok indexes
  else if command = nPlusOne.name then .ok nPlusOne
  else if command = config.name then .ok config
  else .error (.unknownCommand command)

end Suite
end QueryAdvisor

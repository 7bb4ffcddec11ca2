import QueryAdvisor.Ordered
import QueryAdvisor.Report.Reporter
import QueryAdvisor.Rule.Connection
import QueryAdvisor.Rule.Schema
import QueryAdvisor.Rule.Source

/-!
# The registry of components

Rules and reporters are registered under names.  No two rules share a name,
whatever their kinds; reporters have names of their own.  Each suite has a
list of rules, all of which are registered.

A factory either makes its component or nothing; factories that raise a fault of
their own are left out.  Only reporters have a default name, since nothing asks
for that of a set of rules.
-/

namespace QueryAdvisor

/-- How a component is made when it is asked for. -/
inductive Factory (α : Type) where
  /-- There is no factory. -/
  | missing
  /-- The factory makes nothing. -/
  | fruitless
  /-- The factory makes a component. -/
  | makes (component : α)

namespace Factory

variable {α : Type}

/-- Whether there is a factory at all. -/
def isMissing : Factory α → Bool
  | missing => true
  | _ => false

/-- The component, if the factory makes one. -/
def made? : Factory α → Option α
  | makes component => some component
  | _ => none

end Factory

/-- Registered components: names with factories, in the order of registration. -/
abbrev Components (α : Type) := List (Text × Factory α)

namespace Components

variable {α : Type}

/-- The registered names. -/
def names (components : Components α) : List Text :=
  components.map Prod.fst

/-- Register a component under a new name. -/
def register
    (components : Components α)
    (name : Text)
    (factory : Factory α) : Except Fault (Components α) :=
  if name.isEmpty then .error .nameEmpty
  else if factory.isMissing then .error (.factoryMissing name)
  else if components.names.contains name then .error (.nameTaken name)
  else .ok (components ++ [(name, factory)])

end Components

/-- Registered rules and reporters, and the rules of each suite. -/
structure Registry where
  schemaRules : Components SchemaRule
  sourceRules : Components SourceRule
  configRules : Components ConfigRule
  reporters : Components Reporter
  /-- The reporter used when none is named, or an empty text. -/
  defaultReporter : Text
  suiteRules : Suite → List Text

namespace Registry

/-- The registry without components. -/
def empty : Registry where
  schemaRules := []
  sourceRules := []
  configRules := []
  reporters := []
  defaultReporter := []
  suiteRules _ := []

/-- The kind of the rule with a name, if there is one. -/
def kind?
    (registry : Registry)
    (name : Text) : Option RuleKind :=
  if registry.schemaRules.names.contains name then some .schema
  else if registry.sourceRules.names.contains name then some .source
  else if registry.configRules.names.contains name then some .config
  else none

/-- The names of all rules, sorted. -/
def ruleNames (registry : Registry) : List Text :=
  Ordered.sort Text.precedes
    (registry.schemaRules.names ++ registry.sourceRules.names ++ registry.configRules.names)

/-- The names of all reporters, sorted. -/
def reporterNames (registry : Registry) : List Text :=
  Ordered.sort Text.precedes registry.reporters.names

/-- The kind of the rule with a name. -/
def kindOf
    (registry : Registry)
    (name : Text) : Except Fault RuleKind :=
  match registry.kind? name with
  | some kind => .ok kind
  | none => .error (.unknownRule name registry.ruleNames)

/-- Refuse a name that some rule has. -/
def requireNew
    (registry : Registry)
    (name : Text) : Except Fault Unit :=
  if (registry.kind? name).isSome then .error (.nameTaken name) else .ok ()

/-- Register a rule on the schema. -/
def registerSchemaRule
    (registry : Registry)
    (name : Text)
    (factory : Factory SchemaRule) : Except Fault Registry := do
  registry.requireNew name
  return { registry with schemaRules := ← registry.schemaRules.register name factory }

/-- Register a rule on source files. -/
def registerSourceRule
    (registry : Registry)
    (name : Text)
    (factory : Factory SourceRule) : Except Fault Registry := do
  registry.requireNew name
  return { registry with sourceRules := ← registry.sourceRules.register name factory }

/-- Register a rule on the database configuration. -/
def registerConfigRule
    (registry : Registry)
    (name : Text)
    (factory : Factory ConfigRule) : Except Fault Registry := do
  registry.requireNew name
  return { registry with configRules := ← registry.configRules.register name factory }

/-- Register a reporter.  The first one becomes the default, and so does every
later one for which `makeDefault` holds. -/
def registerReporter
    (registry : Registry)
    (name : Text)
    (factory : Factory Reporter)
    (makeDefault : Bool) : Except Fault Registry := do
  let reporters ← registry.reporters.register name factory
  let takesOver := makeDefault || registry.defaultReporter.isEmpty
  return { registry with
    reporters
    defaultReporter := if takesOver then name else registry.defaultReporter }

/-- Give a suite its rules, all of which have to be registered. -/
def setSuiteRules
    (registry : Registry)
    (suite : Suite)
    (names : List Text) : Except Fault Registry := do
  let _ ← names.mapM registry.kindOf
  return { registry with
    suiteRules := fun other => if other = suite then names else registry.suiteRules other }

/-- Make the rule of a kind with a name. -/
def createRule {α : Type}
    (kind : RuleKind)
    (components : Components α)
    (name : Text) : Except Fault α :=
  match components.lookup name with
  | none => .error (.unknownRuleOf kind name)
  | some factory =>
    match factory.made? with
    | none => .error (.ruleNotMade name)
    | some rule => .ok rule

/-- Make a rule on the schema. -/
def createSchemaRule
    (registry : Registry)
    (name : Text) : Except Fault SchemaRule :=
  createRule .schema registry.schemaRules name

/-- Make a rule on source files. -/
def createSourceRule
    (registry : Registry)
    (name : Text) : Except Fault SourceRule :=
  createRule .source registry.sourceRules name

/-- Make a rule on the database configuration. -/
def createConfigRule
    (registry : Registry)
    (name : Text) : Except Fault ConfigRule :=
  createRule .config registry.configRules name

/-- Make the reporter with a name; an empty name asks for the default one. -/
def createReporter
    (registry : Registry)
    (name : Text) : Except Fault Reporter :=
  let name := if name.isEmpty then registry.defaultReporter else name
  if name.isEmpty then .error .noReporter
  else
    match registry.reporters.lookup name with
    | none => .error (.unknownReporter name registry.reporterNames)
    | some factory =>
      match factory.made? with
      | none => .error (.reporterNotMade name)
      | some reporter => .ok reporter

end Registry
end QueryAdvisor

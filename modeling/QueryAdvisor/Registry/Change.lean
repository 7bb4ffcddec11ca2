import QueryAdvisor.Registry.Basic

/-!
# Changing a registry in place

A registry is put together by calls that change it one after the other.  A call
that meets a fault ends there, and whatever it has changed before stays changed,
so each call makes all its checks before its first change.
-/

namespace QueryAdvisor
namespace Registry

/-- A computation on a registry that may change it.  A fault ends the computation
but does not take back its changes. -/
abbrev Change (α : Type) := ExceptT Fault (StateM Registry) α

namespace Change

/-- What comes of a change, and the registry that it leaves. -/
def on {α : Type}
    (change : Change α)
    (registry : Registry) : Except Fault α × Registry :=
  (change.run.run registry).run

/-- Stop with a fault if the registry as it is satisfies a condition. -/
def refuseIf
    (condition : Registry → Bool)
    (fault : Fault) : Change Unit := do
  if condition (← get) then
    throw fault

/-- Register a component under a new name in one of the sets of the registry. -/
def register {α : Type}
    (components : Registry → Components α)
    (replace : Components α → Registry → Registry)
    (name : Text)
    (factory : Factory α) : Change Unit := do
  refuseIf (fun _ => name.isEmpty) .nameEmpty
  refuseIf (fun _ => factory.isMissing) (.factoryMissing name)
  refuseIf (fun registry => (components registry).names.contains name) (.nameTaken name)
  modify fun registry => replace (components registry ++ [(name, factory)]) registry

/-- Register a rule, whose name no rule of any kind may have. -/
def registerRule {α : Type}
    (components : Registry → Components α)
    (replace : Components α → Registry → Registry)
    (name : Text)
    (factory : Factory α) : Change Unit := do
  refuseIf (fun registry => (registry.kind? name).isSome) (.nameTaken name)
  register components replace name factory

/-- Register a rule on the schema. -/
def registerSchemaRule : Text → Factory SchemaRule → Change Unit :=
  registerRule schemaRules fun rules registry => { registry with schemaRules := rules }

/-- Register a rule on source files. -/
def registerSourceRule : Text → Factory SourceRule → Change Unit :=
  registerRule sourceRules fun rules registry => { registry with sourceRules := rules }

/-- Register a rule on the database configuration. -/
def registerConfigRule : Text → Factory ConfigRule → Change Unit :=
  registerRule configRules fun rules registry => { registry with configRules := rules }

/-- Register a reporter.  The first one becomes the default, and so does every
later one for which `makeDefault` holds. -/
def registerReporter
    (name : Text)
    (factory : Factory Reporter)
    (makeDefault : Bool) : Change Unit := do
  register reporters (fun reporters registry => { registry with reporters }) name factory
  if makeDefault || (← get).defaultReporter.isEmpty then
    modify fun registry => { registry with defaultReporter := name }

/-- Refuse a name that no rule has. -/
def requireKnown (name : Text) : Change Unit := do
  let _ ← (← get).kindOf name

/-- Give a suite its rules, all of which have to be registered. -/
def setSuiteRules
    (suite : Suite)
    (names : List Text) : Change Unit := do
  names.forM requireKnown
  modify fun registry => { registry with
    suiteRules := fun other => if other = suite then names else registry.suiteRules other }

end Change
end Registry
end QueryAdvisor

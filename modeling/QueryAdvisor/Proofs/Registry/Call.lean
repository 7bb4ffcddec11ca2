import Mathlib.Tactic.SplitIfs
import QueryAdvisor.Registry.Change

/-!
# Calls to a registry

Each call either is refused and leaves the registry as it was, or has exactly the
effect that is computed without changing anything in place.
-/

namespace QueryAdvisor
namespace Registry

namespace Change

section On

variable {α β : Type} {change : Change α} {next : α → Change β} {registry left : Registry}

/-- A change that is done is followed by the next one. -/
theorem on_bind_of_ok
    {value : α}
    (done : change.on registry = (.ok value, left)) :
    (change >>= next).on registry = (next value).on left := by
  rw [on] at done
  rw [on, ExceptT.run_bind, StateT.run_bind, Id.run_bind, done]
  rfl

/-- A fault ends everything and leaves what was changed before. -/
theorem on_bind_of_error
    {fault : Fault}
    (stopped : change.on registry = (.error fault, left)) :
    (change >>= next).on registry = (.error fault, left) := by
  rw [on] at stopped
  rw [on, ExceptT.run_bind, StateT.run_bind, Id.run_bind, stopped]
  rfl

theorem on_refuseIf_bind
    (condition : Registry → Bool)
    (fault : Fault)
    (next : Unit → Change α)
    (registry : Registry) :
    (refuseIf condition fault >>= next).on registry =
      if condition registry then (.error fault, registry) else (next ()).on registry := by
  have opened : (refuseIf condition fault).on registry =
      (if condition registry then throw fault else pure () : Change Unit).on registry := rfl
  cases holds : condition registry with
  | true =>
      rw [holds] at opened
      exact on_bind_of_error opened
  | false =>
      rw [holds] at opened
      exact on_bind_of_ok opened

end On

/-- What a call comes to if it is either refused or accepted as a whole. -/
def settled
    (registry : Registry)
    (outcome : Except Fault Registry) : Except Fault Unit × Registry :=
  (outcome.map fun _ => (), outcome.toOption.getD registry)

theorem on_register {α : Type}
    (components : Registry → Components α)
    (replace : Components α → Registry → Registry)
    (name : Text)
    (factory : Factory α)
    (registry : Registry) :
    (register components replace name factory).on registry =
      settled registry (((components registry).register name factory).map
        (replace · registry)) := by
  rw [register, Components.register, on_refuseIf_bind, on_refuseIf_bind, on_refuseIf_bind]
  split_ifs <;> rfl

theorem on_registerRule {α : Type}
    (components : Registry → Components α)
    (replace : Components α → Registry → Registry)
    (name : Text)
    (factory : Factory α)
    (registry : Registry) :
    (registerRule components replace name factory).on registry =
      settled registry (registry.requireNew name >>= fun _ =>
        ((components registry).register name factory).map (replace · registry)) := by
  rw [registerRule, on_refuseIf_bind, on_register, requireNew]
  split_ifs <;> rfl

theorem on_registerReporter
    (name : Text)
    (factory : Factory Reporter)
    (makeDefault : Bool)
    (registry : Registry) :
    (registerReporter name factory makeDefault).on registry =
      settled registry (registry.registerReporter name factory makeDefault) := by
  have registered := on_register reporters
    (fun reporters registry => { registry with reporters }) name factory registry
  rw [registerReporter, Registry.registerReporter]
  cases outcome : registry.reporters.register name factory with
  | error fault =>
      rw [outcome] at registered
      exact on_bind_of_error registered
  | ok reporters =>
      rw [outcome] at registered
      refine (on_bind_of_ok registered).trans ?_
      -- The default does not change before it is looked at.
      change (if makeDefault || registry.defaultReporter.isEmpty then
        modify fun registry => { registry with defaultReporter := name } else pure () :
          Change Unit).on { registry with reporters } = _
      cases takesOver : makeDefault || registry.defaultReporter.isEmpty with
      | true => rfl
      | false => rfl

theorem on_requireKnown
    (name : Text)
    (registry : Registry) :
    (requireKnown name).on registry = ((registry.kindOf name).map fun _ => (), registry) := by
  have opened : (requireKnown name).on registry =
      (liftM (registry.kindOf name) >>= fun _ => pure () : Change Unit).on registry := rfl
  rw [opened]
  cases registry.kindOf name <;> rfl

theorem on_forM_requireKnown
    (names : List Text)
    (registry : Registry) :
    (names.forM requireKnown).on registry =
      ((names.mapM registry.kindOf).map fun _ => (), registry) := by
  induction names with
  | nil => rfl
  | cons name rest inductionHypothesis =>
      have first := on_requireKnown name registry
      change (requireKnown name >>= fun _ => rest.forM requireKnown).on registry = _
      rw [List.mapM_cons]
      cases kind : registry.kindOf name with
      | error fault =>
          rw [kind] at first
          exact on_bind_of_error first
      | ok found =>
          rw [kind] at first
          refine (on_bind_of_ok first).trans (inductionHypothesis.trans ?_)
          cases rest.mapM registry.kindOf <;> rfl

theorem on_setSuiteRules
    (suite : Suite)
    (names : List Text)
    (registry : Registry) :
    (setSuiteRules suite names).on registry =
      settled registry (registry.setSuiteRules suite names) := by
  have checked := on_forM_requireKnown names registry
  rw [setSuiteRules, Registry.setSuiteRules]
  cases kinds : names.mapM registry.kindOf with
  | error fault =>
      rw [kinds] at checked
      exact on_bind_of_error checked
  | ok found =>
      rw [kinds] at checked
      exact on_bind_of_ok checked

end Change

/-- A call to a registry. -/
inductive Call where
  | registerSchemaRule (name : Text) (factory : Factory SchemaRule)
  | registerSourceRule (name : Text) (factory : Factory SourceRule)
  | registerConfigRule (name : Text) (factory : Factory ConfigRule)
  | registerReporter (name : Text) (factory : Factory Reporter) (makeDefault : Bool)
  | setSuiteRules (suite : Suite) (names : List Text)

namespace Call

/-- Carry out a call in place. -/
def perform : Call → Change Unit
  | registerSchemaRule name factory => .registerSchemaRule name factory
  | registerSourceRule name factory => .registerSourceRule name factory
  | registerConfigRule name factory => .registerConfigRule name factory
  | registerReporter name factory makeDefault => .registerReporter name factory makeDefault
  | setSuiteRules suite names => .setSuiteRules suite names

/-- What a call makes of a registry, or why it is refused. -/
def outcome
    (registry : Registry) : Call → Except Fault Registry
  | registerSchemaRule name factory => registry.registerSchemaRule name factory
  | registerSourceRule name factory => registry.registerSourceRule name factory
  | registerConfigRule name factory => registry.registerConfigRule name factory
  | registerReporter name factory makeDefault => registry.registerReporter name factory makeDefault
  | setSuiteRules suite names => registry.setSuiteRules suite names

/-- A call is refused or accepted as a whole. -/
theorem on_perform
    (call : Call)
    (registry : Registry) :
    call.perform.on registry = Change.settled registry (call.outcome registry) := by
  cases call with
  | registerSchemaRule name factory => exact Change.on_registerRule schemaRules _ _ _ _
  | registerSourceRule name factory => exact Change.on_registerRule sourceRules _ _ _ _
  | registerConfigRule name factory => exact Change.on_registerRule configRules _ _ _ _
  | registerReporter name factory makeDefault => exact Change.on_registerReporter _ _ _ _
  | setSuiteRules suite names => exact Change.on_setSuiteRules _ _ _

/-- A call that meets a fault leaves the registry as it was. -/
theorem on_perform_of_error
    {call : Call}
    {registry : Registry}
    {fault : Fault}
    (refused : (call.perform.on registry).1 = .error fault) :
    (call.perform.on registry).2 = registry := by
  rw [on_perform] at refused ⊢
  cases outcome : call.outcome registry with
  | error fault => rfl
  | ok next =>
      rw [outcome] at refused
      contradiction

end Call

end Registry
end QueryAdvisor

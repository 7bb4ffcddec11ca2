import Mathlib.Data.List.Nodup
import QueryAdvisor.Proofs.Registry.Session

/-!
# What a registry answers

At the end of every session the kind of a name agrees with the rules that can be
made under it, suites name rules that are there, the list of rule names is
strictly increasing, and there is a default reporter as soon as there is a
reporter.
-/

namespace QueryAdvisor
namespace Registry

/-- Asking for a rule of a kind is answered by saying that no such rule is known.
A rule that is known but not made is another answer. -/
def ReportsUnknown
    (registry : Registry)
    (name : Text) : RuleKind → Prop
  | .schema => registry.createSchemaRule name = .error (.unknownRuleOf .schema name)
  | .source => registry.createSourceRule name = .error (.unknownRuleOf .source name)
  | .config => registry.createConfigRule name = .error (.unknownRuleOf .config name)

theorem createRule_eq_unknown_iff {α : Type}
    {kind : RuleKind}
    {components : Components α}
    {name : Text} :
    createRule kind components name = .error (.unknownRuleOf kind name) ↔
      name ∉ components.names := by
  have absent_iff : components.lookup name = none ↔ name ∉ components.names := by
    rw [List.lookup_eq_none_iff, Components.names, List.mem_map]
    constructor
    · rintro differs ⟨component, member, rfl⟩
      simpa using differs component member
    · intro absent component member
      rw [bne_iff_ne]
      rintro rfl
      exact absent ⟨component, member, rfl⟩
  rw [createRule, ← absent_iff]
  cases components.lookup name with
  | none => simp
  | some factory => cases factory <;> simp [Factory.made?]

theorem reportsUnknown_iff
    {registry : Registry}
    {name : Text}
    {kind : RuleKind} :
    registry.ReportsUnknown name kind ↔ name ∉ registry.namesOf kind := by
  cases kind <;> exact createRule_eq_unknown_iff

namespace Follows

variable {registry : Registry} {accepted : List Call} {name : Text} {kind other : RuleKind}

/-- No two kinds share a name. -/
theorem kind_unique
    (follows : registry.Follows accepted)
    (member : name ∈ registry.namesOf kind)
    (otherMember : name ∈ registry.namesOf other) :
    kind = other := by
  have same := List.inj_on_of_nodup_map follows.distinct (follows.mem_rulesOf_iff.mpr member)
    (follows.mem_rulesOf_iff.mpr otherMember) rfl
  exact congrArg Prod.fst same

theorem kindOf_eq_ok_iff_mem
    (follows : registry.Follows accepted) :
    registry.kindOf name = .ok kind ↔ name ∈ registry.namesOf kind := by
  rw [kindOf_eq_ok_iff]
  refine ⟨mem_namesOf_of_kind?_eq_some, ?_⟩
  intro member
  cases known : registry.kind? name with
  | none => exact absurd member (Registry.kind?_eq_none_iff.mp known kind)
  | some found => rw [follows.kind_unique member (mem_namesOf_of_kind?_eq_some known)]

theorem unnamed_not_mem
    (follows : registry.Follows accepted)
    (kind : RuleKind) :
    [] ∉ registry.namesOf kind := by
  intro member
  exact follows.named (List.mem_map_of_mem (f := Prod.snd) (follows.mem_rulesOf_iff.mpr member))

theorem nodup_namesOf
    (follows : registry.Follows accepted)
    (kind : RuleKind) :
    (registry.namesOf kind).Nodup := by
  rw [follows.namesOf_eq]
  exact follows.distinct.sublist (List.filter_sublist.map Prod.snd)

theorem mem_ruleNames_iff
    (follows : registry.Follows accepted) :
    name ∈ registry.ruleNames ↔ ∃ kind, (kind, name) ∈ rulesOf accepted := by
  simp only [follows.mem_rulesOf_iff]
  rw [ruleNames, (Ordered.perm_sort _ _).mem_iff, List.mem_append, List.mem_append]
  constructor
  · rintro ((member | member) | member)
    · exact ⟨.schema, member⟩
    · exact ⟨.source, member⟩
    · exact ⟨.config, member⟩
  · rintro ⟨kind, member⟩
    cases kind with
    | schema => exact .inl (.inl member)
    | source => exact .inl (.inr member)
    | config => exact .inr member

theorem pairwise_before_ruleNames
    (follows : registry.Follows accepted) :
    registry.ruleNames.Pairwise Text.Before := by
  have disjoint : ∀ kind other, kind ≠ other →
      List.Disjoint (registry.namesOf kind) (registry.namesOf other) :=
    fun _ _ different _ member otherMember => different (follows.kind_unique member otherMember)
  have schemaSource := (follows.nodup_namesOf .schema).append (follows.nodup_namesOf .source)
    (disjoint .schema .source (by decide))
  refine Text.pairwise_before_sort (schemaSource.append (follows.nodup_namesOf .config) ?_)
  exact List.disjoint_append_left.mpr
    ⟨disjoint .schema .config (by decide), disjoint .source .config (by decide)⟩

theorem defaultReporter_eq_nil_iff
    (follows : registry.Follows accepted) :
    registry.defaultReporter = [] ↔ reportersOf accepted = [] := by
  rw [follows.defaultReporter_eq]
  constructor
  · intro unnamed
    by_contra nonempty
    exact follows.reportersNamed (unnamed ▸ chosenReporter_mem nonempty)
  · intro noReporters
    rw [noReporters]
    rfl

end Follows

/-- After every sequence of calls, the refused ones passed over:

* a further call that is refused leaves the registry as it was;
* no rule has an empty name and no two kinds share one, so that a name has a kind
  exactly if a rule of that kind is known, and none of the other kinds is;
* every rule of a suite has a kind;
* the rule names are strictly increasing, and are those of the accepted calls;
* the default reporter is the last accepted one that was to be the default, or
  else the first accepted one, and is empty only without a reporter. -/
theorem session_registry_answers
    (calls : List Call) :
    let registry := (session calls).registry
    let accepted := (session calls).accepted
    (∀ (call : Call) fault, (call.perform.on registry).1 = .error fault →
      (call.perform.on registry).2 = registry) ∧
    ((∀ kind, [] ∉ registry.namesOf kind) ∧
      (∀ name kind other, name ∈ registry.namesOf kind → name ∈ registry.namesOf other →
        kind = other) ∧
      ∀ name kind,
        (registry.kindOf name = .ok kind ↔ ¬ registry.ReportsUnknown name kind) ∧
        (registry.kindOf name = .ok kind →
          ∀ other, other ≠ kind → registry.ReportsUnknown name other)) ∧
    (∀ suite, ∀ name ∈ registry.suiteRules suite, ∃ kind, registry.kindOf name = .ok kind) ∧
    (registry.ruleNames.Pairwise Text.Before ∧
      ∀ name, name ∈ registry.ruleNames ↔ ∃ kind, (kind, name) ∈ rulesOf accepted) ∧
    (registry.reporters.names = (reportersOf accepted).map Prod.fst ∧
      (registry.defaultReporter = [] ↔ registry.reporters = []) ∧
      registry.defaultReporter = chosenReporter (reportersOf accepted)) := by
  intro registry accepted
  have follows : registry.Follows accepted := follows_session calls
  refine ⟨fun call fault => Call.on_perform_of_error, ⟨follows.unnamed_not_mem,
    fun name kind other => follows.kind_unique, ?_⟩, ?_,
    ⟨follows.pairwise_before_ruleNames, fun name => follows.mem_ruleNames_iff⟩,
    follows.reporterNames_eq, ?_, follows.defaultReporter_eq⟩
  · intro name kind
    rw [reportsUnknown_iff, not_not, follows.kindOf_eq_ok_iff_mem]
    refine ⟨Iff.rfl, ?_⟩
    intro member other different
    rw [reportsUnknown_iff]
    exact fun otherMember => different (follows.kind_unique otherMember member)
  · intro suite name member
    obtain ⟨kind, known⟩ := Option.ne_none_iff_exists'.mp
      (follows.suiteRules_known suite name member)
    exact ⟨kind, kindOf_eq_ok_iff.mpr known⟩
  · have names := follows.reporterNames_eq
    rw [follows.defaultReporter_eq_nil_iff]
    rw [← List.map_eq_nil_iff, ← names, Components.names, List.map_eq_nil_iff]

end Registry
end QueryAdvisor

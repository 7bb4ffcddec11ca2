import QueryAdvisor.Proofs.Registry.Call

/-!
# Accepted calls

What a call has to satisfy to be accepted, and what it then does to the registry.
A rule needs a factory and a name that is neither empty nor that of another rule,
whatever their kinds; a reporter needs a name that no reporter has; the rules of a
suite have to be there.
-/

namespace QueryAdvisor

/-- Registering succeeds with a factory and a new name, and adds the component
behind the others. -/
theorem Components.register_eq_ok_iff {α : Type}
    {components next : Components α}
    {name : Text}
    {factory : Factory α} :
    components.register name factory = .ok next ↔
      name ≠ [] ∧ factory.isMissing = false ∧ name ∉ components.names ∧
        next = components ++ [(name, factory)] := by
  rw [register]
  split_ifs with unnamed missing taken
  · simp [List.isEmpty_iff.mp unnamed]
  · simp [missing]
  · simp [List.contains_iff_mem.mp taken]
  · have notUnnamed : name ≠ [] := by simpa using unnamed
    have notMissing : factory.isMissing = false := by simpa using missing
    have notTaken : name ∉ components.names := by simpa using taken
    simp [notUnnamed, notMissing, notTaken, eq_comm]

namespace Registry

/-- The names of the rules of a kind. -/
def namesOf
    (registry : Registry) : RuleKind → List Text
  | .schema => registry.schemaRules.names
  | .source => registry.sourceRules.names
  | .config => registry.configRules.names

section Kinds

variable {registry : Registry} {name : Text} {kind : RuleKind}

theorem mem_namesOf_of_kind?_eq_some
    (known : registry.kind? name = some kind) :
    name ∈ registry.namesOf kind := by
  rw [kind?] at known
  split_ifs at known with schema source config
  · cases known
    exact List.contains_iff_mem.mp schema
  · cases known
    exact List.contains_iff_mem.mp source
  · cases known
    exact List.contains_iff_mem.mp config

theorem kind?_eq_none_iff :
    registry.kind? name = none ↔ ∀ kind, name ∉ registry.namesOf kind := by
  constructor
  · intro unknown kind member
    rw [kind?] at unknown
    split_ifs at unknown with schema source config
    cases kind <;> simp_all [namesOf]
  · intro absent
    cases known : registry.kind? name with
    | none => rfl
    | some kind => exact absurd (mem_namesOf_of_kind?_eq_some known) (absent kind)

end Kinds

/-- What a rule needs to be registered. -/
structure AdmitsRule {α : Type}
    (registry : Registry)
    (name : Text)
    (factory : Factory α) : Prop where
  named : name ≠ []
  made : factory.isMissing = false
  unknown : registry.kind? name = none

/-- A rule is registered if it is admitted, in the set of its kind. -/
theorem registerRule_eq_ok_iff {α : Type}
    {registry next : Registry}
    {components : Components α}
    {replace : Components α → Registry}
    {name : Text}
    {factory : Factory α}
    (kind : RuleKind)
    (names : components.names = registry.namesOf kind) :
    (registry.requireNew name >>= fun _ =>
        (components.register name factory).map replace) = .ok next ↔
      registry.AdmitsRule name factory ∧ next = replace (components ++ [(name, factory)]) := by
  rw [requireNew]
  cases known : registry.kind? name with
  | some kind =>
      refine ⟨fun accepted => by contradiction, ?_⟩
      rintro ⟨admitted, _⟩
      rw [admitted.unknown] at known
      contradiction
  | none =>
      change (components.register name factory).map replace = .ok next ↔ _
      have absent : name ∉ components.names := names ▸ kind?_eq_none_iff.mp known kind
      constructor
      · intro accepted
        cases registered : components.register name factory with
        | error fault =>
            rw [registered] at accepted
            contradiction
        | ok added =>
            obtain ⟨named, made, _, rfl⟩ := Components.register_eq_ok_iff.mp registered
            rw [registered] at accepted
            exact ⟨⟨named, made, known⟩, (Except.ok.inj accepted).symm⟩
      · rintro ⟨admitted, rfl⟩
        rw [Components.register_eq_ok_iff.mpr ⟨admitted.named, admitted.made, absent, rfl⟩]
        rfl

theorem registerReporter_eq_ok_iff
    {registry next : Registry}
    {name : Text}
    {factory : Factory Reporter}
    {makeDefault : Bool} :
    registry.registerReporter name factory makeDefault = .ok next ↔
      (name ≠ [] ∧ factory.isMissing = false ∧ name ∉ registry.reporters.names) ∧
        next = { registry with
          reporters := registry.reporters ++ [(name, factory)]
          defaultReporter :=
            if makeDefault || registry.defaultReporter.isEmpty then name
            else registry.defaultReporter } := by
  rw [registerReporter]
  constructor
  · intro accepted
    cases registered : registry.reporters.register name factory with
    | error fault =>
        rw [registered] at accepted
        contradiction
    | ok added =>
        obtain ⟨named, made, unknown, rfl⟩ := Components.register_eq_ok_iff.mp registered
        rw [registered] at accepted
        exact ⟨⟨named, made, unknown⟩, (Except.ok.inj accepted).symm⟩
  · rintro ⟨⟨named, made, unknown⟩, rfl⟩
    rw [Components.register_eq_ok_iff.mpr ⟨named, made, unknown, rfl⟩]
    rfl

theorem kindOf_eq_ok_iff
    {registry : Registry}
    {name : Text}
    {kind : RuleKind} :
    registry.kindOf name = .ok kind ↔ registry.kind? name = some kind := by
  rw [kindOf]
  cases registry.kind? name with
  | none => simp
  | some found => simp

theorem exists_mapM_kindOf_eq_ok_iff
    {registry : Registry}
    {names : List Text} :
    (∃ kinds, names.mapM registry.kindOf = .ok kinds) ↔
      ∀ name ∈ names, registry.kind? name ≠ none := by
  induction names with
  | nil => exact ⟨fun _ _ member => absurd member List.not_mem_nil, fun _ => ⟨[], rfl⟩⟩
  | cons name rest inductionHypothesis =>
      rw [List.mapM_cons, List.forall_mem_cons, ← inductionHypothesis]
      cases known : registry.kind? name with
      | none =>
          have refused : registry.kindOf name = .error (.unknownRule name registry.ruleNames) := by
            rw [kindOf, known]
          rw [refused]
          refine ⟨?_, fun ⟨noKind, _⟩ => absurd rfl noKind⟩
          rintro ⟨kinds, accepted⟩
          contradiction
      | some kind =>
          rw [kindOf_eq_ok_iff.mpr known]
          cases rest.mapM registry.kindOf with
          | error fault =>
              refine ⟨?_, fun ⟨_, kinds, found⟩ => by contradiction⟩
              rintro ⟨kinds, accepted⟩
              contradiction
          | ok others =>
              exact ⟨fun _ => ⟨Option.some_ne_none kind, others, rfl⟩,
                fun _ => ⟨kind :: others, rfl⟩⟩

theorem setSuiteRules_eq_ok_iff
    {registry next : Registry}
    {suite : Suite}
    {names : List Text} :
    registry.setSuiteRules suite names = .ok next ↔
      (∀ name ∈ names, registry.kind? name ≠ none) ∧
        next = { registry with
          suiteRules := fun other =>
            if other = suite then names else registry.suiteRules other } := by
  rw [setSuiteRules, ← exists_mapM_kindOf_eq_ok_iff]
  cases kinds : names.mapM registry.kindOf with
  | error fault =>
      refine ⟨fun accepted => by contradiction, ?_⟩
      rintro ⟨⟨_, found⟩, _⟩
      contradiction
  | ok found =>
      constructor
      · intro accepted
        exact ⟨⟨found, rfl⟩, (Except.ok.inj accepted).symm⟩
      · rintro ⟨_, rfl⟩
        rfl

/-- How a call changes a registry that accepts it. -/
inductive Accepts (registry : Registry) : Call → Registry → Prop where
  | schemaRule {name : Text} {factory : Factory SchemaRule}
      (admitted : registry.AdmitsRule name factory) :
      Accepts registry (.registerSchemaRule name factory)
        { registry with schemaRules := registry.schemaRules ++ [(name, factory)] }
  | sourceRule {name : Text} {factory : Factory SourceRule}
      (admitted : registry.AdmitsRule name factory) :
      Accepts registry (.registerSourceRule name factory)
        { registry with sourceRules := registry.sourceRules ++ [(name, factory)] }
  | configRule {name : Text} {factory : Factory ConfigRule}
      (admitted : registry.AdmitsRule name factory) :
      Accepts registry (.registerConfigRule name factory)
        { registry with configRules := registry.configRules ++ [(name, factory)] }
  | reporter {name : Text} {factory : Factory Reporter} {makeDefault : Bool}
      (named : name ≠ [])
      (made : factory.isMissing = false)
      (unknown : name ∉ registry.reporters.names) :
      Accepts registry (.registerReporter name factory makeDefault)
        { registry with
          reporters := registry.reporters ++ [(name, factory)]
          defaultReporter :=
            if makeDefault || registry.defaultReporter.isEmpty then name
            else registry.defaultReporter }
  | suiteRules {suite : Suite} {names : List Text}
      (known : ∀ name ∈ names, registry.kind? name ≠ none) :
      Accepts registry (.setSuiteRules suite names)
        { registry with
          suiteRules := fun other =>
            if other = suite then names else registry.suiteRules other }

/-- A call is accepted exactly if it satisfies what it has to. -/
theorem outcome_eq_ok_iff
    {registry next : Registry}
    {call : Call} :
    call.outcome registry = .ok next ↔ Accepts registry call next := by
  cases call with
  | registerSchemaRule name factory =>
      refine (registerRule_eq_ok_iff .schema rfl).trans ⟨?_, ?_⟩
      · rintro ⟨admitted, rfl⟩
        exact .schemaRule admitted
      · intro accepts
        cases accepts with
        | schemaRule admitted => exact ⟨admitted, rfl⟩
  | registerSourceRule name factory =>
      refine (registerRule_eq_ok_iff .source rfl).trans ⟨?_, ?_⟩
      · rintro ⟨admitted, rfl⟩
        exact .sourceRule admitted
      · intro accepts
        cases accepts with
        | sourceRule admitted => exact ⟨admitted, rfl⟩
  | registerConfigRule name factory =>
      refine (registerRule_eq_ok_iff .config rfl).trans ⟨?_, ?_⟩
      · rintro ⟨admitted, rfl⟩
        exact .configRule admitted
      · intro accepts
        cases accepts with
        | configRule admitted => exact ⟨admitted, rfl⟩
  | registerReporter name factory makeDefault =>
      refine registerReporter_eq_ok_iff.trans ⟨?_, ?_⟩
      · rintro ⟨⟨named, made, unknown⟩, rfl⟩
        exact .reporter named made unknown
      · intro accepts
        cases accepts with
        | reporter named made unknown => exact ⟨⟨named, made, unknown⟩, rfl⟩
  | setSuiteRules suite names =>
      refine setSuiteRules_eq_ok_iff.trans ⟨?_, ?_⟩
      · rintro ⟨known, rfl⟩
        exact .suiteRules known
      · intro accepts
        cases accepts with
        | suiteRules known => exact ⟨known, rfl⟩

end Registry
end QueryAdvisor

import Mathlib.Data.List.Induction
import QueryAdvisor.Proofs.Pipeline.Outcome

/-!
# Pipelines from the standard registry

A pipeline that is asked for by the names of rules on the schema and on source
files runs these rules, in the order of their names.  Without names it runs the
rules of its suite.
-/

namespace QueryAdvisor

namespace Registry

/-- The names of the standard rules on the schema and on source files. -/
def textRuleNames : List Text :=
  standard.schemaRules.names ++ standard.sourceRules.names

/-- The standard rule on the schema with a name. -/
def schemaRule? (name : Text) : Option SchemaRule :=
  (standard.schemaRules.lookup name).bind Factory.made?

/-- The standard rule on source files with a name. -/
def sourceRule? (name : Text) : Option SourceRule :=
  (standard.sourceRules.lookup name).bind Factory.made?

/-- Each of these names belongs to a rule of one kind. -/
theorem kind?_of_mem_textRuleNames :
    ∀ name ∈ textRuleNames,
      standard.kind? name = some .schema ∧ (schemaRule? name).isSome = true ∧
          (sourceRule? name).isNone = true ∨
        standard.kind? name = some .source ∧ (sourceRule? name).isSome = true ∧
          (schemaRule? name).isNone = true := by
  decide

/-- A rule that is registered is made when it is asked for. -/
theorem createRule_of_made {α : Type}
    {kind : RuleKind}
    {components : Components α}
    {name : Text}
    {rule : α}
    (made : (components.lookup name).bind Factory.made? = some rule) :
    createRule kind components name = .ok rule := by
  obtain ⟨factory, looked, makes⟩ := Option.bind_eq_some_iff.mp made
  simp only [createRule, looked, makes]

end Registry

namespace RuleSet

open Registry

/-- The standard rules on the schema and on source files with the given names. -/
def named (names : List Text) : RuleSet where
  schemaRules := names.filterMap schemaRule?
  sourceRules := names.filterMap sourceRule?

/-- Each name adds its rule behind the rules of its kind. -/
theorem addByName_standard
    (names : List Text)
    {name : Text}
    (known : name ∈ textRuleNames) :
    addByName standard (named names) name = .ok (named (names ++ [name])) := by
  rcases kind?_of_mem_textRuleNames name known with
    ⟨kind, made, otherMade⟩ | ⟨kind, made, otherMade⟩
  · obtain ⟨rule, made⟩ := Option.isSome_iff_exists.mp made
    have created : standard.createSchemaRule name = .ok rule := createRule_of_made made
    simp [addByName, kindOf, kind, created, named, made, Option.isNone_iff_eq_none.mp otherMade]
  · obtain ⟨rule, made⟩ := Option.isSome_iff_exists.mp made
    have created : standard.createSourceRule name = .ok rule := createRule_of_made made
    simp [addByName, kindOf, kind, created, named, made, Option.isNone_iff_eq_none.mp otherMade]

/-- The rules are made one after the other. -/
theorem ofNames_standard
    {names : List Text}
    (known : ∀ name ∈ names, name ∈ textRuleNames) :
    ofNames standard names = .ok (named names) := by
  induction names using List.reverseRecOn with
  | nil => rfl
  | append_singleton names name inductionHypothesis =>
      have before := inductionHypothesis fun other present => known other (by simp [present])
      rw [ofNames] at before ⊢
      rw [List.foldlM_append, before]
      simp [addByName_standard names (known name (by simp))]

end RuleSet

namespace Pipeline

open Registry

/-- What comes of a pipeline that is put together from the standard registry. -/
def analyse
    (selection : Selection)
    (disk : Disk)
    (request : Request)
    (elapsed : Text) : Except Fault Analysis := do
  let pipeline ← build standard selection
  (pipeline.run disk request elapsed).outcome

section Names

variable {suite : Suite} {ruleNames names : List Text} {given : Option ProjectSources}
  {reader : DocumentReader}

/-- The names that are asked for, or those of the suite, decide on the rules. -/
theorem build_standard
    (chosen : (if ruleNames.isEmpty then standard.suiteRules suite else ruleNames) = names)
    (known : ∀ name ∈ names, name ∈ textRuleNames) :
    build standard { suite, ruleNames, sources := given, reader } =
      .ok ⟨RuleSet.named names, .standard, given, reader⟩ := by
  have noRules : ({} : RuleSet).isEmpty = true := rfl
  have reporter : standard.createReporter standard.defaultReporter = .ok .standard := rfl
  simp only [build, chosen, noRules, if_true, RuleSet.ofNames_standard known, Option.getD_none,
    reporter, Traced.ok_bind, pure_bind]
  rfl

theorem analyse_standard
    {disk : Disk}
    {request : Request}
    {sources : ProjectSources}
    {schema : Schema}
    {files : List (Path × Text)}
    (chosen : (if ruleNames.isEmpty then standard.suiteRules suite else ruleNames) = names)
    (known : ∀ name ∈ names, name ∈ textRuleNames)
    (acquired : sourcesFrom given disk request = .ok sources)
    (loaded : (RuleSet.named names).schemaRules ≠ [] →
      (Schema.load disk sources.schemaPath).outcome = .ok schema)
    (holds : sources.HoldsFiles disk files)
    (elapsed : Text) :
    analyse { suite, ruleNames, sources := given, reader } disk request elapsed =
      .ok ((RuleSet.named names).analysis .standard request sources.root schema
        (files.map sources.sourceFile)) := by
  rw [analyse, build_standard chosen known]
  exact run_outcome rfl acquired loaded holds elapsed

end Names

end Pipeline
end QueryAdvisor

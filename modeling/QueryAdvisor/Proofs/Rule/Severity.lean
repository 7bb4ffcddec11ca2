import QueryAdvisor.Proofs.Pipeline.Independence

/-!
# The severity of what rules report

Findings on filtered columns are the only ones with a key, and one rule reports
them, all with the same severity.  So among the findings of the standard rules
those with equal keys are equally severe, whatever schema, files and settings the
rules have looked at.
-/

namespace QueryAdvisor

namespace ConfigRule

/-- A finding is about a setting of an environment. -/
def IsOnSetting (finding : Finding) : Prop :=
  ∃ environment setting, finding.location = .config environment setting

@[simp] theorem isOnSetting_settingFinding
    (type : FindingType)
    (severity : Severity)
    (environment setting message recommendation : Text) :
    IsOnSetting (settingFinding type severity environment setting message recommendation) :=
  ⟨environment, setting, rfl⟩

/-- All findings of a rule are about settings. -/
def ReportsSettings (rule : ConfigRule) : Prop :=
  ∀ config, ∀ finding ∈ rule.examine config, IsOnSetting finding

theorem reportsSettings_onEnvironments
    {examine : Environment → List Finding}
    (settings : ∀ environment, ∀ finding ∈ examine environment, IsOnSetting finding) :
    (onEnvironments examine).ReportsSettings := by
  intro config finding present
  obtain ⟨environment, _, found⟩ := List.mem_flatMap.mp present
  exact settings environment finding found

theorem reportsSettings_connectionPool : connectionPool.ReportsSettings := by
  apply reportsSettings_onEnvironments
  intro environment
  dsimp only
  split_ifs
  · simp
  · split
    · split_ifs <;> simp
    · simp

theorem reportsSettings_timeouts : timeouts.ReportsSettings := by
  apply reportsSettings_onEnvironments
  intro environment
  simp only [List.forall_mem_append]
  refine ⟨⟨?_, ?_⟩, ?_⟩ <;> split_ifs <;> simp

theorem reportsSettings_preparedStatements : preparedStatements.ReportsSettings := by
  apply reportsSettings_onEnvironments
  intro environment
  dsimp only
  split_ifs <;> simp

theorem reportsSettings_reapingFrequency : reapingFrequency.ReportsSettings := by
  apply reportsSettings_onEnvironments
  intro environment
  split_ifs <;> simp

theorem reportsSettings_sslConfiguration : sslConfiguration.ReportsSettings := by
  apply reportsSettings_onEnvironments
  intro environment
  split_ifs <;> simp

theorem reportsSettings_performanceExtension : performanceExtension.ReportsSettings := by
  intro config
  simp [performanceExtension]

/-- The standard rules on the database configuration. -/
theorem reportsSettings_of_registered
    {name : Text}
    {rule : ConfigRule}
    (registered : (name, .makes rule) ∈ Registry.standard.configRules) :
    rule.ReportsSettings := by
  simp only [Registry.standard, List.mem_cons, List.not_mem_nil, or_false, Prod.mk.injEq,
    Factory.makes.injEq] at registered
  rcases registered with ⟨_, rfl⟩ | ⟨_, rfl⟩ | ⟨_, rfl⟩ | ⟨_, rfl⟩ | ⟨_, rfl⟩ | ⟨_, rfl⟩
  · exact reportsSettings_connectionPool
  · exact reportsSettings_timeouts
  · exact reportsSettings_preparedStatements
  · exact reportsSettings_reapingFrequency
  · exact reportsSettings_sslConfiguration
  · exact reportsSettings_performanceExtension

end ConfigRule

namespace Finding

/-- A finding of a standard rule, on whatever the rule has looked at. -/
inductive IsReported (finding : Finding) : Prop where
  | inSchema {name : Text} {rule : SchemaRule}
      (registered : (name, .makes rule) ∈ Registry.standard.schemaRules)
      (schema : Schema)
      (found : finding ∈ rule.examine schema)
  | inFile {name : Text} {rule : SourceRule}
      (registered : (name, .makes rule) ∈ Registry.standard.sourceRules)
      (file : SourceFile)
      (found : finding ∈ rule.examine file)
  | inSettings {name : Text} {rule : ConfigRule}
      (registered : (name, .makes rule) ∈ Registry.standard.configRules)
      (config : DatabaseConfig)
      (found : finding ∈ rule.examine config)

/-- Equal keys come with equal severities, unless they are empty. -/
def KeysSettleSeverity (findings : List Finding) : Prop :=
  ∀ left ∈ findings, ∀ right ∈ findings,
    left.key ≠ [] → left.key = right.key → left.severity = right.severity

/-- Whatever has a key is reported as an information. -/
theorem severity_of_isReported
    {finding : Finding}
    (reported : finding.IsReported)
    (keyed : finding.key ≠ []) :
    finding.severity = .info := by
  have isFilter := type_eq_of_key_ne_nil keyed
  cases reported with
  | inSchema registered schema found =>
      simp only [Registry.standard, List.mem_cons, List.not_mem_nil, or_false, Prod.mk.injEq,
        Factory.makes.injEq] at registered
      rcases registered with ⟨_, rfl⟩ | ⟨_, rfl⟩
      · rw [SchemaRule.reports_missingForeignKeyIndex schema finding found] at isFilter
        contradiction
      · rw [SchemaRule.reports_booleanIndexOpportunity schema finding found] at isFilter
        contradiction
  | inFile registered file found =>
      simp only [Registry.standard, List.mem_cons, List.not_mem_nil, or_false, Prod.mk.injEq,
        Factory.makes.injEq] at registered
      rcases registered with ⟨_, rfl⟩ | ⟨_, rfl⟩ | ⟨_, rfl⟩
      · obtain ⟨filter, _, rfl⟩ := List.mem_map.mp found
        rfl
      · rw [SourceRule.reports_controllerNPlusOne file finding found] at isFilter
        contradiction
      · rw [SourceRule.reports_viewAssociationAccess file finding found] at isFilter
        contradiction
  | inSettings registered config found =>
      obtain ⟨environment, setting, located⟩ :=
        ConfigRule.reportsSettings_of_registered registered config finding found
      rw [key, isFilter, located] at keyed
      contradiction

theorem keysSettleSeverity_of_isReported
    {findings : List Finding}
    (reported : ∀ finding ∈ findings, finding.IsReported) :
    KeysSettleSeverity findings := by
  intro left leftPresent right rightPresent keyed sameKey
  rw [severity_of_isReported (reported left leftPresent) keyed,
    severity_of_isReported (reported right rightPresent) (sameKey ▸ keyed)]

end Finding
end QueryAdvisor

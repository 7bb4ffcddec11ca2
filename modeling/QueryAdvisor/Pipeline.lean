import QueryAdvisor.Registry.Standard
import QueryAdvisor.Schema.Load

/-!
# Pipelines

A pipeline finds the sources of a project, runs its rules over them,
aggregates what they find and renders the reports.  It is put together from a
registry and a selection of components.
-/

namespace QueryAdvisor

/-- Rules of the three kinds, each in the order in which they run. -/
structure RuleSet where
  schemaRules : List SchemaRule := []
  sourceRules : List SourceRule := []
  configRules : List ConfigRule := []

namespace RuleSet

/-- Whether there is no rule at all. -/
def isEmpty (rules : RuleSet) : Bool :=
  rules.schemaRules.isEmpty && rules.sourceRules.isEmpty && rules.configRules.isEmpty

/-- Make the rule with a name and add it to those of its kind. -/
def addByName
    (registry : Registry)
    (rules : RuleSet)
    (name : Text) : Except Fault RuleSet := do
  match ← registry.kindOf name with
  | .schema =>
    return { rules with schemaRules := rules.schemaRules ++ [← registry.createSchemaRule name] }
  | .source =>
    return { rules with sourceRules := rules.sourceRules ++ [← registry.createSourceRule name] }
  | .config =>
    return { rules with configRules := rules.configRules ++ [← registry.createConfigRule name] }

/-- Make the rules with the given names. -/
def ofNames
    (registry : Registry)
    (names : List Text) : Except Fault RuleSet :=
  names.foldlM (addByName registry) {}

/-- The files that some rule on source files covers. -/
def scopedFiles
    (rules : RuleSet)
    (files : List Path) : List Path :=
  files.filter fun file => rules.sourceRules.any fun rule => rule.scope.covers file

end RuleSet

/-- How to put a pipeline together. -/
structure Selection where
  suite : Suite := .indexes
  /-- Names of rules to run in place of those of the suite. -/
  ruleNames : List Text := []
  /-- The name of the reporter; without one the default is taken. -/
  reporterName : Option Text := none
  /-- Rules to run as they are.  If there are any, no rule is looked up. -/
  rules : RuleSet := {}
  /-- A reporter to use as it is. -/
  reporter : Option Reporter := none
  /-- The sources, if they need not be searched for. -/
  sources : Option ProjectSources := none
  /-- How the database configuration is read. -/
  reader : DocumentReader

/-- An assembled pipeline. -/
structure Pipeline where
  rules : RuleSet
  reporter : Reporter
  sources : Option ProjectSources
  reader : DocumentReader

/-- What a pipeline gives. -/
structure Analysis where
  report : Report
  aggregate : Aggregate
  summary : Summary

namespace Pipeline

/-- Put a pipeline together.  Rules are made before the reporter. -/
def build
    (registry : Registry)
    (selection : Selection) : Except Fault Pipeline := do
  let names :=
    if selection.ruleNames.isEmpty then registry.suiteRules selection.suite
    else selection.ruleNames
  let rules ←
    if selection.rules.isEmpty then RuleSet.ofNames registry names else pure selection.rules
  let reporter ←
    match selection.reporter with
    | some reporter => pure reporter
    | none => registry.createReporter (selection.reporterName.getD registry.defaultReporter)
  return { rules, reporter, sources := selection.sources, reader := selection.reader }

/-- Note that a stage is complete. -/
def stageComplete
    (stage : String)
    (counts : List (String × Nat)) : Traced Unit :=
  .note .debug (ascii "pipeline.stage.complete")
    ((ascii "stage", ascii stage) ::
      counts.map fun (name, count) => (ascii name, Text.ofNat count))

/-- The sources to analyse. -/
def acquire
    (pipeline : Pipeline)
    (disk : Disk)
    (request : Request) : Traced ProjectSources :=
  match pipeline.sources with
  | some sources => pure sources
  | none => Project.acquire disk request.root

/-- The rules on source files that cover a file. -/
def rulesFor
    (rules : RuleSet)
    (file : SourceFile) : List SourceRule :=
  rules.sourceRules.filter fun rule => rule.scope.covers file.relativePath

/-- What the rules find in source files, file by file. -/
def sourceFindings
    (rules : RuleSet)
    (files : List SourceFile) : List Finding :=
  files.flatMap fun file => (rulesFor rules file).flatMap fun rule => rule.examine file

/-- What the rules note about source files, file by file. -/
def sourceEvents
    (rules : RuleSet)
    (files : List SourceFile) : List Event :=
  files.flatMap fun file => (rulesFor rules file).flatMap fun rule => rule.events file

/-- Findings so far, and what has been looked at. -/
structure Progress where
  findings : List Finding
  summary : Summary

/-- Run the rules on the schema, if there are any. -/
def schemaStage
    (rules : RuleSet)
    (disk : Disk)
    (sources : ProjectSources)
    (progress : Progress) : Traced Progress :=
  if rules.schemaRules.isEmpty then pure progress
  else do
    let schema ← Schema.load disk sources.schemaPath
    let findings := progress.findings ++ rules.schemaRules.flatMap fun rule => rule.examine schema
    stageComplete "schema" [("tables", schema.size), ("findings", findings.length)]
    return { findings, summary := { progress.summary with tableCount := schema.size } }

/-- Run the rules on source files, if there are any. -/
def sourceStage
    (rules : RuleSet)
    (disk : Disk)
    (sources : ProjectSources)
    (progress : Progress) : Traced Progress :=
  if rules.sourceRules.isEmpty then pure progress
  else do
    let reading ← Project.readSources disk sources.root (rules.scopedFiles sources.files)
    .noteAll (sourceEvents rules reading.files)
    let findings := progress.findings ++ sourceFindings rules reading.files
    stageComplete "source" [("files", reading.files.length), ("errors", reading.errors.length),
      ("findings", findings.length)]
    let summary := { progress.summary with
      filesScanned := reading.files.length
      scanErrors := reading.errors }
    return { findings, summary }

/-- Run the rules on the database configuration, if there are any. -/
def configStage
    (reader : DocumentReader)
    (rules : RuleSet)
    (disk : Disk)
    (sources : ProjectSources)
    (progress : Progress) : Traced Progress :=
  if rules.configRules.isEmpty then pure progress
  else do
    let config ← .ofExcept (DatabaseConfig.load reader disk sources.databasePath)
    let findings := progress.findings ++ rules.configRules.flatMap fun rule => rule.examine config
    stageComplete "config" [("environments", config.environments.length),
      ("findings", findings.length)]
    return { progress with findings }

/-- Run a pipeline.  The time it took, in milliseconds, is only noted. -/
def run
    (pipeline : Pipeline)
    (disk : Disk)
    (request : Request)
    (elapsed : Text) : Traced Analysis := do
  .note .info (ascii "pipeline.start")
    [(ascii "root", request.root), (ascii "suite", request.suite.name),
      (ascii "formats", Text.ofNat request.formats.length)]
  let sources ← pipeline.acquire disk request
  stageComplete "acquire" [("file_count", sources.files.length)]
  let start : Progress := { findings := [], summary := ⟨sources.root, 0, 0, []⟩ }
  let progress ← schemaStage pipeline.rules disk sources start
  let progress ← sourceStage pipeline.rules disk sources progress
  let progress ← configStage pipeline.reader pipeline.rules disk sources progress
  let aggregate := Aggregate.ofFindings progress.findings
  let report := pipeline.reporter.render aggregate progress.summary request
  .note .info (ascii "pipeline.complete")
    [(ascii "duration_ms", elapsed), (ascii "findings", Text.ofNat aggregate.total),
      (ascii "warnings", Text.ofNat aggregate.warningCount)]
  return { report, aggregate, summary := progress.summary }

end Pipeline
end QueryAdvisor

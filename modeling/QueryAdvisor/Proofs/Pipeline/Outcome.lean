import QueryAdvisor.Pipeline
import QueryAdvisor.Proofs.Schema.Reading

/-!
# The outcome of a pipeline

Where the schema and the source files can be read, a pipeline of rules on them
runs through.  Its outcome is a plain function of the schema and the contents of
the files: what the rules on the schema find, and then, file by file, what the
rules on source files find.  Files outside the scopes of all rules do not count.
-/

namespace QueryAdvisor

namespace Traced

variable {α β : Type}

/-- The outcome of a sequence does not depend on what was noted on the way. -/
@[simp] theorem outcome_bind
    (first : Traced α)
    (next : α → Traced β) :
    (first >>= next).outcome = first.outcome >>= fun value => (next value).outcome := by
  obtain ⟨outcome, events⟩ := first
  cases outcome <;> rfl

@[simp] theorem outcome_pure (value : α) : (pure value : Traced α).outcome = .ok value := rfl

@[simp] theorem outcome_note
    (level : Level)
    (message : Text)
    (fields : List (Text × Text)) :
    (note level message fields).outcome = .ok () := rfl

@[simp] theorem outcome_noteAll (events : List Event) : (noteAll events).outcome = .ok () := rfl

@[simp] theorem outcome_ofExcept (outcome : Except Fault α) :
    (ofExcept outcome).outcome = outcome := rfl

/-- Nothing stops a sequence whose first part has a value. -/
@[simp] theorem ok_bind
    (value : α)
    (next : α → Except Fault β) :
    (Except.ok value >>= next) = next value := rfl

/-- Nothing follows a fault. -/
@[simp] theorem error_bind
    (fault : Fault)
    (next : α → Except Fault β) :
    (Except.error fault >>= next) = .error fault := rfl

end Traced

namespace ProjectSources

/-- The schema dump of a project can be read and holds a text. -/
structure HoldsSchema
    (sources : ProjectSources)
    (disk : Disk)
    (text : Text) : Prop where
  pathExists : disk.pathExists sources.schemaPath = .ok true
  read : disk.read sources.schemaPath = .content text

/-- The source files of a project are the given ones, each with its path relative
to the root and its content, and all of them can be read. -/
structure HoldsFiles
    (sources : ProjectSources)
    (disk : Disk)
    (files : List (Path × Text)) : Prop where
  listed : sources.files = files.map Prod.fst
  read : ∀ file ∈ files, disk.read (Path.append sources.root file.1) = .content file.2

/-- A source file as it is read. -/
def sourceFile
    (sources : ProjectSources)
    (file : Path × Text) : SourceFile where
  path := Path.append sources.root file.1
  relativePath := file.1
  content := file.2

end ProjectSources

theorem Schema.load_outcome
    {disk : Disk}
    {sources : ProjectSources}
    {text : Text}
    (holds : sources.HoldsSchema disk text) :
    (load disk sources.schemaPath).outcome = .ok (ofText text) := by
  simp [load, holds.pathExists, holds.read, TableStore.schema_ofText]

/-- Files that can be read are read in order. -/
theorem Project.readSources_outcome
    {disk : Disk}
    {sources : ProjectSources}
    {files : List (Path × Text)}
    (read : ∀ file ∈ files, disk.read (Path.append sources.root file.1) = .content file.2) :
    (readSources disk sources.root (files.map Prod.fst)).outcome =
      .ok ⟨files.map sources.sourceFile, []⟩ := by
  induction files with
  | nil => rfl
  | cons file rest inductionHypothesis =>
      have first := read file List.mem_cons_self
      have others := inductionHypothesis fun other present =>
        read other (List.mem_cons_of_mem file present)
      rw [List.map_cons, readSources]
      simp [first, others, ProjectSources.sourceFile]

namespace RuleSet

/-- Whether some rule on source files covers a file. -/
def coversFile
    (rules : RuleSet)
    (file : SourceFile) : Bool :=
  rules.sourceRules.any fun rule => rule.scope.covers file.relativePath

/-- What rules find in a schema and in source files. -/
def findings
    (rules : RuleSet)
    (schema : Schema)
    (files : List SourceFile) : List Finding :=
  (rules.schemaRules.flatMap fun rule => rule.examine schema) ++
    files.flatMap fun file =>
      (Pipeline.rulesFor rules file).flatMap fun rule => rule.examine file

/-- The number of tables that rules look at. -/
def tableCount
    (rules : RuleSet)
    (schema : Schema) : Nat :=
  if rules.schemaRules.isEmpty then 0 else schema.size

/-- What rules look at in a project all of whose files can be read. -/
def summary
    (rules : RuleSet)
    (root : Path)
    (schema : Schema)
    (files : List SourceFile) : Summary where
  projectRoot := root
  tableCount := rules.tableCount schema
  filesScanned := (files.filter rules.coversFile).length
  scanErrors := []

/-- The analysis that rules on the schema and on source files give. -/
def analysis
    (rules : RuleSet)
    (reporter : Reporter)
    (request : Request)
    (root : Path)
    (schema : Schema)
    (files : List SourceFile) : Analysis where
  report := reporter.render (Aggregate.ofFindings (rules.findings schema files))
    (rules.summary root schema files) request
  aggregate := Aggregate.ofFindings (rules.findings schema files)
  summary := rules.summary root schema files

/-- No rule applies to a file that is not covered. -/
theorem rulesFor_eq_nil
    {rules : RuleSet}
    {file : SourceFile}
    (uncovered : rules.coversFile file = false) :
    Pipeline.rulesFor rules file = [] := by
  rw [Pipeline.rulesFor, List.filter_eq_nil_iff]
  simpa [coversFile] using uncovered

/-- Leaving out the files that are not covered loses nothing. -/
theorem sourceFindings_filter
    (rules : RuleSet)
    (files : List SourceFile) :
    Pipeline.sourceFindings rules (files.filter rules.coversFile) =
      files.flatMap fun file =>
        (Pipeline.rulesFor rules file).flatMap fun rule => rule.examine file := by
  rw [Pipeline.sourceFindings]
  induction files with
  | nil => rfl
  | cons file rest inductionHypothesis =>
      cases covered : rules.coversFile file with
      | true => simp [covered, inductionHypothesis]
      | false => simp [covered, inductionHypothesis, rulesFor_eq_nil covered]

end RuleSet

namespace Pipeline

/-- The sources of a pipeline: those it was given, or those that are found. -/
def sourcesFrom
    (given : Option ProjectSources)
    (disk : Disk)
    (request : Request) : Except Fault ProjectSources :=
  match given with
  | some sources => .ok sources
  | none => (Project.acquire disk request.root).outcome

theorem acquire_outcome
    (pipeline : Pipeline)
    (disk : Disk)
    (request : Request) :
    (pipeline.acquire disk request).outcome = sourcesFrom pipeline.sources disk request := by
  unfold acquire sourcesFrom
  cases pipeline.sources <;> rfl

section Stages

variable {disk : Disk} {sources : ProjectSources}

/-- The schema is needed only if there are rules on it. -/
theorem schemaStage_outcome
    {rules : RuleSet}
    {schema : Schema}
    (loaded : rules.schemaRules ≠ [] →
      (Schema.load disk sources.schemaPath).outcome = .ok schema)
    (root : Path) :
    (schemaStage rules disk sources ⟨[], ⟨root, 0, 0, []⟩⟩).outcome =
      .ok ⟨rules.schemaRules.flatMap fun rule => rule.examine schema,
        ⟨root, rules.tableCount schema, 0, []⟩⟩ := by
  rw [schemaStage, RuleSet.tableCount]
  cases noRules : rules.schemaRules.isEmpty with
  | true => simp [List.isEmpty_iff.mp noRules]
  | false =>
      have someRules : rules.schemaRules ≠ [] := List.isEmpty_eq_false_iff.mp noRules
      simp [loaded someRules, stageComplete]

theorem sourceStage_outcome
    (rules : RuleSet)
    {files : List (Path × Text)}
    (holds : sources.HoldsFiles disk files)
    (findings : List Finding)
    (root : Path)
    (tableCount : Nat) :
    (sourceStage rules disk sources ⟨findings, ⟨root, tableCount, 0, []⟩⟩).outcome =
      .ok ⟨findings ++ (files.map sources.sourceFile).flatMap fun file =>
          (rulesFor rules file).flatMap fun rule => rule.examine file,
        ⟨root, tableCount, ((files.map sources.sourceFile).filter rules.coversFile).length,
          []⟩⟩ := by
  rw [← RuleSet.sourceFindings_filter]
  cases noRules : rules.sourceRules.isEmpty with
  | true =>
      have uncovered : (files.map sources.sourceFile).filter rules.coversFile = [] :=
        List.filter_eq_nil_iff.mpr fun file _ => by
          simp [RuleSet.coversFile, List.isEmpty_iff.mp noRules]
      simp [sourceStage, sourceFindings, noRules, uncovered]
  | false =>
      let covered := files.filter fun file => rules.coversFile (sources.sourceFile file)
      have selected : rules.scopedFiles sources.files = covered.map Prod.fst := by
        rw [RuleSet.scopedFiles, holds.listed, List.filter_map]
        rfl
      have reading : (Project.readSources disk sources.root (covered.map Prod.fst)).outcome =
          .ok ⟨covered.map sources.sourceFile, []⟩ :=
        Project.readSources_outcome fun file present =>
          holds.read file (List.mem_filter.mp present).1
      have asRead : covered.map sources.sourceFile =
          (files.map sources.sourceFile).filter rules.coversFile := by
        rw [List.filter_map]
        rfl
      rw [asRead] at reading
      simp [sourceStage, noRules, selected, reading, stageComplete]

/-- A pipeline without rules on the database configuration runs through and
gives what its rules find. -/
theorem run_outcome
    {pipeline : Pipeline}
    {schema : Schema}
    {files : List (Path × Text)}
    {request : Request}
    (noConfigRules : pipeline.rules.configRules = [])
    (acquired : sourcesFrom pipeline.sources disk request = .ok sources)
    (loaded : pipeline.rules.schemaRules ≠ [] →
      (Schema.load disk sources.schemaPath).outcome = .ok schema)
    (holds : sources.HoldsFiles disk files)
    (elapsed : Text) :
    (pipeline.run disk request elapsed).outcome =
      .ok (pipeline.rules.analysis pipeline.reporter request sources.root schema
        (files.map sources.sourceFile)) := by
  have schemaOutcome := schemaStage_outcome loaded sources.root
  have sourceOutcome := sourceStage_outcome pipeline.rules holds
    (pipeline.rules.schemaRules.flatMap fun rule => rule.examine schema) sources.root
    (pipeline.rules.tableCount schema)
  simp [run, acquire_outcome, acquired, stageComplete, schemaOutcome, sourceOutcome, configStage,
    noConfigRules, RuleSet.analysis, RuleSet.findings, RuleSet.summary]

end Stages

end Pipeline
end QueryAdvisor

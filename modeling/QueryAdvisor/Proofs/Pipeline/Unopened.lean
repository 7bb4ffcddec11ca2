import QueryAdvisor.Proofs.Project.Locked
import QueryAdvisor.Proofs.Project.Reading

/-!
# Source files that cannot be opened

A source file that cannot be opened is noted and passed over.  Two runs are
compared: one over a project, and one over the same project without the source
files that cannot be opened there.  Stage by stage the two come to the same, apart
from the list of skipped files, and so do their analyses.  The project without these
files is found on the disk from which the locked files have been removed.
-/

namespace QueryAdvisor

namespace ProjectSources

/-- Whether a source file can be opened. -/
def opens
    (sources : ProjectSources)
    (disk : Disk)
    (file : Path) : Bool :=
  disk.read (Path.append sources.root file) != .unopenable

/-- The source files that cannot be opened, in the order of the project. -/
def unopened
    (sources : ProjectSources)
    (disk : Disk) : List Path :=
  sources.files.filter fun file => !sources.opens disk file

/-- The project without the source files that cannot be opened. -/
def withoutUnopened
    (sources : ProjectSources)
    (disk : Disk) : ProjectSources :=
  { sources with files := sources.files.filter (sources.opens disk) }

/-- What is said about a source file that cannot be opened. -/
def scanError
    (sources : ProjectSources)
    (file : Path) : ScanError where
  file := Path.append sources.root file
  message := Project.notOpened

/-- Two disks show the same of a project: its schema dump, its database
configuration and its source files. -/
structure ReadsAlike
    (sources : ProjectSources)
    (disk other : Disk) : Prop where
  documents : ∀ path ∈ [sources.schemaPath, sources.databasePath],
    other.pathExists path = disk.pathExists path ∧ other.read path = disk.read path
  files : ∀ file ∈ sources.files,
    other.read (Path.append sources.root file) = disk.read (Path.append sources.root file)

/-- A disk without its locked files shows the same of a project, if its two documents
are not among them. -/
theorem readsAlike_withoutLocked
    {sources : ProjectSources}
    {disk : Disk}
    (distinct : disk.hasDistinctNames = true)
    (absolute : Path.isAbsolute sources.root = true)
    (documents : ∀ path ∈ [sources.schemaPath, sources.databasePath],
      Path.isAbsolute path = true ∧ disk.isLocked path = false) :
    sources.ReadsAlike disk disk.withoutLocked where
  documents := by
    intro path isDocument
    obtain ⟨absolutePath, notLocked⟩ := documents path isDocument
    exact ⟨Disk.pathExists_withoutLocked distinct absolutePath notLocked,
      Disk.read_withoutLocked distinct absolutePath⟩
  files := by
    intro file _
    exact Disk.read_withoutLocked distinct (Path.isAbsolute_append absolute file)

end ProjectSources

namespace Project

/-- The parts of a project with a given root and given source files. -/
def sourcesAt
    (root : Path)
    (files : List Path) : ProjectSources where
  root
  schemaPath := Path.append (Path.append root (ascii "db")) (ascii "schema.rb")
  databasePath := Path.append (Path.append root (ascii "config")) (ascii "database.yml")
  files

/-- Acquisition finds the root and collects the files there. -/
theorem outcome_acquire
    (disk : Disk)
    (start : Path) :
    (acquire disk start).outcome =
      (findRoot disk start).bind fun root => (collectFiles disk root).map (sourcesAt root) := by
  rw [acquire]
  cases findRoot disk start with
  | error fault => rfl
  | ok root =>
      simp only [Traced.ofExcept, Traced.bind_ok, Except.bind]
      split <;> cases collectFiles disk root <;> rfl

/-- A directory that holds the marker is the root for itself. -/
theorem findRoot_of_marked
    {disk : Disk}
    {start root : Path}
    (notEmpty : start.isEmpty = false)
    (isCanonical : disk.canonical start = .ok root)
    (holdsMarker : disk.pathExists (Path.append root marker) = .ok true) :
    findRoot disk start = .ok root := by
  rw [findRoot, notEmpty, if_neg Bool.false_ne_true, isCanonical, Traced.ok_bind, rootAbove,
    firstUpward, holdsMarker]
  rfl

/-- The project that is acquired after the locked files have been removed is the
project without the source files that cannot be opened. -/
theorem acquire_withoutLocked
    {disk : Disk}
    {start : Path}
    {sources : ProjectSources}
    (acquired : (acquire disk start).outcome = .ok sources)
    (stillFound : findRoot disk.withoutLocked start = .ok sources.root)
    (orderly : IsOrderly disk sources.root) :
    (acquire disk.withoutLocked start).outcome = .ok (sources.withoutUnopened disk) := by
  rw [outcome_acquire] at acquired ⊢
  cases found : findRoot disk start with
  | error fault =>
      rw [found] at acquired
      contradiction
  | ok root =>
      rw [found] at acquired
      cases collected : collectFiles disk root with
      | error fault =>
          rw [Except.bind, collected] at acquired
          contradiction
      | ok files =>
          rw [Except.bind, collected] at acquired
          obtain rfl : sourcesAt root files = sources := Except.ok.inj acquired
          have stillCollected := collectFiles_withoutLocked orderly collected
          rw [stillFound, Except.bind, stillCollected]
          rfl

/-- Reading gives the files that it gives without those that cannot be opened, and
lists these in order. -/
theorem readSources_passes_over
    (disk : Disk)
    (sources : ProjectSources)
    (files : List Path) :
    (readSources disk sources.root files).outcome =
      (readSources disk sources.root (files.filter (sources.opens disk))).outcome.map
        fun reading =>
          ⟨reading.files,
            (files.filter fun file => !sources.opens disk file).map sources.scanError⟩ := by
  induction files with
  | nil => rfl
  | cons file rest inductionHypothesis =>
      cases read : disk.read (Path.append sources.root file) with
      | content text =>
          have opened : sources.opens disk file = true := by simp [ProjectSources.opens, read]
          rw [readSources_cons_of_content read, inductionHypothesis,
            List.filter_cons_of_pos opened, readSources_cons_of_content read,
            List.filter_cons_of_neg (by simp [opened])]
          cases (readSources disk sources.root (rest.filter (sources.opens disk))).outcome <;> rfl
      | unopenable =>
          have unopened : sources.opens disk file = false := by simp [ProjectSources.opens, read]
          have leftOut : (file :: rest).filter (sources.opens disk) =
              rest.filter (sources.opens disk) := List.filter_cons_of_neg (by simp [unopened])
          have listed : (file :: rest).filter (fun other => !sources.opens disk other) =
              file :: rest.filter fun other => !sources.opens disk other :=
            List.filter_cons_of_pos (by simp [unopened])
          rw [readSources_cons_of_unopenable read, inductionHypothesis, leftOut, listed]
          cases (readSources disk sources.root (rest.filter (sources.opens disk))).outcome <;> rfl
      | directory =>
          have opened : sources.opens disk file = true := by simp [ProjectSources.opens, read]
          rw [readSources_cons_of_directory read, List.filter_cons_of_pos opened,
            readSources_cons_of_directory read]
          rfl

end Project

theorem Schema.load_congr
    {disk other : Disk}
    {path : Path}
    (sameExistence : other.pathExists path = disk.pathExists path)
    (sameReading : other.read path = disk.read path) :
    load other path = load disk path := by
  rw [load, load, sameExistence, sameReading]

theorem DatabaseConfig.load_congr
    (reader : DocumentReader)
    {disk other : Disk}
    {path : Path}
    (sameExistence : other.pathExists path = disk.pathExists path)
    (sameReading : other.read path = disk.read path) :
    load reader other path = load reader disk path := by
  rw [load, load, sameExistence, sameReading]

namespace Pipeline

/-! ### The stages of a run -/

/-- Put other skipped files in the place of those noted so far. -/
def Progress.withErrors
    (progress : Progress)
    (errors : List ScanError) : Progress :=
  { progress with summary := { progress.summary with scanErrors := errors } }

/-- How far all stages come from the start. -/
def stages
    (reader : DocumentReader)
    (rules : RuleSet)
    (disk : Disk)
    (sources : ProjectSources) : Except Fault Progress := do
  let progress ← (schemaStage rules disk sources ⟨[], ⟨sources.root, 0, 0, []⟩⟩).outcome
  let progress ← (sourceStage rules disk sources progress).outcome
  (configStage reader rules disk sources progress).outcome

/-- What is made of the findings in the end. -/
def Progress.analysis
    (progress : Progress)
    (reporter : Reporter)
    (request : Request) : Analysis where
  report := reporter.render (.ofFindings progress.findings) progress.summary request
  aggregate := .ofFindings progress.findings
  summary := progress.summary

/-- A run comes as far as its stages come. -/
theorem run_outcome_eq_stages
    {pipeline : Pipeline}
    {disk : Disk}
    {request : Request}
    {sources : ProjectSources}
    (acquired : sourcesFrom pipeline.sources disk request = .ok sources)
    (elapsed : Text) :
    (pipeline.run disk request elapsed).outcome =
      (stages pipeline.reader pipeline.rules disk sources).map fun progress =>
        progress.analysis pipeline.reporter request := by
  simp only [run, stages, stageComplete, Traced.outcome_bind, Traced.outcome_note,
    Traced.outcome_pure, Traced.ok_bind, acquire_outcome, acquired]
  cases (schemaStage pipeline.rules disk sources ⟨[], ⟨sources.root, 0, 0, []⟩⟩).outcome with
  | error fault => rfl
  | ok afterSchema =>
      simp only [Traced.ok_bind]
      cases (sourceStage pipeline.rules disk sources afterSchema).outcome with
      | error fault => rfl
      | ok afterSources =>
          simp only [Traced.ok_bind]
          cases (configStage pipeline.reader pipeline.rules disk sources afterSources).outcome
          <;> rfl

section Stages

variable {disk other : Disk} {sources : ProjectSources}

theorem schemaStage_congr
    (rules : RuleSet)
    (alike : (sources.withoutUnopened disk).ReadsAlike disk other)
    (progress : Progress) :
    schemaStage rules disk sources progress =
      schemaStage rules other (sources.withoutUnopened disk) progress := by
  obtain ⟨sameExistence, sameReading⟩ := alike.documents sources.schemaPath List.mem_cons_self
  have sameLoad : Schema.load other sources.schemaPath = Schema.load disk sources.schemaPath :=
    Schema.load_congr sameExistence sameReading
  simp only [schemaStage, ProjectSources.withoutUnopened, sameLoad]

/-- No file is skipped on the way to the source files. -/
theorem scanErrors_schemaStage
    {rules : RuleSet}
    {progress next : Progress}
    (passed : (schemaStage rules disk sources progress).outcome = .ok next) :
    next.summary.scanErrors = progress.summary.scanErrors := by
  rw [schemaStage] at passed
  split at passed
  · rw [← Except.ok.inj passed]
  · cases loaded : (Schema.load disk sources.schemaPath).outcome with
    | error fault => simp [loaded] at passed
    | ok schema =>
        simp only [stageComplete, Traced.outcome_bind, loaded, Traced.ok_bind, Traced.outcome_note,
          Traced.outcome_pure] at passed
        rw [← Except.ok.inj passed]

/-- The rules find the same without the files that cannot be opened, and these are
listed if a rule covers them. -/
theorem sourceStage_passes_over
    (rules : RuleSet)
    (alike : (sources.withoutUnopened disk).ReadsAlike disk other)
    {progress : Progress}
    (noErrors : progress.summary.scanErrors = []) :
    (sourceStage rules disk sources progress).outcome =
      (sourceStage rules other (sources.withoutUnopened disk) progress).outcome.map fun next =>
        next.withErrors ((rules.scopedFiles (sources.unopened disk)).map sources.scanError) := by
  cases noRules : rules.sourceRules.isEmpty with
  | true =>
      have uncovered : rules.scopedFiles (sources.unopened disk) = [] := by
        simp [RuleSet.scopedFiles, List.isEmpty_iff.mp noRules]
      rw [sourceStage, sourceStage, if_pos noRules, if_pos noRules, uncovered]
      simp only [Traced.outcome_pure, Except.map, Progress.withErrors, List.map_nil, ← noErrors]
  | false =>
      have opened : (rules.scopedFiles sources.files).filter (sources.opens disk) =
          rules.scopedFiles (sources.withoutUnopened disk).files :=
        List.filter_comm _ _ _
      have unopened : ((rules.scopedFiles sources.files).filter fun file =>
          !sources.opens disk file) = rules.scopedFiles (sources.unopened disk) :=
        List.filter_comm _ _ _
      have readOnOther : Project.readSources other sources.root
            (rules.scopedFiles (sources.withoutUnopened disk).files) =
          Project.readSources disk sources.root
            (rules.scopedFiles (sources.withoutUnopened disk).files) :=
        Project.readSources_congr fun file covered =>
          alike.files file (List.mem_of_mem_filter covered)
      have reading := Project.readSources_passes_over disk sources
        (rules.scopedFiles sources.files)
      rw [opened, unopened, ← readOnOther] at reading
      have sameRoot : (sources.withoutUnopened disk).root = sources.root := rfl
      simp only [sourceStage, noRules, sameRoot, Bool.false_eq_true, if_false, stageComplete,
        Traced.outcome_bind, reading]
      cases (Project.readSources other sources.root
        (rules.scopedFiles (sources.withoutUnopened disk).files)).outcome <;> rfl

theorem configStage_withErrors
    (reader : DocumentReader)
    (rules : RuleSet)
    (alike : (sources.withoutUnopened disk).ReadsAlike disk other)
    (progress : Progress)
    (errors : List ScanError) :
    (configStage reader rules disk sources (progress.withErrors errors)).outcome =
      (configStage reader rules other (sources.withoutUnopened disk) progress).outcome.map
        fun next => next.withErrors errors := by
  obtain ⟨sameExistence, sameReading⟩ := alike.documents sources.databasePath
    (List.mem_cons_of_mem _ List.mem_cons_self)
  have sameLoad : DatabaseConfig.load reader other sources.databasePath =
      DatabaseConfig.load reader disk sources.databasePath :=
    DatabaseConfig.load_congr reader sameExistence sameReading
  simp only [configStage, ProjectSources.withoutUnopened, sameLoad]
  split
  · rfl
  · cases loaded : DatabaseConfig.load reader disk sources.databasePath with
    | error fault => rfl
    | ok config => rfl

/-- The stages come equally far without the files that cannot be opened, apart
from the list of skipped files. -/
theorem stages_pass_over
    (reader : DocumentReader)
    (rules : RuleSet)
    (alike : (sources.withoutUnopened disk).ReadsAlike disk other) :
    stages reader rules disk sources =
      (stages reader rules other (sources.withoutUnopened disk)).map fun progress =>
        progress.withErrors
          ((rules.scopedFiles (sources.unopened disk)).map sources.scanError) := by
  have sameRoot : (sources.withoutUnopened disk).root = sources.root := rfl
  simp only [stages, sameRoot, schemaStage_congr rules alike]
  cases schemaPassed : (schemaStage rules other (sources.withoutUnopened disk)
      ⟨[], ⟨sources.root, 0, 0, []⟩⟩).outcome with
  | error fault => rfl
  | ok afterSchema =>
      have noErrors : afterSchema.summary.scanErrors = [] := scanErrors_schemaStage schemaPassed
      simp only [Traced.ok_bind, sourceStage_passes_over rules alike noErrors]
      cases (sourceStage rules other (sources.withoutUnopened disk) afterSchema).outcome with
      | error fault => rfl
      | ok afterSources => exact configStage_withErrors reader rules alike afterSources _

/-- Rules on source files come to an end unless a directory stands in the place of
a file that one of them covers. -/
theorem exists_stages_eq_ok
    (reader : DocumentReader)
    {rules : RuleSet}
    (noSchemaRules : rules.schemaRules = [])
    (noConfigRules : rules.configRules = [])
    (noDirectory : ∀ file ∈ rules.scopedFiles sources.files,
      disk.read (Path.append sources.root file) ≠ .directory) :
    ∃ progress, stages reader rules disk sources = .ok progress := by
  obtain ⟨reading, readThrough⟩ := Project.exists_readSources_eq_ok noDirectory
  cases noRules : rules.sourceRules.isEmpty with
  | true =>
      simp [stages, schemaStage, sourceStage, configStage, noSchemaRules, noConfigRules, noRules]
  | false =>
      simp [stages, schemaStage, sourceStage, configStage, noSchemaRules, noConfigRules, noRules,
        readThrough, stageComplete]

end Stages

/-- Source files that cannot be opened are collected, and the run goes on.  A run
over a project and one over the project without these files fail alike or succeed
alike.  If they succeed, they find the same, count the same files and exit with the
same code, and the first lists exactly those of the files that a rule covers, in
the order of the project.  Rules on source files succeed unless a directory stands
in the place of a file. -/
theorem run_passes_over_unopened
    {disk other : Disk}
    {request : Request}
    {given givenOther : Option ProjectSources}
    {sources : ProjectSources}
    (acquired : sourcesFrom given disk request = .ok sources)
    (acquiredOther : sourcesFrom givenOther other request = .ok (sources.withoutUnopened disk))
    (alike : (sources.withoutUnopened disk).ReadsAlike disk other)
    (rules : RuleSet)
    (reporter : Reporter)
    (reader : DocumentReader)
    (elapsed : Text) :
    (∀ fault,
      (run ⟨rules, reporter, given, reader⟩ disk request elapsed).outcome = .error fault ↔
        (run ⟨rules, reporter, givenOther, reader⟩ other request elapsed).outcome = .error fault) ∧
      (∀ analysis,
        (run ⟨rules, reporter, given, reader⟩ disk request elapsed).outcome = .ok analysis →
        ∃ remaining,
          (run ⟨rules, reporter, givenOther, reader⟩ other request elapsed).outcome =
              .ok remaining ∧
            analysis.aggregate = remaining.aggregate ∧
            (∀ suite : Suite,
              suite.exitCode analysis.aggregate = suite.exitCode remaining.aggregate) ∧
            analysis.summary.filesScanned = remaining.summary.filesScanned ∧
            analysis.summary.scanErrors =
              (rules.scopedFiles (sources.unopened disk)).map sources.scanError) ∧
      (rules.schemaRules = [] → rules.configRules = [] →
        (∀ file ∈ rules.scopedFiles sources.files,
          disk.read (Path.append sources.root file) ≠ .directory) →
        ∃ analysis,
          (run ⟨rules, reporter, given, reader⟩ disk request elapsed).outcome = .ok analysis) := by
  let errors := (rules.scopedFiles (sources.unopened disk)).map sources.scanError
  let remainingStages := stages reader rules other (sources.withoutUnopened disk)
  have passedOver : stages reader rules disk sources =
      remainingStages.map fun progress => progress.withErrors errors :=
    stages_pass_over reader rules alike
  have firstRun : (run ⟨rules, reporter, given, reader⟩ disk request elapsed).outcome =
      (stages reader rules disk sources).map fun progress => progress.analysis reporter request :=
    run_outcome_eq_stages acquired elapsed
  have secondRun : (run ⟨rules, reporter, givenOther, reader⟩ other request elapsed).outcome =
      remainingStages.map fun progress => progress.analysis reporter request :=
    run_outcome_eq_stages acquiredOther elapsed
  rw [firstRun, secondRun]
  refine ⟨?_, ?_, ?_⟩
  · intro fault
    rw [passedOver]
    cases remainingStages with
    | error stopped => rfl
    | ok progress => exact ⟨fun failed => by contradiction, fun failed => by contradiction⟩
  · intro analysis succeeded
    rw [passedOver] at succeeded
    cases reached : remainingStages with
    | error stopped =>
        rw [reached] at succeeded
        contradiction
    | ok progress =>
        rw [reached] at succeeded
        obtain rfl := Except.ok.inj succeeded
        exact ⟨progress.analysis reporter request, rfl, rfl, fun _ => rfl, rfl, rfl⟩
  · intro noSchemaRules noConfigRules noDirectory
    obtain ⟨progress, passed⟩ := exists_stages_eq_ok reader noSchemaRules noConfigRules noDirectory
    exact ⟨_, by rw [passed]; rfl⟩

/-- A controller and a model that filter by the same column. -/
def leakyController : Text :=
  ascii "@posts = Post.where(name: 1)\n@posts.first.title\n"

def leakyModel : Text :=
  ascii "Post.where(name: 2)\n"

/-- Between them stands a model that cannot be opened, and so does a helper, which no
rule covers. -/
def leakyDisk : Disk where
  entries :=
    [(ascii "app", .directory
        [(ascii "controllers", .directory [(ascii "posts.rb", .file leakyController)]),
          (ascii "helpers", .directory [(ascii "posts.rb", .locked)]),
          (ascii "models", .directory
            [(ascii "broken.rb", .locked), (ascii "posts.rb", .file leakyModel)])]),
      (ascii "config", .directory [(ascii "application.rb", .file [])])]
  workingDirectory := []

def leakySources : ProjectSources where
  root := Path.root
  schemaPath := ascii "/db/schema.rb"
  databasePath := ascii "/config/database.yml"
  files := [ascii "app/controllers/posts.rb", ascii "app/helpers/posts.rb",
    ascii "app/models/broken.rb", ascii "app/models/posts.rb"]

def leakyRequest : Request where
  root := Path.root
  suite := .nPlusOne
  formats := []
  limits := {}

/-- Two rules on source files. -/
def leakyRules : RuleSet where
  sourceRules := [.whereClauseColumn, .controllerNPlusOne]

/-- The two rules search for the project themselves. -/
def leakyPipeline : Pipeline :=
  ⟨leakyRules, .standard, none, .refusing []⟩

theorem leakyDisk_passes_over :
    sourcesFrom none leakyDisk leakyRequest = .ok leakySources ∧
      sourcesFrom none leakyDisk.withoutLocked leakyRequest =
        .ok (leakySources.withoutUnopened leakyDisk) ∧
      ∃ analysis remaining,
        (leakyPipeline.run leakyDisk leakyRequest []).outcome = .ok analysis ∧
          (leakyPipeline.run leakyDisk.withoutLocked leakyRequest []).outcome = .ok remaining ∧
          analysis.aggregate = remaining.aggregate ∧
          analysis.summary.filesScanned = remaining.summary.filesScanned ∧
          analysis.summary.scanErrors =
            [⟨ascii "/app/models/broken.rb", Project.notOpened⟩] := by
  have orderly : Project.IsOrderly leakyDisk leakySources.root :=
    ⟨by decide +kernel, by decide +kernel, by decide +kernel, by decide +kernel⟩
  have found : Project.findRoot leakyDisk Path.root = .ok Path.root :=
    Project.findRoot_of_marked rfl (by decide +kernel) (by decide +kernel)
  have stillFound : Project.findRoot leakyDisk.withoutLocked Path.root = .ok Path.root :=
    Project.findRoot_of_marked rfl (by decide +kernel) (by decide +kernel)
  have collected : Project.collectFiles leakyDisk Path.root = .ok leakySources.files := by
    decide +kernel
  have acquired : sourcesFrom none leakyDisk leakyRequest = .ok leakySources := by
    simp only [sourcesFrom, leakyRequest, Project.outcome_acquire, found, Except.bind, collected]
    rfl
  have acquiredOther : sourcesFrom none leakyDisk.withoutLocked leakyRequest =
      .ok (leakySources.withoutUnopened leakyDisk) :=
    Project.acquire_withoutLocked acquired stillFound orderly
  have alike : (leakySources.withoutUnopened leakyDisk).ReadsAlike leakyDisk
      leakyDisk.withoutLocked :=
    ProjectSources.readsAlike_withoutLocked orderly.distinct orderly.absolute (by decide +kernel)
  have skipped : (leakyRules.scopedFiles (leakySources.unopened leakyDisk)).map
      leakySources.scanError = [⟨ascii "/app/models/broken.rb", Project.notOpened⟩] := by
    decide +kernel
  obtain ⟨_, compared, succeeds⟩ :=
    run_passes_over_unopened acquired acquiredOther alike leakyRules .standard (.refusing []) []
  obtain ⟨analysis, analysed⟩ := succeeds rfl rfl (by decide +kernel)
  obtain ⟨remaining, analysedRemaining, sameFindings, _, sameFiles, errors⟩ :=
    compared analysis analysed
  exact ⟨acquired, acquiredOther, analysis, remaining, analysed, analysedRemaining, sameFindings,
    sameFiles, errors.trans skipped⟩

end Pipeline
end QueryAdvisor

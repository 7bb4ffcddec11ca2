import QueryAdvisor.Proofs.Pipeline.Independence
import QueryAdvisor.Proofs.Rule.RepeatedQuery

/-!
# The exit code for repeated queries

The command that looks for repeated queries fails exactly if some line of a
controller fetches records into an instance variable, no eager loading stands
near it, and one of the next lines reaches through the variable.  Of several
variables that the line assigns, only the first counts.  The windows around a line
are stated by the numbers of lines, and the way from such a line to the exit code
leads through the rule, the scope, and the count of warnings.
-/

namespace QueryAdvisor

namespace Aggregate

open Finding

/-- A finding without a key is never dropped. -/
theorem mem_unrepeated_of_key_eq_nil
    {findings : List Finding}
    {finding : Finding}
    (present : finding ∈ findings)
    (noKey : finding.key = []) :
    finding ∈ unrepeated findings := by
  obtain ⟨index, found⟩ := List.mem_iff_getElem?.mp present
  have entry : (finding, index) ∈ findings.zipIdx := List.mem_zipIdx_iff_getElem?.mpr found
  refine List.mem_map.mpr ⟨(finding, index), List.mem_filter.mpr ⟨entry, ?_⟩, rfl⟩
  simp [Repeats, noKey]

/-- Warnings that have no key are all counted. -/
theorem hasWarnings_ofFindings_iff
    {findings : List Finding}
    (noKeys : ∀ finding ∈ findings, finding.severity = .warning → finding.key = []) :
    (ofFindings findings).hasWarnings = true ↔
      ∃ finding ∈ findings, finding.severity = .warning := by
  have counted : (ofFindings findings).warningCount =
      (unrepeated findings).countP fun finding => finding.severity = .warning :=
    (Tally.summarises_ofFindings findings).warningCount_eq
  rw [hasWarnings, decide_eq_true_iff, counted, List.countP_pos_iff]
  constructor
  · rintro ⟨finding, kept, warns⟩
    exact ⟨finding, mem_of_mem_unrepeated kept, of_decide_eq_true warns⟩
  · rintro ⟨finding, present, warns⟩
    exact ⟨finding, mem_unrepeated_of_key_eq_nil present (noKeys finding present warns),
      decide_eq_true warns⟩

end Aggregate

namespace SourceRule

/-- A line fetches records into an instance variable that it assigns, no line up
to two lines away asks for eager loading, and one of the next twenty lines reaches
through a member of the variable. -/
def RepeatsQueries
    (assigns : Text → Text → Prop)
    (lines : List Text)
    (index : Nat) : Prop :=
  ∃ line variableName,
    lines[index]? = some line ∧
      Query.Calls Query.fetchMethods line ∧
      assigns line variableName ∧
      (∀ near other, lines[near]? = some other → index ≤ near + 2 → near ≤ index + 2 →
        ¬ Query.Calls Query.eagerMethods other) ∧
      ∃ later other, lines[later]? = some other ∧ index < later ∧ later ≤ index + 20 ∧
        Query.ReachesThrough other variableName

/-- A Ruby file below the directory of controllers, where repeated slashes count
once. -/
def IsController (path : Path) : Prop :=
  Path.extension path = ascii ".rb" ∧ ascii "app/controllers/" <+: Path.collapse path

/-! ### Lines that repeat queries -/

/-- The windows and the tests single out the lines that repeat queries. -/
theorem repeatsQueries_iff
    (lines : List Text)
    (index : Nat) :
    RepeatsQueries Query.AssignsFirst lines index ↔
      ∃ line, lines[index]? = some line ∧ (candidate? lines index line).isSome = true := by
  have notEager_iff : Query.loadsEagerly (Text.joinLines (surrounding lines index)) = false ↔
      ∀ near other, lines[near]? = some other → index ≤ near + 2 → near ≤ index + 2 →
        ¬ Query.Calls Query.eagerMethods other := by
    rw [Query.loadsEagerly_joinLines, List.any_eq_false]
    simp only [mem_surrounding_iff, Query.loadsEagerly_iff]
    constructor
    · intro lazy near other found notBefore notAfter
      exact lazy other ⟨near, found, notBefore, notAfter⟩
    · rintro lazy other ⟨near, found, notBefore, notAfter⟩
      exact lazy near other found notBefore notAfter
  constructor
  · rintro ⟨line, variableName, found, fetches, assigns, lazy, later, other, access⟩
    obtain ⟨otherFound, after, inWindow, reaches⟩ := access
    refine ⟨line, found, (isSome_candidate?_iff lines index line).mpr ?_⟩
    refine ⟨(Query.isFetch_iff line).mpr fetches, notEager_iff.mpr lazy, variableName,
      (Query.assigned?_eq_some_iff line variableName).mpr assigns, ?_⟩
    exact (isSome_access?_iff lines index variableName).mpr
      ⟨later, other, otherFound, after, inWindow,
        (Query.reachesThrough_iff assigns.isName other).mpr reaches⟩
  · rintro ⟨line, found, isCandidate⟩
    obtain ⟨fetches, notEager, variableName, assigned, accessed⟩ :=
      (isSome_candidate?_iff lines index line).mp isCandidate
    have assigns := (Query.assigned?_eq_some_iff line variableName).mp assigned
    obtain ⟨later, other, otherFound, after, inWindow, reaches⟩ :=
      (isSome_access?_iff lines index variableName).mp accessed
    exact ⟨line, variableName, found, (Query.isFetch_iff line).mp fetches, assigns,
      notEager_iff.mp notEager, later, other, otherFound, after, inWindow,
      (Query.reachesThrough_iff assigns.isName other).mp reaches⟩

theorem candidates_ne_nil_iff (content : Text) :
    candidates content ≠ [] ↔
      ∃ index, RepeatsQueries Query.AssignsFirst (Text.lines content) index := by
  have byIndex : candidates content = (Text.lines content).zipIdx.filterMap fun entry =>
      candidate? (Text.lines content) entry.2 entry.1 := rfl
  rw [byIndex]
  constructor
  · intro nonempty
    obtain ⟨candidate, present⟩ := List.exists_mem_of_ne_nil _ nonempty
    obtain ⟨entry, listed, made⟩ := List.mem_filterMap.mp present
    exact ⟨entry.2, (repeatsQueries_iff _ _).mpr
      ⟨entry.1, List.mem_zipIdx_iff_getElem?.mp listed, Option.isSome_of_eq_some made⟩⟩
  · rintro ⟨index, repeats⟩
    obtain ⟨line, found, isCandidate⟩ := (repeatsQueries_iff _ _).mp repeats
    obtain ⟨candidate, made⟩ := Option.isSome_iff_exists.mp isCandidate
    exact List.ne_nil_of_mem (List.mem_filterMap.mpr
      ⟨(line, index), List.mem_zipIdx_iff_getElem?.mpr found, made⟩)

/-! ### The rules of the suite -/

theorem covers_iff_isController (path : Path) :
    controllerNPlusOne.scope.covers path = true ↔ IsController path := by
  have directory : ascii "app/controllers" ++ [Byte.slash] = ascii "app/controllers/" := by decide
  simp [controllerNPlusOne, Scope.covers, IsController, directory]

/-- A view gives no reason to warn. -/
theorem severity_of_mem_viewAssociationAccess
    {file : SourceFile}
    {finding : Finding}
    (present : finding ∈ viewAssociationAccess.examine file) :
    finding.severity = .info := by
  obtain ⟨entry, _, found⟩ := List.mem_filterMap.mp present
  obtain ⟨_, reported⟩ := Option.ite_none_right_eq_some.mp found
  rw [← Option.some.inj reported]
  rfl

end SourceRule

namespace RuleSet

open Registry SourceRule

/-- The rules that look for repeated queries. -/
theorem named_nPlusOne :
    named (standard.suiteRules .nPlusOne) =
      { sourceRules := [controllerNPlusOne, viewAssociationAccess] } := rfl

/-- Among the rules that look for repeated queries, only the one on controllers
warns. -/
theorem exists_warning_nPlusOne_iff
    (schema : Schema)
    (files : List SourceFile) :
    (∃ finding ∈ (named (standard.suiteRules .nPlusOne)).findings schema files,
        finding.severity = .warning) ↔
      ∃ file ∈ files, IsController file.relativePath ∧
        ∃ index, RepeatsQueries Query.AssignsFirst (Text.lines file.content) index := by
  simp only [named_nPlusOne, findings, List.flatMap_nil, List.nil_append, List.mem_flatMap,
    Pipeline.rulesFor, List.mem_filter, List.mem_cons, List.not_mem_nil, or_false]
  constructor
  · rintro ⟨finding, ⟨file, listed, rule, ⟨rfl | rfl, covered⟩, found⟩, warns⟩
    · obtain ⟨candidate, isCandidate, _⟩ := List.mem_map.mp found
      exact ⟨file, listed, (covers_iff_isController _).mp covered,
        (candidates_ne_nil_iff _).mp (List.ne_nil_of_mem isCandidate)⟩
    · rw [severity_of_mem_viewAssociationAccess found] at warns
      contradiction
  · rintro ⟨file, listed, isController, repeats⟩
    obtain ⟨candidate, isCandidate⟩ :=
      List.exists_mem_of_ne_nil _ ((candidates_ne_nil_iff _).mpr repeats)
    exact ⟨repeatedQuery file candidate, ⟨file, listed, controllerNPlusOne,
      ⟨.inl rfl, (covers_iff_isController _).mpr isController⟩,
      List.mem_map_of_mem isCandidate⟩, rfl⟩

/-- What these rules find is never dropped. -/
theorem key_eq_nil_of_mem_nPlusOne
    {schema : Schema}
    {files : List SourceFile}
    {finding : Finding}
    (present : finding ∈ (named (standard.suiteRules .nPlusOne)).findings schema files) :
    finding.key = [] := by
  by_contra nonempty
  obtain ⟨name, listed, reports⟩ := exists_name_of_mem_findings present
  rw [Finding.type_eq_of_key_ne_nil nonempty] at reports
  have others : ∀ name ∈ standard.suiteRules .nPlusOne,
      reportedType? name ≠ some .whereClauseColumn := by decide
  exact others name listed reports

end RuleSet

namespace Pipeline

open Registry SourceRule

/-- No rule on repeated queries looks at the schema, so any schema stands for it. -/
theorem analyse_nPlusOne
    {disk : Disk}
    {request : Request}
    {given : Option ProjectSources}
    {sources : ProjectSources}
    {files : List (Path × Text)}
    (acquired : sourcesFrom given disk request = .ok sources)
    (holds : sources.HoldsFiles disk files)
    (reader : DocumentReader)
    (elapsed : Text) :
    analyse { suite := .nPlusOne, sources := given, reader } disk request elapsed =
      .ok ((RuleSet.named (standard.suiteRules .nPlusOne)).analysis .standard request
        sources.root .empty (files.map sources.sourceFile)) := by
  have known : ∀ name ∈ standard.suiteRules .nPlusOne, name ∈ textRuleNames := by decide
  have chosen : (if ([] : List Text).isEmpty then standard.suiteRules .nPlusOne else []) =
      standard.suiteRules .nPlusOne := rfl
  exact analyse_standard chosen known acquired (fun schemaRules => absurd rfl schemaRules) holds
    elapsed

/-- The command that looks for repeated queries fails exactly if some line of a
controller repeats queries through the first variable that it assigns, whatever
else there is in the project. -/
theorem exitCode_nPlusOne
    {disk : Disk}
    {request : Request}
    {given : Option ProjectSources}
    {sources : ProjectSources}
    {files : List (Path × Text)}
    (acquired : sourcesFrom given disk request = .ok sources)
    (holds : sources.HoldsFiles disk files)
    (reader : DocumentReader)
    (elapsed : Text) :
    ∃ analysis,
      analyse { suite := .nPlusOne, sources := given, reader } disk request elapsed =
          .ok analysis ∧
        (Suite.nPlusOne.exitCode analysis.aggregate = 1 ↔
          ∃ file ∈ files, IsController file.1 ∧
            ∃ index, RepeatsQueries Query.AssignsFirst (Text.lines file.2) index) ∧
        (Suite.nPlusOne.exitCode analysis.aggregate = 0 ↔
          ¬ ∃ file ∈ files, IsController file.1 ∧
            ∃ index, RepeatsQueries Query.AssignsFirst (Text.lines file.2) index) := by
  let read := files.map sources.sourceFile
  have warns_iff :
      (Aggregate.ofFindings ((RuleSet.named (standard.suiteRules .nPlusOne)).findings
        .empty read)).hasWarnings = true ↔
        ∃ file ∈ files, IsController file.1 ∧
          ∃ index, RepeatsQueries Query.AssignsFirst (Text.lines file.2) index := by
    rw [Aggregate.hasWarnings_ofFindings_iff fun _ present _ =>
      RuleSet.key_eq_nil_of_mem_nPlusOne present, RuleSet.exists_warning_nPlusOne_iff]
    simp [read, ProjectSources.sourceFile]
  refine ⟨_, analyse_nPlusOne acquired holds reader elapsed, ?_⟩
  rw [← warns_iff, RuleSet.analysis, Suite.exitCode]
  split
  · rename_i warns
    simp [read, warns]
  · rename_i warns
    simp [read, warns]

theorem sampleFiles_exitCode :
    sampleSources.HoldsFiles sampleDisk sampleFiles ∧
      ∃ analysis,
        analyse { suite := .nPlusOne, sources := some sampleSources, reader := sampleReader }
            sampleDisk sampleRequest [] = .ok analysis ∧
          Suite.nPlusOne.exitCode analysis.aggregate = 1 := by
  refine ⟨sampleSources_holdsFiles, ?_⟩
  obtain ⟨analysis, analysed, fails_iff, _⟩ :=
    exitCode_nPlusOne (show sourcesFrom (some sampleSources) sampleDisk sampleRequest =
      .ok sampleSources from rfl) sampleSources_holdsFiles sampleReader []
  refine ⟨analysis, analysed, fails_iff.mpr ?_⟩
  exact ⟨_, List.mem_cons_self, (covers_iff_isController _).mp (by decide),
    (candidates_ne_nil_iff _).mp (by decide)⟩

/-- A controller that assigns the records to two variables, and reaches through
the second. -/
def twiceAssigned : Text :=
  ascii "@recent = @posts = Post.where(name: 1)\n@posts.first.title\n"

def twiceAssignedFiles : List (Path × Text) :=
  [(ascii "app/controllers/posts.rb", twiceAssigned)]

def twiceAssignedDisk : Disk where
  entries :=
    [(ascii "app", .directory
      [(ascii "controllers", .directory [(ascii "posts.rb", .file twiceAssigned)])])]
  workingDirectory := []

def twiceAssignedSources : ProjectSources where
  root := Path.root
  schemaPath := ascii "/db/schema.rb"
  databasePath := ascii "/config/database.yml"
  files := twiceAssignedFiles.map Prod.fst

def twiceAssignedSelection : Selection where
  suite := .nPlusOne
  sources := some twiceAssignedSources
  reader := sampleReader

theorem repeatsQueries_twiceAssigned :
    RepeatsQueries Query.Assigns (Text.lines twiceAssigned) 0 := by
  have isName : IsName (ascii "posts") := by decide
  have assigns : Query.Assigns (ascii "@recent = @posts = Post.where(name: 1)") (ascii "posts") :=
    ⟨ascii "@recent = ", isName, ascii " ", ascii " Post.where(name: 1)", rfl, rfl⟩
  have lazy : (Text.lines twiceAssigned).any Query.loadsEagerly = false := by decide
  refine ⟨_, ascii "posts", rfl, (Query.isFetch_iff _).mp (by decide), assigns, ?_,
    1, _, rfl, by decide, by decide, (Query.reachesThrough_iff isName _).mp (by decide)⟩
  intro near other found _ _ eager
  exact List.any_eq_false.mp lazy other (List.mem_of_getElem? found)
    ((Query.loadsEagerly_iff other).mpr eager)

/-- A second variable that a line assigns does not count: the command succeeds
although the next line reaches through it. -/
theorem exitCode_twiceAssigned :
    twiceAssignedSources.HoldsFiles twiceAssignedDisk twiceAssignedFiles ∧
      (∃ file ∈ twiceAssignedFiles, IsController file.1 ∧
        ∃ index, RepeatsQueries Query.Assigns (Text.lines file.2) index) ∧
      ∃ analysis,
        analyse twiceAssignedSelection twiceAssignedDisk sampleRequest [] = .ok analysis ∧
          Suite.nPlusOne.exitCode analysis.aggregate = 0 := by
  have holds : twiceAssignedSources.HoldsFiles twiceAssignedDisk twiceAssignedFiles :=
    ⟨rfl, by decide +kernel⟩
  refine ⟨holds, ⟨_, List.mem_cons_self, ?_, 0, repeatsQueries_twiceAssigned⟩, ?_⟩
  · exact (covers_iff_isController _).mp (by decide)
  · exact ⟨_, analyse_nPlusOne rfl holds sampleReader [], by decide +kernel⟩

end Pipeline

end QueryAdvisor

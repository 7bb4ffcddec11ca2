import Mathlib.Data.List.Nodup
import QueryAdvisor.Proofs.Finding.ByType
import QueryAdvisor.Proofs.Pipeline.Standard

/-!
# Rules do not interfere

Rules on the schema and on source files share a list of findings: rules of one
kind stand before those of the other, files are read if any rule covers them,
and findings are aggregated together.  Still each rule reports findings of a
type of its own, so what is found of a type is what its rule finds alone.  The
analysis therefore does not depend on which other rules run, nor on their order.
-/

namespace QueryAdvisor

/-! ### Each rule has a type of its own -/

namespace SchemaRule

/-- All findings of a rule have the given type. -/
def Reports
    (rule : SchemaRule)
    (type : FindingType) : Prop :=
  ∀ schema, ∀ finding ∈ rule.examine schema, finding.type = type

theorem reports_missingForeignKeyIndex :
    missingForeignKeyIndex.Reports .missingForeignKeyIndex := by
  intro schema finding present
  obtain ⟨table, _, inTable⟩ := List.mem_flatMap.mp present
  obtain ⟨column, _, rfl⟩ := List.mem_map.mp inTable
  rfl

theorem reports_booleanIndexOpportunity :
    booleanIndexOpportunity.Reports .booleanIndexOpportunity := by
  intro schema finding present
  obtain ⟨table, _, inTable⟩ := List.mem_flatMap.mp present
  obtain ⟨column, _, rfl⟩ := List.mem_map.mp inTable
  rfl

end SchemaRule

namespace SourceRule

/-- All findings of a rule have the given type. -/
def Reports
    (rule : SourceRule)
    (type : FindingType) : Prop :=
  ∀ file, ∀ finding ∈ rule.examine file, finding.type = type

theorem reports_whereClauseColumn : whereClauseColumn.Reports .whereClauseColumn := by
  intro file finding present
  obtain ⟨filter, _, rfl⟩ := List.mem_map.mp present
  rfl

theorem reports_controllerNPlusOne : controllerNPlusOne.Reports .potentialNPlusOne := by
  intro file finding present
  obtain ⟨candidate, _, rfl⟩ := List.mem_map.mp present
  rfl

theorem reports_viewAssociationAccess :
    viewAssociationAccess.Reports .viewAssociationAccess := by
  intro file finding present
  obtain ⟨⟨line, index⟩, _, found⟩ := List.mem_filterMap.mp present
  simp only [Option.ite_none_right_eq_some, Option.some.injEq] at found
  obtain ⟨_, rfl⟩ := found
  rfl

end SourceRule

namespace Registry

/-- The rules on the schema and on source files, with the types they report. -/
def reportedTypes : List (Text × FindingType) :=
  [(ascii "missing-foreign-key-index", .missingForeignKeyIndex),
    (ascii "boolean-index-opportunity", .booleanIndexOpportunity),
    (ascii "where-clause-column", .whereClauseColumn),
    (ascii "controller-n-plus-one", .potentialNPlusOne),
    (ascii "view-association-access", .viewAssociationAccess)]

/-- The type that the rule with a name reports. -/
def reportedType? (name : Text) : Option FindingType :=
  reportedTypes.lookup name

theorem exists_reportedType?
    {name : Text}
    (known : name ∈ textRuleNames) :
    ∃ type, reportedType? name = some type := by
  have reported : ∀ other ∈ textRuleNames, (reportedType? other).isSome = true := by decide
  exact Option.isSome_iff_exists.mp (reported name known)

/-- No two rules report the same type. -/
theorem eq_of_reportedType?_eq
    {left right : Text}
    {type : FindingType}
    (leftReports : reportedType? left = some type)
    (rightReports : reportedType? right = some type) :
    left = right := by
  obtain ⟨_, _, leftCut, _⟩ := List.lookup_eq_some_iff.mp leftReports
  obtain ⟨_, _, rightCut, _⟩ := List.lookup_eq_some_iff.mp rightReports
  have distinctTypes : (reportedTypes.map Prod.snd).Nodup := by decide
  have samePair : (left, type) = (right, type) :=
    List.inj_on_of_nodup_map distinctTypes (by simp [leftCut]) (by simp [rightCut]) rfl
  exact (Prod.mk.inj samePair).1

/-- A registered name belongs to an entry of its table. -/
theorem mem_of_lookup_made {α : Type}
    {components : Components α}
    {name : Text}
    {component : α}
    (made : (components.lookup name).bind Factory.made? = some component) :
    ∃ factory, (name, factory) ∈ components ∧ factory.made? = some component := by
  obtain ⟨factory, looked, makes⟩ := Option.bind_eq_some_iff.mp made
  obtain ⟨before, after, cut, _⟩ := List.lookup_eq_some_iff.mp looked
  exact ⟨factory, by simp [cut], makes⟩

theorem reports_of_schemaRule?
    {name : Text}
    {rule : SchemaRule}
    (made : schemaRule? name = some rule) :
    ∃ type, reportedType? name = some type ∧ rule.Reports type := by
  obtain ⟨factory, present, makes⟩ := mem_of_lookup_made made
  simp only [standard, List.mem_cons, List.not_mem_nil, or_false, Prod.mk.injEq] at present
  rcases present with ⟨rfl, rfl⟩ | ⟨rfl, rfl⟩
  · obtain rfl := Option.some.inj makes
    exact ⟨_, rfl, SchemaRule.reports_missingForeignKeyIndex⟩
  · obtain rfl := Option.some.inj makes
    exact ⟨_, rfl, SchemaRule.reports_booleanIndexOpportunity⟩

theorem reports_of_sourceRule?
    {name : Text}
    {rule : SourceRule}
    (made : sourceRule? name = some rule) :
    ∃ type, reportedType? name = some type ∧ rule.Reports type := by
  obtain ⟨factory, present, makes⟩ := mem_of_lookup_made made
  simp only [standard, List.mem_cons, List.not_mem_nil, or_false, Prod.mk.injEq] at present
  rcases present with ⟨rfl, rfl⟩ | ⟨rfl, rfl⟩ | ⟨rfl, rfl⟩
  · obtain rfl := Option.some.inj makes
    exact ⟨_, rfl, SourceRule.reports_whereClauseColumn⟩
  · obtain rfl := Option.some.inj makes
    exact ⟨_, rfl, SourceRule.reports_controllerNPlusOne⟩
  · obtain rfl := Option.some.inj makes
    exact ⟨_, rfl, SourceRule.reports_viewAssociationAccess⟩

end Registry

namespace RuleSet

open Finding Registry

/-- What the rule with a name finds in a schema. -/
def schemaFindings
    (schema : Schema)
    (name : Text) : List Finding :=
  (schemaRule? name).toList.flatMap fun rule => rule.examine schema

/-- What the rule with a name finds in a source file that it covers. -/
def sourceFindings
    (file : SourceFile)
    (name : Text) : List Finding :=
  ((sourceRule? name).toList.filter fun rule => rule.scope.covers file.relativePath).flatMap
    fun rule => rule.examine file

/-- Findings can be attributed to the names of rules. -/
theorem findings_named
    (names : List Text)
    (schema : Schema)
    (files : List SourceFile) :
    (named names).findings schema files =
      names.flatMap (schemaFindings schema) ++
        files.flatMap fun file => names.flatMap (sourceFindings file) := by
  have ofSchema : (names.filterMap schemaRule?).flatMap (fun rule => rule.examine schema) =
      names.flatMap (schemaFindings schema) := by
    rw [List.filterMap_eq_flatMap_toList, List.flatMap_assoc]
    rfl
  have ofFile (file : SourceFile) :
      (Pipeline.rulesFor (named names) file).flatMap (fun rule => rule.examine file) =
      names.flatMap (sourceFindings file) := by
    simp only [Pipeline.rulesFor, named]
    rw [List.filterMap_eq_flatMap_toList, List.filter_flatMap, List.flatMap_assoc]
    rfl
  rw [findings, named, ofSchema]
  congr 1
  exact List.flatMap_congr fun file _ => ofFile file

/-- A rule finds only what is of its type. -/
theorem reportedType?_of_mem_schemaFindings
    {schema : Schema}
    {name : Text}
    {finding : Finding}
    (present : finding ∈ schemaFindings schema name) :
    reportedType? name = some finding.type := by
  obtain ⟨rule, made, found⟩ := List.mem_flatMap.mp present
  obtain ⟨type, reported, reports⟩ := reports_of_schemaRule? (Option.mem_toList.mp made)
  rw [reported, reports schema finding found]

theorem reportedType?_of_mem_sourceFindings
    {file : SourceFile}
    {name : Text}
    {finding : Finding}
    (present : finding ∈ sourceFindings file name) :
    reportedType? name = some finding.type := by
  obtain ⟨rule, selected, found⟩ := List.mem_flatMap.mp present
  obtain ⟨type, reported, reports⟩ :=
    reports_of_sourceRule? (Option.mem_toList.mp (List.mem_of_mem_filter selected))
  rw [reported, reports file finding found]

/-- Every finding is one of the rule that reports its type. -/
theorem exists_name_of_mem_findings
    {names : List Text}
    {schema : Schema}
    {files : List SourceFile}
    {finding : Finding}
    (present : finding ∈ (named names).findings schema files) :
    ∃ name ∈ names, reportedType? name = some finding.type := by
  rw [findings_named, List.mem_append] at present
  rcases present with inSchema | inFiles
  · obtain ⟨name, listed, found⟩ := List.mem_flatMap.mp inSchema
    exact ⟨name, listed, reportedType?_of_mem_schemaFindings found⟩
  · obtain ⟨file, _, inFile⟩ := List.mem_flatMap.mp inFiles
    obtain ⟨name, listed, found⟩ := List.mem_flatMap.mp inFile
    exact ⟨name, listed, reportedType?_of_mem_sourceFindings found⟩

/-- Among what is found under several names, the findings of a type are those
under the name that reports it. -/
theorem ofType_flatMap
    (found : Text → List Finding)
    (reported : ∀ {name finding}, finding ∈ found name →
      reportedType? name = some finding.type)
    {names : List Text}
    (distinct : names.Nodup)
    {name : Text}
    {type : FindingType}
    (reports : reportedType? name = some type) :
    ofType (names.flatMap found) type = if name ∈ names then found name else [] := by
  induction names with
  | nil => rfl
  | cons first rest inductionHypothesis =>
      obtain ⟨firstAbsent, restDistinct⟩ := List.nodup_cons.mp distinct
      rw [List.flatMap_cons, ofType_append, inductionHypothesis restDistinct]
      by_cases same : name = first
      · subst same
        have own : ofType (found name) type = found name := by
          apply List.filter_eq_self.mpr
          intro finding present
          simpa [reports] using (reported present).symm
        rw [own, if_neg firstAbsent, if_pos List.mem_cons_self, List.append_nil]
      · have others : ofType (found first) type = [] := by
          apply List.filter_eq_nil_iff.mpr
          intro finding present wanted
          have firstReports := (reported present).trans (congrArg some (of_decide_eq_true wanted))
          exact same (eq_of_reportedType?_eq reports firstReports)
        simp [others, same]

/-- What rules find of a type is what the rule that reports it finds alone. -/
theorem ofType_findings_named
    {names : List Text}
    (distinct : names.Nodup)
    {name : Text}
    {type : FindingType}
    (reports : reportedType? name = some type)
    (schema : Schema)
    (files : List SourceFile) :
    ofType ((named names).findings schema files) type =
      if name ∈ names then (named [name]).findings schema files else [] := by
  have inSchema := ofType_flatMap (schemaFindings schema) reportedType?_of_mem_schemaFindings
    distinct reports
  have inFile (file : SourceFile) := ofType_flatMap (sourceFindings file)
    reportedType?_of_mem_sourceFindings distinct reports
  have inFiles : ofType (files.flatMap fun file => names.flatMap (sourceFindings file)) type =
      files.flatMap fun file => if name ∈ names then sourceFindings file name else [] := by
    rw [ofType, List.filter_flatMap]
    exact List.flatMap_congr fun file _ => inFile file
  rw [findings_named, ofType_append, inSchema, inFiles, findings_named]
  by_cases listed : name ∈ names
  · simp [listed]
  · simp [listed]

/-- The findings of each type do not depend on the order of the names. -/
theorem ofType_findings_perm
    {names reordered : List Text}
    (perm : reordered.Perm names)
    (distinct : names.Nodup)
    (schema : Schema)
    (files : List SourceFile)
    (type : FindingType) :
    ofType ((named reordered).findings schema files) type =
      ofType ((named names).findings schema files) type := by
  by_cases reported : ∃ name, reportedType? name = some type
  · obtain ⟨name, reports⟩ := reported
    rw [ofType_findings_named (perm.nodup_iff.mpr distinct) reports,
      ofType_findings_named distinct reports]
    simp only [perm.mem_iff]
  · have nothing (others : List Text) : ofType ((named others).findings schema files) type = [] := by
      apply List.filter_eq_nil_iff.mpr
      intro finding present wanted
      obtain ⟨name, _, reports⟩ := exists_name_of_mem_findings present
      exact reported ⟨name, by rw [reports, of_decide_eq_true wanted]⟩
    rw [nothing, nothing]

/-- Neither what is found nor what is looked at depends on the order of names. -/
theorem analysis_named_perm
    {names reordered : List Text}
    (perm : reordered.Perm names)
    (distinct : names.Nodup)
    (reporter : Reporter)
    (request : Request)
    (root : Path)
    (schema : Schema)
    (files : List SourceFile) :
    (named reordered).analysis reporter request root schema files =
      (named names).analysis reporter request root schema files := by
  have sameAggregate := Aggregate.ofFindings_congr
    (ofType_findings_perm perm distinct schema files)
  have sameTables : (named reordered).tableCount schema = (named names).tableCount schema := by
    have sameLength := (perm.filterMap schemaRule?).length_eq
    simp only [tableCount, named, ← List.length_eq_zero_iff, List.isEmpty_iff, sameLength]
  have sameCovered : (named reordered).coversFile = (named names).coversFile := by
    funext file
    exact (perm.filterMap sourceRule?).any_eq
  simp only [analysis, summary, sameAggregate, sameTables, sameCovered]

end RuleSet

namespace Pipeline

open Registry

/-- Rules on the schema and on source files do not interfere.  Whatever rules are
asked for besides it, each rule has the group that it has alone, and no other
type has a group.  So the analysis is the same in whatever order the rules are
named. -/
theorem analyse_independent
    {disk : Disk}
    {request : Request}
    {given : Option ProjectSources}
    {sources : ProjectSources}
    {schemaText : Text}
    {files : List (Path × Text)}
    (acquired : sourcesFrom given disk request = .ok sources)
    (holdsSchema : sources.HoldsSchema disk schemaText)
    (holdsFiles : sources.HoldsFiles disk files)
    {names : List Text}
    (nonempty : names ≠ [])
    (distinct : names.Nodup)
    (known : ∀ name ∈ names, name ∈ textRuleNames)
    (suite : Suite)
    (reader : DocumentReader)
    (elapsed : Text) :
    ∃ analysis,
      analyse { suite, ruleNames := names, sources := given, reader } disk request elapsed =
          .ok analysis ∧
        (∀ name ∈ names, ∃ type alone,
          reportedType? name = some type ∧
            analyse { suite, ruleNames := [name], sources := given, reader } disk request
              elapsed = .ok alone ∧
            analysis.aggregate.group? type = alone.aggregate.group? type) ∧
        (∀ group ∈ analysis.aggregate.groups,
          ∃ name ∈ names, reportedType? name = some group.type) ∧
        ∀ reordered, reordered.Perm names →
          analyse { suite, ruleNames := reordered, sources := given, reader } disk request
            elapsed = .ok analysis := by
  have analysed {others : List Text} (someName : others ≠ [])
      (othersKnown : ∀ name ∈ others, name ∈ textRuleNames) :
      analyse { suite, ruleNames := others, sources := given, reader } disk request elapsed =
        .ok ((RuleSet.named others).analysis .standard request sources.root
          (.ofText schemaText) (files.map sources.sourceFile)) :=
    analyse_standard (if_neg (mt List.isEmpty_iff.mp someName)) othersKnown acquired
      (fun _ => Schema.load_outcome holdsSchema) holdsFiles elapsed
  refine ⟨_, analysed nonempty known, ?_, ?_, ?_⟩
  · intro name listed
    obtain ⟨type, reports⟩ := exists_reportedType? (known name listed)
    refine ⟨type, _, reports, analysed (List.cons_ne_nil _ _) ?_, ?_⟩
    · simpa using known name listed
    · simp only [RuleSet.analysis]
      rw [← Aggregate.group?_ofFindings_ofType, RuleSet.ofType_findings_named distinct reports,
        if_pos listed]
  · intro group present
    obtain ⟨finding, found, sameType⟩ := Aggregate.exists_mem_of_mem_groups present
    rw [← sameType]
    exact RuleSet.exists_name_of_mem_findings found
  · intro reordered perm
    have stillSome : reordered ≠ [] := by
      rintro rfl
      exact nonempty perm.nil_eq.symm
    rw [analysed stillSome fun name listed => known name (perm.mem_iff.mp listed),
      RuleSet.analysis_named_perm perm distinct]

/-- A dump with a foreign key and a boolean column that have no index. -/
def sampleDump : Text :=
  ascii "create_table \"posts\" do |t|\n  t.integer \"user_id\"\n  t.boolean \"active\"\nend\n"

/-- A controller and a model that filter by the same column, and a view. -/
def sampleController : Text :=
  ascii "@posts = Post.where(name: 1)\n@posts.first.title\n"

def sampleModel : Text :=
  ascii "Post.where(name: 2)\n"

def sampleView : Text :=
  ascii "<%= post.author.name %>\n"

/-- The controller and the model have the same file name. -/
def sampleFiles : List (Path × Text) :=
  [(ascii "app/controllers/posts.rb", sampleController),
    (ascii "app/models/posts.rb", sampleModel),
    (ascii "app/views/posts.erb", sampleView)]

def sampleDisk : Disk where
  entries :=
    [(ascii "db", .directory [(ascii "schema.rb", .file sampleDump)]),
      (ascii "app", .directory
        [(ascii "controllers", .directory [(ascii "posts.rb", .file sampleController)]),
          (ascii "models", .directory [(ascii "posts.rb", .file sampleModel)]),
          (ascii "views", .directory [(ascii "posts.erb", .file sampleView)])])]
  workingDirectory := []

def sampleSources : ProjectSources where
  root := Path.root
  schemaPath := ascii "/db/schema.rb"
  databasePath := ascii "/config/database.yml"
  files := sampleFiles.map Prod.fst

def sampleRequest : Request where
  root := Path.root
  suite := .indexes
  formats := []
  limits := {}

/-- No rule asks for the reader of documents. -/
def sampleReader : DocumentReader :=
  .refusing []

/-- All rules, those on source files among those on the schema. -/
def sampleNames : List Text :=
  [ascii "view-association-access", ascii "missing-foreign-key-index",
    ascii "where-clause-column", ascii "boolean-index-opportunity",
    ascii "controller-n-plus-one"]

/-- The rules of given names on the sample project. -/
def sampleSelection
    (names : List Text) : Selection where
  ruleNames := names
  sources := some sampleSources
  reader := sampleReader

theorem sampleSources_holdsSchema : sampleSources.HoldsSchema sampleDisk sampleDump where
  pathExists := rfl
  read := rfl

theorem sampleSources_holdsFiles : sampleSources.HoldsFiles sampleDisk sampleFiles where
  listed := rfl
  read := by decide +kernel

theorem sampleNames_independent :
    sampleNames.Nodup ∧ (∀ name ∈ sampleNames, name ∈ textRuleNames) ∧
      ∃ analysis alone,
        analyse (sampleSelection sampleNames) sampleDisk sampleRequest [] = .ok analysis ∧
          analyse (sampleSelection [ascii "where-clause-column"]) sampleDisk sampleRequest [] =
            .ok alone ∧
          analysis.aggregate.group? .whereClauseColumn =
            alone.aggregate.group? .whereClauseColumn ∧
          analyse (sampleSelection sampleNames.reverse) sampleDisk sampleRequest [] =
            .ok analysis := by
  have distinct : sampleNames.Nodup := by decide
  have known : ∀ name ∈ sampleNames, name ∈ textRuleNames := by decide
  refine ⟨distinct, known, ?_⟩
  have acquired : sourcesFrom (some sampleSources) sampleDisk sampleRequest =
      .ok sampleSources := rfl
  obtain ⟨analysis, outcome, alone, _, order⟩ := analyse_independent acquired
    sampleSources_holdsSchema sampleSources_holdsFiles (List.cons_ne_nil _ _) distinct known
    .indexes sampleReader []
  obtain ⟨type, alone, reports, aloneOutcome, sameGroup⟩ :=
    alone (ascii "where-clause-column") (by decide)
  obtain rfl := Option.some.inj reports
  exact ⟨analysis, alone, outcome, aloneOutcome, sameGroup, order _ (List.reverse_perm _)⟩

/-- Without names the rules of the suite run, so there are groups of types that
no rule in the list of names reports. -/
theorem analyse_noNames_reports :
    ∃ analysis,
      analyse (sampleSelection []) sampleDisk sampleRequest [] = .ok analysis ∧
        ¬ ∀ group ∈ analysis.aggregate.groups,
          ∃ name ∈ ([] : List Text), reportedType? name = some group.type := by
  have outcome : analyse (sampleSelection []) sampleDisk sampleRequest [] =
      .ok ((RuleSet.named (standard.suiteRules .indexes)).analysis .standard sampleRequest
        sampleSources.root (.ofText sampleDump) (sampleFiles.map sampleSources.sourceFile)) :=
    analyse_standard rfl (by decide) rfl
      (fun _ => Schema.load_outcome sampleSources_holdsSchema) sampleSources_holdsFiles []
  refine ⟨_, outcome, ?_⟩
  have opened : ((RuleSet.named (standard.suiteRules .indexes)).analysis .standard sampleRequest
      sampleSources.root (.ofText sampleDump)
      (sampleFiles.map sampleSources.sourceFile)).aggregate.groups ≠ [] := by
    decide +kernel
  obtain ⟨group, rest, groups⟩ := List.exists_cons_of_ne_nil opened
  intro everyGroup
  obtain ⟨name, absent, _⟩ := everyGroup group (by rw [groups]; exact List.mem_cons_self)
  exact List.not_mem_nil absent

end Pipeline
end QueryAdvisor

import QueryAdvisor.Proofs.Finding.ByType
import QueryAdvisor.Proofs.Rule.Severity
import QueryAdvisor.Report.Basic

/-!
# The order of findings

The rules may report their findings in any order, and which of several findings
with the same key is kept depends on it.  What is kept splits into the findings
without a key, which are never dropped, and one finding for each key.  The keys
are the same in every order, so everything that the key settles is: the number of
findings that are kept, their types, and their severities if equal keys have equal
severities.

An aggregate holds its findings in an order of its own, by type and severity.
Aggregating them once more restores it.
-/

namespace QueryAdvisor

namespace Finding

/-- The findings that have a key. -/
def keyed (findings : List Finding) : List Finding :=
  findings.filter fun finding => finding.key ≠ []

/-- The findings that have none. -/
def unkeyed (findings : List Finding) : List Finding :=
  findings.filter fun finding => finding.key = []

theorem perm_unkeyed_append_keyed (findings : List Finding) :
    (unkeyed findings ++ keyed findings).Perm findings := by
  have others : keyed findings = findings.filter fun finding => !decide (finding.key = []) := by
    simp [keyed]
  rw [others]
  exact List.filter_append_perm _ _

/-- Without a key nothing is dropped. -/
theorem unkeyed_unrepeated (findings : List Finding) :
    unkeyed (unrepeated findings) = unkeyed findings := by
  induction findings using List.reverseRecOn with
  | nil => rfl
  | append_singleton findings finding inductionHypothesis =>
      unfold unkeyed at inductionHypothesis ⊢
      rw [unrepeated_concat, List.filter_append]
      split
      · rename_i repeats
        simp [inductionHypothesis, repeats.1]
      · rw [List.filter_append, inductionHypothesis]

theorem nodup_keys (findings : List Finding) :
    ((keyed (unrepeated findings)).map key).Nodup := by
  rw [List.Nodup, List.pairwise_map, keyed, List.pairwise_filter]
  refine (pairwise_unrepeated findings).imp ?_
  intro left right differs leftKeyed _ sameKey
  exact of_decide_eq_true leftKeyed (differs sameKey)

theorem mem_keys_iff
    {findings : List Finding}
    {key : Text} :
    key ∈ (keyed (unrepeated findings)).map Finding.key ↔
      key ≠ [] ∧ ∃ finding ∈ findings, finding.key = key := by
  rw [List.mem_map]
  constructor
  · rintro ⟨kept, present, rfl⟩
    obtain ⟨isKept, hasKey⟩ := List.mem_filter.mp present
    exact ⟨of_decide_eq_true hasKey, kept, mem_of_mem_unrepeated isKept, rfl⟩
  · rintro ⟨nonempty, finding, present, rfl⟩
    obtain ⟨kept, isKept, sameKey, _⟩ := exists_mem_unrepeated present
    exact ⟨kept, List.mem_filter.mpr ⟨isKept, by simpa [sameKey] using nonempty⟩, sameKey⟩

section Reordered

variable {findings reordered : List Finding}

/-- The keys are kept in whatever order the findings come. -/
theorem perm_keys (perm : findings.Perm reordered) :
    ((keyed (unrepeated findings)).map key).Perm ((keyed (unrepeated reordered)).map key) := by
  apply (List.perm_ext_iff_of_nodup (nodup_keys findings) (nodup_keys reordered)).mpr
  intro key
  simp only [mem_keys_iff, perm.mem_iff]

/-- Where the key settles a feature, what is kept has the same features in whatever
order the findings come, although it need not be the same. -/
theorem perm_map_unrepeated
    {α : Type}
    {feature : Finding → α}
    (settled : ∀ left ∈ findings, ∀ right ∈ findings,
      left.key ≠ [] → left.key = right.key → feature left = feature right)
    (perm : findings.Perm reordered) :
    ((unrepeated findings).map feature).Perm ((unrepeated reordered).map feature) := by
  -- The feature of a key is that of any finding with the key, dropped or not.
  let featureOf (key : Text) : Option α :=
    (findings.find? fun finding => finding.key = key).map feature
  have featureOf_key {finding : Finding} (present : finding ∈ findings)
      (hasKey : finding.key ≠ []) : featureOf finding.key = some (feature finding) := by
    cases found : findings.find? fun other => other.key = finding.key with
    | none => exact absurd (decide_eq_true rfl) (List.find?_eq_none.mp found finding present)
    | some other =>
        have sameKey : other.key = finding.key := by simpa using List.find?_some found
        have same := settled finding present other (List.mem_of_find?_eq_some found) hasKey
          sameKey.symm
        simp only [featureOf, found, Option.map_some, same]
  have throughKeys {others : List Finding} (inside : ∀ finding ∈ others, finding ∈ findings) :
      (keyed (unrepeated others)).map feature =
        ((keyed (unrepeated others)).map key).filterMap featureOf := by
    rw [List.filterMap_map, ← List.filterMap_eq_map]
    apply List.filterMap_congr
    intro finding present
    obtain ⟨isKept, hasKey⟩ := List.mem_filter.mp present
    exact (featureOf_key (inside finding (mem_of_mem_unrepeated isKept))
      (of_decide_eq_true hasKey)).symm
  have sameKeyed : ((keyed (unrepeated findings)).map feature).Perm
      ((keyed (unrepeated reordered)).map feature) := by
    rw [throughKeys fun _ => id, throughKeys fun _ => perm.mem_iff.mpr]
    exact (perm_keys perm).filterMap featureOf
  have sameUnkeyed : ((unkeyed (unrepeated findings)).map feature).Perm
      ((unkeyed (unrepeated reordered)).map feature) := by
    rw [unkeyed_unrepeated, unkeyed_unrepeated]
    exact (perm.filter _).map feature
  calc List.Perm ((unrepeated findings).map feature)
        ((unkeyed (unrepeated findings) ++ keyed (unrepeated findings)).map feature) :=
          ((perm_unkeyed_append_keyed _).map feature).symm
    List.Perm _
        ((unkeyed (unrepeated reordered) ++ keyed (unrepeated reordered)).map feature) := by
          rw [List.map_append, List.map_append]
          exact sameUnkeyed.append sameKeyed
    List.Perm _ ((unrepeated reordered).map feature) :=
          (perm_unkeyed_append_keyed _).map feature

/-- The types are those that were there, as the key settles the type. -/
theorem perm_types_unrepeated (perm : findings.Perm reordered) :
    ((unrepeated findings).map type).Perm ((unrepeated reordered).map type) := by
  apply perm_map_unrepeated _ perm
  intro left _ right _ leftKeyed sameKey
  exact (type_eq_of_key_ne_nil leftKeyed).trans
    (type_eq_of_key_ne_nil (sameKey ▸ leftKeyed)).symm

end Reordered
end Finding

namespace FindingGroup

open Finding

/-- A group holds all findings of its type. -/
theorem perm_all_collect
    (findings : List Finding)
    (type : FindingType) :
    (collect findings type).all.Perm (ofType findings type) := by
  apply List.perm_iff_count.mpr
  intro finding
  rw [count_all_collect]
  split
  · rename_i sameType
    exact (List.count_filter (by simpa using sameType)).symm
  · rename_i otherType
    refine (List.count_eq_zero.mpr ?_).symm
    intro present
    exact otherType (of_decide_eq_true (List.mem_filter.mp present).2)

theorem count_collect
    (findings : List Finding)
    (type : FindingType) :
    (collect findings type).count = (findings.map Finding.type).count type := by
  have byLength : (collect findings type).count = (ofType findings type).length := by
    rw [← (perm_all_collect findings type).length_eq]
    exact List.length_append.symm
  rw [byLength, ofType, List.count_eq_countP, List.countP_map, List.countP_eq_length_filter]
  congr 1

/-- A group gives back what was collected for its type, and nothing of other types. -/
theorem filter_all_collect
    (findings : List Finding)
    (other type : FindingType)
    (severity : Severity) :
    (collect findings other).all.filter
        (fun finding => finding.type = type ∧ finding.severity = severity) =
      if other = type then
        findings.filter fun finding => finding.type = type ∧ finding.severity = severity
      else [] := by
  have again (kind : Severity) :
      (findings.filter fun finding => finding.type = other ∧ finding.severity = kind).filter
          (fun finding => finding.type = type ∧ finding.severity = severity) =
        if other = type ∧ kind = severity then
          findings.filter fun finding => finding.type = type ∧ finding.severity = severity
        else [] := by
    split
    · rename_i same
      rw [same.1, same.2, List.filter_filter]
      simp only [Bool.and_self]
    · rename_i different
      apply List.filter_eq_nil_iff.mpr
      intro finding present selected
      obtain ⟨_, ofOther⟩ := List.mem_filter.mp present
      obtain ⟨isOther, isKind⟩ := of_decide_eq_true ofOther
      obtain ⟨isType, isSeverity⟩ := of_decide_eq_true selected
      exact different ⟨isOther.symm.trans isType, isKind.symm.trans isSeverity⟩
  rw [all, collect, List.filter_append, again, again]
  cases severity <;> simp

end FindingGroup

namespace Aggregate

open Finding

/-- The types of the groups and their sizes. -/
def typeCounts (aggregate : Aggregate) : List (FindingType × Nat) :=
  aggregate.groups.map fun group => (group.type, group.count)

theorem typeCounts_ofFindings (findings : List Finding) :
    (ofFindings findings).typeCounts =
      (FindingType.all.filter fun type => type ∈ (unrepeated findings).map Finding.type).map
        fun type => (type, ((unrepeated findings).map Finding.type).count type) := by
  rw [typeCounts, groups_ofFindings, List.map_filterMap, ← List.filterMap_eq_filter,
    List.map_filterMap]
  apply List.filterMap_congr
  intro type _
  by_cases occurs : ∃ finding ∈ unrepeated findings, finding.type = type
  · simp [FindingGroup.ofType?, occurs, Option.guard, FindingGroup.count_collect]
    rfl
  · simp [FindingGroup.ofType?, occurs, Option.guard]

section Reordered

variable {findings reordered : List Finding}

theorem total_perm (perm : findings.Perm reordered) :
    (ofFindings reordered).total = (ofFindings findings).total := by
  rw [ofFindings, ofFindings, ofTally, ofTally, (Tally.summarises_ofFindings _).total_eq,
    (Tally.summarises_ofFindings _).total_eq]
  simpa using (perm_types_unrepeated perm).length_eq.symm

theorem duplicatesDropped_perm (perm : findings.Perm reordered) :
    (ofFindings reordered).duplicatesDropped = (ofFindings findings).duplicatesDropped := by
  have sameTotal := total_perm perm
  have sameLength := perm.length_eq
  have before := total_add_dropped_ofFindings findings
  have after := total_add_dropped_ofFindings reordered
  omega

theorem typeCounts_perm (perm : findings.Perm reordered) :
    (ofFindings reordered).typeCounts = (ofFindings findings).typeCounts := by
  have sameTypes := perm_types_unrepeated perm
  rw [typeCounts_ofFindings, typeCounts_ofFindings]
  simp only [sameTypes.mem_iff, sameTypes.count_eq]

theorem warningCount_perm
    (settled : KeysSettleSeverity findings)
    (perm : findings.Perm reordered) :
    (ofFindings reordered).warningCount = (ofFindings findings).warningCount := by
  have counted (others : List Finding) : (ofFindings others).warningCount =
      ((unrepeated others).map severity).count .warning := by
    rw [ofFindings, ofTally, (Tally.summarises_ofFindings _).warningCount_eq,
      List.count_eq_countP, List.countP_map]
    rfl
  rw [counted, counted, (perm_map_unrepeated settled perm).count_eq]

/-- The order of findings does not change how many are kept, dropped and found of each
type.  Where equal keys have equal severities, as among the findings of the standard
rules, it does not change the numbers of warnings and informations either, nor the
exit code.  Findings of different types may change places without any effect. -/
theorem ofFindings_perm (perm : findings.Perm reordered) :
    (ofFindings reordered).total = (ofFindings findings).total ∧
      (ofFindings reordered).duplicatesDropped = (ofFindings findings).duplicatesDropped ∧
      (ofFindings reordered).typeCounts = (ofFindings findings).typeCounts ∧
      (KeysSettleSeverity findings →
        (ofFindings reordered).warningCount = (ofFindings findings).warningCount ∧
          (ofFindings reordered).infoCount = (ofFindings findings).infoCount ∧
          (ofFindings reordered).hasWarnings = (ofFindings findings).hasWarnings ∧
          ∀ suite : Suite,
            suite.exitCode (ofFindings reordered) = suite.exitCode (ofFindings findings)) ∧
      ((∀ finding ∈ findings, finding.IsReported) → KeysSettleSeverity findings) ∧
      ((∀ type, ofType reordered type = ofType findings type) →
        ofFindings reordered = ofFindings findings) := by
  refine ⟨total_perm perm, duplicatesDropped_perm perm, typeCounts_perm perm, ?_,
    keysSettleSeverity_of_isReported, ofFindings_congr⟩
  intro settled
  have sameWarnings := warningCount_perm settled perm
  have sameInfos : (ofFindings reordered).infoCount = (ofFindings findings).infoCount := by
    have sameTotal := total_perm perm
    rw [total_ofFindings, total_ofFindings] at sameTotal
    omega
  have sameAnswer : (ofFindings reordered).hasWarnings = (ofFindings findings).hasWarnings := by
    rw [hasWarnings, hasWarnings, sameWarnings]
  refine ⟨sameWarnings, sameInfos, sameAnswer, ?_⟩
  intro suite
  cases suite with
  | nPlusOne => rw [Suite.exitCode, Suite.exitCode, sameAnswer]
  | indexes => rfl
  | config => rfl

end Reordered

/-- A controller that filters by a column and repeats the query. -/
def postsController : SourceFile :=
  ⟨ascii "/app/controllers/posts.rb", ascii "app/controllers/posts.rb",
    ascii "@posts = Post.where(name: 1)\n@posts.first.title\n"⟩

/-- A model of the same name that filters by the same column. -/
def postsModel : SourceFile :=
  ⟨ascii "/app/models/posts.rb", ascii "app/models/posts.rb", ascii "Post.where(name: 2)\n"⟩

/-- What is found in both: the column twice, and the repeated query. -/
def postsFindings : List Finding :=
  [SourceRule.filteredColumn postsController ⟨ascii "name", 1⟩,
    SourceRule.filteredColumn postsModel ⟨ascii "name", 1⟩,
    SourceRule.repeatedQuery postsController ⟨1, ascii "posts", 2⟩]

theorem postsFindings_reversed :
    KeysSettleSeverity postsFindings ∧
      (ofFindings postsFindings.reverse).groups ≠ (ofFindings postsFindings).groups ∧
      (ofFindings postsFindings.reverse).total = 2 ∧
      (ofFindings postsFindings.reverse).typeCounts =
        [(.whereClauseColumn, 1), (.potentialNPlusOne, 1)] ∧
      Suite.nPlusOne.exitCode (ofFindings postsFindings.reverse) = 1 ∧
      ofFindings (postsFindings.drop 2 ++ postsFindings.take 2) = ofFindings postsFindings := by
  have reported : ∀ finding ∈ postsFindings, finding.IsReported := by
    simp only [postsFindings, List.forall_mem_cons]
    exact ⟨.inFile (.head _) postsController (by decide +kernel),
      .inFile (.head _) postsModel (by decide +kernel),
      .inFile (.tail _ (.head _)) postsController (by decide +kernel), by simp⟩
  obtain ⟨total, _, counts, severities, settles, _⟩ :=
    ofFindings_perm (List.reverse_perm postsFindings).symm
  have settled := settles reported
  obtain ⟨_, _, _, codes⟩ := severities settled
  obtain ⟨_, _, _, _, _, rotated⟩ := ofFindings_perm
    (List.perm_append_comm.trans (.of_eq (List.take_append_drop 2 postsFindings))).symm
  have sameOrder : ∀ type ∈ FindingType.all,
      ofType (postsFindings.drop 2 ++ postsFindings.take 2) type = ofType postsFindings type := by
    decide +kernel
  exact ⟨settled, by decide +kernel, total.trans (by decide +kernel),
    counts.trans (by decide +kernel), (codes .nPlusOne).trans (by decide +kernel),
    rotated fun type => sameOrder type (FindingType.mem_all type)⟩

/-- All findings of an aggregate, group by group. -/
def held (aggregate : Aggregate) : List Finding :=
  aggregate.groups.flatMap FindingGroup.all

theorem perm_held_unrepeated (findings : List Finding) :
    (ofFindings findings).held.Perm (unrepeated findings) :=
  perm_flatMap_all_groups findings

/-- The groups give back what is kept, type by type. -/
theorem held_ofFindings (findings : List Finding) :
    (ofFindings findings).held =
      FindingType.all.flatMap fun type =>
        (FindingGroup.collect (unrepeated findings) type).all := by
  rw [held, groups_ofFindings, List.filterMap_eq_flatMap_toList, List.flatMap_assoc]
  apply List.flatMap_congr
  intro type _
  rw [FindingGroup.ofType?]
  split
  · simp
  · rename_i absent
    rw [FindingGroup.collect_eq_empty absent]
    rfl

/-- Type by type and severity by severity, what is given back is in its old order. -/
theorem filter_held
    (findings : List Finding)
    (type : FindingType)
    (severity : Severity) :
    (ofFindings findings).held.filter
        (fun finding => finding.type = type ∧ finding.severity = severity) =
      (unrepeated findings).filter
        fun finding => finding.type = type ∧ finding.severity = severity := by
  rw [held_ofFindings, List.filter_flatMap]
  simp only [FindingGroup.filter_all_collect]
  cases type <;> simp [FindingType.all]

/-- Nothing that is given back repeats anything else, in whatever order it comes. -/
theorem unrepeated_held (findings : List Finding) :
    unrepeated (ofFindings findings).held = (ofFindings findings).held := by
  apply unrepeated_eq_self
  exact (pairwise_unrepeated findings).perm (perm_held_unrepeated findings).symm differs_symm

theorem groups_ofFindings_held (findings : List Finding) :
    (ofFindings (ofFindings findings).held).groups = (ofFindings findings).groups := by
  rw [groups_ofFindings, unrepeated_held, groups_ofFindings]
  apply List.filterMap_congr
  intro type _
  simp only [FindingGroup.ofType?, FindingGroup.collect, filter_held,
    (perm_held_unrepeated findings).mem_iff]

/-- An aggregate holds exactly what was kept, in an order of its own, and aggregating
this once more gives the same aggregate, except that nothing is dropped any more. -/
theorem ofFindings_held (findings : List Finding) :
    (ofFindings findings).held.Perm (unrepeated findings) ∧
      ofFindings (ofFindings findings).held =
        { ofFindings findings with duplicatesDropped := 0 } := by
  refine ⟨perm_held_unrepeated findings, ?_⟩
  have sameGroups := groups_ofFindings_held findings
  have sameWarnings : (ofFindings (ofFindings findings).held).warningCount =
      (ofFindings findings).warningCount := by
    rw [warningCount_ofFindings, sameGroups, ← warningCount_ofFindings]
  have sameInfos : (ofFindings (ofFindings findings).held).infoCount =
      (ofFindings findings).infoCount := by
    rw [infoCount_ofFindings, sameGroups, ← infoCount_ofFindings]
  apply Aggregate.ext
  · exact sameGroups
  · rw [total_ofFindings, sameWarnings, sameInfos, ← total_ofFindings]
  · exact sameWarnings
  · exact sameInfos
  · have counted := (Tally.summarises_ofFindings (ofFindings findings).held).dropped_add
    rw [unrepeated_held] at counted
    exact Nat.add_eq_right.mp counted

end Aggregate
end QueryAdvisor

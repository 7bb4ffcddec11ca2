import QueryAdvisor.Proofs.Finding.Aggregate

/-!
# Aggregation type by type

Findings of different types never have a key in common unless it is empty, so
what aggregation does with the findings of one type does not depend on the
others.  The group of a type is found by aggregating the findings of this type
alone, and lists with the same findings of every type, in the same order, have
the same aggregate however the types alternate in them.
-/

namespace QueryAdvisor

namespace Finding

/-- Only findings on filtered columns have a key. -/
theorem type_eq_of_key_ne_nil
    {finding : Finding}
    (keyed : finding.key ≠ []) :
    finding.type = .whereClauseColumn := by
  by_contra otherType
  apply keyed
  rw [key]
  split
  · rename_i sameType _
    exact absurd sameType otherType
  · rfl

/-- The findings of one type. -/
def ofType
    (findings : List Finding)
    (type : FindingType) : List Finding :=
  findings.filter fun finding => finding.type = type

@[simp] theorem ofType_append
    (left right : List Finding)
    (type : FindingType) :
    ofType (left ++ right) type = ofType left type ++ ofType right type :=
  List.filter_append left right

/-- Only a finding of the same type is repeated. -/
theorem repeats_ofType
    (finding : Finding)
    (earlier : List Finding) :
    finding.Repeats (ofType earlier finding.type) ↔ finding.Repeats earlier := by
  refine and_congr_right fun keyed => ?_
  constructor
  · rintro ⟨other, present, sameKey⟩
    exact ⟨other, List.mem_of_mem_filter present, sameKey⟩
  · rintro ⟨other, present, sameKey⟩
    have otherKeyed : other.key ≠ [] := sameKey.symm ▸ keyed
    have sameType : other.type = finding.type :=
      (type_eq_of_key_ne_nil otherKeyed).trans (type_eq_of_key_ne_nil keyed).symm
    exact ⟨other, List.mem_filter.mpr ⟨present, by simpa using sameType⟩, sameKey⟩

/-- What is kept of a type is what is kept of its findings alone. -/
theorem ofType_unrepeated
    (findings : List Finding)
    (type : FindingType) :
    ofType (unrepeated findings) type = unrepeated (ofType findings type) := by
  induction findings using List.reverseRecOn with
  | nil => rfl
  | append_singleton findings finding inductionHypothesis =>
      by_cases sameType : finding.type = type
      · have alone : ofType [finding] type = [finding] := by simp [ofType, sameType]
        have sameRepetition : finding.Repeats (ofType findings type) ↔
            finding.Repeats findings := sameType ▸ repeats_ofType finding findings
        rw [ofType_append, alone, unrepeated_concat, unrepeated_concat, ← inductionHypothesis]
        by_cases repeats : finding.Repeats findings
        · rw [if_pos repeats, if_pos (sameRepetition.mpr repeats)]
        · rw [if_neg repeats, if_neg (mt sameRepetition.mp repeats), ofType_append, alone]
      · have absent : ofType [finding] type = [] := by simp [ofType, sameType]
        rw [ofType_append, absent, List.append_nil, ← inductionHypothesis, unrepeated_concat]
        by_cases repeats : finding.Repeats findings
        · rw [if_pos repeats]
        · rw [if_neg repeats, ofType_append, absent, List.append_nil]

/-- Lists with the same findings of every type have the same findings. -/
theorem perm_of_ofType_eq
    {left right : List Finding}
    (same : ∀ type, ofType left type = ofType right type) :
    left.Perm right := by
  rw [List.perm_iff_count]
  intro finding
  have counted (findings : List Finding) :
      (ofType findings finding.type).count finding = findings.count finding :=
    List.count_filter (by simp)
  rw [← counted left, same, counted right]

/-- Some finding with the key and the type of a given one is kept. -/
theorem exists_mem_unrepeated
    {findings : List Finding}
    {finding : Finding}
    (present : finding ∈ findings) :
    ∃ kept ∈ unrepeated findings, kept.key = finding.key ∧ kept.type = finding.type := by
  induction findings using List.reverseRecOn generalizing finding with
  | nil => contradiction
  | append_singleton findings last inductionHypothesis =>
      rw [unrepeated_concat]
      split
      · rename_i repeats
        rcases List.mem_append.mp present with earlier | isLast
        · exact inductionHypothesis earlier
        · obtain rfl := List.mem_singleton.mp isLast
          obtain ⟨keyed, other, earlier, sameKey⟩ := repeats
          obtain ⟨kept, isKept, keptKey, _⟩ := inductionHypothesis earlier
          have keptKeyed : kept.key ≠ [] := by rwa [keptKey, sameKey]
          exact ⟨kept, isKept, keptKey.trans sameKey,
            (type_eq_of_key_ne_nil keptKeyed).trans (type_eq_of_key_ne_nil keyed).symm⟩
      · rcases List.mem_append.mp present with earlier | isLast
        · obtain ⟨kept, isKept, same⟩ := inductionHypothesis earlier
          exact ⟨kept, List.mem_append_left _ isKept, same⟩
        · exact ⟨finding, List.mem_append_right _ isLast, rfl, rfl⟩

end Finding

namespace FindingGroup

open Finding

/-- A group is made of the findings of its type. -/
theorem ofType?_ofType
    (findings : List Finding)
    (type : FindingType) :
    ofType? (ofType findings type) type = ofType? findings type := by
  have selected (severity : Severity) :
      ((ofType findings type).filter fun finding =>
        finding.type = type ∧ finding.severity = severity) =
      findings.filter fun finding => finding.type = type ∧ finding.severity = severity := by
    rw [ofType, List.filter_filter]
    apply List.filter_congr
    intro finding _
    by_cases sameType : finding.type = type <;> simp [sameType]
  have occurs : (∃ finding ∈ ofType findings type, finding.type = type) ↔
      ∃ finding ∈ findings, finding.type = type := by
    simp [ofType]
  simp only [ofType?, collect, selected, occurs]

end FindingGroup

namespace Aggregate

open Finding

/-- The group of a type, if there is one. -/
def group?
    (aggregate : Aggregate)
    (type : FindingType) : Option FindingGroup :=
  aggregate.groups.find? fun group => group.type = type

theorem group?_ofFindings
    (findings : List Finding)
    (type : FindingType) :
    (ofFindings findings).group? type = FindingGroup.ofType? (unrepeated findings) type := by
  rw [group?, groups_ofFindings]
  have typed {other : FindingType} {group : FindingGroup}
      (opened : FindingGroup.ofType? (unrepeated findings) other = some group) :
      group.type = other := by
    rw [FindingGroup.eq_collect_of_ofType?_eq_some opened]
    rfl
  -- No other type opens a group of this type, so the first one found is the right one.
  have unique {group : FindingGroup}
      (present : group ∈ FindingType.all.filterMap
        (FindingGroup.ofType? (unrepeated findings)))
      (wanted : group.type = type) :
      FindingGroup.ofType? (unrepeated findings) type = some group := by
    obtain ⟨other, _, opened⟩ := List.mem_filterMap.mp present
    rw [← wanted, typed opened]
    exact opened
  cases found : (FindingType.all.filterMap (FindingGroup.ofType? (unrepeated findings))).find?
      fun group => group.type = type with
  | some group =>
      have wanted : group.type = type := by simpa using List.find?_some found
      exact (unique (List.mem_of_find?_eq_some found) wanted).symm
  | none =>
      cases opened : FindingGroup.ofType? (unrepeated findings) type with
      | none => rfl
      | some group =>
          have present := List.mem_filterMap.mpr ⟨type, FindingType.mem_all type, opened⟩
          exact absurd (decide_eq_true (typed opened)) (List.find?_eq_none.mp found group present)

/-- Every group goes back to a finding of its type. -/
theorem exists_mem_of_mem_groups
    {findings : List Finding}
    {group : FindingGroup}
    (present : group ∈ (ofFindings findings).groups) :
    ∃ finding ∈ findings, finding.type = group.type := by
  rw [groups_ofFindings] at present
  obtain ⟨type, _, opened⟩ := List.mem_filterMap.mp present
  obtain ⟨finding, kept, sameType⟩ := FindingGroup.exists_mem_of_ofType?_eq_some opened
  rw [FindingGroup.eq_collect_of_ofType?_eq_some opened]
  exact ⟨finding, mem_of_mem_unrepeated kept, sameType⟩

/-- The group of a type does not depend on findings of other types. -/
theorem group?_ofFindings_ofType
    (findings : List Finding)
    (type : FindingType) :
    (ofFindings (ofType findings type)).group? type = (ofFindings findings).group? type := by
  rw [group?_ofFindings, group?_ofFindings, ← ofType_unrepeated, FindingGroup.ofType?_ofType]

/-- An aggregate depends only on the findings of each type, in their order. -/
theorem ofFindings_congr
    {left right : List Finding}
    (same : ∀ type, ofType left type = ofType right type) :
    ofFindings left = ofFindings right := by
  have sameGroups : (ofFindings left).groups = (ofFindings right).groups := by
    rw [groups_ofFindings, groups_ofFindings]
    apply List.filterMap_congr
    intro type _
    rw [← FindingGroup.ofType?_ofType, ofType_unrepeated, same, ← ofType_unrepeated,
      FindingGroup.ofType?_ofType]
  have sameWarnings : (ofFindings left).warningCount = (ofFindings right).warningCount := by
    rw [warningCount_ofFindings, warningCount_ofFindings, sameGroups]
  have sameInfos : (ofFindings left).infoCount = (ofFindings right).infoCount := by
    rw [infoCount_ofFindings, infoCount_ofFindings, sameGroups]
  have sameTotal : (ofFindings left).total = (ofFindings right).total := by
    rw [total_ofFindings, total_ofFindings, sameWarnings, sameInfos]
  have sameDropped : (ofFindings left).duplicatesDropped =
      (ofFindings right).duplicatesDropped := by
    have sameLength := (perm_of_ofType_eq same).length_eq
    have leftSum := total_add_dropped_ofFindings left
    have rightSum := total_add_dropped_ofFindings right
    omega
  exact Aggregate.ext sameGroups sameTotal sameWarnings sameInfos sameDropped

end Aggregate
end QueryAdvisor

import Mathlib.Algebra.BigOperators.Group.List.Basic
import Mathlib.Algebra.Ring.Nat
import Mathlib.Data.List.Induction
import QueryAdvisor.Finding.Aggregate

/-!
# What aggregation keeps

Aggregation passes over a list of findings once and keeps keys, groups and
counters in step.  The invariant of the pass says what all of them are after a
beginning of the list, in terms of the findings that repeat none before them.
It holds at the start, one more finding preserves it, and so it holds after the
whole list: nothing but repetitions is lost, and the numbers add up.
-/

namespace QueryAdvisor

namespace Finding

/-- A finding repeats earlier ones if one of them has its key, unless that key
is empty. -/
def Repeats
    (finding : Finding)
    (earlier : List Finding) : Prop :=
  finding.key ≠ [] ∧ ∃ other ∈ earlier, other.key = finding.key

instance
    (finding : Finding)
    (earlier : List Finding) : Decidable (finding.Repeats earlier) :=
  inferInstanceAs (Decidable (_ ∧ _))

/-- The findings of a list that do not repeat those before them, in order. -/
def unrepeated (findings : List Finding) : List Finding :=
  (findings.zipIdx.filter fun entry => ¬ entry.1.Repeats (findings.take entry.2)).map Prod.fst

theorem mem_of_mem_unrepeated
    {findings : List Finding}
    {finding : Finding}
    (present : finding ∈ unrepeated findings) :
    finding ∈ findings := by
  obtain ⟨entry, kept, rfl⟩ := List.mem_map.mp present
  exact List.fst_mem_of_mem_zipIdx (List.mem_of_mem_filter kept)

/-- What is added behind a list does not change what repeats inside it. -/
theorem unrepeated_concat
    (findings : List Finding)
    (finding : Finding) :
    unrepeated (findings ++ [finding]) =
      if finding.Repeats findings then unrepeated findings
      else unrepeated findings ++ [finding] := by
  have inside :
      (findings.zipIdx.filter fun entry =>
        ¬ entry.1.Repeats ((findings ++ [finding]).take entry.2)) =
      findings.zipIdx.filter fun entry => ¬ entry.1.Repeats (findings.take entry.2) := by
    apply List.filter_congr
    intro entry present
    have bound : entry.2 < findings.length := by
      simpa using List.snd_lt_of_mem_zipIdx present
    rw [List.take_append_of_le_length (Nat.le_of_lt bound)]
  rw [unrepeated, List.zipIdx_append, List.filter_append, inside, List.map_append]
  by_cases repeats : finding.Repeats findings
  · simp [repeats, unrepeated]
  · simp [repeats, unrepeated]

/-- Two findings do not repeat each other: their keys differ or are empty. -/
def Differs (left right : Finding) : Prop :=
  left.key = right.key → left.key = []

theorem differs_symm
    {left right : Finding}
    (differs : left.Differs right) :
    right.Differs left := by
  intro sameKey
  rw [sameKey]
  exact differs sameKey.symm

/-- Nothing that is kept repeats anything else that is kept. -/
theorem pairwise_unrepeated (findings : List Finding) :
    (unrepeated findings).Pairwise Differs := by
  induction findings using List.reverseRecOn with
  | nil => exact .nil
  | append_singleton findings finding inductionHypothesis =>
      rw [unrepeated_concat]
      split
      · exact inductionHypothesis
      · rename_i notRepeated
        refine List.pairwise_append.mpr ⟨inductionHypothesis, List.pairwise_singleton _ _, ?_⟩
        intro kept present last isLast sameKey
        obtain rfl := List.mem_singleton.mp isLast
        by_contra keyed
        exact notRepeated ⟨sameKey ▸ keyed, kept, mem_of_mem_unrepeated present, sameKey⟩

/-- Findings that do not repeat each other are all kept. -/
theorem unrepeated_eq_self
    {findings : List Finding}
    (differing : findings.Pairwise Differs) :
    unrepeated findings = findings := by
  induction findings using List.reverseRecOn with
  | nil => rfl
  | append_singleton findings finding inductionHypothesis =>
      obtain ⟨earlierDiffering, _, lastDiffers⟩ := List.pairwise_append.mp differing
      have notRepeated : ¬ finding.Repeats findings := by
        rintro ⟨keyed, other, present, sameKey⟩
        have noKey := lastDiffers other present finding List.mem_cons_self sameKey
        exact keyed (sameKey.symm.trans noKey)
      rw [unrepeated_concat, if_neg notRepeated, inductionHypothesis earlierDiffering]

end Finding

namespace FindingGroup

open Finding

/-- The findings of a type among some findings. -/
def collect
    (findings : List Finding)
    (type : FindingType) : FindingGroup where
  type := type
  warnings := findings.filter fun finding => finding.type = type ∧ finding.severity = .warning
  infos := findings.filter fun finding => finding.type = type ∧ finding.severity = .info

/-- The group of a type among some findings, if any of them has the type. -/
def ofType?
    (findings : List Finding)
    (type : FindingType) : Option FindingGroup :=
  if ∃ finding ∈ findings, finding.type = type then some (collect findings type) else none

/-- A group of its own is opened only for a type that has none. -/
theorem find?_addTo
    (finding : Finding)
    (groups : List FindingGroup)
    (type : FindingType) :
    (addTo finding groups).find? (fun group => group.type = type) =
      if finding.type = type then
        some (((groups.find? fun group => group.type = type).getD (empty type)).add finding)
      else groups.find? fun group => group.type = type := by
  have keepsType (group : FindingGroup) : (group.add finding).type = group.type := by
    cases severity : finding.severity <;> simp [add, severity]
  induction groups with
  | nil =>
      by_cases sameType : finding.type = type
      · simp [addTo, keepsType, empty, sameType]
      · simp [addTo, keepsType, empty, sameType]
  | cons group rest inductionHypothesis =>
      rw [addTo]
      by_cases joins : group.type = finding.type
      · by_cases sameType : finding.type = type
        · simp [keepsType, joins, sameType]
        · simp [keepsType, joins, sameType]
      · by_cases wanted : group.type = type
        · have otherType : finding.type ≠ type := fun equal => joins (wanted.trans equal.symm)
          rw [if_neg joins, if_neg otherType]
          simp [wanted]
        · simp only [if_neg joins, List.find?_cons, wanted, decide_false]
          exact inductionHypothesis

/-- Without findings of a type nothing is collected for it. -/
theorem collect_eq_empty
    {findings : List Finding}
    {type : FindingType}
    (absent : ¬ ∃ finding ∈ findings, finding.type = type) :
    collect findings type = empty type := by
  have nothing (severity : Severity) :
      (findings.filter fun finding => finding.type = type ∧ finding.severity = severity) = [] := by
    rw [List.filter_eq_nil_iff]
    intro finding present matching
    exact absent ⟨finding, present, (of_decide_eq_true matching).1⟩
  simp only [collect, empty, nothing]

theorem collect_concat
    (findings : List Finding)
    (finding : Finding) :
    collect (findings ++ [finding]) finding.type = (collect findings finding.type).add finding := by
  cases severity : finding.severity <;> simp [collect, add, severity]

/-- A finding is collected for its own type, under its own severity. -/
theorem count_all_collect
    (findings : List Finding)
    (type : FindingType)
    (finding : Finding) :
    (collect findings type).all.count finding =
      if finding.type = type then findings.count finding else 0 := by
  have selected (severity : Severity) :
      (findings.filter fun other => other.type = type ∧ other.severity = severity).count finding =
        if finding.type = type ∧ finding.severity = severity then findings.count finding else 0 := by
    split
    · rename_i wanted
      exact List.count_filter (by simpa using wanted)
    · rename_i unwanted
      apply List.count_eq_zero.mpr
      intro present
      exact unwanted (of_decide_eq_true (List.mem_filter.mp present).2)
  rw [all, collect, List.count_append, selected, selected]
  cases finding.severity <;> simp

theorem eq_collect_of_ofType?_eq_some
    {findings : List Finding}
    {type : FindingType}
    {group : FindingGroup}
    (opened : ofType? findings type = some group) :
    group = collect findings type := by
  rw [ofType?] at opened
  split at opened
  · exact (Option.some.inj opened).symm
  · contradiction

/-- A group is opened only for a finding of its type. -/
theorem exists_mem_of_ofType?_eq_some
    {findings : List Finding}
    {type : FindingType}
    {group : FindingGroup}
    (opened : ofType? findings type = some group) :
    ∃ finding ∈ findings, finding.type = type := by
  by_contra absent
  rw [ofType?, if_neg absent] at opened
  contradiction

/-- No group is empty. -/
theorem count_pos_of_ofType?_eq_some
    {findings : List Finding}
    {type : FindingType}
    {group : FindingGroup}
    (opened : ofType? findings type = some group) :
    0 < group.count := by
  obtain ⟨finding, present, sameType⟩ := exists_mem_of_ofType?_eq_some opened
  have collected : finding ∈ (collect findings type).all := by
    cases severity : finding.severity <;>
      simp [all, collect, present, sameType, severity]
  rw [eq_collect_of_ofType?_eq_some opened, count, ← List.length_append]
  exact List.length_pos_of_mem collected

/-- One more finding changes the group of its type and no other. -/
theorem ofType?_concat
    (findings : List Finding)
    (finding : Finding)
    (type : FindingType) :
    ofType? (findings ++ [finding]) type =
      if finding.type = type then some (((ofType? findings type).getD (empty type)).add finding)
      else ofType? findings type := by
  by_cases sameType : finding.type = type
  · subst sameType
    have collected : (ofType? findings finding.type).getD (empty finding.type) =
        collect findings finding.type := by
      rw [ofType?]
      split
      · rfl
      · rename_i absent
        exact (collect_eq_empty absent).symm
    rw [if_pos rfl, collected, ← collect_concat, ofType?, if_pos ⟨finding, by simp, rfl⟩]
  · simp [ofType?, collect, sameType, or_and_right, exists_or]

end FindingGroup

namespace Tally

open Finding

/-- The invariant of the pass: what a tally holds after some findings. -/
structure Summarises
    (tally : Tally)
    (findings : List Finding) : Prop where
  mem_seenKeys : ∀ key,
    key ∈ tally.seenKeys ↔ key ≠ [] ∧ ∃ finding ∈ findings, finding.key = key
  group?_eq : ∀ type, tally.group? type = FindingGroup.ofType? (unrepeated findings) type
  total_eq : tally.total = (unrepeated findings).length
  warningCount_eq :
    tally.warningCount = (unrepeated findings).countP fun finding => finding.severity = .warning
  infoCount_eq :
    tally.infoCount = (unrepeated findings).countP fun finding => finding.severity = .info
  dropped_add : tally.duplicatesDropped + (unrepeated findings).length = findings.length

theorem summarises_nil : Summarises {} [] where
  mem_seenKeys key := by simp
  group?_eq type := rfl
  total_eq := rfl
  warningCount_eq := rfl
  infoCount_eq := rfl
  dropped_add := rfl

namespace Summarises

variable {tally : Tally} {findings : List Finding}

/-- The keys that were noted are those needed to tell a repetition. -/
theorem repeats_iff
    (summarises : Summarises tally findings)
    (finding : Finding) :
    tally.repeats finding = true ↔ finding.Repeats findings := by
  rw [repeats, Bool.and_eq_true, List.contains_iff_mem, summarises.mem_seenKeys,
    Bool.not_eq_true', List.isEmpty_eq_false_iff, Repeats, and_self_left]

/-- A key is noted with every finding that is not dropped, and the key of a
dropped one had been noted before. -/
theorem mem_seenKeys_step
    (summarises : Summarises tally findings)
    (finding : Finding)
    (key : Text) :
    key ∈ (tally.step finding).seenKeys ↔
      key ≠ [] ∧ ∃ other ∈ findings ++ [finding], other.key = key := by
  have before := summarises.mem_seenKeys key
  have oneMore : (∃ other ∈ findings ++ [finding], other.key = key) ↔
      (∃ other ∈ findings, other.key = key) ∨ finding.key = key := by
    simp [or_and_right, exists_or]
  rw [oneMore, step]
  by_cases repeats : finding.Repeats findings
  · rw [if_pos ((summarises.repeats_iff finding).mpr repeats)]
    refine before.trans (and_congr_right fun _ => ⟨.inl, ?_⟩)
    rintro (earlier | rfl)
    · exact earlier
    · exact repeats.2
  · rw [if_neg (mt (summarises.repeats_iff finding).mp repeats)]
    by_cases noKey : finding.key = []
    · simp only [keep, noKey, List.isEmpty_nil, if_true]
      refine before.trans (and_congr_right fun nonempty => ⟨.inl, ?_⟩)
      rintro (earlier | rfl)
      · exact earlier
      · exact absurd rfl nonempty
    · simp only [keep, List.isEmpty_iff, noKey, if_false, List.mem_cons, before]
      constructor
      · rintro (rfl | ⟨nonempty, earlier⟩)
        · exact ⟨noKey, .inr rfl⟩
        · exact ⟨nonempty, .inl earlier⟩
      · rintro ⟨nonempty, earlier | rfl⟩
        · exact .inr ⟨nonempty, earlier⟩
        · exact .inl rfl

/-- One more finding preserves the invariant. -/
theorem step
    (summarises : Summarises tally findings)
    (finding : Finding) :
    Summarises (tally.step finding) (findings ++ [finding]) := by
  have keys := summarises.mem_seenKeys_step finding
  have dropped := summarises.dropped_add
  by_cases repeats : finding.Repeats findings
  · have stepped : tally.step finding = tally.drop := by
      rw [Tally.step, if_pos ((summarises.repeats_iff finding).mpr repeats)]
    have kept : unrepeated (findings ++ [finding]) = unrepeated findings := by
      rw [unrepeated_concat, if_pos repeats]
    rw [stepped] at keys ⊢
    refine ⟨keys, ?_, ?_, ?_, ?_, ?_⟩
    · rw [kept]
      exact summarises.group?_eq
    · rw [kept]
      exact summarises.total_eq
    · rw [kept]
      exact summarises.warningCount_eq
    · rw [kept]
      exact summarises.infoCount_eq
    · simp only [kept, Tally.drop, List.length_append, List.length_singleton]
      omega
  · have stepped : tally.step finding = tally.keep finding := by
      rw [Tally.step, if_neg (mt (summarises.repeats_iff finding).mp repeats)]
    have kept : unrepeated (findings ++ [finding]) = unrepeated findings ++ [finding] := by
      rw [unrepeated_concat, if_neg repeats]
    rw [stepped] at keys ⊢
    refine ⟨keys, ?_, ?_, ?_, ?_, ?_⟩
    · intro type
      have sameGroup := summarises.group?_eq type
      rw [group?] at sameGroup
      rw [kept, FindingGroup.ofType?_concat, group?, keep, FindingGroup.find?_addTo, sameGroup]
    · simp [kept, keep, summarises.total_eq]
    · simp [kept, keep, summarises.warningCount_eq, List.countP_cons]
    · simp [kept, keep, summarises.infoCount_eq, List.countP_cons]
    · simp only [kept, keep, List.length_append, List.length_singleton]
      omega

end Summarises

/-- The whole pass keeps the invariant. -/
theorem summarises_ofFindings
    (findings : List Finding) :
    Summarises (ofFindings findings) findings := by
  induction findings using List.reverseRecOn with
  | nil => exact summarises_nil
  | append_singleton findings finding inductionHypothesis =>
      rw [ofFindings, List.foldl_concat]
      exact inductionHypothesis.step finding

end Tally

namespace FindingType

theorem nodup_all : all.Nodup := by decide

theorem mem_all (type : FindingType) : type ∈ all := by
  cases type <;> decide

/-- Each finding of a severity is counted for exactly one type. -/
theorem sum_length_filter_all
    (findings : List Finding)
    (severity : Severity) :
    (all.map fun type => (findings.filter fun finding =>
        finding.type = type ∧ finding.severity = severity).length).sum =
      findings.countP fun finding => finding.severity = severity := by
  induction findings with
  | nil => simp
  | cons finding rest inductionHypothesis =>
      have once : (all.map fun type => if finding.type = type then 1 else 0).sum = 1 := by
        cases finding.type <;> rfl
      by_cases wanted : finding.severity = severity
      · have oneMore (type : FindingType) :
            ((finding :: rest).filter fun other =>
              other.type = type ∧ other.severity = severity).length =
            (if finding.type = type then 1 else 0) + (rest.filter fun other =>
              other.type = type ∧ other.severity = severity).length := by
          by_cases sameType : finding.type = type
          · simp [sameType, wanted, Nat.add_comm]
          · simp [sameType]
        simp only [oneMore, List.sum_map_add, once, inductionHypothesis]
        simp [wanted, Nat.add_comm]
      · simpa [wanted] using inductionHypothesis

end FindingType

namespace Aggregate

open Finding

/-- The groups are those of the types that occur among the findings that are
kept, in the order of all types. -/
theorem groups_ofFindings
    (findings : List Finding) :
    (ofFindings findings).groups =
      FindingType.all.filterMap (FindingGroup.ofType? (unrepeated findings)) := by
  have sameGroup := (Tally.summarises_ofFindings findings).group?_eq
  rw [ofFindings, ofTally]
  exact List.filterMap_congr fun type _ => sameGroup type

/-- What is added up over the groups may be added up over all types. -/
theorem sum_groups
    (findings : List Finding)
    {measure : FindingGroup → Nat}
    (nothing : ∀ type, measure (.empty type) = 0)
    (types : List FindingType) :
    ((types.filterMap (FindingGroup.ofType? findings)).map measure).sum =
      (types.map fun type => measure (.collect findings type)).sum := by
  induction types with
  | nil => rfl
  | cons type rest inductionHypothesis =>
      rw [List.map_cons, List.sum_cons, ← inductionHypothesis]
      by_cases occurs : ∃ finding ∈ findings, finding.type = type
      · rw [List.filterMap_cons_some (by rw [FindingGroup.ofType?, if_pos occurs]),
          List.map_cons, List.sum_cons]
      · rw [List.filterMap_cons_none (by rw [FindingGroup.ofType?, if_neg occurs]),
          FindingGroup.collect_eq_empty occurs, nothing, Nat.zero_add]

/-- The groups together hold what is kept, each finding as often. -/
theorem perm_flatMap_all_groups
    (findings : List Finding) :
    ((ofFindings findings).groups.flatMap FindingGroup.all).Perm (unrepeated findings) := by
  rw [List.perm_iff_count]
  intro finding
  have summed : ((ofFindings findings).groups.map fun group => group.all.count finding).sum =
      (FindingType.all.map fun type =>
        (FindingGroup.collect (unrepeated findings) type).all.count finding).sum := by
    rw [groups_ofFindings]
    exact sum_groups _ (fun _ => rfl) _
  rw [List.count_flatMap]
  refine summed.trans ?_
  simp only [FindingGroup.count_all_collect]
  cases finding.type <;> simp [FindingType.all]

theorem warningCount_ofFindings
    (findings : List Finding) :
    (ofFindings findings).warningCount =
      ((ofFindings findings).groups.map fun group => group.warnings.length).sum := by
  rw [groups_ofFindings, sum_groups _ fun _ => rfl]
  exact (Tally.summarises_ofFindings findings).warningCount_eq.trans
    (FindingType.sum_length_filter_all _ _).symm

theorem infoCount_ofFindings
    (findings : List Finding) :
    (ofFindings findings).infoCount =
      ((ofFindings findings).groups.map fun group => group.infos.length).sum := by
  rw [groups_ofFindings, sum_groups _ fun _ => rfl]
  exact (Tally.summarises_ofFindings findings).infoCount_eq.trans
    (FindingType.sum_length_filter_all _ _).symm

/-- Whatever is kept is a warning or an information. -/
theorem total_ofFindings
    (findings : List Finding) :
    (ofFindings findings).total =
      (ofFindings findings).warningCount + (ofFindings findings).infoCount := by
  have summarises := Tally.summarises_ofFindings findings
  have others : (unrepeated findings).countP (fun finding => finding.severity = .info) =
      (unrepeated findings).countP fun finding => ¬ finding.severity = .warning := by
    apply List.countP_congr
    intro finding _
    cases finding.severity <;> simp
  rw [ofFindings, ofTally, summarises.total_eq, summarises.warningCount_eq,
    summarises.infoCount_eq, others]
  simpa using List.length_eq_countP_add_countP
    (fun finding : Finding => decide (finding.severity = .warning))

/-- Every finding is kept or counted as dropped. -/
theorem total_add_dropped_ofFindings
    (findings : List Finding) :
    (ofFindings findings).total + (ofFindings findings).duplicatesDropped =
      findings.length := by
  have summarises := Tally.summarises_ofFindings findings
  rw [← summarises.dropped_add, ← summarises.total_eq]
  exact Nat.add_comm _ _

/-- Aggregation drops the findings that repeat an earlier key, and nothing else.
There is a group for each type of the others and for no further one, each type
once and in the order of all types.  It holds exactly the findings of its type,
by severity and in order, and the numbers are the sums over the groups. -/
theorem ofFindings_keeps_unrepeated
    (findings : List Finding) :
    (ofFindings findings).groups.map FindingGroup.type =
        (FindingType.all.filter fun type =>
          ∃ finding ∈ unrepeated findings, finding.type = type) ∧
      ((ofFindings findings).groups.map FindingGroup.type).Nodup ∧
      (∀ group ∈ (ofFindings findings).groups,
        0 < group.count ∧
          group.warnings = ((unrepeated findings).filter fun finding =>
            finding.type = group.type ∧ finding.severity = .warning) ∧
          group.infos = (unrepeated findings).filter fun finding =>
            finding.type = group.type ∧ finding.severity = .info) ∧
      (ofFindings findings).total = (unrepeated findings).length ∧
      (ofFindings findings).total =
        (ofFindings findings).warningCount + (ofFindings findings).infoCount ∧
      (ofFindings findings).total =
        ((ofFindings findings).groups.map FindingGroup.count).sum ∧
      (ofFindings findings).total + (ofFindings findings).duplicatesDropped =
        findings.length ∧
      (ofFindings findings).warningCount =
        ((ofFindings findings).groups.map fun group => group.warnings.length).sum ∧
      (ofFindings findings).infoCount =
        ((ofFindings findings).groups.map fun group => group.infos.length).sum := by
  have types : (ofFindings findings).groups.map FindingGroup.type =
      FindingType.all.filter fun type => ∃ finding ∈ unrepeated findings, finding.type = type := by
    rw [groups_ofFindings, List.map_filterMap, ← List.filterMap_eq_filter]
    apply List.filterMap_congr
    intro type _
    by_cases occurs : ∃ finding ∈ unrepeated findings, finding.type = type
    · simp [FindingGroup.ofType?, Option.guard, occurs, FindingGroup.collect]
    · simp [FindingGroup.ofType?, Option.guard, occurs]
  refine ⟨types, ?_, ?_, (Tally.summarises_ofFindings findings).total_eq,
    total_ofFindings findings, ?_, total_add_dropped_ofFindings findings,
    warningCount_ofFindings findings, infoCount_ofFindings findings⟩
  · rw [types]
    exact FindingType.nodup_all.filter _
  · intro group present
    rw [groups_ofFindings, List.mem_filterMap] at present
    obtain ⟨type, _, opened⟩ := present
    exact ⟨FindingGroup.count_pos_of_ofType?_eq_some opened, by
      rw [FindingGroup.eq_collect_of_ofType?_eq_some opened]; exact ⟨rfl, rfl⟩⟩
  · rw [total_ofFindings, warningCount_ofFindings, infoCount_ofFindings, ← List.sum_map_add]
    rfl

end Aggregate
end QueryAdvisor

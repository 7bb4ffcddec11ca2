import QueryAdvisor.Finding.Basic

/-!
# Aggregated findings

Findings are collected into one group for each type, in one pass.  A finding
that repeats the key of an earlier one is dropped; everything else is kept, in
order.
-/

namespace QueryAdvisor

/-- The findings of one type. -/
structure FindingGroup where
  type : FindingType
  warnings : List Finding
  infos : List Finding
deriving DecidableEq, Repr

namespace FindingGroup

/-- The number of findings in a group. -/
def count (group : FindingGroup) : Nat :=
  group.warnings.length + group.infos.length

/-- All findings of a group, warnings first. -/
def all (group : FindingGroup) : List Finding :=
  group.warnings ++ group.infos

/-- The group of a type before anything is found. -/
def empty (type : FindingType) : FindingGroup where
  type := type
  warnings := []
  infos := []

/-- Put a finding behind those of its severity. -/
def add
    (group : FindingGroup)
    (finding : Finding) : FindingGroup :=
  match finding.severity with
  | .warning => { group with warnings := group.warnings ++ [finding] }
  | .info => { group with infos := group.infos ++ [finding] }

/-- Put a finding into the group of its type, which is a new one if there is
none yet. -/
def addTo
    (finding : Finding) : List FindingGroup → List FindingGroup
  | [] => [(empty finding.type).add finding]
  | group :: rest =>
    if group.type = finding.type then group.add finding :: rest
    else group :: addTo finding rest

end FindingGroup

/-- What a pass over findings has come to so far. -/
structure Tally where
  /-- The keys that have been met, without the empty one. -/
  seenKeys : List Text := []
  /-- The groups, in the order in which their types were met. -/
  groups : List FindingGroup := []
  total : Nat := 0
  warningCount : Nat := 0
  infoCount : Nat := 0
  duplicatesDropped : Nat := 0

namespace Tally

/-- Whether a finding repeats a key that has been met. -/
def repeats
    (tally : Tally)
    (finding : Finding) : Bool :=
  !finding.key.isEmpty && tally.seenKeys.contains finding.key

/-- Note the key of a finding, count it and put it into its group. -/
def keep
    (tally : Tally)
    (finding : Finding) : Tally where
  seenKeys := if finding.key.isEmpty then tally.seenKeys else finding.key :: tally.seenKeys
  groups := FindingGroup.addTo finding tally.groups
  total := tally.total + 1
  warningCount := tally.warningCount + if finding.severity = .warning then 1 else 0
  infoCount := tally.infoCount + if finding.severity = .info then 1 else 0
  duplicatesDropped := tally.duplicatesDropped

/-- Count a finding that is dropped. -/
def drop (tally : Tally) : Tally :=
  { tally with duplicatesDropped := tally.duplicatesDropped + 1 }

/-- Take one more finding. -/
def step
    (tally : Tally)
    (finding : Finding) : Tally :=
  if tally.repeats finding then tally.drop else tally.keep finding

/-- One pass over all findings. -/
def ofFindings (findings : List Finding) : Tally :=
  findings.foldl step {}

/-- The group of a type, if one has been opened. -/
def group?
    (tally : Tally)
    (type : FindingType) : Option FindingGroup :=
  tally.groups.find? fun group => group.type = type

end Tally

/-- Findings by type, with their numbers. -/
@[ext]
structure Aggregate where
  groups : List FindingGroup
  total : Nat
  warningCount : Nat
  infoCount : Nat
  duplicatesDropped : Nat
deriving DecidableEq, Repr

namespace Aggregate

/-- The groups of a tally, in the order of all types, and its numbers. -/
def ofTally (tally : Tally) : Aggregate where
  groups := FindingType.all.filterMap tally.group?
  total := tally.total
  warningCount := tally.warningCount
  infoCount := tally.infoCount
  duplicatesDropped := tally.duplicatesDropped

/-- Aggregate findings: drop repetitions and group by type. -/
def ofFindings (findings : List Finding) : Aggregate :=
  ofTally (Tally.ofFindings findings)

/-- Whether there is a warning. -/
def hasWarnings (aggregate : Aggregate) : Bool :=
  0 < aggregate.warningCount

end Aggregate
end QueryAdvisor

import Mathlib.Data.List.Nodup
import QueryAdvisor.Disk.Access
import QueryAdvisor.Disk.Canonical

/-!
# Disks without their locked files

A disk is compared with what is left of it after its locked files, which cannot be
opened, have been removed.  A walk over the two comes to the same place, unless it
comes to a locked file, whose name is free on the other disk.  So everything else
keeps its status, its canonical path and its content.
-/

namespace QueryAdvisor

namespace Entry

/-- Whether an entry is a file that cannot be opened. -/
def isLocked : Entry → Bool
  | locked => true
  | _ => false

mutual

/-- An entry without the locked files below it. -/
def withoutLocked : Entry → Entry
  | directory entries => directory (withoutLockedEach entries)
  | entry => entry

/-- Named entries without the locked files among and below them. -/
def withoutLockedEach : List (Text × Entry) → List (Text × Entry)
  | [] => []
  | (name, entry) :: rest =>
    if entry.isLocked then withoutLockedEach rest
    else (name, entry.withoutLocked) :: withoutLockedEach rest

end

mutual

/-- Whether no directory has two entries of one name. -/
def hasDistinctNames : Entry → Bool
  | directory entries => haveDistinctNames entries
  | _ => true

/-- Whether named entries have different names, and so have all below them. -/
def haveDistinctNames : List (Text × Entry) → Bool
  | [] => true
  | (name, entry) :: rest =>
    !(rest.map Prod.fst).contains name && entry.hasDistinctNames && haveDistinctNames rest

end

/-- What is left of an entry, if it is not locked itself. -/
def left? (entry : Entry) : Option Entry :=
  if entry.isLocked then none else some entry.withoutLocked

@[simp] theorem left?_locked : locked.left? = none := rfl

theorem eq_locked_of_isLocked
    {entry : Entry}
    (isLocked : entry.isLocked = true) :
    entry = locked := by
  cases entry <;> first | rfl | contradiction

theorem left?_of_not_locked
    {entry : Entry}
    (notLocked : entry ≠ locked) :
    entry.left? = some entry.withoutLocked :=
  if_neg (mt eq_locked_of_isLocked notLocked)

theorem withoutLockedEach_cons
    (name : Text)
    (entry : Entry)
    (rest : List (Text × Entry)) :
    withoutLockedEach ((name, entry) :: rest) =
      (entry.left?.map fun left => (name, left)).toList ++ withoutLockedEach rest := by
  rw [withoutLockedEach, left?]
  split <;> rfl

theorem haveDistinctNames_cons
    {name : Text}
    {entry : Entry}
    {rest : List (Text × Entry)}
    (distinct : haveDistinctNames ((name, entry) :: rest) = true) :
    name ∉ rest.map Prod.fst ∧ entry.hasDistinctNames = true ∧
      haveDistinctNames rest = true := by
  simpa [haveDistinctNames, and_assoc] using distinct

theorem lookup_withoutLockedEach_of_not_mem
    {name : Text}
    {entries : List (Text × Entry)}
    (absent : name ∉ entries.map Prod.fst) :
    (withoutLockedEach entries).lookup name = none := by
  induction entries with
  | nil => rfl
  | cons first rest inductionHypothesis =>
      obtain ⟨other, entry⟩ := first
      rw [List.map_cons, List.mem_cons, not_or] at absent
      have restAbsent := inductionHypothesis absent.2
      rw [withoutLockedEach_cons]
      cases entry.left? with
      | none => exact restAbsent
      | some left =>
          change ((other, left) :: withoutLockedEach rest).lookup name = none
          rw [List.lookup_cons, beq_eq_false_iff_ne.mpr absent.1]
          exact restAbsent

/-- Under a name stands what is left of what stood there. -/
theorem lookup_withoutLockedEach
    {entries : List (Text × Entry)}
    (distinct : haveDistinctNames entries = true)
    (name : Text) :
    (withoutLockedEach entries).lookup name = (entries.lookup name).bind left? := by
  induction entries with
  | nil => rfl
  | cons first rest inductionHypothesis =>
      obtain ⟨other, entry⟩ := first
      obtain ⟨absent, _, restDistinct⟩ := haveDistinctNames_cons distinct
      have atRest := inductionHypothesis restDistinct
      rw [withoutLockedEach_cons, List.lookup_cons]
      by_cases same : name = other
      · subst same
        rw [beq_self_eq_true]
        cases left : entry.left? with
        | none => exact (lookup_withoutLockedEach_of_not_mem absent).trans left.symm
        | some left' =>
            change ((name, left') :: withoutLockedEach rest).lookup name = entry.left?
            rw [List.lookup_cons, beq_self_eq_true, left]
      · rw [beq_eq_false_iff_ne.mpr same]
        cases entry.left? with
        | none => exact atRest
        | some left =>
            change ((other, left) :: withoutLockedEach rest).lookup name = _
            rw [List.lookup_cons, beq_eq_false_iff_ne.mpr same]
            exact atRest

theorem hasDistinctNames_of_lookup
    {entries : List (Text × Entry)}
    (distinct : haveDistinctNames entries = true)
    {name : Text}
    {entry : Entry}
    (found : entries.lookup name = some entry) :
    entry.hasDistinctNames = true := by
  induction entries with
  | nil => contradiction
  | cons first rest inductionHypothesis =>
      obtain ⟨other, child⟩ := first
      obtain ⟨_, childDistinct, restDistinct⟩ := haveDistinctNames_cons distinct
      rw [List.lookup_cons] at found
      split at found
      · rw [← Option.some.inj found]
        exact childDistinct
      · exact inductionHypothesis restDistinct found

/-- What stands at a place is what is left of what stood there. -/
theorem find?_withoutLocked
    {entry : Entry}
    (notLocked : entry ≠ locked)
    (distinct : entry.hasDistinctNames = true)
    (place : Place) :
    entry.withoutLocked.find? place = (entry.find? place).bind left? := by
  induction place generalizing entry with
  | nil => rw [find?_nil, find?_nil, Option.bind_some, left?_of_not_locked notLocked]
  | cons name rest inductionHypothesis =>
      have children : entry.withoutLocked.child? name = (entry.child? name).bind left? := by
        cases entry with
        | directory entries => exact lookup_withoutLockedEach distinct name
        | _ => rfl
      rw [find?, find?, children]
      cases found : entry.child? name with
      | none => rfl
      | some child =>
          have childDistinct : child.hasDistinctNames = true := by
            cases entry with
            | directory entries => exact hasDistinctNames_of_lookup distinct found
            | _ => contradiction
          rw [Option.bind_some]
          by_cases isLocked : child = locked
          · subst isLocked
            cases rest <;> simp [find?, child?]
          · rw [left?_of_not_locked isLocked]
            exact inductionHypothesis isLocked childDistinct

/-! ### What lies below -/

/-- What is left of an entry below, under the same names. -/
def leftBelow? (found : Place × Entry) : Option (Place × Entry) :=
  found.2.left?.map fun left => (found.1, left)

/-- Names in front do not matter for what is left. -/
theorem filterMap_leftBelow?_map
    (name : Text)
    (found : List (Place × Entry)) :
    (found.map fun (names, inner) => (name :: names, inner)).filterMap leftBelow? =
      (found.filterMap leftBelow?).map fun (names, inner) => (name :: names, inner) := by
  rw [List.filterMap_map, List.map_filterMap]
  apply List.filterMap_congr
  rintro ⟨names, inner⟩ _
  cases left : inner.left? <;> simp [leftBelow?, left]

mutual

theorem descendants_withoutLocked (entry : Entry) :
    entry.withoutLocked.descendants = entry.descendants.filterMap leftBelow? := by
  cases entry with
  | directory entries => exact descendantsOfEach_withoutLockedEach entries
  | _ => rfl

/-- Below named entries lies what is left of what lay there. -/
theorem descendantsOfEach_withoutLockedEach (entries : List (Text × Entry)) :
    descendantsOfEach (withoutLockedEach entries) =
      (descendantsOfEach entries).filterMap leftBelow? := by
  cases entries with
  | nil => rfl
  | cons first rest =>
      obtain ⟨name, entry⟩ := first
      have inner := descendants_withoutLocked entry
      have behind := descendantsOfEach_withoutLockedEach rest
      rw [withoutLockedEach_cons, descendantsOfEach, List.cons_append, List.filterMap_cons,
        List.filterMap_append, filterMap_leftBelow?_map, ← inner, ← behind, leftBelow?]
      by_cases isLocked : entry = locked
      · subst isLocked
        rfl
      · rw [left?_of_not_locked isLocked]
        rfl

end

end Entry

/-- A disk without its locked files. -/
def Disk.withoutLocked (disk : Disk) : Disk :=
  { disk with entries := Entry.withoutLockedEach disk.entries }

namespace Disk

/-- Whether no directory of a disk has two entries of one name. -/
def hasDistinctNames (disk : Disk) : Bool :=
  disk.root.hasDistinctNames

theorem below_withoutLocked
    {disk : Disk}
    (distinct : disk.hasDistinctNames = true)
    (place : Place) :
    disk.withoutLocked.below place = (disk.below place).filterMap Entry.leftBelow? := by
  have found : disk.withoutLocked.entry? place = (disk.entry? place).bind Entry.left? :=
    Entry.find?_withoutLocked (by simp [root]) distinct place
  rw [below, below, found]
  cases disk.entry? place with
  | none => rfl
  | some entry =>
      by_cases isLocked : entry = .locked
      · subst isLocked
        rfl
      · rw [Option.bind_some, Entry.left?_of_not_locked isLocked]
        exact Entry.descendants_withoutLocked entry

/-! ### Walks -/

/-- How a walk ends after the locked files have been removed: where it ended before,
but the name of a locked file is free, and so it leads nowhere else. -/
inductive EndsWithoutLocked : Except Refusal Spot → Except Refusal Spot → Prop where
  | left {place : Place} {entry : Entry} (notLocked : entry ≠ .locked) :
      EndsWithoutLocked (.ok (.occupied place entry)) (.ok (.occupied place entry.withoutLocked))
  | removed (place : Place) :
      EndsWithoutLocked (.ok (.occupied place .locked)) (.ok (.vacant place))
  | vacant (place : Place) : EndsWithoutLocked (.ok (.vacant place)) (.ok (.vacant place))
  | refused (refusal : Refusal) : EndsWithoutLocked (.error refusal) (.error refusal)
  | passage : EndsWithoutLocked (.error .notDirectory) (.error .notFound)

/-- A way that has met no locked file. -/
def Unlocked (descent : Descent) : Prop :=
  ∀ passed ∈ descent, passed.2 ≠ .locked ∧ passed.2.hasDistinctNames = true

/-- The same way after the locked files have been removed. -/
def remaining (descent : Descent) : Descent :=
  descent.map fun (name, entry) => (name, entry.withoutLocked)

theorem place_remaining (descent : Descent) : (remaining descent).place = descent.place := by
  rw [Descent.place, Descent.place, remaining, List.map_map]
  rfl

theorem pathLength_remaining (descent : Descent) :
    (remaining descent).pathLength = descent.pathLength := by
  rw [Descent.pathLength, remaining, List.foldl_map]
  rfl

theorem admits_remaining
    (manner : Manner)
    (descent : Descent)
    (name : Text) :
    admits manner (remaining descent) name = admits manner descent name := by
  rw [admits, admits, pathLength_remaining]

theorem reached_remaining
    (disk : Disk)
    (descent : Descent) :
    disk.withoutLocked.reached (remaining descent) = (disk.reached descent).withoutLocked := by
  cases descent <;> rfl

theorem Unlocked.tail
    {descent : Descent}
    (unlocked : Unlocked descent) :
    Unlocked descent.tail :=
  fun passed present => unlocked passed (List.mem_of_mem_tail present)

theorem Unlocked.reached
    {disk : Disk}
    (distinct : disk.hasDistinctNames = true)
    {descent : Descent}
    (unlocked : Unlocked descent) :
    disk.reached descent ≠ .locked ∧ (disk.reached descent).hasDistinctNames = true := by
  cases descent with
  | nil => exact ⟨by simp [Disk.reached, root], distinct⟩
  | cons passed rest => exact unlocked passed List.mem_cons_self

theorem Unlocked.cons
    {descent : Descent}
    (unlocked : Unlocked descent)
    {name : Text}
    {entry : Entry}
    (notLocked : entry ≠ .locked)
    (distinct : entry.hasDistinctNames = true) :
    Unlocked ((name, entry) :: descent) := by
  rintro passed present
  rcases List.mem_cons.mp present with rfl | earlier
  · exact ⟨notLocked, distinct⟩
  · exact unlocked passed earlier

theorem place_cons
    (name : Text)
    (entry : Entry)
    (descent : Descent) :
    Descent.place ((name, entry) :: descent) = descent.place ++ [name] := by
  simp [Descent.place]

/-- A walk by pieces ends as before, step by step, if the walks behind a link do. -/
theorem walkPieces_withoutLocked
    {disk : Disk}
    (distinct : disk.hasDistinctNames = true)
    (manner : Manner)
    {jump jumpOther : Descent → List Text → Except Refusal Spot}
    (jumps : ∀ descent pieces, Unlocked descent →
      EndsWithoutLocked (jump descent pieces) (jumpOther (remaining descent) pieces))
    {descent : Descent}
    (unlocked : Unlocked descent)
    (pieces : List Text) :
    EndsWithoutLocked (disk.walkPieces manner jump descent pieces)
      (disk.withoutLocked.walkPieces manner jumpOther (remaining descent) pieces) := by
  induction pieces generalizing descent with
  | nil =>
      rw [walkPieces, walkPieces, place_remaining, reached_remaining]
      exact .left (unlocked.reached distinct).1
  | cons piece rest inductionHypothesis =>
      obtain ⟨_, reachedDistinct⟩ := unlocked.reached distinct
      rw [walkPieces, walkPieces, reached_remaining]
      cases reached : disk.reached descent with
      | directory entries =>
          rw [reached] at reachedDistinct
          simp only [Entry.withoutLocked, admits_remaining, place_remaining,
            Entry.lookup_withoutLockedEach reachedDistinct]
          split
          · exact inductionHypothesis unlocked
          split
          · have sameTail : (remaining descent).tail = remaining descent.tail := List.map_tail.symm
            rw [sameTail]
            exact inductionHypothesis unlocked.tail
          split
          · exact .refused .nameTooLong
          cases found : entries.lookup piece with
          | none =>
              simp only [Option.bind_none]
              split
              · exact .vacant _
              · exact .refused .notFound
          | some child =>
              have childDistinct := Entry.hasDistinctNames_of_lookup reachedDistinct found
              cases child with
              | locked =>
                  -- The walk ends at the locked file, or is refused behind it.
                  cases rest with
                  | nil =>
                      simp only [walkPieces, place_cons]
                      exact .removed _
                  | cons next others => exact .passage
              | link target =>
                  rw [Option.bind_some, Entry.left?_of_not_locked (by simp)]
                  simp only [Entry.withoutLocked]
                  split
                  · exact .left (by simp)
                  · have sameStart : (if target.isAbsolute = true then [] else remaining descent) =
                        remaining (if target.isAbsolute = true then [] else descent) := by
                      split <;> rfl
                    rw [sameStart]
                    apply jumps
                    split
                    · exact fun _ present => absurd present List.not_mem_nil
                    · exact unlocked
              | file content =>
                  exact inductionHypothesis (unlocked.cons (by simp) childDistinct)
              | directory inner =>
                  exact inductionHypothesis (unlocked.cons (by simp) childDistinct)
              | special =>
                  exact inductionHypothesis (unlocked.cons (by simp) childDistinct)
      | _ => exact .refused .notDirectory

/-- A walk ends as before, whatever links it follows. -/
theorem walk_withoutLocked
    {disk : Disk}
    (distinct : disk.hasDistinctNames = true)
    (manner : Manner)
    (links : Nat)
    {descent : Descent}
    (unlocked : Unlocked descent)
    (pieces : List Text) :
    EndsWithoutLocked (disk.walk manner links descent pieces)
      (disk.withoutLocked.walk manner links (remaining descent) pieces) := by
  induction links generalizing descent pieces with
  | zero =>
      exact walkPieces_withoutLocked distinct manner (fun _ _ _ => .refused .tooManyLinks)
        unlocked pieces
  | succ links inductionHypothesis =>
      exact walkPieces_withoutLocked distinct manner
        (fun _ pieces unlocked => inductionHypothesis unlocked pieces) unlocked pieces

/-- Spelling out the way by pieces changes nothing, but for places whose paths are too
long. -/
theorem walkPieces_spelledOut
    (disk : Disk)
    {jump jumpOther : Descent → List Text → Except Refusal Spot}
    (jumps : ∀ descent pieces,
      jump descent pieces = jumpOther descent pieces ∨ jump descent pieces = .error .nameTooLong)
    (descent : Descent)
    (pieces : List Text) :
    disk.walkPieces .spelledOut jump descent pieces =
        disk.walkPieces .followed jumpOther descent pieces ∨
      disk.walkPieces .spelledOut jump descent pieces = .error .nameTooLong := by
  induction pieces generalizing descent with
  | nil => exact .inl rfl
  | cons piece rest inductionHypothesis =>
      simp only [walkPieces]
      cases disk.reached descent with
      | directory entries =>
          simp only
          split
          · exact inductionHypothesis descent
          split
          · exact inductionHypothesis descent.tail
          split
          · exact .inr rfl
          rename_i admitted
          have alsoAdmitted : admits .followed descent piece = true := by
            simp only [admits, Bool.not_eq_true', Bool.not_eq_false, Bool.and_eq_true] at admitted ⊢
            exact ⟨admitted.1, rfl⟩
          rw [alsoAdmitted, Bool.not_true, if_neg Bool.false_ne_true]
          cases entries.lookup piece with
          | none => exact .inl rfl
          | some child =>
              cases child with
              | link target =>
                  simp only [show (Manner.spelledOut == Manner.named) = false from rfl,
                    show (Manner.followed == Manner.named) = false from rfl, Bool.and_false,
                    Bool.false_eq_true, if_false]
                  exact jumps _ _
              | _ => exact inductionHypothesis _
      | _ => exact .inl rfl

theorem walk_spelledOut
    (disk : Disk)
    (links : Nat)
    (descent : Descent)
    (pieces : List Text) :
    disk.walk .spelledOut links descent pieces = disk.walk .followed links descent pieces ∨
      disk.walk .spelledOut links descent pieces = .error .nameTooLong := by
  induction links generalizing descent pieces with
  | zero => exact walkPieces_spelledOut disk (fun _ _ => .inl rfl) descent pieces
  | succ links inductionHypothesis =>
      exact walkPieces_spelledOut disk inductionHypothesis descent pieces

/-! ### Absolute paths -/

section AbsolutePaths

variable {disk : Disk} {path : Path}

theorem isAbsolute_beforeNul
    (absolute : Path.isAbsolute path = true) :
    Path.isAbsolute (Text.beforeNul path) = true := by
  cases path with
  | nil => contradiction
  | cons first rest =>
      obtain rfl : first = Byte.slash := by simpa [Path.isAbsolute] using absolute
      rfl

theorem locate_withoutLocked
    (distinct : disk.hasDistinctNames = true)
    (absolute : Path.isAbsolute path = true) :
    EndsWithoutLocked (disk.locate .followed path) (disk.withoutLocked.locate .followed path) := by
  simp only [locate]
  split
  · exact .refused .notFound
  split
  · exact .refused .nameTooLong
  simp only [isAbsolute_beforeNul absolute, if_true]
  exact walk_withoutLocked distinct .followed linkLimit
    (fun _ present => absurd present List.not_mem_nil) _

/-- The status of a path is that of what is left there. -/
theorem status_withoutLocked
    (distinct : disk.hasDistinctNames = true)
    (absolute : Path.isAbsolute path = true) :
    disk.withoutLocked.status path =
      (disk.status path).map fun found =>
        found.bind fun (place, entry) => entry.left?.map fun left => (place, left) := by
  have ends := locate_withoutLocked distinct absolute
  rw [status, status]
  generalize disk.locate .followed path = before at ends ⊢
  generalize disk.withoutLocked.locate .followed path = after at ends ⊢
  cases ends with
  | left notLocked => simp [Except.map, Entry.left?_of_not_locked notLocked]
  | removed place => rfl
  | vacant place => rfl
  | refused refusal => cases refusal <;> rfl
  | passage => rfl

/-- Whether a path leads to a locked file. -/
def isLocked
    (disk : Disk)
    (path : Path) : Bool :=
  match disk.status path with
  | .ok (some (_, entry)) => entry.isLocked
  | _ => false

theorem pathExists_withoutLocked
    (distinct : disk.hasDistinctNames = true)
    (absolute : Path.isAbsolute path = true)
    (notLocked : disk.isLocked path = false) :
    disk.withoutLocked.pathExists path = disk.pathExists path := by
  rw [pathExists, pathExists, status_withoutLocked distinct absolute]
  rw [isLocked] at notLocked
  cases found : disk.status path with
  | error fault => rfl
  | ok spot =>
      cases spot with
      | none => rfl
      | some occupied =>
          rw [found] at notLocked
          simp [Except.map, Entry.left?, notLocked]

/-- What can be read at a path is the same. -/
theorem read_withoutLocked
    (distinct : disk.hasDistinctNames = true)
    (absolute : Path.isAbsolute path = true) :
    disk.withoutLocked.read path = disk.read path := by
  have ends := locate_withoutLocked distinct absolute
  rw [read, read]
  generalize disk.locate .followed path = before at ends ⊢
  generalize disk.withoutLocked.locate .followed path = after at ends ⊢
  cases ends with
  | @left place entry notLocked => cases entry <;> rfl
  | removed place => rfl
  | vacant place => rfl
  | refused refusal => rfl
  | passage => rfl

theorem locate_of_status
    {place : Place}
    {entry : Entry}
    (found : disk.status path = .ok (some (place, entry))) :
    disk.locate .followed path = .ok (.occupied place entry) := by
  rw [status] at found
  split at found
  · rename_i located
    rw [located]
    simpa using found
  all_goals simp at found

/-- The canonical path of what is left is the same. -/
theorem resolve_withoutLocked
    (distinct : disk.hasDistinctNames = true)
    (absolute : Path.isAbsolute path = true)
    {place : Place}
    {entry : Entry}
    (found : disk.status path = .ok (some (place, entry)))
    (notLocked : entry ≠ .locked) :
    disk.withoutLocked.resolve path = disk.resolve path := by
  have reaches : disk.walk .followed linkLimit [] (Path.pieces (Text.beforeNul path)) =
      .ok (.occupied place entry) := by
    have located := locate_of_status found
    simp only [locate, isAbsolute_beforeNul absolute, if_true] at located
    split at located
    · contradiction
    split at located
    · contradiction
    exact located
  have ends := walk_withoutLocked distinct .spelledOut linkLimit
    (fun _ present => absurd present List.not_mem_nil) (Path.pieces (Text.beforeNul path))
  simp only [resolve, absolute, if_true]
  rw [show remaining [] = [] from rfl] at ends
  -- Spelled out, the walk comes to the same entry, which is not locked, or is refused.
  rcases disk.walk_spelledOut linkLimit [] (Path.pieces (Text.beforeNul path)) with same | refused
  · rw [same, reaches] at ends
    rw [same, reaches]
    generalize disk.withoutLocked.walk .spelledOut linkLimit []
      (Path.pieces (Text.beforeNul path)) = after at ends ⊢
    cases ends with
    | left _ => rfl
    | removed => contradiction
  · rw [refused] at ends
    rw [refused]
    generalize disk.withoutLocked.walk .spelledOut linkLimit []
      (Path.pieces (Text.beforeNul path)) = after at ends ⊢
    cases ends with
    | refused => rfl

theorem canonical_withoutLocked
    (distinct : disk.hasDistinctNames = true)
    (absolute : Path.isAbsolute path = true)
    {place : Place}
    {entry : Entry}
    (found : disk.status path = .ok (some (place, entry)))
    (notLocked : entry ≠ .locked) :
    disk.withoutLocked.canonical path = disk.canonical path := by
  have isLeft : disk.withoutLocked.status path = .ok (some (place, entry.withoutLocked)) := by
    rw [status_withoutLocked distinct absolute, found]
    simp [Except.map, Entry.left?_of_not_locked notLocked]
  have present : disk.pathExists path = .ok true := by rw [pathExists, found]; rfl
  have alsoPresent : disk.withoutLocked.pathExists path = .ok true := by
    rw [pathExists, isLeft]
    rfl
  have resolved := resolve_withoutLocked distinct absolute found notLocked
  simp only [canonical, present, alsoPresent]
  exact resolved

/-- What can be read is not locked. -/
theorem exists_status_of_read
    (opens : disk.read path ≠ .unopenable) :
    ∃ place entry, disk.status path = .ok (some (place, entry)) ∧ entry ≠ .locked := by
  rw [read] at opens
  split at opens
  · rename_i place content located
    exact ⟨place, .file content, by rw [status, located], by simp⟩
  · rename_i place entries located
    exact ⟨place, .directory entries, by rw [status, located], by simp⟩
  · exact absurd rfl opens

theorem isFile_withoutLocked
    (distinct : disk.hasDistinctNames = true)
    (absolute : Path.isAbsolute path = true) :
    disk.withoutLocked.isFile path = (disk.isFile path && disk.read path != .unopenable) := by
  rw [isFile, isFile, status_withoutLocked distinct absolute]
  cases status : disk.status path with
  | error refusal => rfl
  | ok found =>
      cases found with
      | none => rfl
      | some reached =>
          obtain ⟨place, entry⟩ := reached
          have located := locate_of_status status
          cases entry <;> simp [Except.map, Entry.left?, Entry.isLocked, Entry.withoutLocked, read,
            located]

theorem exists_status_of_isDirectory
    (isDirectory : disk.isDirectory path = true) :
    ∃ place entry, disk.status path = .ok (some (place, entry)) ∧ entry ≠ .locked := by
  rw [Disk.isDirectory] at isDirectory
  split at isDirectory
  · rename_i place entries found
    exact ⟨place, .directory entries, found, by simp⟩
  · contradiction

/-- The way from a directory to what can be read is the same. -/
theorem relative_withoutLocked
    (distinct : disk.hasDistinctNames = true)
    (absolute : Path.isAbsolute path = true)
    (opens : disk.read path ≠ .unopenable)
    {base : Path}
    (absoluteBase : Path.isAbsolute base = true)
    (isDirectory : disk.isDirectory base = true) :
    disk.withoutLocked.relative path base = disk.relative path base := by
  obtain ⟨_, _, found, notLocked⟩ := exists_status_of_read opens
  obtain ⟨_, _, foundBase, baseNotLocked⟩ := exists_status_of_isDirectory isDirectory
  rw [relative, relative, canonical_withoutLocked distinct absolute found notLocked,
    canonical_withoutLocked distinct absoluteBase foundBase baseNotLocked]

end AbsolutePaths

end Disk
end QueryAdvisor

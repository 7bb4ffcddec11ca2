import QueryAdvisor.Proofs.Disk.Locked
import QueryAdvisor.Proofs.Ordered
import QueryAdvisor.Project.Source

/-!
# Source files without the locked ones

The source files of a project are listed whether they can be opened or not.  After
the locked files have been removed from the disk, exactly those are listed that
could be opened before, if a listed path leads to what is listed there.
-/

namespace QueryAdvisor

/-- What is sorted and then restricted is what is restricted and then sorted. -/
theorem Text.sort_filter
    (predicate : Text → Bool)
    (texts : List Text) :
    Ordered.sort precedes (texts.filter predicate) =
      (Ordered.sort precedes texts).filter predicate := by
  have antisymm : ∀ left right, precedes left right = true → precedes right left = true →
      left = right := by
    intro left right first second
    rcases precedes_iff.mp first with same | before
    · exact same
    · rcases precedes_iff.mp second with same | after
      · exact same.symm
      · exact absurd after before.asymm
  have sorted := compares_precedes.pairwise_sort (texts.filter predicate)
  have restricted := (compares_precedes.pairwise_sort texts).filter predicate
  have permuted : (Ordered.sort precedes (texts.filter predicate)).Perm
      ((Ordered.sort precedes texts).filter predicate) :=
    (Ordered.perm_sort precedes _).trans ((Ordered.perm_sort precedes texts).filter predicate).symm
  exact permuted.eq_of_pairwise (fun left right _ _ => antisymm left right) sorted restricted

theorem Path.isAbsolute_append
    {directory : Path}
    (absolute : isAbsolute directory = true)
    (path : Path) :
    isAbsolute (append directory path) = true := by
  cases directory with
  | nil => contradiction
  | cons first rest =>
      rw [append]
      split
      · rename_i replaces
        simpa using replaces
      split
      · exact absolute
      · exact absolute

namespace Project

variable {disk : Disk} {root : Path}

/-- Whether what is listed can be read as it is listed, both at its path and by the
relative path of the listing. -/
def leadsBack
    (disk : Disk)
    (root : Path)
    (listed : Path × Entry) : Bool :=
  (match listed.2 with
    | .file content => disk.read listed.1 == .content content
    | .locked => disk.read listed.1 == .unopenable
    | _ => true) &&
  (match disk.relative listed.1 root with
    | .ok relative => disk.read (Path.append root (Path.collapse relative)) == disk.read listed.1
    | .error _ => true)

/-- What the removal of locked files asks of a disk and of the root of a project: no
directory holds a name twice, the root is an absolute path of a directory, and what
is listed below can be read as it is listed. -/
structure IsOrderly
    (disk : Disk)
    (root : Path) : Prop where
  distinct : disk.hasDistinctNames = true
  absolute : Path.isAbsolute root = true
  isDirectory : disk.isDirectory root = true
  back : ∀ listed ∈ listing disk (appDirectory root), leadsBack disk root listed = true

/-- What is left of a listed entry. -/
def leftListed? (listed : Path × Entry) : Option (Path × Entry) :=
  listed.2.left?.map fun left => (listed.1, left)

/-- The listing of a directory is what is left of it. -/
theorem listing_withoutLocked
    (distinct : disk.hasDistinctNames = true)
    {directory : Path}
    (absolute : Path.isAbsolute directory = true) :
    listing disk.withoutLocked directory = (listing disk directory).filterMap leftListed? := by
  rw [listing, listing, Disk.status_withoutLocked distinct absolute]
  cases disk.status directory with
  | error refusal => rfl
  | ok found =>
      cases found with
      | none => rfl
      | some reached =>
          obtain ⟨place, entry⟩ := reached
          cases entry with
          | directory entries =>
              have below := Disk.below_withoutLocked distinct place
              simp only [Except.map, Option.bind_some, Entry.left?, Entry.isLocked,
                Entry.withoutLocked, Bool.false_eq_true, if_false, Option.map_some, below,
                List.map_filterMap, List.filterMap_map]
              apply List.filterMap_congr
              rintro ⟨names, inner⟩ _
              cases left : inner.left? <;> simp [Entry.leftBelow?, leftListed?, left]
          | _ => rfl

theorem isAbsolute_of_mem_listing
    (disk : Disk)
    {directory : Path}
    (absolute : Path.isAbsolute directory = true) :
    ∀ listed ∈ listing disk directory, Path.isAbsolute listed.1 = true := by
  intro listed present
  rw [listing] at present
  split at present
  · obtain ⟨found, _, rfl⟩ := List.mem_map.mp present
    exact Path.isAbsolute_append absolute _
  · contradiction

/-- The paths of the source files below the application directory. -/
def sourcePaths
    (disk : Disk)
    (root : Path) : List Path :=
  ((listing disk (appDirectory root)).filter fun listed =>
    isListedFile disk listed.1 listed.2 &&
      sourceExtensions.contains (Path.extension listed.1)).map Prod.fst

theorem collectFiles_eq
    (disk : Disk)
    (root : Path) :
    collectFiles disk root = (do
      let listed ← (sourcePaths disk root).mapM fun path => disk.relative path root
      return Ordered.sort Text.precedes (listed.map Path.collapse)) := by
  rw [collectFiles, sourcePaths, List.mapM_map]
  rfl

/-- Of what is left, the files count that could be opened. -/
theorem isListedFile_withoutLocked
    (distinct : disk.hasDistinctNames = true)
    {listed : Path × Entry}
    (absolute : Path.isAbsolute listed.1 = true)
    (back : leadsBack disk root listed = true)
    {left : Entry}
    (isLeft : listed.2.left? = some left) :
    isListedFile disk.withoutLocked listed.1 left =
      (isListedFile disk listed.1 listed.2 && disk.read listed.1 != .unopenable) := by
  obtain ⟨path, entry⟩ := listed
  cases entry with
  | locked => contradiction
  | file content =>
      obtain rfl := Option.some.inj isLeft
      have reads : disk.read path = .content content := by
        rw [leadsBack, Bool.and_eq_true] at back
        simpa using back.1
      simp [isListedFile, Entry.withoutLocked, reads]
  | link target =>
      obtain rfl := Option.some.inj isLeft
      exact Disk.isFile_withoutLocked distinct absolute
  | directory entries =>
      obtain rfl := Option.some.inj isLeft
      rfl
  | special =>
      obtain rfl := Option.some.inj isLeft
      rfl

theorem read_of_left?_eq_none
    {listed : Path × Entry}
    (back : leadsBack disk root listed = true)
    (notLeft : listed.2.left? = none) :
    disk.read listed.1 = .unopenable := by
  obtain ⟨path, entry⟩ := listed
  have isLocked : entry = .locked := by
    by_contra notLocked
    rw [Entry.left?_of_not_locked notLocked] at notLeft
    contradiction
  subst isLocked
  rw [leadsBack, Bool.and_eq_true] at back
  simpa using back.1

/-- Listed are the source files that could be opened. -/
theorem sourcePaths_withoutLocked
    (orderly : IsOrderly disk root) :
    sourcePaths disk.withoutLocked root =
      (sourcePaths disk root).filter fun path => disk.read path != .unopenable := by
  obtain ⟨distinct, absolute, _, back⟩ := orderly
  have absoluteApp : Path.isAbsolute (appDirectory root) = true :=
    Path.isAbsolute_append absolute _
  have absoluteListed := isAbsolute_of_mem_listing disk absoluteApp
  rw [sourcePaths, sourcePaths, listing_withoutLocked distinct absoluteApp]
  generalize listing disk (appDirectory root) = found at back absoluteListed ⊢
  induction found with
  | nil => rfl
  | cons listed rest inductionHypothesis =>
      obtain ⟨listedBack, restBack⟩ := List.forall_mem_cons.mp back
      obtain ⟨listedAbsolute, restAbsolute⟩ := List.forall_mem_cons.mp absoluteListed
      have atRest := inductionHypothesis restBack restAbsolute
      cases isLeft : listed.2.left? with
      | none =>
          have unopenable := read_of_left?_eq_none listedBack isLeft
          have gone : leftListed? listed = none := by rw [leftListed?, isLeft, Option.map_none]
          rw [List.filterMap_cons_none gone, List.filter_cons]
          split
          · rw [List.map_cons, List.filter_cons_of_neg (by simp [unopenable])]
            exact atRest
          · exact atRest
      | some left =>
          have counts := isListedFile_withoutLocked distinct listedAbsolute listedBack isLeft
          have kept : leftListed? listed = some (listed.1, left) := by
            rw [leftListed?, isLeft, Option.map_some]
          rw [List.filterMap_cons_some kept, List.filter_cons, List.filter_cons, counts]
          cases isListedFile disk listed.1 listed.2 with
          | false => exact atRest
          | true =>
              cases sourceExtensions.contains (Path.extension listed.1) with
              | false => simpa using atRest
              | true =>
                  cases opens : disk.read listed.1 != .unopenable <;> simpa [opens] using atRest

/-! ### The list of files -/

/-- Relative paths are the same for what could be opened, and the others are left
out. -/
theorem mapM_relative_withoutLocked
    (orderly : IsOrderly disk root)
    {paths : List Path}
    (absolutePaths : ∀ path ∈ paths, Path.isAbsolute path = true)
    (back : ∀ path ∈ paths, ∀ relative, disk.relative path root = .ok relative →
      disk.read (Path.append root (Path.collapse relative)) = disk.read path)
    {listed : List Path}
    (relatives : (paths.mapM fun path => disk.relative path root) = .ok listed) :
    ∃ remaining,
      ((paths.filter fun path => disk.read path != .unopenable).mapM fun path =>
        disk.withoutLocked.relative path root) = .ok remaining ∧
        remaining.map Path.collapse =
          (listed.map Path.collapse).filter fun file =>
            disk.read (Path.append root file) != .unopenable := by
  induction paths generalizing listed with
  | nil =>
      obtain rfl := Except.ok.inj relatives
      exact ⟨[], rfl, rfl⟩
  | cons path rest inductionHypothesis =>
      obtain ⟨pathAbsolute, restAbsolute⟩ := List.forall_mem_cons.mp absolutePaths
      obtain ⟨pathBack, restBack⟩ := List.forall_mem_cons.mp back
      rw [List.mapM_cons] at relatives
      cases relative : disk.relative path root with
      | error fault =>
          rw [relative] at relatives
          contradiction
      | ok first =>
          cases restRelatives : rest.mapM fun path => disk.relative path root with
          | error fault =>
              rw [relative, restRelatives] at relatives
              contradiction
          | ok others =>
              obtain rfl : first :: others = listed := by
                rw [relative, restRelatives] at relatives
                exact Except.ok.inj relatives
              have sameReading := pathBack first relative
              obtain ⟨remaining, remainingRelatives, remainingFiles⟩ :=
                inductionHypothesis restAbsolute restBack restRelatives
              rw [List.map_cons, List.filter_cons, List.filter_cons, sameReading]
              cases opens : disk.read path != .unopenable with
              | false => exact ⟨remaining, remainingRelatives, remainingFiles⟩
              | true =>
                  have sameRelative := Disk.relative_withoutLocked orderly.distinct pathAbsolute
                    (bne_iff_ne.mp opens) orderly.absolute orderly.isDirectory
                  refine ⟨first :: remaining, ?_, ?_⟩
                  · rw [if_pos rfl, List.mapM_cons, sameRelative, relative, remainingRelatives]
                    rfl
                  · rw [if_pos rfl, List.map_cons, remainingFiles]

/-- After the locked files have been removed, the files that could be opened are
collected. -/
theorem collectFiles_withoutLocked
    (orderly : IsOrderly disk root)
    {files : List Path}
    (collected : collectFiles disk root = .ok files) :
    collectFiles disk.withoutLocked root =
      .ok (files.filter fun file => disk.read (Path.append root file) != .unopenable) := by
  have listedFrom : ∀ path ∈ sourcePaths disk root,
      ∃ entry, (path, entry) ∈ listing disk (appDirectory root) := by
    intro path present
    obtain ⟨listed, kept, rfl⟩ := List.mem_map.mp present
    exact ⟨listed.2, List.mem_of_mem_filter kept⟩
  have absolutePaths : ∀ path ∈ sourcePaths disk root, Path.isAbsolute path = true := by
    intro path present
    obtain ⟨entry, listed⟩ := listedFrom path present
    exact isAbsolute_of_mem_listing disk (Path.isAbsolute_append orderly.absolute _)
      (path, entry) listed
  have readsBack : ∀ path ∈ sourcePaths disk root, ∀ relative,
      disk.relative path root = .ok relative →
        disk.read (Path.append root (Path.collapse relative)) = disk.read path := by
    intro path present relative isRelative
    obtain ⟨entry, listed⟩ := listedFrom path present
    have leads := orderly.back (path, entry) listed
    simp only [leadsBack, isRelative, Bool.and_eq_true] at leads
    exact eq_of_beq leads.2
  rw [collectFiles_eq] at collected
  cases relatives : (sourcePaths disk root).mapM fun path => disk.relative path root with
  | error fault =>
      rw [relatives] at collected
      contradiction
  | ok listed =>
      rw [relatives] at collected
      obtain rfl := Except.ok.inj collected
      obtain ⟨remaining, remainingRelatives, remainingFiles⟩ :=
        mapM_relative_withoutLocked orderly absolutePaths readsBack relatives
      rw [collectFiles_eq, sourcePaths_withoutLocked orderly, remainingRelatives,
        ← Text.sort_filter, ← remainingFiles]
      rfl

end Project
end QueryAdvisor

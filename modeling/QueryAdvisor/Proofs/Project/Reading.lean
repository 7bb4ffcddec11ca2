import QueryAdvisor.Proofs.Pipeline.Outcome

/-!
# Reading source files

Source files are read one after the other.  A file that can be read and one that
cannot be opened add an entry each and the reading goes on, but a directory in the
place of a file stops it, with all entries lost and only the warnings left.
-/

namespace QueryAdvisor

/-- What follows a computation without a note of its own adds no event. -/
@[simp] theorem Traced.events_bind_pure
    {α β : Type}
    (first : Traced α)
    (made : α → β) :
    (first >>= fun value => pure (made value)).events = first.events := by
  obtain ⟨outcome, events⟩ := first
  cases outcome <;> simp

namespace Project

/-- The source file at a path, if it can be read. -/
def sourceFile?
    (disk : Disk)
    (root path : Path) : Option SourceFile :=
  match disk.read (Path.append root path) with
  | .content text => some ⟨Path.append root path, path, text⟩
  | .directory | .unopenable => none

/-- What is said about a path, if nothing can be opened there. -/
def scanError?
    (disk : Disk)
    (root path : Path) : Option ScanError :=
  match disk.read (Path.append root path) with
  | .unopenable => some ⟨Path.append root path, notOpened⟩
  | .content _ | .directory => none

/-- Whether a directory stands in the place of a file. -/
def isBlocked
    (disk : Disk)
    (root path : Path) : Bool :=
  disk.read (Path.append root path) == .directory

/-- The warning about a file that is passed over. -/
def readFailed (error : ScanError) : Event where
  level := .warn
  message := ascii "scan.read_failed"
  fields := [(ascii "file", error.file)]

section Reading

variable {disk : Disk} {root file : Path}

/-! ### What one file adds to a reading -/

theorem entries_of_content
    {text : Text}
    (read : disk.read (Path.append root file) = .content text) :
    isBlocked disk root file = false ∧
      sourceFile? disk root file = some ⟨Path.append root file, file, text⟩ ∧
      scanError? disk root file = none := by
  simp [isBlocked, sourceFile?, scanError?, read]

theorem entries_of_unopenable
    (read : disk.read (Path.append root file) = .unopenable) :
    isBlocked disk root file = false ∧
      sourceFile? disk root file = none ∧
      scanError? disk root file = some ⟨Path.append root file, notOpened⟩ := by
  simp [isBlocked, sourceFile?, scanError?, read]

theorem isBlocked_of_directory
    (read : disk.read (Path.append root file) = .directory) :
    isBlocked disk root file = true := by
  rw [isBlocked, read]
  rfl

theorem readSources_cons_of_content
    {text : Text}
    (read : disk.read (Path.append root file) = .content text)
    (rest : List Path) :
    (readSources disk root (file :: rest)).outcome =
      (readSources disk root rest).outcome.map fun reading =>
        { reading with files := ⟨Path.append root file, file, text⟩ :: reading.files } := by
  rw [readSources, read]
  cases outcome : (readSources disk root rest).outcome <;> simp [outcome, Except.map]

theorem readSources_cons_of_unopenable
    (read : disk.read (Path.append root file) = .unopenable)
    (rest : List Path) :
    (readSources disk root (file :: rest)).outcome =
      (readSources disk root rest).outcome.map fun reading =>
        { reading with errors := ⟨Path.append root file, notOpened⟩ :: reading.errors } := by
  rw [readSources, read]
  cases outcome : (readSources disk root rest).outcome <;> simp [outcome, Except.map]

theorem readSources_cons_of_directory
    (read : disk.read (Path.append root file) = .directory)
    (rest : List Path) :
    (readSources disk root (file :: rest)).outcome = .error .directoryRead := by
  rw [readSources, read]
  rfl

/-- Only what the listed files hold matters for reading them. -/
theorem readSources_congr
    {other : Disk}
    {files : List Path}
    (alike : ∀ file ∈ files,
      other.read (Path.append root file) = disk.read (Path.append root file)) :
    readSources other root files = readSources disk root files := by
  induction files with
  | nil => rfl
  | cons file rest inductionHypothesis =>
      have first := alike file List.mem_cons_self
      have others := inductionHypothesis fun file present =>
        alike file (List.mem_cons_of_mem _ present)
      rw [readSources, readSources, first, others]

theorem readSources_events_cons_of_content
    {text : Text}
    (read : disk.read (Path.append root file) = .content text)
    (rest : List Path) :
    (readSources disk root (file :: rest)).events = (readSources disk root rest).events := by
  rw [readSources, read]
  exact Traced.events_bind_pure _ _

theorem readSources_events_cons_of_unopenable
    (read : disk.read (Path.append root file) = .unopenable)
    (rest : List Path) :
    (readSources disk root (file :: rest)).events =
      readFailed ⟨Path.append root file, notOpened⟩ :: (readSources disk root rest).events := by
  rw [readSources, read]
  exact congrArg (_ :: ·) (Traced.events_bind_pure (readSources disk root rest) _)

theorem readSources_events_cons_of_directory
    (read : disk.read (Path.append root file) = .directory)
    (rest : List Path) :
    (readSources disk root (file :: rest)).events = [] := by
  rw [readSources, read]
  rfl

end Reading

/-! ### Whole readings -/

section Whole

variable (disk : Disk) (root : Path)

/-- A reading gives an entry for each path, in order, unless one of them is blocked. -/
theorem readSources_outcome_eq (paths : List Path) :
    (readSources disk root paths).outcome =
      if paths.any (isBlocked disk root) then .error .directoryRead
      else .ok
        ⟨paths.filterMap (sourceFile? disk root), paths.filterMap (scanError? disk root)⟩ := by
  induction paths with
  | nil => rfl
  | cons path rest inductionHypothesis =>
      cases read : disk.read (Path.append root path) with
      | content text =>
          obtain ⟨passes, found, noError⟩ := entries_of_content read
          rw [readSources_cons_of_content read, inductionHypothesis, List.any_cons, passes,
            Bool.false_or, List.filterMap_cons_some found, List.filterMap_cons_none noError]
          split <;> rfl
      | unopenable =>
          obtain ⟨passes, noFile, passedOver⟩ := entries_of_unopenable read
          rw [readSources_cons_of_unopenable read, inductionHypothesis, List.any_cons, passes,
            Bool.false_or, List.filterMap_cons_none noFile, List.filterMap_cons_some passedOver]
          split <;> rfl
      | directory =>
          rw [readSources_cons_of_directory read, List.any_cons, isBlocked_of_directory read]
          rfl

/-- A warning is noted for each file that is passed over before the first directory. -/
theorem readSources_events_eq (paths : List Path) :
    (readSources disk root paths).events =
      ((paths.takeWhile fun path => !isBlocked disk root path).filterMap
        (scanError? disk root)).map readFailed := by
  induction paths with
  | nil => rfl
  | cons path rest inductionHypothesis =>
      cases read : disk.read (Path.append root path) with
      | content text =>
          obtain ⟨passes, _, noError⟩ := entries_of_content read
          rw [readSources_events_cons_of_content read, inductionHypothesis,
            List.takeWhile_cons_of_pos (by simp [passes]), List.filterMap_cons_none noError]
      | unopenable =>
          obtain ⟨passes, _, passedOver⟩ := entries_of_unopenable read
          rw [readSources_events_cons_of_unopenable read, inductionHypothesis,
            List.takeWhile_cons_of_pos (by simp [passes]), List.filterMap_cons_some passedOver]
          rfl
      | directory =>
          rw [readSources_events_cons_of_directory read,
            List.takeWhile_cons_of_neg (by simp [isBlocked_of_directory read])]
          rfl

/-- A path that is not blocked gives one entry, in one of the two lists. -/
theorem isSome_sourceFile?_eq
    {path : Path}
    (passes : disk.read (Path.append root path) ≠ .directory) :
    (sourceFile? disk root path).isSome = !(scanError? disk root path).isSome := by
  cases read : disk.read (Path.append root path) with
  | content text =>
      obtain ⟨_, found, noError⟩ := entries_of_content read
      rw [found, noError]
      rfl
  | unopenable =>
      obtain ⟨_, noFile, passedOver⟩ := entries_of_unopenable read
      rw [noFile, passedOver]
      rfl
  | directory => exact absurd read passes

theorem length_entries
    {paths : List Path}
    (pass : ∀ path ∈ paths, disk.read (Path.append root path) ≠ .directory) :
    (paths.filterMap (sourceFile? disk root)).length +
      (paths.filterMap (scanError? disk root)).length = paths.length := by
  induction paths with
  | nil => rfl
  | cons path rest inductionHypothesis =>
      have others := inductionHypothesis fun other present =>
        pass other (List.mem_cons_of_mem path present)
      cases read : disk.read (Path.append root path) with
      | content text =>
          obtain ⟨_, found, noError⟩ := entries_of_content read
          rw [List.filterMap_cons_some found, List.filterMap_cons_none noError, List.length_cons,
            List.length_cons]
          omega
      | unopenable =>
          obtain ⟨_, noFile, passedOver⟩ := entries_of_unopenable read
          rw [List.filterMap_cons_none noFile, List.filterMap_cons_some passedOver,
            List.length_cons, List.length_cons]
          omega
      | directory => exact absurd read (pass path List.mem_cons_self)

theorem any_isBlocked_iff (paths : List Path) :
    paths.any (isBlocked disk root) = true ↔
      ∃ path ∈ paths, disk.read (Path.append root path) = .directory := by
  simp only [List.any_eq_true, isBlocked, beq_iff_eq]

end Whole

/-- Only a directory stops the reading. -/
theorem exists_readSources_eq_ok
    {disk : Disk}
    {root : Path}
    {files : List Path}
    (noDirectory : ∀ file ∈ files, disk.read (Path.append root file) ≠ .directory) :
    ∃ reading, (readSources disk root files).outcome = .ok reading := by
  refine ⟨_, (readSources_outcome_eq disk root files).trans (if_neg ?_)⟩
  rw [any_isBlocked_iff]
  rintro ⟨file, listed, blocked⟩
  exact noDirectory file listed blocked

/-- A reading comes to an end exactly if no path leads to a directory.  Then every path
has given one entry, in order: its file with the content, or a remark if nothing could
be opened.  A directory makes the whole reading fail.  In both cases a warning has been
noted for each file that was passed over. -/
theorem readSources_ends_iff
    (disk : Disk)
    (root : Path)
    (paths : List Path) :
    ((∃ reading, (readSources disk root paths).outcome = .ok reading) ↔
        ∀ path ∈ paths, disk.read (Path.append root path) ≠ .directory) ∧
      (∀ reading, (readSources disk root paths).outcome = .ok reading →
        reading.files = paths.filterMap (sourceFile? disk root) ∧
          reading.errors = paths.filterMap (scanError? disk root) ∧
          (∀ path ∈ paths,
            (sourceFile? disk root path).isSome = !(scanError? disk root path).isSome) ∧
          reading.files.length + reading.errors.length = paths.length) ∧
      ((∃ path ∈ paths, disk.read (Path.append root path) = .directory) ↔
        (readSources disk root paths).outcome = .error .directoryRead) ∧
      (readSources disk root paths).events =
        ((paths.takeWhile fun path => !isBlocked disk root path).filterMap
          (scanError? disk root)).map readFailed := by
  have outcome := readSources_outcome_eq disk root paths
  by_cases blocked : ∃ path ∈ paths, disk.read (Path.append root path) = .directory
  · rw [if_pos ((any_isBlocked_iff disk root paths).mpr blocked)] at outcome
    obtain ⟨path, listed, isDirectory⟩ := blocked
    rw [outcome]
    refine ⟨⟨?_, ?_⟩, ?_, ?_, readSources_events_eq disk root paths⟩
    · rintro ⟨reading, ended⟩
      contradiction
    · intro pass
      exact absurd isDirectory (pass path listed)
    · intro reading ended
      contradiction
    · exact ⟨fun _ => rfl, fun _ => ⟨path, listed, isDirectory⟩⟩
  · rw [if_neg (mt (any_isBlocked_iff disk root paths).mp blocked)] at outcome
    have pass : ∀ path ∈ paths, disk.read (Path.append root path) ≠ .directory :=
      fun path listed isDirectory => blocked ⟨path, listed, isDirectory⟩
    rw [outcome]
    refine ⟨⟨fun _ => pass, fun _ => ⟨_, rfl⟩⟩, ?_, ?_, readSources_events_eq disk root paths⟩
    · intro reading ended
      obtain rfl := Except.ok.inj ended
      exact ⟨rfl, rfl, fun path listed => isSome_sourceFile?_eq disk root (pass path listed),
        length_entries disk root pass⟩
    · exact ⟨fun stopped => absurd stopped blocked, fun failed => by contradiction⟩

/-- Two files, something that cannot be opened, and a directory that is named like a
file. -/
def atticDisk : Disk where
  entries :=
    [(ascii "app", .directory
      [(ascii "a.rb", .file (ascii "A.all")),
        (ascii "b.rb", .special),
        (ascii "c.rb", .file []),
        (ascii "d.rb", .directory [])])]
  workingDirectory := []

/-- A missing path and what cannot be opened are passed over. -/
theorem atticDisk_passes_over :
    (∀ path ∈ [ascii "app/b.rb", ascii "app/a.rb", ascii "app/x.rb", ascii "app/c.rb"],
        atticDisk.read (Path.append Path.root path) ≠ .directory) ∧
      ∃ reading,
        (readSources atticDisk Path.root
            [ascii "app/b.rb", ascii "app/a.rb", ascii "app/x.rb", ascii "app/c.rb"]).outcome =
          .ok reading ∧
        reading.files.map SourceFile.relativePath = [ascii "app/a.rb", ascii "app/c.rb"] ∧
        reading.errors =
          [⟨ascii "/app/b.rb", notOpened⟩, ⟨ascii "/app/x.rb", notOpened⟩] := by
  obtain ⟨ends, entries, _, _⟩ := readSources_ends_iff atticDisk Path.root
    [ascii "app/b.rb", ascii "app/a.rb", ascii "app/x.rb", ascii "app/c.rb"]
  have pass : ∀ path ∈ [ascii "app/b.rb", ascii "app/a.rb", ascii "app/x.rb", ascii "app/c.rb"],
      atticDisk.read (Path.append Path.root path) ≠ .directory := by
    decide +kernel
  obtain ⟨reading, ended⟩ := ends.mpr pass
  obtain ⟨files, errors, _, _⟩ := entries reading ended
  refine ⟨pass, reading, ended, ?_, ?_⟩
  · rw [files]
    decide +kernel
  · rw [errors]
    decide +kernel

/-- A directory between two files takes both of them along. -/
theorem atticDisk_stops :
    (readSources atticDisk Path.root
        [ascii "app/a.rb", ascii "app/d.rb", ascii "app/c.rb"]).outcome =
      .error .directoryRead ∧
    ¬ ∃ reading, (readSources atticDisk Path.root
        [ascii "app/a.rb", ascii "app/d.rb", ascii "app/c.rb"]).outcome = .ok reading := by
  have stopped : (readSources atticDisk Path.root
      [ascii "app/a.rb", ascii "app/d.rb", ascii "app/c.rb"]).outcome =
        .error .directoryRead := by
    rw [readSources_outcome_eq, if_pos (by decide +kernel)]
  refine ⟨stopped, ?_⟩
  rintro ⟨reading, ended⟩
  rw [stopped] at ended
  contradiction

end Project
end QueryAdvisor

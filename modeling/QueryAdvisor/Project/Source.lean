import QueryAdvisor.Disk.Access
import QueryAdvisor.Ordered
import QueryAdvisor.Project.Root
import QueryAdvisor.Report.Basic
import QueryAdvisor.Traced

/-!
# The sources of a project

The schema dump, the database configuration and the source files below `app`.
Source files are listed by their paths relative to the root; one that is
reached through a link is listed by the path of its target.
-/

namespace QueryAdvisor

/-- Where the parts of a project are. -/
structure ProjectSources where
  root : Path
  schemaPath : Path
  databasePath : Path
  /-- Paths of source files, relative to the root. -/
  files : List Path
deriving DecidableEq, Repr

/-- A source file that has been read. -/
structure SourceFile where
  path : Path
  relativePath : Path
  content : Text
deriving DecidableEq, Repr

/-- The files that could be read and those that could not, each in order. -/
structure SourceReading where
  files : List SourceFile
  errors : List ScanError
deriving DecidableEq, Repr

namespace Project

/-- Files with these extensions are source files. -/
def sourceExtensions : List Text :=
  [ascii ".rb", ascii ".erb", ascii ".haml"]

/-- The directory of source files. -/
def appDirectory (root : Path) : Path :=
  Path.append root (ascii "app")

/-- The paths below a directory with their entries.  Linked directories are
listed, but not entered. -/
def listing
    (disk : Disk)
    (directory : Path) : List (Path × Entry) :=
  match disk.status directory with
  | .ok (some (place, .directory _)) =>
    (disk.below place).map fun (names, entry) =>
      (Path.append directory (Text.join Path.root names), entry)
  | _ => []

/-- Whether an entry of a listing counts as a file: a regular file does, whether it
can be opened or not, and a link does if its path leads to one. -/
def isListedFile
    (disk : Disk)
    (path : Path)
    (entry : Entry) : Bool :=
  match entry with
  | .file _ => true
  | .locked => true
  | .link _ => disk.isFile path
  | _ => false

/-- The source files below the application directory, sorted. -/
def collectFiles
    (disk : Disk)
    (root : Path) : Except Fault (List Path) := do
  let found := (listing disk (appDirectory root)).filter fun (path, entry) =>
    isListedFile disk path entry && sourceExtensions.contains (Path.extension path)
  let listed ← found.mapM fun (path, _) => disk.relative path root
  return Ordered.sort Text.precedes (listed.map Path.collapse)

/-- Find the project around a directory and list its sources. -/
def acquire
    (disk : Disk)
    (start : Path) : Traced ProjectSources := do
  let root ← .ofExcept (findRoot disk start)
  if !disk.isDirectory (appDirectory root) then
    .note .warn (ascii "acquire.no_app_directory") [(ascii "path", appDirectory root)]
  let files ← .ofExcept (collectFiles disk root)
  .note .info (ascii "acquire.complete")
    [(ascii "root", root), (ascii "files", Text.ofNat files.length)]
  return {
    root
    schemaPath := Path.append (Path.append root (ascii "db")) (ascii "schema.rb")
    databasePath := Path.append (Path.append root (ascii "config")) (ascii "database.yml")
    files }

/-- The remark on a file that cannot be opened. -/
def notOpened : Text :=
  ascii "file could not be opened"

/-- Read source files in order.  One that cannot be opened is noted and passed
over; a directory in place of a file stops the reading. -/
def readSources
    (disk : Disk)
    (root : Path) : List Path → Traced SourceReading
  | [] => return ⟨[], []⟩
  | relativePath :: rest => do
    let path := Path.append root relativePath
    match disk.read path with
    | .content content =>
      let reading ← readSources disk root rest
      return { reading with files := ⟨path, relativePath, content⟩ :: reading.files }
    | .unopenable =>
      .note .warn (ascii "scan.read_failed") [(ascii "file", path)]
      let reading ← readSources disk root rest
      return { reading with errors := ⟨path, notOpened⟩ :: reading.errors }
    | .directory => .fail .directoryRead

end Project
end QueryAdvisor

import QueryAdvisor.Disk.Walk

/-!
# Reading and writing

Files are read whole and written whole.  Making a directory also makes those
above it, outermost first; what has been made stays when a later step is
refused.
-/

namespace QueryAdvisor

/-- What comes of opening a path and reading from it.  A file that opens is read to its
end; one that opens and then refuses to be read, as some devices do, is left out. -/
inductive Reading where
  | content (text : Text)
  | directory
  | unopenable
deriving DecidableEq, Repr

namespace Disk

/-- Read the file that a path leads to. -/
def read
    (disk : Disk)
    (path : Path) : Reading :=
  match disk.locate .followed path with
  | .ok (.occupied _ (.file content)) => .content content
  | .ok (.occupied _ (.directory _)) => .directory
  | _ => .unopenable

/-- Write a file, replacing one that is there.  A link that leads to a free name
lets the file stand there. -/
def write?
    (disk : Disk)
    (path : Path)
    (content : Text) : Option Disk :=
  match disk.locate .followed path with
  | .ok (.occupied place (.file _)) => some (disk.insert place (.file content))
  | .ok (.vacant place) => some (disk.insert place (.file content))
  | _ => none

/-- Make one directory at a free name.  A directory that is already there will
do. -/
def makeDirectory
    (disk : Disk)
    (path : Path) : Except Refusal Disk :=
  match disk.locate .named path with
  | .ok (.vacant place) => .ok (disk.insert place (.directory []))
  | .ok (.occupied _ _) => if disk.isDirectory path then .ok disk else .error .alreadyExists
  | .error refusal => .error refusal

/-- The most directories that are made at once. -/
def directoryLimit : Nat := 1000

/-- The paths to make so that `path` becomes a directory, outermost first, in
front of those already known to be missing.  The search goes up, past names
that say nothing, to a directory that exists. -/
def missingDirectories
    (disk : Disk)
    (path : Path)
    (known : List Path) : Except Refusal (List Path) :=
  let name := Path.fileName path
  let missing := if name = Path.here ∨ name = Path.above then known else path :: known
  if directoryLimit < missing.length then .error .nameTooLong
  else if (Path.parent path).isEmpty then .ok missing
  else if _settled : Path.parent path = path then .ok missing
  else
    match disk.status (Path.parent path) with
    | .ok (some (_, .directory _)) => .ok missing
    | .ok (some _) => .error .notDirectory
    | .ok none => disk.missingDirectories (Path.parent path) missing
    | .error _ => .ok missing
termination_by path.length
decreasing_by exact Path.length_parent_lt path _settled

/-- Make directories one after the other, and stop at the first refusal. -/
def makeEach
    (disk : Disk) : List Path → Disk × Option Refusal
  | [] => (disk, none)
  | path :: rest =>
    match disk.makeDirectory path with
    | .ok disk => disk.makeEach rest
    | .error refusal => (disk, some refusal)

/-- Make a directory and those above it. -/
def makeDirectories
    (disk : Disk)
    (path : Path) : Disk × Option Refusal :=
  if path.isEmpty then (disk, some .emptyPath)
  else
    match disk.status path with
    | .ok (some (_, .directory _)) => (disk, none)
    | .ok (some _) => (disk, some .notDirectory)
    | .error refusal => (disk, some refusal)
    | .ok none =>
      let path := if path.getLast? = some Byte.slash then Path.parent path else path
      match disk.missingDirectories path [] with
      | .ok missing => disk.makeEach missing
      | .error refusal => (disk, some refusal)

end Disk
end QueryAdvisor

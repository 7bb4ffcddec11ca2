import QueryAdvisor.Path.Basic

/-!
# Disks

A disk is a finite tree of directories, files and symbolic links, together
with the working directory.  A place on it is the list of names that leads to
it from the root directory, without links.
-/

namespace QueryAdvisor

/-- The names that lead to a place from the root directory. -/
abbrev Place := List Text

/-- What stands under a name. -/
inductive Entry where
  /-- A regular file with its content. -/
  | file (content : Text)
  /-- A regular file that cannot be opened. -/
  | locked
  /-- A directory and the entries in it, of which the first one of a name counts. -/
  | directory (entries : List (Text × Entry))
  /-- A symbolic link and the path it stands for. -/
  | link (target : Path)
  /-- Something else, such as a socket, that cannot be opened. -/
  | special
deriving Repr

namespace Entry

/-- The entry of a name in a directory. -/
def child?
    (entry : Entry)
    (name : Text) : Option Entry :=
  match entry with
  | directory entries => entries.lookup name
  | _ => none

/-- What stands at a place below an entry. -/
def find? : Entry → Place → Option Entry
  | entry, [] => some entry
  | entry, name :: rest =>
    match entry.child? name with
    | none => none
    | some child => child.find? rest

@[simp] theorem find?_nil (entry : Entry) :
    entry.find? [] = some entry := by
  simp [find?]

/-- Let an entry stand under a name, in place of one that is there. -/
def putEntry
    (name : Text)
    (entry : Entry) : List (Text × Entry) → List (Text × Entry)
  | [] => [(name, entry)]
  | (otherName, other) :: rest =>
    if name = otherName then (name, entry) :: rest
    else (otherName, other) :: putEntry name entry rest

/-- Let an entry stand at a place below.  Nothing changes where the way to the
place is missing. -/
def insert : Entry → Place → Entry → Entry
  | _, [], new => new
  | directory entries, name :: rest, new =>
    match rest, entries.lookup name with
    | [], _ => directory (putEntry name new entries)
    | next :: others, some child =>
      directory (putEntry name (child.insert (next :: others) new) entries)
    | _ :: _, none => directory entries
  | other, _ :: _, _ => other

mutual

/-- Everything below an entry, with the names that lead there.  A directory
stands before what it holds. -/
def descendants : Entry → List (Place × Entry)
  | directory entries => descendantsOfEach entries
  | _ => []

/-- Named entries and everything below them. -/
def descendantsOfEach : List (Text × Entry) → List (Place × Entry)
  | [] => []
  | (name, entry) :: rest =>
    ([name], entry) ::
      entry.descendants.map (fun (names, inner) => (name :: names, inner)) ++
      descendantsOfEach rest

end

end Entry

/-- A file tree and the working directory. -/
structure Disk where
  /-- The entries of the root directory. -/
  entries : List (Text × Entry)
  /-- The place from which relative paths start. -/
  workingDirectory : Place
deriving Repr

/-- Why an operation on a path is refused. -/
inductive Refusal where
  | notFound
  | notDirectory
  | alreadyExists
  | tooManyLinks
  | nameTooLong
  | emptyPath
deriving DecidableEq, Repr

namespace Refusal

/-- The operating system's words for a refusal. -/
def describe : Refusal → Text
  | notFound => ascii "No such file or directory"
  | notDirectory => ascii "Not a directory"
  | alreadyExists => ascii "File exists"
  | tooManyLinks => ascii "Too many levels of symbolic links"
  | nameTooLong => ascii "File name too long"
  | emptyPath => ascii "Invalid argument"

end Refusal

namespace Place

/-- The absolute path of a place. -/
def path (place : Place) : Path :=
  Path.root ++ Text.join Path.root place

end Place

namespace Disk

/-- The root directory. -/
def root (disk : Disk) : Entry :=
  .directory disk.entries

/-- What stands at a place. -/
def entry?
    (disk : Disk)
    (place : Place) : Option Entry :=
  disk.root.find? place

/-- Let an entry stand at a place.  The root directory stays a directory. -/
def insert
    (disk : Disk)
    (place : Place)
    (entry : Entry) : Disk :=
  match disk.root.insert place entry with
  | .directory entries => { disk with entries }
  | _ => disk

/-- The entries below a place, each with the names that lead to it from there. -/
def below
    (disk : Disk)
    (place : Place) : List (Place × Entry) :=
  match disk.entry? place with
  | some entry => entry.descendants
  | none => []

end Disk
end QueryAdvisor

import QueryAdvisor.Disk.Basic

/-!
# From paths to places

A path is walked name by name from the root directory or the working
directory.  Links met on the way are followed, at most forty of them, so that
a walk always ends.
-/

namespace QueryAdvisor

/-- Where a path leads: to an entry, or to a free name in a directory. -/
inductive Spot where
  | occupied (place : Place) (entry : Entry)
  | vacant (place : Place)
deriving Repr

/-- How a path is walked. -/
inductive Manner where
  /-- A link in the last piece is not followed. -/
  | named
  /-- Every link is followed. -/
  | followed
  /-- Every link is followed, and each place on the way is handed over by its
  whole path. -/
  | spelledOut
deriving DecidableEq, Repr

/-- The way that a walk has come from the root directory: the names and their
entries, the last one first. -/
abbrev Descent := List (Text × Entry)

namespace Descent

/-- The place that a descent has come to. -/
def place (descent : Descent) : Place :=
  (descent.map Prod.fst).reverse

/-- The length of the path of that place, in which a slash stands before each
name. -/
def pathLength (descent : Descent) : Nat :=
  descent.foldl (fun length (name, _) => length + 1 + name.length) 0

end Descent

namespace Disk

/-- The longest name a directory accepts. -/
def nameLimit : Nat := 255

/-- A path has to be shorter than this. -/
def pathLimit : Nat := 4096

/-- The number of links that one walk may follow. -/
def linkLimit : Nat := 40

/-- The entry that a descent has come to. -/
def reached
    (disk : Disk) : Descent → Entry
  | [] => disk.root
  | (_, entry) :: _ => entry

/-- The way down to a place, as far as there is one. -/
def descend
    (disk : Disk)
    (place : Place) : Descent :=
  place.foldl (fun descent name =>
    match (disk.reached descent).child? name with
    | some entry => (name, entry) :: descent
    | none => descent) []

/-- Whether a name may be walked to from where a descent has come to. -/
def admits
    (manner : Manner)
    (descent : Descent)
    (name : Text) : Bool :=
  name.length ≤ nameLimit &&
    (manner != .spelledOut || descent.pathLength + 1 + name.length < pathLimit)

/-- Walk the pieces of a path.  An empty piece and `.` lead nowhere, but like
any piece they need a directory before them.  Where a link is followed, the
walk goes on by `jump`, from the directory where the target starts and with the
pieces that are left. -/
def walkPieces
    (disk : Disk)
    (manner : Manner)
    (jump : Descent → List Text → Except Refusal Spot)
    (descent : Descent)
    (pieces : List Text) : Except Refusal Spot :=
  match pieces with
  | [] => .ok (.occupied descent.place (disk.reached descent))
  | piece :: rest =>
    match disk.reached descent with
    | .directory entries =>
      if piece = [] ∨ piece = Path.here then disk.walkPieces manner jump descent rest
      else if piece = Path.above then disk.walkPieces manner jump descent.tail rest
      else if !admits manner descent piece then .error .nameTooLong
      else
        match entries.lookup piece with
        | none =>
          if rest.isEmpty then .ok (.vacant (descent.place ++ [piece])) else .error .notFound
        | some (.link target) =>
          if rest.isEmpty && manner == .named then
            .ok (.occupied (descent.place ++ [piece]) (.link target))
          else
            jump (if target.isAbsolute then [] else descent) (target.pieces ++ rest)
        | some entry => disk.walkPieces manner jump ((piece, entry) :: descent) rest
    | _ => .error .notDirectory

/-- Walk the pieces of a path, following at most `links` links. -/
def walk
    (disk : Disk)
    (manner : Manner)
    (links : Nat) : Descent → List Text → Except Refusal Spot :=
  match links with
  | 0 => disk.walkPieces manner fun _ _ => .error .tooManyLinks
  | links + 1 => disk.walkPieces manner (disk.walk manner links)

/-- Where a path leads from the working directory.  A name is handed over up to
its first NUL byte. -/
def locate
    (disk : Disk)
    (manner : Manner)
    (path : Path) : Except Refusal Spot :=
  let path := Text.beforeNul path
  if path.isEmpty then .error .notFound
  else if pathLimit ≤ path.length then .error .nameTooLong
  else
    disk.walk manner linkLimit
      (if Path.isAbsolute path then [] else disk.descend disk.workingDirectory)
      (Path.pieces path)

/-- The place and the entry of a path, if there is one.  A name that is missing
and a file used as a directory mean that there is none; other refusals are
reported. -/
def status
    (disk : Disk)
    (path : Path) : Except Refusal (Option (Place × Entry)) :=
  match disk.locate .followed path with
  | .ok (.occupied place entry) => .ok (some (place, entry))
  | .ok (.vacant _) => .ok none
  | .error .notFound => .ok none
  | .error .notDirectory => .ok none
  | .error refusal => .error refusal

/-- Whether a path leads to a directory. -/
def isDirectory
    (disk : Disk)
    (path : Path) : Bool :=
  match disk.status path with
  | .ok (some (_, .directory _)) => true
  | _ => false

/-- Whether a path leads to a regular file. -/
def isFile
    (disk : Disk)
    (path : Path) : Bool :=
  match disk.status path with
  | .ok (some (_, .file _)) => true
  | .ok (some (_, .locked)) => true
  | _ => false

end Disk
end QueryAdvisor

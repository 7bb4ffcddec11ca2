import QueryAdvisor.Text.Basic

/-!
# Paths

A path is a text whose names are separated by slashes.  The operations here
look at the text alone and never at a disk.
-/

namespace QueryAdvisor

/-- A path is kept as it is written. -/
abbrev Path := Text

namespace Path

/-- The root directory. -/
def root : Path :=
  [Byte.slash]

/-- The name of a directory in itself. -/
def here : Path :=
  [Byte.dot]

/-- The name of the directory above. -/
def above : Path :=
  [Byte.dot, Byte.dot]

/-- Absolute paths begin with a slash. -/
def isAbsolute (path : Path) : Bool :=
  path.head? == some Byte.slash

/-- The texts between slashes, some of which may be empty. -/
def pieces (path : Path) : List Text :=
  path.splitOn Byte.slash

/-- The nonempty names of a path. -/
def names (path : Path) : List Text :=
  (pieces path).filter fun piece => !piece.isEmpty

/-- The parts of a path: the root directory if the path is absolute, the names,
and an empty part if a slash follows the last name. -/
def parts (path : Path) : List Text :=
  (if isAbsolute path then [root] else []) ++ names path ++
    (if !(names path).isEmpty && path.getLast? == some Byte.slash then [[]] else [])

/-- What follows the last slash. -/
def fileName (path : Path) : Text :=
  (path.reverse.takeWhile fun byte => byte != Byte.slash).reverse

/-- What follows the last full stop of a name. -/
def afterLastDot (name : Text) : Text :=
  (name.reverse.takeWhile fun byte => byte != Byte.dot).reverse

/-- The length of the part of a name in front of its extension.  The names `.`
and `..`, names without a full stop and those that only begin with one have no
extension. -/
def stemLength (name : Text) : Nat :=
  if name = here ∨ name = above then name.length
  else if (afterLastDot name).length + 1 < name.length then
    name.length - ((afterLastDot name).length + 1)
  else name.length

/-- The extension of the file name, with its full stop. -/
def extension (path : Path) : Text :=
  (fileName path).drop (stemLength (fileName path))

/-- The file name without its extension. -/
def stem (path : Path) : Text :=
  (fileName path).take (stemLength (fileName path))

/-- Append a path to a directory.  An absolute path stands for itself, and no
slash is added where one is already there. -/
def append
    (directory path : Path) : Path :=
  if isAbsolute path || directory.isEmpty then path
  else if directory.getLast? = some Byte.slash then directory ++ path
  else directory ++ Byte.slash :: path

/-- Remove the slashes at the end. -/
def dropSlashes (path : Path) : Path :=
  Text.dropTailWhile (fun byte => byte == Byte.slash) path

/-- Everything up to the last slash. -/
def directoryPart (path : Path) : Path :=
  Text.dropTailWhile (fun byte => byte != Byte.slash) path

/-- The directory that holds the last part of a path.  A path without names is
its own parent. -/
def parent (path : Path) : Path :=
  if path.all fun byte => byte == Byte.slash then path
  else if path.getLast? = some Byte.slash then dropSlashes path
  else if (dropSlashes (directoryPart path)).isEmpty && !(directoryPart path).isEmpty then root
  else dropSlashes (directoryPart path)

/-- The parent of a path that holds a name is shorter. -/
theorem length_parent_lt_of_named
    (path : Path)
    (named : ¬ (path.all fun byte => byte == Byte.slash) = true) :
    (parent path).length < path.length := by
  rw [parent, if_neg named]
  split
  · rename_i endsInSlash
    exact Text.length_dropTailWhile_lt _ path _ endsInSlash (by decide)
  · rename_i endsOtherwise
    obtain ⟨last, endsIn⟩ : ∃ last, path.getLast? = some last := by
      cases path with
      | nil => simp at named
      | cons first rest => exact ⟨_, List.getLast?_eq_some_getLast (by simp)⟩
    have removed : (last != Byte.slash) = true := by
      simpa [endsIn] using endsOtherwise
    have shorter : (directoryPart path).length < path.length :=
      Text.length_dropTailWhile_lt _ path last endsIn removed
    split
    · rename_i onlySlashes
      have nonempty : 0 < (directoryPart path).length := by
        simp only [Bool.and_eq_true, Bool.not_eq_true', List.isEmpty_eq_false_iff] at onlySlashes
        exact List.length_pos_iff.mpr onlySlashes.2
      simp only [root, List.length_singleton]
      omega
    · exact Nat.lt_of_le_of_lt (Text.length_dropTailWhile_le _ _) shorter

/-- A path is its own parent if it holds nothing but slashes. -/
theorem parent_eq_self_iff (path : Path) :
    parent path = path ↔ (path.all fun byte => byte == Byte.slash) = true := by
  constructor
  · intro settled
    apply Decidable.byContradiction
    intro named
    have shorter := length_parent_lt_of_named path named
    rw [settled] at shorter
    exact Nat.lt_irrefl _ shorter
  · intro slashes
    rw [parent, if_pos slashes]

/-- A parent is shorter, unless the path is its own parent. -/
theorem length_parent_lt
    (path : Path)
    (changes : parent path ≠ path) :
    (parent path).length < path.length :=
  length_parent_lt_of_named path (mt (parent_eq_self_iff path).mpr changes)

/-- A path and those above it, from the path itself to the one that is its own
parent. -/
def upward (path : Path) : List Path :=
  if _settled : parent path = path then [path] else path :: upward (parent path)
termination_by path.length
decreasing_by exact length_parent_lt path _settled

/-- Replace every run of slashes by a single one. -/
def collapse : Path → Path
  | [] => []
  | [last] => [last]
  | first :: second :: rest =>
    if first = Byte.slash ∧ second = Byte.slash then collapse (second :: rest)
    else first :: collapse (second :: rest)

end Path
end QueryAdvisor

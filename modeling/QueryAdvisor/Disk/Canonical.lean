import QueryAdvisor.Disk.Walk
import QueryAdvisor.Fault
import QueryAdvisor.Path.Normal

/-!
# Canonical paths

The canonical path of a place is absolute and free of links.  It is found by
spelling out the way from the root directory, so the path of every place on the
way has to be short enough to be handed over.  For a path that leads nowhere,
the longest beginning that does lead somewhere is made canonical and the rest
is only normalised; a path of which nothing exists stays relative.
-/

namespace QueryAdvisor
namespace Disk

/-- Whether a path leads to an entry. -/
def pathExists
    (disk : Disk)
    (path : Path) : Except Fault Bool :=
  match disk.status path with
  | .ok found => .ok found.isSome
  | .error refusal => .error (.statusRefused refusal path)

/-- Extend a path by parts as long as it leads to an entry, and return the parts
that are left. -/
def longestExisting
    (disk : Disk)
    (path : Path) : List Text → Except Fault (Path × List Text)
  | [] => .ok (path, [])
  | part :: rest => do
    if ← disk.pathExists (Path.append path part) then
      disk.longestExisting (Path.append path part) rest
    else
      return (path, part :: rest)

/-- The canonical path of an existing entry. -/
def resolve
    (disk : Disk)
    (path : Path) : Except Fault Path :=
  let pieces := Path.pieces (Text.beforeNul path)
  match disk.walk .spelledOut linkLimit []
      (if Path.isAbsolute path then pieces else disk.workingDirectory ++ pieces) with
  | .ok (.occupied place _) => .ok place.path
  | .ok (.vacant _) => .error (.resolutionRefused .notFound path)
  | .error refusal => .error (.resolutionRefused refusal path)

/-- The canonical path as far as the path exists, followed by the rest. -/
def canonical
    (disk : Disk)
    (path : Path) : Except Fault Path := do
  if ← disk.pathExists path then
    disk.resolve path
  else
    let (existing, rest) ← disk.longestExisting [] (Path.parts path)
    let start ← if existing.isEmpty then pure [] else disk.resolve existing
    return Path.normal (rest.foldl Path.append start)

/-- The way from one path to another, both made canonical first. -/
def relative
    (disk : Disk)
    (path base : Path) : Except Fault Path := do
  let target ← disk.canonical path
  let start ← disk.canonical base
  return Path.relativeTo target start

end Disk
end QueryAdvisor

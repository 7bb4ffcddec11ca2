import QueryAdvisor.Disk.Canonical

/-!
# The root of a project

A directory is the root of an application if it holds
`config/application.rb`.  From any directory inside the application the root
is found by going up.
-/

namespace QueryAdvisor
namespace Project

/-- The file that marks an application. -/
def marker : Path :=
  ascii "config/application.rb"

/-- The first path, from `path` upward, for which a test succeeds.  The last
path that is tested is the one that is its own parent. -/
def firstUpward
    (test : Path → Except Fault Bool)
    (path : Path) : Except Fault (Option Path) := do
  if ← test path then
    return some path
  else if _settled : Path.parent path = path then
    return none
  else
    firstUpward test (Path.parent path)
termination_by path.length
decreasing_by exact Path.length_parent_lt path _settled

/-- The root of the application around a path, where `pathExists` tells which
paths there are.  The search is reported under the path where it was to start. -/
def rootAbove
    (pathExists : Path → Except Fault Bool)
    (start origin : Path) : Except Fault Path := do
  match ← firstUpward (fun path => pathExists (Path.append path marker)) origin with
  | some root => return root
  | none => throw (.rootNotFound (if start.isEmpty then Path.here else start))

/-- The root of the application around a directory.  An empty start stands for
the working directory. -/
def findRoot
    (disk : Disk)
    (start : Path) : Except Fault Path := do
  let origin ← disk.canonical (if start.isEmpty then disk.workingDirectory.path else start)
  rootAbove disk.pathExists start origin

end Project
end QueryAdvisor

import QueryAdvisor.Path.Basic

/-!
# Scopes

A scope says which source files a rule reads: those below one of its
directories that have one of its extensions.
-/

namespace QueryAdvisor

/-- Directories, relative to the project, and extensions of files. -/
structure Scope where
  directories : List Path
  extensions : List Text
deriving DecidableEq, Repr

namespace Scope

/-- Whether a relative path lies in the scope. -/
def covers
    (scope : Scope)
    (path : Path) : Bool :=
  scope.extensions.contains (Path.extension path) &&
    scope.directories.any fun directory =>
      (directory ++ [Byte.slash]).isPrefixOf (Path.collapse path)

end Scope
end QueryAdvisor

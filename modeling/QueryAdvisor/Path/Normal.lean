import QueryAdvisor.Path.Basic

/-!
# Normal and relative paths

`normal` removes the parts of a path that say nothing, and `relativeTo` leads
from one path to another.  Both work on the parts of the paths alone.
-/

namespace QueryAdvisor
namespace Path

/-- A path under normalisation: its names, the last one first, and whether the
text so far ends in a slash. -/
structure Trail where
  /-- The names that remain, in reverse order. -/
  names : List Text
  /-- Whether a slash follows the last name. -/
  slashed : Bool

/-- Take one more part.  The name above cancels a name before it; at the root
directory it says nothing. -/
def Trail.step
    (absolute : Bool)
    (trail : Trail)
    (part : Text) : Trail :=
  if part = [] ∨ part = here then { trail with slashed := true }
  else if part = above then
    match trail.names with
    | [] => if absolute then trail else ⟨[above], false⟩
    | last :: earlier =>
      if last = above then ⟨above :: last :: earlier, false⟩ else ⟨earlier, true⟩
  else ⟨part :: trail.names, false⟩

/-- The path of a trail.  A slash is kept behind the last name unless it is the
name above. -/
def Trail.path
    (absolute : Bool)
    (trail : Trail) : Path :=
  let start := if absolute then root else []
  match trail.names with
  | [] => if absolute then root else here
  | last :: _ =>
    start ++ Text.join root trail.names.reverse ++
      (if trail.slashed && last != above then root else [])

/-- The lexical normal form: no repeated slashes, no `.`, and `..` only at the
beginning of a relative path.  A nonempty path does not become empty. -/
def normal (path : Path) : Path :=
  if path.isEmpty then []
  else
    let inner := (parts path).drop (if isAbsolute path then 1 else 0)
    (inner.foldl (Trail.step (isAbsolute path)) ⟨[], false⟩).path (isAbsolute path)

/-- Remove the common beginning of two lists. -/
def withoutCommon : List Text → List Text → List Text × List Text
  | left :: leftRest, right :: rightRest =>
    if left = right then withoutCommon leftRest rightRest
    else (left :: leftRest, right :: rightRest)
  | left, right => (left, right)

/-- How many directories some parts lead down. -/
def depth (parts : List Text) : Int :=
  parts.foldl (fun depth part =>
    if part = above then depth - 1
    else if part = [] ∨ part = here then depth
    else depth + 1) 0

/-- The way from `base` to `path`.  It is empty if only one of them is absolute,
or if `base` leads above the common part. -/
def relativeTo
    (path base : Path) : Path :=
  if isAbsolute path != isAbsolute base then []
  else
    let (down, up) := withoutCommon (parts path) (parts base)
    if down.isEmpty && up.isEmpty then here
    else if depth up = 0 ∧ (down.isEmpty || down.head? == some []) then here
    else if depth up < 0 then []
    else down.foldl append ((List.replicate (depth up).toNat above).foldl append [])

end Path
end QueryAdvisor

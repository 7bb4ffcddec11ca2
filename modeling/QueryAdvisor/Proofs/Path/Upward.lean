import Mathlib.Data.List.TakeWhile
import Mathlib.Logic.Function.Iterate
import QueryAdvisor.Path.Basic

/-!
# The way up from a path

From any path its parents lead up to one that is its own parent.  The number of
steps is the height of the path, which is bounded by its length.  A path that holds
nothing but slashes has no way to go; any other absolute path ends at the root
directory, and any other relative path at the empty path.
-/

namespace QueryAdvisor

namespace Text

theorem dropTailWhile_eq_nil_iff
    {predicate : UInt8 → Bool}
    {text : Text} :
    dropTailWhile predicate text = [] ↔ text.all predicate = true := by
  rw [dropTailWhile, List.reverse_eq_nil_iff, List.dropWhile_eq_nil_iff, List.all_eq_true]
  simp only [List.mem_reverse]

end Text

namespace Path

/-! ### One step up -/

/-- Without the slashes at its end a path has a name, or nothing is left of it. -/
theorem all_dropSlashes_iff (path : Path) :
    ((dropSlashes path).all fun byte => byte == Byte.slash) = true ↔ dropSlashes path = [] := by
  constructor
  · intro slashes
    cases ends : (dropSlashes path).getLast? with
    | none => exact List.getLast?_eq_none_iff.mp ends
    | some last =>
        have isSlash := List.all_eq_true.mp slashes last (List.mem_of_getLast? ends)
        have notSlash := Text.eq_false_of_getLast?_dropTailWhile ends
        exact absurd isSlash (Bool.eq_false_iff.mp notSlash)
  · intro nothing
    rw [nothing]
    rfl

theorem isAbsolute_of_prefix
    {path beginning : Path}
    (begins : beginning <+: path)
    (nonempty : beginning ≠ []) :
    isAbsolute beginning = isAbsolute path := by
  obtain ⟨rest, rfl⟩ := begins
  cases beginning with
  | nil => exact absurd rfl nonempty
  | cons first others => rfl

/-- A parent that is what stands before the slashes of a directory has names, unless
nothing stands there. -/
theorem parent_ne_of_eq_dropSlashes
    {path directory : Path}
    (isParent : parent path = dropSlashes directory)
    (begins : directory <+: path)
    (nonempty : dropSlashes directory ≠ []) :
    parent (parent path) ≠ parent path ∧ isAbsolute (parent path) = isAbsolute path := by
  rw [ne_eq, parent_eq_self_iff (parent path), isParent, all_dropSlashes_iff]
  have leads : dropSlashes directory <+: path := (Text.dropTailWhile_prefix _ _).trans begins
  exact ⟨nonempty, isAbsolute_of_prefix leads nonempty⟩

theorem isAbsolute_of_all_slashes
    {path : Path}
    (slashes : (path.all fun byte => byte == Byte.slash) = true)
    (nonempty : path ≠ []) :
    isAbsolute path = true := by
  cases path with
  | nil => exact absurd rfl nonempty
  | cons first rest =>
      have isSlash := List.all_eq_true.mp slashes first List.mem_cons_self
      rwa [isAbsolute, List.head?_cons, Option.some_beq_some]

/-- The parent of a path with names is the root directory or the empty path, or it has
names again.  It is absolute if the path is. -/
theorem parent_cases
    {path : Path}
    (changes : parent path ≠ path) :
    (parent path = root ∧ isAbsolute path = true) ∨
      (parent path = [] ∧ isAbsolute path = false) ∨
      (parent (parent path) ≠ parent path ∧ isAbsolute (parent path) = isAbsolute path) := by
  have named := mt (parent_eq_self_iff path).mpr changes
  by_cases endsInSlash : path.getLast? = some Byte.slash
  · have isParent : parent path = dropSlashes path := by
      rw [parent, if_neg named, if_pos endsInSlash]
    have nonempty : dropSlashes path ≠ [] := mt Text.dropTailWhile_eq_nil_iff.mp named
    exact .inr (.inr (parent_ne_of_eq_dropSlashes isParent List.prefix_rfl nonempty))
  -- Otherwise the path ends in a name, and the parent depends on what stands before it:
  -- nothing at all, nothing but slashes, or another name.
  have begins : directoryPart path <+: path := Text.dropTailWhile_prefix _ _
  by_cases nothing : dropSlashes (directoryPart path) = []
  · by_cases empty : directoryPart path = []
    · refine .inr (.inl ⟨?_, ?_⟩)
      · rw [parent, if_neg named, if_neg endsInSlash, nothing, empty]
        rfl
      · have noSlash := List.all_eq_true.mp (Text.dropTailWhile_eq_nil_iff.mp empty)
        cases path with
        | nil => rfl
        | cons first rest =>
            have notSlash := noSlash first List.mem_cons_self
            simpa [isAbsolute] using notSlash
    · refine .inl ⟨?_, ?_⟩
      · rw [parent, if_neg named, if_neg endsInSlash, nothing, if_pos]
        simpa using empty
      · rw [← isAbsolute_of_prefix begins empty]
        exact isAbsolute_of_all_slashes (Text.dropTailWhile_eq_nil_iff.mp nothing) empty
  · have isParent : parent path = dropSlashes (directoryPart path) := by
      rw [parent, if_neg named, if_neg endsInSlash, if_neg]
      simp [nothing]
    exact .inr (.inr (parent_ne_of_eq_dropSlashes isParent begins nothing))

/-! ### The chain of parents -/

/-- How many steps lead up to the path that is its own parent. -/
def height (path : Path) : Nat :=
  if _settled : parent path = path then 0 else height (parent path) + 1
termination_by path.length
decreasing_by exact length_parent_lt path _settled

theorem height_of_settled
    {path : Path}
    (settled : parent path = path) :
    height path = 0 := by
  rw [height, dif_pos settled]

theorem height_of_not_settled
    {path : Path}
    (changes : parent path ≠ path) :
    height path = height (parent path) + 1 := by
  rw [height, dif_neg changes]

theorem upward_of_settled
    {path : Path}
    (settled : parent path = path) :
    upward path = [path] := by
  rw [upward, dif_pos settled]

theorem upward_of_not_settled
    {path : Path}
    (changes : parent path ≠ path) :
    upward path = path :: upward (parent path) := by
  rw [upward, dif_neg changes]

/-- Facts about a path and its parents follow the way up. -/
theorem upwardInduction
    {motive : Path → Prop}
    (settled : ∀ path, parent path = path → motive path)
    (changes : ∀ path, parent path ≠ path → motive (parent path) → motive path)
    (path : Path) :
    motive path := by
  -- The induction is on the length, as a parent is shorter wherever it differs.
  induction length : path.length using Nat.strongRecOn generalizing path with
  | ind length inductionHypothesis =>
      subst length
      by_cases isSettled : parent path = path
      · exact settled path isSettled
      · exact changes path isSettled
          (inductionHypothesis _ (length_parent_lt path isSettled) _ rfl)

theorem height_le_length (path : Path) : height path ≤ path.length := by
  induction path using upwardInduction with
  | settled path isSettled =>
      rw [height_of_settled isSettled]
      exact Nat.zero_le _
  | changes path notSettled inductionHypothesis =>
      have shorter := length_parent_lt path notSettled
      rw [height_of_not_settled notSettled]
      omega

/-- At its height a path has come to the one that is its own parent. -/
theorem parent_iterate_height (path : Path) :
    parent (parent^[height path] path) = parent^[height path] path := by
  induction path using upwardInduction with
  | settled path isSettled =>
      rw [height_of_settled isSettled]
      exact isSettled
  | changes path notSettled inductionHypothesis =>
      rw [height_of_not_settled notSettled, Function.iterate_succ_apply]
      exact inductionHypothesis

theorem parent_iterate_ne
    {path : Path}
    {level : Nat}
    (below : level < height path) :
    parent (parent^[level] path) ≠ parent^[level] path := by
  induction path using upwardInduction generalizing level with
  | settled path isSettled =>
      rw [height_of_settled isSettled] at below
      exact absurd below (Nat.not_lt_zero level)
  | changes path notSettled inductionHypothesis =>
      cases level with
      | zero => exact notSettled
      | succ level =>
          rw [height_of_not_settled notSettled] at below
          rw [Function.iterate_succ_apply]
          exact inductionHypothesis (Nat.lt_of_succ_lt_succ below)

/-- The height is the first level from which the way leads no further. -/
theorem parent_iterate_eq_iff
    {path : Path}
    {level : Nat} :
    parent (parent^[level] path) = parent^[level] path ↔ height path ≤ level := by
  constructor
  · intro settled
    apply Nat.le_of_not_lt
    intro below
    exact parent_iterate_ne below settled
  · intro reached
    obtain ⟨further, rfl⟩ := Nat.exists_eq_add_of_le reached
    have stays := Function.iterate_fixed (parent_iterate_height path) further
    rw [Nat.add_comm, Function.iterate_add_apply, stays]
    exact parent_iterate_height path

/-- The paths on the way up are the iterated parents up to the height. -/
theorem upward_eq_map_iterate (path : Path) :
    upward path = (List.range (height path + 1)).map fun level => parent^[level] path := by
  induction path using upwardInduction with
  | settled path isSettled =>
      rw [upward_of_settled isSettled, height_of_settled isSettled]
      rfl
  | changes path notSettled inductionHypothesis =>
      rw [upward_of_not_settled notSettled, height_of_not_settled notSettled,
        List.range_succ_eq_map, List.map_cons, List.map_map, inductionHypothesis]
      rfl

/-- Where the way up ends. -/
theorem parent_iterate_height_eq (path : Path) :
    parent^[height path] path =
      if parent path = path then path else if isAbsolute path then root else [] := by
  induction path using upwardInduction with
  | settled path isSettled =>
      rw [height_of_settled isSettled, if_pos isSettled]
      rfl
  | changes path notSettled inductionHypothesis =>
      rw [height_of_not_settled notSettled, Function.iterate_succ_apply, inductionHypothesis,
        if_neg notSettled]
      rcases parent_cases notSettled with ⟨isRoot, isAbs⟩ | ⟨isEmpty, isRel⟩ | ⟨named, same⟩
      · rw [isRoot, isAbs]
        rfl
      · rw [isEmpty, isRel]
        rfl
      · rw [if_neg named, same]

end Path
end QueryAdvisor

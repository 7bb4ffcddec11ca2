import QueryAdvisor.Project.Root
import QueryAdvisor.Proofs.Path.Upward

/-!
# The nearest application

The search for the root of an application tests the paths on the way up one after
the other, the last one included.  It stops in every case, and it finds the nearest
application, never one further out.
-/

namespace QueryAdvisor
namespace Project

open QueryAdvisor.Path

/-! ### The search as a loop -/

/-- Where a search stands: still at a path, or at its end with what it has found. -/
inductive Search where
  | climbing (path : Path)
  | stopped (found : Option Path)
deriving DecidableEq, Repr

namespace Search

/-- One round of the loop: test the path, and go on to its parent unless this is the
path itself.  A search that has stopped stands still. -/
def round
    (holds : Path → Bool) : Search → Search
  | climbing path =>
    if holds path then stopped (some path)
    else if parent path = path then stopped none
    else climbing (parent path)
  | stopped found => stopped found

theorem iterate_round_stopped
    (holds : Path → Bool)
    (found : Option Path)
    (rounds : Nat) :
    (round holds)^[rounds] (stopped found) = stopped found :=
  Function.iterate_fixed rfl rounds

/-- The loop stops after at most one round for each path on the way, with the first
one that passes the test. -/
theorem iterate_round_climbing
    (holds : Path → Bool)
    (path : Path) :
    (round holds)^[height path + 1] (climbing path) = stopped ((upward path).find? holds) := by
  induction path using upwardInduction with
  | settled path isSettled =>
      rw [height_of_settled isSettled, upward_of_settled isSettled, List.find?_singleton,
        Function.iterate_one, round]
      split <;> simp_all
  | changes path notSettled inductionHypothesis =>
      rw [height_of_not_settled notSettled, upward_of_not_settled notSettled,
        Function.iterate_succ_apply, round, List.find?_cons]
      cases tested : holds path with
      | true => exact iterate_round_stopped holds (some path) _
      | false =>
          rw [if_neg Bool.false_ne_true, if_neg notSettled]
          exact inductionHypothesis

end Search

/-- If every path on the way can be tested, the search finds the first that passes. -/
theorem firstUpward_eq_ok
    {test : Path → Except Fault Bool}
    {holds : Path → Bool}
    {path : Path}
    (answers : ∀ other ∈ upward path, test other = .ok (holds other)) :
    firstUpward test path = .ok ((upward path).find? holds) := by
  induction path using upwardInduction with
  | settled path isSettled =>
      rw [upward_of_settled isSettled] at answers ⊢
      have answered := answers path List.mem_cons_self
      rw [firstUpward, answered, List.find?_singleton]
      cases holds path with
      | true => rfl
      | false => simp [isSettled, bind, Except.bind, pure, Except.pure]
  | changes path notSettled inductionHypothesis =>
      rw [upward_of_not_settled notSettled] at answers ⊢
      have answered := answers path List.mem_cons_self
      have above := inductionHypothesis fun other present =>
        answers other (List.mem_cons_of_mem path present)
      rw [firstUpward, answered, List.find?_cons]
      cases holds path with
      | true => rfl
      | false => simp [notSettled, bind, Except.bind, above]

/-- The first path that passes is the lowest one on the way. -/
theorem find?_upward_eq_some_iff
    {holds : Path → Bool}
    {path found : Path} :
    (upward path).find? holds = some found ↔
      ∃ level ≤ height path, found = parent^[level] path ∧ holds found = true ∧
        ∀ below < level, holds (parent^[below] path) = false := by
  rw [upward_eq_map_iterate, List.find?_eq_some_iff_getElem]
  simp only [List.getElem_map, List.getElem_range, List.length_map, List.length_range,
    Nat.lt_succ_iff]
  constructor
  · rintro ⟨passes, level, within, rfl, fails⟩
    refine ⟨level, within, rfl, passes, ?_⟩
    intro below isBelow
    simpa using fails below isBelow
  · rintro ⟨level, within, rfl, passes, fails⟩
    refine ⟨passes, level, within, rfl, ?_⟩
    intro below isBelow
    simpa using fails below isBelow

theorem find?_upward_eq_none_iff
    {holds : Path → Bool}
    {path : Path} :
    (upward path).find? holds = none ↔
      ∀ level ≤ height path, holds (parent^[level] path) = false := by
  rw [upward_eq_map_iterate, List.find?_eq_none]
  simp only [List.forall_mem_map, List.mem_range, Nat.lt_succ_iff, Bool.not_eq_true]

/-! ### The root of an application -/

/-- Whether a directory holds the marker, where `present` tells which paths there
are. -/
def marked
    (present : Path → Bool)
    (directory : Path) : Bool :=
  present (append directory marker)

/-- The outcome of the search for the root of an application. -/
theorem rootAbove_eq
    (pathExists : Path → Except Fault Bool)
    (present : Path → Bool)
    (start origin : Path)
    (answers : ∀ directory ∈ upward origin,
      pathExists (append directory marker) = .ok (marked present directory)) :
    rootAbove pathExists start origin =
      match (upward origin).find? (marked present) with
      | some root => .ok root
      | none => .error (.rootNotFound (if start.isEmpty then here else start)) := by
  rw [rootAbove, firstUpward_eq_ok answers]
  cases (upward origin).find? (marked present) with
  | some root => rfl
  | none => rfl

/-- The root is the nearest directory on the way up that holds the marker, and the
search fails exactly if none holds it, the last one included.  The way is that of
the iterated parents.  It ends at the first path that is its own parent, and the loop
stops after as many rounds as there are paths on it. -/
theorem rootAbove_nearest
    (present : Path → Bool)
    (start origin : Path) :
    height origin ≤ origin.length ∧
      (∀ level, parent (parent^[level] origin) = parent^[level] origin ↔
        height origin ≤ level) ∧
      (parent^[height origin] origin =
        if origin.all fun byte => byte == Byte.slash then origin
        else if isAbsolute origin then root else []) ∧
      (∃ found,
        (Search.round (marked present))^[height origin + 1] (.climbing origin) =
            .stopped found ∧
          firstUpward (fun path => .ok (marked present path)) origin = .ok found) ∧
      (∀ found, rootAbove (fun path => .ok (present path)) start origin = .ok found ↔
        ∃ level ≤ height origin, found = parent^[level] origin ∧ marked present found = true ∧
          ∀ below < level, marked present (parent^[below] origin) = false) ∧
      (rootAbove (fun path => .ok (present path)) start origin =
          .error (.rootNotFound (if start.isEmpty then here else start)) ↔
        ∀ level ≤ height origin, marked present (parent^[level] origin) = false) ∧
      ∀ disk : Disk,
        disk.canonical (if start.isEmpty then disk.workingDirectory.path else start) =
          .ok origin →
        (∀ level ≤ height origin,
          disk.pathExists (append (parent^[level] origin) marker) =
            .ok (marked present (parent^[level] origin))) →
        findRoot disk start = rootAbove (fun path => .ok (present path)) start origin := by
  have outcome := rootAbove_eq (fun path => .ok (present path)) present start origin
    fun _ _ => rfl
  refine ⟨height_le_length origin, fun _ => parent_iterate_eq_iff, ?_, ?_, ?_, ?_, ?_⟩
  · simp only [← parent_eq_self_iff]
    exact parent_iterate_height_eq origin
  · exact ⟨_, Search.iterate_round_climbing (marked present) origin,
      firstUpward_eq_ok fun _ _ => rfl⟩
  · intro found
    rw [outcome, ← find?_upward_eq_some_iff]
    cases (upward origin).find? (marked present) with
    | some root => simp
    | none => simp
  · rw [outcome, ← find?_upward_eq_none_iff]
    cases (upward origin).find? (marked present) with
    | some root => simp
    | none => simp
  · -- A disk is asked only on the way, so it has to answer nowhere else.
    intro disk isOrigin answers
    rw [findRoot, isOrigin, outcome]
    apply rootAbove_eq
    intro directory onTheWay
    rw [upward_eq_map_iterate] at onTheWay
    obtain ⟨level, within, rfl⟩ := List.mem_map.mp onTheWay
    exact answers level (Nat.lt_succ_iff.mp (List.mem_range.mp within))

/-- An application inside another one. -/
def shopDisk : Disk where
  entries :=
    [(ascii "shop", .directory
      [(ascii "blog", .directory
          [(ascii "app", .directory []),
            (ascii "config", .directory [(ascii "application.rb", .file [])])]),
        (ascii "config", .directory [(ascii "application.rb", .file [])])])]
  workingDirectory := [ascii "shop"]

def shopPresent (path : Path) : Bool :=
  [ascii "/shop/config/application.rb", ascii "/shop/blog/config/application.rb"].contains path

theorem shopDisk_nearest :
    height (ascii "/shop/blog/app") = 3 ∧
      shopDisk.canonical (ascii "blog/app") = .ok (ascii "/shop/blog/app") ∧
      (∀ level ≤ 3,
        shopDisk.pathExists (append (parent^[level] (ascii "/shop/blog/app")) marker) =
          .ok (marked shopPresent (parent^[level] (ascii "/shop/blog/app")))) ∧
      findRoot shopDisk (ascii "blog/app") = .ok (ascii "/shop/blog") := by
  obtain ⟨_, settled, _, _, finds, _, searches⟩ :=
    rootAbove_nearest shopPresent (ascii "blog/app") (ascii "/shop/blog/app")
  have levels : height (ascii "/shop/blog/app") = 3 := by
    apply Nat.le_antisymm
    · exact (settled 3).mp (by decide +kernel)
    · exact Nat.lt_of_not_le (mt (settled 2).mpr (by decide +kernel))
  have isOrigin : shopDisk.canonical (ascii "blog/app") = .ok (ascii "/shop/blog/app") := by
    decide +kernel
  have answers : ∀ level ≤ 3,
      shopDisk.pathExists (append (parent^[level] (ascii "/shop/blog/app")) marker) =
        .ok (marked shopPresent (parent^[level] (ascii "/shop/blog/app"))) := by
    decide +kernel
  refine ⟨levels, isOrigin, answers, ?_⟩
  rw [searches shopDisk isOrigin (levels ▸ answers)]
  exact (finds (ascii "/shop/blog")).mpr ⟨1, by omega, by decide +kernel⟩

end Project
end QueryAdvisor

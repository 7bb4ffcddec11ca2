import QueryAdvisor.Project.Scope
import QueryAdvisor.Proofs.Path.Names
import QueryAdvisor.Rule.Source

/-!
# What a scope covers

A scope is tested on the text of a path: its beginning is compared with the
directories, and what follows its last full stop with the extensions.  The test
agrees with containment.  A path is covered if it is relative, lies below one of the
directories name by name, and ends in a name with one of the extensions.
-/

namespace QueryAdvisor
namespace Scope

open QueryAdvisor.Path

/-- The directories of a scope are relative paths without empty names, and none of its
extensions is empty. -/
structure IsProper (scope : Scope) : Prop where
  directories : ∀ directory ∈ scope.directories, [] ∉ pieces directory
  extensions : [] ∉ scope.extensions

instance (scope : Scope) : Decidable scope.IsProper :=
  decidable_of_iff
    ((∀ directory ∈ scope.directories, [] ∉ pieces directory) ∧ [] ∉ scope.extensions)
    ⟨fun both => ⟨both.1, both.2⟩, fun proper => ⟨proper.directories, proper.extensions⟩⟩

/-- The test on the text of a path. -/
theorem covers_eq_true_iff
    (scope : Scope)
    (path : Path) :
    scope.covers path = true ↔
      extension path ∈ scope.extensions ∧
        ∃ directory ∈ scope.directories, directory ++ root <+: collapse path := by
  simp only [covers, root, Bool.and_eq_true, List.contains_iff_mem, List.any_eq_true,
    List.isPrefixOf_iff_prefix]

section Proper

variable {scope : Scope} {path : Path}

/-- Only a path that ends in a name has an extension. -/
theorem IsProper.exists_last
    (proper : scope.IsProper)
    (admitted : extension path ∈ scope.extensions) :
    ∃ last, path.getLast? = some last ∧ last ≠ Byte.slash := by
  have named : fileName path ≠ [] := by
    intro unnamed
    rw [extension, unnamed, List.drop_nil] at admitted
    exact proper.extensions admitted
  cases ends : path.getLast? with
  | none =>
      rw [List.getLast?_eq_none_iff.mp ends] at named
      exact absurd rfl named
  | some last =>
      refine ⟨last, rfl, ?_⟩
      rintro rfl
      exact named (fileName_of_slash ends)

theorem IsProper.relative
    (proper : scope.IsProper)
    {directory : Path}
    (listed : directory ∈ scope.directories)
    (begins : directory ++ root <+: collapse path) :
    isAbsolute path = false := by
  rw [← isAbsolute_collapse, ← isAbsolute_of_prefix begins (by simp [root])]
  exact isAbsolute_of_whole (proper.directories directory listed)

/-- A scope covers exactly the relative paths that lie below one of its directories and
end in a name with one of its extensions. -/
theorem covers_iff_liesBelow
    (proper : scope.IsProper)
    (path : Path) :
    scope.covers path = true ↔
      isAbsolute path = false ∧
        (∃ directory ∈ scope.directories, LiesBelow path directory) ∧
        path.getLast? ≠ some Byte.slash ∧
        ∃ name ending, (names path).getLast? = some name ∧ IsExtension name ending ∧
          ending ∈ scope.extensions := by
  rw [covers_eq_true_iff]
  constructor
  · rintro ⟨admitted, directory, listed, begins⟩
    have relative := proper.relative listed begins
    obtain ⟨last, ends, isOther⟩ := proper.exists_last admitted
    have below := (prefix_collapse_iff (proper.directories directory listed) relative ends
      isOther).mp begins
    refine ⟨relative, ⟨directory, listed, below⟩, by simpa [ends] using isOther, ?_⟩
    exact ⟨fileName path, extension path, getLast?_names ends isOther,
      (extension_eq_iff path _).mp rfl, admitted⟩
  · rintro ⟨relative, ⟨directory, listed, below⟩, noSlash, name, ending, isLast, isExtension,
      admitted⟩
    obtain ⟨last, ends⟩ : ∃ last, path.getLast? = some last := by
      cases ends : path.getLast? with
      | none =>
          rw [List.getLast?_eq_none_iff.mp ends] at isLast
          contradiction
      | some last => exact ⟨last, rfl⟩
    have isOther : last ≠ Byte.slash := by simpa [ends] using noSlash
    have isFileName : fileName path = name :=
      Option.some.inj ((getLast?_names ends isOther).symm.trans isLast)
    have isEnding : extension path = ending := by
      rwa [extension_eq_iff, isFileName]
    refine ⟨isEnding ▸ admitted, directory, listed, ?_⟩
    exact (prefix_collapse_iff (proper.directories directory listed) relative ends isOther).mpr
      below

end Proper

/-- Repeated slashes and a second full stop do not matter, and a directory whose name
only begins like that of the scope is another one. -/
theorem viewScope_covers :
    SourceRule.viewAssociationAccess.scope.IsProper ∧
      SourceRule.viewAssociationAccess.scope.covers (ascii "app//views///posts/.show.html.erb") =
        true ∧
      SourceRule.viewAssociationAccess.scope.covers (ascii "app/views_old/show.html.erb") =
        false := by
  have proper : SourceRule.viewAssociationAccess.scope.IsProper := by decide +kernel
  have isExtension : IsExtension (ascii ".show.html" ++ ascii ".erb") (ascii ".erb") :=
    .dotted (by decide +kernel) (by decide +kernel)
  refine ⟨proper, ?_, ?_⟩
  · refine (covers_iff_liesBelow proper _).mpr ⟨rfl, ?_, by decide, ?_⟩
    · exact ⟨ascii "app/views", by decide, by decide +kernel⟩
    · exact ⟨_, _, by decide +kernel, isExtension, by decide⟩
  · rw [Bool.eq_false_iff, ne_eq, covers_iff_liesBelow proper]
    rintro ⟨_, below, _⟩
    exact absurd below (by decide +kernel)

end Scope
end QueryAdvisor

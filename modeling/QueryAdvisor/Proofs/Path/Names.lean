import Mathlib.Data.List.Infix
import QueryAdvisor.Proofs.Path.Upward

/-!
# The names of a path

A path is cut into names at its slashes.  A path whose slashes are collapsed is its
names written out again, so the beginning of its text can be compared in place of its
first names.  The last name is the file name, and its extension is what follows its
last full stop.
-/

namespace QueryAdvisor

namespace Text

/-! ### What follows the last sign -/

theorem behindLast_append
    {sign : UInt8}
    {after : Text}
    (absent : sign ∉ after)
    (before : Text) :
    ((before ++ sign :: after).reverse.takeWhile fun byte => byte != sign).reverse = after := by
  have kept : ∀ byte ∈ after.reverse, (byte != sign) = true := by
    intro byte present
    rw [bne_iff_ne]
    rintro rfl
    exact absent (List.mem_reverse.mp present)
  rw [List.reverse_append, List.reverse_cons, List.append_assoc,
    List.takeWhile_append_of_pos kept]
  simp

theorem behindLast_of_not_mem
    {sign : UInt8}
    {text : Text}
    (absent : sign ∉ text) :
    (text.reverse.takeWhile fun byte => byte != sign).reverse = text := by
  rw [List.takeWhile_eq_self_iff.mpr, List.reverse_reverse]
  intro byte present
  rw [bne_iff_ne]
  rintro rfl
  exact absent (List.mem_reverse.mp present)

/-- A text that holds a sign is cut at the last one. -/
theorem exists_cut_at_last
    {sign : UInt8}
    {text : Text}
    (present : sign ∈ text) :
    ∃ before after, text = before ++ sign :: after ∧ sign ∉ after := by
  obtain ⟨after, before, cut, absent⟩ :=
    List.eq_append_cons_of_mem (List.mem_reverse.mpr present)
  refine ⟨before.reverse, after.reverse, ?_, by simpa using absent⟩
  rw [← List.reverse_reverse text, cut]
  simp

end Text

namespace Path

/-! ### Names and slashes -/

@[simp] theorem names_nil : names [] = [] := rfl

theorem names_append_slash
    (before after : Path) :
    names (before ++ Byte.slash :: after) = names before ++ names after := by
  rw [names, pieces, List.splitOn_append_cons_self, List.filter_append]
  rfl

theorem names_slash_cons (rest : Path) : names (Byte.slash :: rest) = names rest :=
  names_append_slash [] rest

theorem names_eq_singleton
    {name : Path}
    (nonempty : name ≠ [])
    (noSlash : Byte.slash ∉ name) :
    names name = [name] := by
  rw [names, pieces, List.splitOn_eq_singleton noSlash, List.filter_cons_of_pos, List.filter_nil]
  simpa using nonempty

theorem names_singleton
    {only : UInt8}
    (isOther : only ≠ Byte.slash) :
    names [only] = [[only]] :=
  names_eq_singleton (by simp) (by simpa using isOther.symm)

theorem names_cons_slash
    {first : UInt8}
    (isOther : first ≠ Byte.slash)
    (rest : Path) :
    names (first :: Byte.slash :: rest) = [first] :: names rest := by
  have cut := names_append_slash [first] rest
  rwa [names_singleton isOther] at cut

/-- Names written out, each with a slash behind it. -/
def spelled (names : List Text) : Path :=
  names.flatMap fun name => name ++ root

theorem spelled_cons
    (name : Text)
    (others : List Text) :
    spelled (name :: others) = name ++ Byte.slash :: spelled others := by
  rw [spelled, List.flatMap_cons, List.append_assoc]
  rfl

/-- What is written out can be cut into names again. -/
theorem names_spelled_append
    {listed : List Text}
    (proper : ∀ name ∈ listed, name ≠ [] ∧ Byte.slash ∉ name)
    (rest : Path) :
    names (spelled listed ++ rest) = listed ++ names rest := by
  induction listed with
  | nil => rfl
  | cons name others inductionHypothesis =>
      obtain ⟨nonempty, noSlash⟩ := proper name List.mem_cons_self
      have following := inductionHypothesis fun other present =>
        proper other (List.mem_cons_of_mem name present)
      rw [spelled_cons, List.append_assoc, List.cons_append, names_append_slash,
        names_eq_singleton nonempty noSlash, following]
      rfl

theorem proper_of_mem_names
    {path name : Path}
    (present : name ∈ names path) :
    name ≠ [] ∧ Byte.slash ∉ name := by
  obtain ⟨isPiece, nonempty⟩ := List.mem_filter.mp present
  exact ⟨by simpa using nonempty, Text.not_mem_of_mem_splitOn isPiece⟩

theorem names_spelled_names_append
    (path rest : Path) :
    names (spelled (names path) ++ rest) = names path ++ names rest :=
  names_spelled_append (fun _ => proper_of_mem_names) rest

theorem names_spelled_names (path : Path) : names (spelled (names path)) = names path := by
  have cut := names_spelled_names_append path []
  rwa [List.append_nil, names_nil, List.append_nil] at cut

/-- The texts of written names begin with one another as the names do. -/
theorem spelled_prefix_iff
    (left right : Path) :
    spelled (names left) <+: spelled (names right) ↔ names left <+: names right := by
  constructor
  · rintro ⟨rest, begins⟩
    refine ⟨names rest, ?_⟩
    rw [← names_spelled_names_append, begins, names_spelled_names]
  · rintro ⟨others, begins⟩
    refine ⟨spelled others, ?_⟩
    rw [← begins, spelled, spelled, spelled, List.flatMap_append]

theorem spelled_inj
    (left right : Path) :
    spelled (names left) = spelled (names right) ↔ names left = names right := by
  constructor
  · intro same
    rw [← names_spelled_names left, same, names_spelled_names]
  · exact congrArg spelled

/-- The pieces of a path, written out, are the path and a slash. -/
theorem spelled_pieces (path : Path) : spelled (pieces path) = path ++ root := by
  rw [pieces]
  induction path with
  | nil => rfl
  | cons first rest inductionHypothesis =>
      rw [List.splitOn_cons_eq_if_modifyHead]
      split
      · rename_i isSlash
        rw [spelled_cons, inductionHypothesis, ← beq_iff_eq.mp isSlash]
        rfl
      · cases cut : rest.splitOn Byte.slash with
        | nil => exact absurd cut (List.splitOn_ne_nil _ _)
        | cons piece others =>
            rw [cut, spelled_cons] at inductionHypothesis
            rw [List.modifyHead_cons, spelled_cons, List.cons_append, inductionHypothesis]
            rfl

/-- A path without empty pieces is its names. -/
theorem spelled_names_of_pieces
    {path : Path}
    (whole : [] ∉ pieces path) :
    spelled (names path) = path ++ root := by
  have kept : names path = pieces path := by
    rw [names, List.filter_eq_self]
    intro piece present
    rw [Bool.not_eq_true', List.isEmpty_eq_false_iff]
    rintro rfl
    exact whole present
  rw [kept, spelled_pieces]

/-! ### Collapsed slashes -/

theorem isAbsolute_of_ne
    {first : UInt8}
    (isOther : first ≠ Byte.slash)
    (rest : Path) :
    isAbsolute (first :: rest) = false := by
  simpa [isAbsolute] using isOther

@[simp] theorem isAbsolute_collapse (path : Path) :
    isAbsolute (collapse path) = isAbsolute path := by
  fun_induction collapse path with
  | case1 => rfl
  | case2 => rfl
  | case3 first second rest slashes inductionHypothesis =>
      rw [inductionHypothesis, slashes.1, slashes.2]
      rfl
  | case4 => rfl

/-- A byte in front of a name makes this name longer. -/
theorem spelled_names_cons_cons
    {first second : UInt8}
    (firstOther : first ≠ Byte.slash)
    (secondOther : second ≠ Byte.slash)
    (rest : Path) :
    spelled (names (first :: second :: rest)) = first :: spelled (names (second :: rest)) := by
  rw [names, names, pieces, pieces, List.splitOn_cons_eq_if_modifyHead first,
    List.splitOn_cons_eq_if_modifyHead second, if_neg (by simpa using firstOther),
    if_neg (by simpa using secondOther)]
  cases cut : rest.splitOn Byte.slash with
  | nil => exact absurd cut (List.splitOn_ne_nil _ _)
  | cons piece others => simp [spelled_cons]

/-- Collapsing the slashes of a path that ends in a name writes out its names, behind a
slash if the path is absolute. -/
theorem collapse_append_root
    {path : Path}
    {last : UInt8}
    (ends : path.getLast? = some last)
    (isOther : last ≠ Byte.slash) :
    collapse path ++ root =
      (if isAbsolute path then root else []) ++ spelled (names path) := by
  fun_induction collapse path with
  | case1 => contradiction
  | case2 only =>
      have isLast : only = last := Option.some.inj ends
      rw [← isLast] at isOther
      rw [names_singleton isOther, isAbsolute_of_ne isOther []]
      rfl
  | case3 first second rest slashes inductionHypothesis =>
      rw [inductionHypothesis ends, slashes.1, names_slash_cons, slashes.2]
      rfl
  | case4 first second rest notBoth inductionHypothesis =>
      rw [List.cons_append, inductionHypothesis ends]
      by_cases firstSlash : first = Byte.slash
      · have secondOther : second ≠ Byte.slash := fun both => notBoth ⟨firstSlash, both⟩
        rw [isAbsolute_of_ne secondOther rest, firstSlash, names_slash_cons]
        rfl
      · rw [isAbsolute_of_ne firstSlash _]
        by_cases secondSlash : second = Byte.slash
        · rw [secondSlash, names_slash_cons, names_cons_slash firstSlash, spelled_cons]
          rfl
        · rw [isAbsolute_of_ne secondSlash rest, spelled_names_cons_cons firstSlash secondSlash]
          rfl

/-! ### Paths below a directory -/

/-- A path lies below a directory: its names begin with those of the directory, and
more of them follow. -/
def LiesBelow
    (path directory : Path) : Prop :=
  names directory <+: names path ∧ names directory ≠ names path

instance
    (path directory : Path) :
    Decidable (LiesBelow path directory) :=
  inferInstanceAs (Decidable (_ ∧ _))

/-- A relative path that ends in a name lies below a directory if its text, with
collapsed slashes, begins with that of the directory and a slash. -/
theorem prefix_collapse_iff
    {path directory : Path}
    {last : UInt8}
    (whole : [] ∉ pieces directory)
    (relative : isAbsolute path = false)
    (ends : path.getLast? = some last)
    (isOther : last ≠ Byte.slash) :
    directory ++ root <+: collapse path ↔ LiesBelow path directory := by
  have written : collapse path ++ root = spelled (names path) := by
    rw [collapse_append_root ends isOther, relative]
    rfl
  -- With a slash behind both texts they are compared name by name; the slash that was
  -- added to the path matters only where the two are equal.
  have withSlash : directory ++ root <+: collapse path ++ root ↔
      directory ++ root = collapse path ++ root ∨ directory ++ root <+: collapse path :=
    List.prefix_concat_iff
  rw [written, ← spelled_names_of_pieces whole, spelled_prefix_iff, spelled_inj] at withSlash
  rw [LiesBelow, withSlash, ← spelled_names_of_pieces whole]
  constructor
  · intro begins
    refine ⟨.inr begins, ?_⟩
    intro same
    have shorter := begins.length_le
    rw [same, ← written, List.length_append] at shorter
    exact absurd shorter (by simp [root])
  · rintro ⟨same | begins, different⟩
    · exact absurd same different
    · exact begins

theorem isAbsolute_of_whole
    {directory : Path}
    (whole : [] ∉ pieces directory) :
    isAbsolute (directory ++ root) = false := by
  cases directory with
  | nil => exact absurd List.mem_cons_self whole
  | cons first rest =>
      apply isAbsolute_of_ne
      rintro rfl
      rw [pieces, List.splitOn_cons_eq_if_modifyHead, if_pos (beq_self_eq_true _)] at whole
      exact whole List.mem_cons_self

/-! ### File names and extensions -/

/-- The file name of a path that ends in a name is the last of its names. -/
theorem getLast?_names
    {path : Path}
    {last : UInt8}
    (ends : path.getLast? = some last)
    (isOther : last ≠ Byte.slash) :
    (names path).getLast? = some (fileName path) := by
  by_cases slashed : Byte.slash ∈ path
  · obtain ⟨before, name, rfl, noSlash⟩ := Text.exists_cut_at_last slashed
    have nonempty : name ≠ [] := by
      rintro rfl
      rw [List.getLast?_concat] at ends
      exact isOther (Option.some.inj ends).symm
    rw [names_append_slash, names_eq_singleton nonempty noSlash, List.getLast?_concat, fileName,
      Text.behindLast_append noSlash]
  · have nonempty : path ≠ [] := by
      rintro rfl
      contradiction
    rw [names_eq_singleton nonempty slashed, fileName, Text.behindLast_of_not_mem slashed]
    rfl

theorem fileName_of_slash
    {path : Path}
    (ends : path.getLast? = some Byte.slash) :
    fileName path = [] := by
  obtain ⟨before, rfl⟩ := List.getLast?_eq_some_iff.mp ends
  exact Text.behindLast_append List.not_mem_nil before

/-- Names without an extension: `.`, `..`, and those with no full stop but perhaps at
their beginning. -/
def IsBare (name : Text) : Prop :=
  name = here ∨ name = above ∨ Byte.dot ∉ name.tail

instance (name : Text) : Decidable (IsBare name) :=
  inferInstanceAs (Decidable (_ ∨ _))

/-- The extension of a name: nothing for a bare name, and else what begins with the last
full stop. -/
inductive IsExtension : Text → Text → Prop where
  | none {name : Text}
      (bare : IsBare name) :
      IsExtension name []
  | dotted {stem ending : Text}
      (notBare : ¬ IsBare (stem ++ Byte.dot :: ending))
      (last : Byte.dot ∉ ending) :
      IsExtension (stem ++ Byte.dot :: ending) (Byte.dot :: ending)

theorem stemLength_of_isBare
    {name : Text}
    (bare : IsBare name) :
    stemLength name = name.length := by
  rw [stemLength]
  split
  · rfl
  · rename_i notDots
    obtain ⟨notHere, notAbove⟩ := not_or.mp notDots
    rcases bare with isHere | isAbove | noDot
    · exact absurd isHere notHere
    · exact absurd isAbove notAbove
    · apply if_neg
      cases name with
      | nil => exact Nat.not_lt_zero _
      | cons first rest =>
          by_cases begins : first = Byte.dot
          · have behind : afterLastDot (Byte.dot :: rest) = rest :=
              Text.behindLast_append noDot []
            rw [begins, behind]
            exact Nat.lt_irrefl _
          · have absent : Byte.dot ∉ first :: rest := by
              rw [List.mem_cons, not_or]
              exact ⟨Ne.symm begins, noDot⟩
            rw [afterLastDot, Text.behindLast_of_not_mem absent]
            omega

theorem stemLength_append
    {stem ending : Text}
    (notBare : ¬ IsBare (stem ++ Byte.dot :: ending))
    (last : Byte.dot ∉ ending) :
    stemLength (stem ++ Byte.dot :: ending) = stem.length := by
  obtain ⟨notHere, notAbove, dotted⟩ : _ ≠ here ∧ _ ≠ above ∧ _ := by
    simpa [IsBare] using notBare
  have nonempty : stem ≠ [] := by
    rintro rfl
    exact last dotted
  have longer := List.length_pos_iff.mpr nonempty
  rw [stemLength, if_neg (not_or.mpr ⟨notHere, notAbove⟩), afterLastDot,
    Text.behindLast_append last, List.length_append, List.length_cons, if_pos (by omega)]
  omega

/-- What is behind the stem of the file name is its extension. -/
theorem extension_eq_iff
    (path : Path)
    (ending : Text) :
    extension path = ending ↔ IsExtension (fileName path) ending := by
  rw [extension]
  generalize fileName path = name
  constructor
  · rintro rfl
    by_cases bare : IsBare name
    · rw [stemLength_of_isBare bare, List.drop_length]
      exact .none bare
    · have dotted : Byte.dot ∈ name := by
        have behind : Byte.dot ∈ name.tail := by
          simp only [IsBare, not_or, not_not] at bare
          exact bare.2.2
        exact List.mem_of_mem_tail behind
      obtain ⟨stem, ending, rfl, last⟩ := Text.exists_cut_at_last dotted
      rw [stemLength_append bare last, List.drop_left]
      exact .dotted bare last
  · rintro (bare | ⟨notBare, last⟩)
    · rw [stemLength_of_isBare bare, List.drop_length]
    · rw [stemLength_append notBare last, List.drop_left]

end Path
end QueryAdvisor

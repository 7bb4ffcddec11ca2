import Mathlib.Data.List.Lex
import Mathlib.Data.List.Sort
import QueryAdvisor.Ordered
import QueryAdvisor.Text.Basic

/-!
# Sorted lists

Sorting by a total and transitive comparison gives a list in order.  Texts are
compared byte by byte, so distinct names that are sorted are strictly increasing
in the lexicographic order of their bytes.
-/

namespace QueryAdvisor

namespace Ordered

variable {α : Type} {precedes : α → α → Bool}

/-- What sorting needs of a comparison. -/
structure Compares (precedes : α → α → Bool) : Prop where
  total : ∀ left right, precedes left right = true ∨ precedes right left = true
  trans : ∀ {left middle right}, precedes left middle = true → precedes middle right = true →
    precedes left right = true

theorem Compares.pairwise_insert
    (compares : Compares precedes)
    (element : α)
    {elements : List α}
    (sorted : elements.Pairwise fun left right => precedes left right = true) :
    (insert precedes element elements).Pairwise fun left right => precedes left right = true := by
  induction elements with
  | nil => simp [insert]
  | cons first rest inductionHypothesis =>
      obtain ⟨firstPrecedes, restSorted⟩ := List.pairwise_cons.mp sorted
      rw [insert]
      split
      · rename_i before
        refine List.pairwise_cons.mpr ⟨?_, sorted⟩
        intro other present
        rcases List.mem_cons.mp present with rfl | later
        · exact before
        · exact compares.trans before (firstPrecedes other later)
      · rename_i notBefore
        refine List.pairwise_cons.mpr ⟨?_, inductionHypothesis restSorted⟩
        intro other present
        rcases List.mem_cons.mp ((perm_insert precedes element rest).mem_iff.mp present) with
          rfl | later
        · exact (compares.total first other).resolve_right notBefore
        · exact firstPrecedes other later

theorem Compares.pairwise_sort
    (compares : Compares precedes)
    (elements : List α) :
    (sort precedes elements).Pairwise fun left right => precedes left right = true := by
  induction elements with
  | nil => exact .nil
  | cons first rest inductionHypothesis => exact compares.pairwise_insert first inductionHypothesis

section Distinct

variable [DecidableEq α] {before : α → α → Prop}

/-- Distinct elements are kept strictly increasing, for a strict order that the
comparison allows equality in. -/
theorem Compares.pairwise_insertDistinct
    (compares : Compares precedes)
    (strict : ∀ {left right}, precedes left right = true → left ≠ right → before left right)
    (trans : ∀ {left middle right}, before left middle → before middle right → before left right)
    (element : α)
    {elements : List α}
    (increasing : elements.Pairwise before) :
    (insertDistinct precedes element elements).Pairwise before := by
  induction elements with
  | nil => simp [insertDistinct]
  | cons first rest inductionHypothesis =>
      obtain ⟨firstBefore, restIncreasing⟩ := List.pairwise_cons.mp increasing
      rw [insertDistinct]
      split
      · exact increasing
      · rename_i different
        split
        · rename_i comesFirst
          have elementBefore := strict comesFirst different
          refine List.pairwise_cons.mpr ⟨?_, increasing⟩
          intro other present
          rcases List.mem_cons.mp present with rfl | later
          · exact elementBefore
          · exact trans elementBefore (firstBefore other later)
        · rename_i notFirst
          refine List.pairwise_cons.mpr ⟨?_, inductionHypothesis restIncreasing⟩
          intro other present
          rcases (mem_insertDistinct precedes element other rest).mp present with rfl | later
          · exact strict ((compares.total first other).resolve_right notFirst) (Ne.symm different)
          · exact firstBefore other later

theorem Compares.pairwise_sortDistinct
    (compares : Compares precedes)
    (strict : ∀ {left right}, precedes left right = true → left ≠ right → before left right)
    (trans : ∀ {left middle right}, before left middle → before middle right → before left right)
    (elements : List α) :
    (sortDistinct precedes elements).Pairwise before := by
  induction elements with
  | nil => exact .nil
  | cons first rest inductionHypothesis =>
      exact compares.pairwise_insertDistinct strict trans first inductionHypothesis

end Distinct

end Ordered

namespace Text

/-- Strictly before in the lexicographic order of bytes. -/
def Before (left right : Text) : Prop :=
  List.Lex (· < ·) left right

theorem precedes_iff
    {left right : Text} :
    precedes left right = true ↔ left = right ∨ Before left right := by
  induction left generalizing right with
  | nil =>
      cases right with
      | nil => simp [precedes]
      | cons _ _ => exact ⟨fun _ => .inr .nil, fun _ => rfl⟩
  | cons first rest inductionHypothesis =>
      cases right with
      | nil =>
          refine ⟨fun before => by contradiction, ?_⟩
          rintro (equal | before)
          · contradiction
          · cases before
      | cons other others =>
          rw [precedes, Bool.or_eq_true, Bool.and_eq_true, decide_eq_true_eq, beq_iff_eq,
            inductionHypothesis]
          constructor
          · rintro (smaller | ⟨rfl, rfl | before⟩)
            · exact .inr (.rel smaller)
            · exact .inl rfl
            · exact .inr (.cons before)
          · rintro (equal | before)
            · obtain ⟨rfl, rfl⟩ := List.cons.inj equal
              exact .inr ⟨rfl, .inl rfl⟩
            · cases before with
              | rel smaller => exact .inl smaller
              | cons before => exact .inr ⟨rfl, .inr before⟩

theorem precedes_total
    (left right : Text) :
    precedes left right = true ∨ precedes right left = true := by
  induction left generalizing right with
  | nil => exact .inl rfl
  | cons first rest inductionHypothesis =>
      cases right with
      | nil => exact .inr rfl
      | cons other others =>
          simp only [precedes, Bool.or_eq_true, Bool.and_eq_true, decide_eq_true_eq, beq_iff_eq,
            UInt8.lt_iff_toNat_lt, ← UInt8.toNat_inj]
          rcases Nat.lt_trichotomy first.toNat other.toNat with smaller | same | larger
          · exact .inl (.inl smaller)
          · exact (inductionHypothesis others).imp (fun before => .inr ⟨same, before⟩)
              fun before => .inr ⟨same.symm, before⟩
          · exact .inr (.inl larger)

theorem precedes_trans
    {left middle right : Text}
    (first : precedes left middle = true)
    (second : precedes middle right = true) :
    precedes left right = true := by
  induction left generalizing middle right with
  | nil => rfl
  | cons byte rest inductionHypothesis =>
      cases middle with
      | nil => contradiction
      | cons other others =>
          cases right with
          | nil => contradiction
          | cons last lasts =>
              simp only [precedes, Bool.or_eq_true, Bool.and_eq_true, decide_eq_true_eq,
                beq_iff_eq, UInt8.lt_iff_toNat_lt, ← UInt8.toNat_inj] at first second ⊢
              rcases first with smaller | ⟨same, before⟩
              · rcases second with smallerStill | ⟨same, _⟩
                · exact .inl (Nat.lt_trans smaller smallerStill)
                · exact .inl (same ▸ smaller)
              · rcases second with smaller | ⟨sameStill, beforeStill⟩
                · exact .inl (same ▸ smaller)
                · exact .inr ⟨same.trans sameStill, inductionHypothesis before beforeStill⟩

theorem compares_precedes : Ordered.Compares precedes :=
  ⟨precedes_total, precedes_trans⟩

/-- Distinct texts are strictly increasing once they are sorted. -/
theorem pairwise_before_sort
    {texts : List Text}
    (distinct : texts.Nodup) :
    (Ordered.sort precedes texts).Pairwise Before := by
  have sorted := compares_precedes.pairwise_sort texts
  have different := (Ordered.perm_sort precedes texts).nodup_iff.mpr distinct
  refine (sorted.and different).imp ?_
  rintro left right ⟨before, unequal⟩
  exact (precedes_iff.mp before).resolve_left unequal

theorem Before.asymm
    {left right : Text}
    (before : Before left right) :
    ¬ Before right left :=
  (List.Lex.asymm (· < ·)).asymm left right before

theorem Before.trans
    {left middle right : Text}
    (first : Before left middle)
    (second : Before middle right) :
    Before left right := by
  have inOrder := precedes_trans (precedes_iff.mpr (.inr first)) (precedes_iff.mpr (.inr second))
  rcases precedes_iff.mp inOrder with rfl | before
  · exact absurd second first.asymm
  · exact before

instance : Std.Asymm Before where
  asymm _ _ before := before.asymm

/-- Texts are strictly increasing once they are sorted without repetitions. -/
theorem pairwise_before_sortDistinct (texts : List Text) :
    (Ordered.sortDistinct precedes texts).Pairwise Before :=
  compares_precedes.pairwise_sortDistinct
    (fun inOrder different => (precedes_iff.mp inOrder).resolve_left different)
    Before.trans texts

/-- Sorting without repetitions depends only on which texts there are. -/
theorem sortDistinct_congr
    {left right : List Text}
    (same : ∀ text, text ∈ left ↔ text ∈ right) :
    Ordered.sortDistinct precedes left = Ordered.sortDistinct precedes right := by
  apply (pairwise_before_sortDistinct left).eq_of_mem_iff (pairwise_before_sortDistinct right)
  intro text
  rw [Ordered.mem_sortDistinct, Ordered.mem_sortDistinct]
  exact same text

end Text
end QueryAdvisor

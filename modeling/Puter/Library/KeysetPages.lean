/-
Module: Puter.Library.KeysetPages
Purpose: Rows in the order of their ranks, and the rows after a position in it: what a seek by key and tie-break
  selects is what a prefix of the ordered rows leaves.
Trusted boundary: none
Main exports: ordered, take_append_filter_eq_iff
-/
import Mathlib

namespace KeysetPages

section Order

variable {ρ α : Type} (before : α → α → Prop) [DecidableRel before] (rank : ρ → α)

def ordered (rows : List ρ) : List ρ :=
  rows.insertionSort fun one other => ¬before (rank other) (rank one)

theorem perm_ordered (rows : List ρ) : (ordered before rank rows).Perm rows := List.perm_insertionSort _ rows

theorem length_ordered (rows : List ρ) : (ordered before rank rows).length = rows.length :=
  (perm_ordered before rank rows).length_eq

variable [IsStrictTotalOrder α before]

theorem pairwise_ordered {rows : List ρ} (distinct : (rows.map rank).Nodup) :
    (ordered before rank rows).Pairwise fun one other => before (rank one) (rank other) := by
  have total : Std.Total fun one other : ρ => ¬before (rank other) (rank one) := by
    constructor
    intro one other
    by_cases less : before (rank other) (rank one)
    · exact .inr (asymm less)
    · exact .inl less
  have transitive : IsTrans ρ fun one other : ρ => ¬before (rank other) (rank one) := by
    constructor
    intro one other third notLess notLess' less
    rcases trichotomous_of before (rank one) (rank other) with first | same | second
    · exact notLess' (IsTrans.trans _ _ _ less first)
    · rw [same] at less
      exact notLess' less
    · exact notLess second
  have sorted : (ordered before rank rows).Pairwise fun one other => ¬before (rank other) (rank one) :=
    List.pairwise_insertionSort _ rows
  have apart : (ordered before rank rows).Pairwise fun one other => rank one ≠ rank other := by
    have nodup := ((perm_ordered before rank rows).map rank).nodup_iff.mpr distinct
    exact List.pairwise_map.mp nodup
  apply (sorted.and apart).imp
  rintro one other ⟨notLess, different⟩
  rcases trichotomous_of before (rank one) (rank other) with less | same | greater
  · exact less
  · exact absurd same different
  · exact absurd greater notLess

theorem ordered_filter {rows : List ρ} (distinct : (rows.map rank).Nodup) (p : ρ → Bool) :
    ordered before rank (rows.filter p) = (ordered before rank rows).filter p := by
  have kept : ((rows.filter p).map rank).Nodup := distinct.sublist (List.filter_sublist.map rank)
  apply List.Perm.eq_of_pairwise _ (pairwise_ordered before rank kept) ((pairwise_ordered before rank distinct).filter p)
  · exact (perm_ordered before rank _).trans ((perm_ordered before rank rows).symm.filter p)
  · intro one other _ _ less greater
    exact absurd greater (asymm less)

end Order

section Seek

variable {ρ : Type} {before : ρ → ρ → Prop} [DecidableRel before] [Std.Asymm before]

theorem filter_after_last {rows : List ρ} {n : ℕ} {last : ρ} (sorted : rows.Pairwise before)
    (isLast : (rows.take n).getLast? = some last) : rows.filter (fun row => before last row) = rows.drop n := by
  obtain ⟨front, split⟩ := List.getLast?_eq_some_iff.mp isLast
  have whole : (front ++ [last]) ++ rows.drop n = rows := by
    rw [← split, List.take_append_drop]
  rw [← whole] at sorted
  obtain ⟨inFront, -, across⟩ := List.pairwise_append.mp sorted
  have earlier : (front ++ [last]).filter (fun row => before last row) = [] := by
    apply List.filter_eq_nil_iff.mpr
    intro row member
    rw [decide_eq_true_eq]
    rcases List.mem_append.mp member with inside | same
    · exact asymm ((List.pairwise_append.mp inFront).2.2 row inside last (List.mem_singleton_self last))
    · rw [List.mem_singleton.mp same]
      exact fun less => asymm less less
  have later : (rows.drop n).filter (fun row => before last row) = rows.drop n := by
    apply List.filter_eq_self.mpr
    intro row member
    exact decide_eq_true (across last (List.mem_append_right _ (List.mem_singleton_self last)) row member)
  calc rows.filter (fun row => before last row)
      = ((front ++ [last]) ++ rows.drop n).filter (fun row => before last row) := by rw [whole]
    _ = rows.drop n := by rw [List.filter_append, earlier, later, List.nil_append]

end Seek

section Prefix

variable {ρ : Type} {rows : List ρ} {n : ℕ} {last : ρ}

theorem drop_pred_eq (isLast : (rows.take n).getLast? = some last) (within : n ≤ rows.length) :
    rows.drop (n - 1) = last :: rows.drop n := by
  obtain ⟨front, split⟩ := List.getLast?_eq_some_iff.mp isLast
  have size : front.length + 1 = n := by
    rw [← List.length_take_of_le within, split, List.length_append, List.length_singleton]
  have whole : front ++ (last :: rows.drop n) = rows := by
    rw [List.append_cons, ← split, List.take_append_drop]
  calc rows.drop (n - 1) = (front ++ (last :: rows.drop n)).drop (n - 1) := by rw [whole]
    _ = last :: rows.drop n := List.drop_left' (by omega)

theorem take_append_filter_eq_iff (p : ρ → Bool) (isLast : (rows.take n).getLast? = some last) (more : n < rows.length) :
    (rows.take n ++ if p last then (rows.drop n).filter p else []) = rows ↔ ∀ row ∈ rows.drop (n - 1), p row = true := by
  have split : (rows.take n ++ if p last then (rows.drop n).filter p else []) = rows ↔
      (if p last then (rows.drop n).filter p else []) = rows.drop n := by
    conv_lhs => rhs; rw [← List.take_append_drop n rows]
    exact List.append_right_inj _
  rw [split, drop_pred_eq isLast more.le, List.forall_mem_cons]
  cases selected : p last with
  | true => simp only [if_true, List.filter_eq_self, true_and]
  | false =>
      have left : rows.drop n ≠ [] := List.drop_eq_nil_iff.not.mpr (not_le.mpr more)
      simp only [Bool.false_eq_true, if_false, false_and, iff_false]
      exact left.symm

end Prefix

end KeysetPages

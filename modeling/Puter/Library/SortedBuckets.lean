/-
Module: Puter.Library.SortedBuckets
Purpose: Lists of buckets. An item that is put into one bucket is in that bucket and nowhere else; a sort by a comparison
  that ranks the members of a list puts them in order; and the first answer to some keys is the answer to the first key
  that has one.
Trusted boundary: none
Main exports: findSome?_eq_bind_find?
-/
import Mathlib

namespace SortedBuckets

variable {α β : Type}

theorem flatten_modify_perm {buckets : List (List α)} {index : ℕ} {change : List α → List α} {item : α}
    (inside : index < buckets.length) (changed : ∀ bucket, (change bucket).Perm (bucket ++ [item])) :
    (buckets.modify index change).flatten.Perm (buckets.flatten ++ [item]) := by
  induction buckets generalizing index with
  | nil => cases inside
  | cons bucket rest ih =>
      cases index with
      | zero =>
          rw [List.modify_zero_cons, List.flatten_cons, List.flatten_cons]
          calc (change bucket ++ rest.flatten).Perm ((bucket ++ [item]) ++ rest.flatten) := (changed bucket).append_right _
            _ = bucket ++ ([item] ++ rest.flatten) := List.append_assoc ..
            _ |>.Perm (bucket ++ (rest.flatten ++ [item])) := List.perm_append_comm.append_left _
            _ = (bucket ++ rest.flatten) ++ [item] := (List.append_assoc ..).symm
      | succ index =>
          have later := ih (Nat.lt_of_succ_lt_succ inside)
          rw [List.modify_succ_cons, List.flatten_cons, List.flatten_cons, List.append_assoc]
          exact later.append_left bucket

theorem getD_modify_same {buckets : List (List α)} {index : ℕ} (change : List α → List α)
    (inside : index < buckets.length) : (buckets.modify index change).getD index [] = change (buckets.getD index []) := by
  simp [List.getD, inside]

theorem getD_modify_other {buckets : List (List α)} {index other : ℕ} (change : List α → List α) (ne : other ≠ index) :
    (buckets.modify index change).getD other [] = buckets.getD other [] := by
  simp [List.getD, ne.symm]

theorem pairwise_mergeSort_of_rank [LinearOrder β] {le : α → α → Bool} {items : List α} (rank : α → β)
    (ranks : ∀ a ∈ items, ∀ b ∈ items, le a b = decide (rank a ≤ rank b)) :
    (items.mergeSort le).Pairwise fun a b => le a b := by
  let below (a b : α) : Bool := decide (rank a ≤ rank b)
  have same : items.mergeSort le = items.mergeSort below := by
    have mapped := List.map_mergeSort (f := id) (s := below) ranks
    rwa [List.map_id, List.map_id] at mapped
  have trans (a b c : α) : below a b = true → below b c = true → below a c = true := by
    simpa [below] using le_trans
  have total (a b : α) : (below a b || below b a) = true := by
    simpa [below] using le_total (rank a) (rank b)
  have ordered := List.pairwise_mergeSort trans total items
  rw [← same] at ordered
  apply ordered.imp_of_mem
  intro a b isA isB ordered
  rwa [ranks a (List.mem_mergeSort.mp isA) b (List.mem_mergeSort.mp isB)]

theorem findSome?_eq_bind_find? (answer : α → Option β) (keys : List α) :
    keys.findSome? answer = (keys.find? fun key => (answer key).isSome).bind answer := by
  induction keys with
  | nil => rfl
  | cons key rest ih =>
      cases found : answer key with
      | some b => simp [found]
      | none => simp [found, ih]

end SortedBuckets

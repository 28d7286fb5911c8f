/-
Module: Puter.Library.Tally
Purpose: Amounts under finitely many keys, as a hash of counters keeps them: a key that is there may hold
  zero, and a key that is not there counts as zero. The module gives merging, which adds key by key, and
  the part of a tally on some keys and off them, with the amount that each leaves under a key.
Trusted boundary: none
Main exports: Tally, single, merge, pick_add_drop
-/
import Mathlib

/-- Amounts under finitely many keys. -/
structure Tally (ι M : Type*) [Zero M] where
  keys : Finset ι
  amount : ι → M
  amount_outside : ∀ i ∉ keys, amount i = 0

namespace Tally

variable {ι M : Type*} [AddCommMonoid M]

def empty : Tally ι M := ⟨∅, fun _ => 0, fun _ _ => rfl⟩

@[simp] theorem keys_empty : (empty : Tally ι M).keys = ∅ := rfl

@[simp] theorem amount_empty (i : ι) : (empty : Tally ι M).amount i = 0 := rfl

theorem amount_of_keys_empty {t : Tally ι M} (none : t.keys = ∅) (i : ι) : t.amount i = 0 :=
  t.amount_outside i (none ▸ Finset.notMem_empty i)

variable [DecidableEq ι]

def single (i : ι) (a : M) : Tally ι M where
  keys := {i}
  amount j := if j = i then a else 0
  amount_outside _ absent := if_neg (mt Finset.mem_singleton.mpr absent)

def merge (t u : Tally ι M) : Tally ι M where
  keys := t.keys ∪ u.keys
  amount i := t.amount i + u.amount i
  amount_outside i absent := by
    obtain ⟨notLeft, notRight⟩ := not_or.mp (mt Finset.mem_union.mpr absent)
    rw [t.amount_outside i notLeft, u.amount_outside i notRight, add_zero]

/-- What a tally has under some keys. -/
def pick (t : Tally ι M) (is : List ι) : Tally ι M where
  keys := t.keys.filter (· ∈ is)
  amount i := if i ∈ is then t.amount i else 0
  amount_outside i absent := by
    split
    next listed => exact t.amount_outside i fun present => absent (Finset.mem_filter.mpr ⟨present, listed⟩)
    · rfl

/-- What is left of a tally without some keys. -/
def drop (t : Tally ι M) (is : List ι) : Tally ι M where
  keys := t.keys.filter (· ∉ is)
  amount i := if i ∈ is then 0 else t.amount i
  amount_outside i absent := by
    split
    · rfl
    next kept => exact t.amount_outside i fun present => absent (Finset.mem_filter.mpr ⟨present, kept⟩)

section Amounts

variable (t u : Tally ι M) (is : List ι) (i : ι)

@[simp] theorem keys_merge : (t.merge u).keys = t.keys ∪ u.keys := rfl

@[simp] theorem amount_merge : (t.merge u).amount i = t.amount i + u.amount i := rfl

theorem merge_assoc (t u v : Tally ι M) : (t.merge u).merge v = t.merge (u.merge v) := by
  simp only [merge, Finset.union_assoc, add_assoc]

theorem amount_pick : (t.pick is).amount i = if i ∈ is then t.amount i else 0 := rfl

theorem amount_drop : (t.drop is).amount i = if i ∈ is then 0 else t.amount i := rfl

theorem pick_add_drop : (t.pick is).amount i + (t.drop is).amount i = t.amount i := by
  rw [amount_pick, amount_drop]
  split
  · exact add_zero _
  · exact zero_add _

end Amounts

end Tally

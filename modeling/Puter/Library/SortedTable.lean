/-
Module: Puter.Library.SortedTable
Purpose: A finite table that is kept in the order of its keys, each key at most once. Two tables are equal
  when every key looks the same in both; a write, a deletion and a restriction are given by what each key
  looks like afterwards.
Trusted boundary: none
Main exports: SortedTable, restrict, get_restrict
-/
import Mathlib

/-- Entries in strictly increasing order of their keys. -/
structure SortedTable (κ β : Type) [LinearOrder κ] where
  entries : List (κ × β)
  sorted : entries.Pairwise fun one other => one.1 < other.1

namespace SortedTable

variable {κ β : Type} [LinearOrder κ]

def empty : SortedTable κ β := ⟨[], .nil⟩

def find (key : κ) : List (κ × β) → Option β
  | [] => none
  | entry :: rest => if entry.1 = key then some entry.2 else find key rest

def get (table : SortedTable κ β) (key : κ) : Option β := find key table.entries

def insert (key : κ) (value : β) : List (κ × β) → List (κ × β)
  | [] => [(key, value)]
  | entry :: rest =>
      if key < entry.1 then (key, value) :: entry :: rest
      else if entry.1 = key then (key, value) :: rest
      else entry :: insert key value rest

theorem mem_insert {key : κ} {value : β} {entries : List (κ × β)} {entry : κ × β}
    (member : entry ∈ insert key value entries) : entry = (key, value) ∨ entry ∈ entries := by
  induction entries with
  | nil => exact .inl (List.mem_singleton.mp member)
  | cons head rest ih =>
      unfold insert at member
      split at member
      · exact List.mem_cons.mp member
      · split at member
        · rcases List.mem_cons.mp member with same | later
          · exact .inl same
          · exact .inr (List.mem_cons_of_mem _ later)
        · rcases List.mem_cons.mp member with same | later
          · exact .inr (same ▸ List.mem_cons_self)
          · exact (ih later).imp_right (List.mem_cons_of_mem _)

theorem insert_sorted (key : κ) (value : β) {entries : List (κ × β)}
    (sorted : entries.Pairwise fun one other => one.1 < other.1) :
    (insert key value entries).Pairwise fun one other => one.1 < other.1 := by
  induction entries with
  | nil => exact List.pairwise_singleton _ _
  | cons head rest ih =>
      rw [List.pairwise_cons] at sorted
      unfold insert
      split
      · next before =>
          refine List.pairwise_cons.mpr ⟨fun entry member => ?_, List.pairwise_cons.mpr sorted⟩
          rcases List.mem_cons.mp member with rfl | later
          · exact before
          · exact before.trans (sorted.1 entry later)
      · next notBefore =>
          split
          · next same =>
              subst same
              exact List.pairwise_cons.mpr sorted
          · next differs =>
              refine List.pairwise_cons.mpr ⟨fun entry member => ?_, ih sorted.2⟩
              rcases mem_insert member with rfl | later
              · exact lt_of_le_of_ne (not_lt.mp notBefore) differs
              · exact sorted.1 entry later

def put (table : SortedTable κ β) (key : κ) (value : β) : SortedTable κ β :=
  ⟨insert key value table.entries, insert_sorted key value table.sorted⟩

def restrict (table : SortedTable κ β) (keep : κ → β → Bool) : SortedTable κ β :=
  ⟨table.entries.filter fun entry => keep entry.1 entry.2, table.sorted.filter _⟩

def erase (table : SortedTable κ β) (key : κ) : SortedTable κ β :=
  table.restrict fun other _ => other ≠ key

theorem find_eq_some_iff {key : κ} {value : β} {entries : List (κ × β)}
    (sorted : entries.Pairwise fun one other => one.1 < other.1) :
    find key entries = some value ↔ (key, value) ∈ entries := by
  induction entries with
  | nil => simp [find]
  | cons head rest ih =>
      rw [List.pairwise_cons] at sorted
      obtain ⟨name, stored⟩ := head
      by_cases same : name = key
      · subst same
        have once : (name, value) ∉ rest := fun later => lt_irrefl name (sorted.1 (name, value) later)
        simp [find, once, eq_comm]
      · simp [find, same, ih sorted.2, Ne.symm same]

theorem get_eq_some_iff {table : SortedTable κ β} {key : κ} {value : β} :
    table.get key = some value ↔ (key, value) ∈ table.entries :=
  find_eq_some_iff table.sorted

theorem ext_get {one other : SortedTable κ β} (same : ∀ key, one.get key = other.get key) :
    one = other := by
  have members : ∀ entry, entry ∈ one.entries ↔ entry ∈ other.entries := fun entry => by
    change (entry.1, entry.2) ∈ one.entries ↔ (entry.1, entry.2) ∈ other.entries
    rw [← get_eq_some_iff, ← get_eq_some_iff, same]
  have entries : one.entries = other.entries := by
    refine List.Perm.eq_of_pairwise (fun a b _ _ before after => absurd before (lt_asymm after))
      one.sorted other.sorted ?_
    have nodup : ∀ table : SortedTable κ β, table.entries.Nodup := fun table =>
      table.sorted.imp fun less same => by
        subst same
        exact lt_irrefl _ less
    exact (List.perm_ext_iff_of_nodup (nodup one) (nodup other)).mpr members
  cases one
  cases other
  simp_all

theorem get_put (table : SortedTable κ β) (key other : κ) (value : β) :
    (table.put key value).get other = if other = key then some value else table.get other := by
  change find other (insert key value table.entries) = _
  change _ = if other = key then some value else find other table.entries
  induction table.entries with
  | nil =>
      by_cases same : other = key
      · simp [insert, find, same]
      · simp [insert, find, same, Ne.symm same]
  | cons head rest ih =>
      unfold insert
      split
      · by_cases same : other = key
        · simp [find, same]
        · rw [if_neg same]
          simp [find, Ne.symm same]
      · split
        · next found =>
            by_cases same : other = key
            · simp [find, same]
            · simp [find, same, Ne.symm same, found]
        · next differs =>
            by_cases same : other = key
            · subst same
              simp only [find, if_neg differs, ih, if_true]
            · simp only [find, ih, if_neg same]

theorem get_restrict (table : SortedTable κ β) (keep : κ → β → Bool) (key : κ) :
    (table.restrict keep).get key = (table.get key).filter (keep key) := by
  apply Option.ext
  intro value
  rw [get_eq_some_iff, Option.filter_eq_some_iff, get_eq_some_iff]
  simp [restrict]

theorem get_erase (table : SortedTable κ β) (key other : κ) :
    (table.erase key).get other = if other = key then none else table.get other := by
  rw [erase, get_restrict]
  by_cases same : other = key
  · simp [same]
  · cases table.get other <;> simp [same]

end SortedTable

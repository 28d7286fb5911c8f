/-
Module: Puter.Library.Lineage
Purpose: Named rows that hang off each other by a parent key. The names from a row without a parent down to a
  row spell its place. In a forest whose siblings have different names each row has one place and each place
  one row, and a lineage is no longer than the table.
Trusted boundary: none
Main exports: Links, Forest.names_eq, Trail
-/
import Mathlib

namespace Lineage

variable {E K N : Type}

/-- How a row names itself, its parent and its segment. -/
structure Links (E K N : Type) where
  key : E → K
  parent : E → Option K
  name : E → N

section Spelling

variable (links : Links E K N) (rows : List E)

/-- The names of a lineage, from a row without a parent down to the row of a key. -/
inductive Spells : List N → K → Prop where
  | home {e : E} (member : e ∈ rows) (root : links.parent e = none) : Spells [links.name e] (links.key e)
  | child {names : List N} {k : K} {e : E} (above : Spells names k) (member : e ∈ rows)
      (parent : links.parent e = some k) : Spells (names ++ [links.name e]) (links.key e)

/-- The rows of a lineage, from the one without a parent down, each at its names. -/
structure Trail (names : List N) (trail : List E) : Prop where
  length_eq : trail.length = names.length
  spells : ∀ entry ∈ trail.zipIdx 1, entry.1 ∈ rows ∧ Spells links rows (names.take entry.2) (links.key entry.1)

/-- Rows that form trees: keys are distinct, every row has a lineage, and siblings differ by name. -/
structure Forest : Prop where
  keys : ∀ e ∈ rows, ∀ e' ∈ rows, links.key e = links.key e' → e = e'
  rooted : ∀ e ∈ rows, ∃ names, Spells links rows names (links.key e)
  siblings : ∀ e ∈ rows, ∀ e' ∈ rows, links.parent e = links.parent e' → links.name e = links.name e' →
    links.key e = links.key e'

end Spelling

variable {links : Links E K N} {rows : List E} {names others : List N} {k k' : K}

theorem Spells.ne_nil (spells : Spells links rows names k) : names ≠ [] := by
  cases spells with
  | home => exact List.cons_ne_nil _ _
  | child => simp

theorem Spells.exists_row (spells : Spells links rows names k) : ∃ e ∈ rows, links.key e = k := by
  cases spells with
  | home member _ => exact ⟨_, member, rfl⟩
  | child _ member _ => exact ⟨_, member, rfl⟩

theorem spells_single {n : N} : Spells links rows [n] k ↔
    ∃ e ∈ rows, links.key e = k ∧ links.parent e = none ∧ links.name e = n := by
  constructor
  · intro spells
    generalize whole : [n] = names at spells
    cases spells with
    | home member root => exact ⟨_, member, rfl, root, (List.cons.inj whole).1.symm⟩
    | child above member parent =>
        have short := congrArg List.length whole
        have longer := List.length_pos_iff.mpr above.ne_nil
        simp only [List.length_append, List.length_cons, List.length_nil] at short
        omega
  · rintro ⟨e, member, rfl, root, rfl⟩
    exact .home member root

theorem spells_concat {n : N} (nonempty : names ≠ []) : Spells links rows (names ++ [n]) k ↔
    ∃ e ∈ rows, links.key e = k ∧ links.name e = n ∧ ∃ above, links.parent e = some above ∧ Spells links rows names above := by
  constructor
  · intro spells
    generalize whole : names ++ [n] = spelled at spells
    cases spells with
    | home member root =>
        have short := congrArg List.length whole
        have longer := List.length_pos_iff.mpr nonempty
        simp only [List.length_append, List.length_cons, List.length_nil] at short
        omega
    | child above member parent =>
        obtain ⟨rfl, same⟩ := List.append_inj' whole rfl
        exact ⟨_, member, rfl, (List.cons.inj same).1.symm, _, parent, above⟩
  · rintro ⟨e, member, rfl, rfl, above, parent, spells⟩
    exact .child spells member parent

theorem Spells.of_append {more : List N} (nonempty : names ≠ []) (spells : Spells links rows (names ++ more) k) :
    ∃ above, Spells links rows names above := by
  induction more using List.reverseRecOn generalizing k with
  | nil => exact ⟨k, by simpa using spells⟩
  | append_singleton more n ih =>
      rw [← List.append_assoc, spells_concat (by simp [nonempty])] at spells
      obtain ⟨-, -, -, -, above, -, spells⟩ := spells
      exact ih spells

theorem Spells.mono {rows' : List E} (linked : ∀ e ∈ rows, ∃ e' ∈ rows',
    links.key e' = links.key e ∧ links.parent e' = links.parent e ∧ links.name e' = links.name e)
    (spells : Spells links rows names k) : Spells links rows' names k := by
  induction spells with
  | home member root =>
      obtain ⟨e', member', key, parent, name⟩ := linked _ member
      rw [← key, ← name]
      exact .home member' (parent.trans root)
  | child _ member up ih =>
      obtain ⟨e', member', key, parent, name⟩ := linked _ member
      rw [← key, ← name]
      exact .child ih member' (parent.trans up)

namespace Forest

variable (forest : Forest links rows)
include forest

theorem names_eq (spells : Spells links rows names k) (spells' : Spells links rows others k) : names = others := by
  induction spells generalizing others with
  | @home e member root =>
      generalize same : links.key e = key at spells'
      cases spells' with
      | home member' _ => rw [forest.keys _ member _ member' same]
      | child _ member' parent =>
          rw [← forest.keys _ member _ member' same, root] at parent
          cases parent
  | @child names above e spells member parent ih =>
      generalize same : links.key e = key at spells'
      cases spells' with
      | home member' root =>
          rw [← forest.keys _ member _ member' same, parent] at root
          cases root
      | child spells' member' parent' =>
          obtain rfl := forest.keys _ member _ member' same
          rw [parent, Option.some.injEq] at parent'
          subst parent'
          rw [ih spells']

theorem key_eq (spells : Spells links rows names k) (spells' : Spells links rows names k') : k = k' := by
  induction spells generalizing k' with
  | home member root =>
      obtain ⟨e', member', rfl, root', name⟩ := spells_single.mp spells'
      exact forest.siblings _ member _ member' (root.trans root'.symm) name.symm
  | child above member parent ih =>
      obtain ⟨e', member', rfl, name, above', parent', spells'⟩ := (spells_concat above.ne_nil).mp spells'
      rw [← ih spells'] at parent'
      exact forest.siblings _ member _ member' (parent.trans parent'.symm) name.symm

theorem length_le (spells : Spells links rows names k) : names.length ≤ rows.length := by
  have trail : ∃ trail : List E, trail.Nodup ∧ trail.length = names.length ∧ ∀ e ∈ trail, e ∈ rows ∧
      ∃ higher : List N, higher.length ≤ names.length ∧ Spells links rows higher (links.key e) := by
    induction spells with
    | @home e member root =>
        refine ⟨[e], List.nodup_singleton _, rfl, fun e' member' => ?_⟩
        rw [List.mem_singleton.mp member']
        exact ⟨member, _, le_refl _, .home member root⟩
    | @child names above e spells member parent ih =>
        obtain ⟨trail, nodup, length, stored⟩ := ih
        have place := Spells.child spells member parent
        refine ⟨e :: trail, List.nodup_cons.mpr ⟨fun again => ?_, nodup⟩, by simp [length], fun e' member' => ?_⟩
        · obtain ⟨-, higher, shorter, spelled⟩ := stored e again
          have lengths := congrArg List.length (forest.names_eq place spelled)
          rw [List.length_append, List.length_singleton] at lengths
          omega
        · obtain rfl | later := List.mem_cons.mp member'
          · exact ⟨member, _, le_refl _, place⟩
          · obtain ⟨isRow, higher, shorter, spelled⟩ := stored e' later
            refine ⟨isRow, higher, ?_, spelled⟩
            rw [List.length_append]
            omega
  obtain ⟨trail, nodup, length, stored⟩ := trail
  rw [← length]
  exact (nodup.subperm fun e member => (stored e member).1).length_le

end Forest

section Trails

variable {trail : List E} {n : N}

theorem Trail.concat {e : E} (above : Trail links rows names trail) (member : e ∈ rows)
    (spells : Spells links rows (names ++ [n]) (links.key e)) :
    Trail links rows (names ++ [n]) (trail ++ [e]) := by
  refine ⟨by simp [above.length_eq], fun entry isEntry => ?_⟩
  rw [List.zipIdx_append, List.mem_append] at isEntry
  obtain old | new := isEntry
  · have within := List.snd_lt_of_mem_zipIdx old
    have := above.length_eq
    rw [List.take_append_of_le_length (by omega)]
    exact above.spells entry old
  · obtain rfl := List.mem_singleton.mp new
    have whole : (names ++ [n]).take (1 + trail.length) = names ++ [n] := by
      rw [List.take_of_length_le]
      simp [above.length_eq, Nat.add_comm]
    refine ⟨member, ?_⟩
    dsimp only
    rw [whole]
    exact spells

theorem Trail.last {e : E} (whole : Trail links rows names trail) (isLast : trail.getLast? = some e) :
    e ∈ rows ∧ Spells links rows names (links.key e) := by
  obtain ⟨front, rfl⟩ := List.getLast?_eq_some_iff.mp isLast
  have entry : (e, 1 + front.length) ∈ (front ++ [e]).zipIdx 1 := by
    rw [List.zipIdx_append]
    simp
  obtain ⟨member, spells⟩ := whole.spells _ entry
  have length := whole.length_eq
  rw [List.length_append, List.length_singleton] at length
  rw [List.take_of_length_le (by simp only; omega)] at spells
  exact ⟨member, spells⟩

end Trails

end Lineage

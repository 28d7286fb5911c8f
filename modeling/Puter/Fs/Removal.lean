/-
Module: Puter.Fs.Removal
Purpose: What removing an entry takes away. A removal that is allowed succeeds and takes the entry, all
  that lies under it and their objects; one that is refused changes nothing.
Trusted boundary: none
Main exports: goesWith, remove_ok, Removed.kept
-/
import Puter.Fs.StoreTree

namespace Puter

open PosixPath StateRun FSEntryStore PathForest FSService

variable {env : FsEnv} {s s' : FsState}

def goesWith (input : RemoveInput) (e : FSEntry) : Bool :=
  e.path == input.entry.path && !(input.entry.isDir && input.descendantsOnly) ||
    startsUnder e.path input.entry.path

theorem goesWith_iff {input : RemoveInput} {e : FSEntry} : goesWith input e = true ↔
    e.path = input.entry.path ∧ (input.entry.isDir = false ∨ input.descendantsOnly = false) ∨
      Under '/' input.entry.path e.path := by
  simp [goesWith, startsUnder_iff]

/-- The objects of some keys may be gone; nothing else has changed. -/
structure StorageRemoved (s s' : FsState) (keys : List Nat) : Prop where
  entries : s'.entries = s.entries
  nextId : s'.nextId = s.nextId
  nextUuid : s'.nextUuid = s.nextUuid
  objects : ∀ o ∈ s.objects, o.address.key ∉ keys → o ∈ s'.objects

theorem removeStorage_ok {entry : FSEntry} {u : Unit}
    (ran : removeStorage env entry s = .ok u s') : StorageRemoved s s' [entry.uuid] := by
  obtain ⟨-, deleted⟩ | ⟨-, rfl⟩ := runIf_ok.mp ran
  · have after := modify_ok.mp deleted
    split at after
    · subst after
      exact ⟨rfl, rfl, rfl, fun o member _ => member⟩
    · subst after
      refine ⟨rfl, rfl, rfl, ?_⟩
      intro o member otherKey
      apply List.mem_filter.mpr ⟨member, _⟩
      simp only [bne_iff_ne, ne_eq]
      intro same
      exact otherKey (by simp [same])
  · exact ⟨rfl, rfl, rfl, fun o member _ => member⟩

theorem removeAllStorage_ok {gone : List FSEntry} {u : Unit}
    (ran : forEach (removeStorage env) gone s = .ok u s') :
    StorageRemoved s s' (gone.map (·.uuid)) := by
  induction gone generalizing s with
  | nil =>
      obtain ⟨-, rfl⟩ := pure_ok.mp ran
      exact ⟨rfl, rfl, rfl, fun o member _ => member⟩
  | cons entry gone ih =>
      obtain ⟨_, between, first, others⟩ := bind_ok.mp ran
      have one := removeStorage_ok first
      have rest := ih others
      refine ⟨rest.entries.trans one.entries, rest.nextId.trans one.nextId,
        rest.nextUuid.trans one.nextUuid, ?_⟩
      intro o member otherKey
      simp only [List.map_cons, List.mem_cons, not_or] at otherKey
      exact rest.objects o (one.objects o member (by simpa using otherKey.1)) otherKey.2

theorem listDescendantsByPath_ok (distinct : s.entries.Nodup) {path : Text} {rows : List FSEntry}
    (plain : PlainPath path) (ran : listDescendantsByPath path s = .ok rows s') :
    s = s' ∧ (∀ e, e ∈ rows ↔ e ∈ s.entries ∧ Under '/' path e.path) ∧ rows.Nodup := by
  unfold listDescendantsByPath at ran
  obtain ⟨_, _, norm, ran⟩ := bind_ok.mp ran
  obtain ⟨rfl, rfl⟩ := (normalized_plain plain).mp norm
  obtain ⟨_, _, check, ran⟩ := bind_ok.mp ran
  obtain ⟨-, rfl⟩ := refuseIf_ok.mp check
  obtain ⟨_, _, got, ran⟩ := bind_ok.mp ran
  obtain ⟨rfl, rfl⟩ := get_ok.mp got
  obtain ⟨rfl, rfl⟩ := pure_ok.mp ran
  refine ⟨rfl, fun e => ?_, (List.mergeSort_perm _ _).nodup_iff.mpr (distinct.filter _)⟩
  rw [List.mem_mergeSort, List.mem_filter, pathLike_iff]

/-- What a removal that succeeds has done. -/
structure Removed (s s' : FsState) (input : RemoveInput) : Prop where
  entries : s'.entries = s.entries.filter fun e => !goesWith input e
  nextId : s'.nextId = s.nextId
  nextUuid : s'.nextUuid = s.nextUuid
  objects : ∀ o ∈ s.objects,
    (∀ e ∈ s.entries, goesWith input e = true → o.address.key ≠ e.uuid) → o ∈ s'.objects

theorem deleteEntries_ok {gone : List FSEntry} {u : Unit}
    (ran : deleteEntries gone s = .ok u s') :
    s' = { s with entries := s.entries.filter fun entry => gone.all (·.id != entry.id) } :=
  (modify_ok.mp ran).symm

theorem all_ids_ne (tidy : Tidy s) {gone : List FSEntry} (members : ∀ e ∈ gone, e ∈ s.entries)
    {e : FSEntry} (member : e ∈ s.entries) : gone.all (·.id != e.id) = true ↔ e ∉ gone := by
  rw [List.all_eq_true]
  constructor
  · intro apart isGone
    simpa using apart e isGone
  · intro notGone g gMember
    simp only [bne_iff_ne, ne_eq]
    intro sameId
    exact notGone (tidy.ids g (members g gMember) e member sameId ▸ gMember)

theorem path_eq_iff (kept : WellKept s) {entry e : FSEntry} (entryMember : entry ∈ s.entries)
    (member : e ∈ s.entries) : e.path = entry.path ↔ e = entry :=
  ⟨fun same => kept.tree.paths_distinct e member entry entryMember same, fun same => same ▸ rfl⟩

theorem removeDirectory_ok (kept : WellKept s) {input : RemoveInput} {u : Unit}
    (member : input.entry ∈ s.entries) (isDir : input.entry.isDir = true)
    (ran : removeDirectory env input s = .ok u s') : Removed s s' input := by
  unfold removeDirectory at ran
  obtain ⟨rows, _, listed, ran⟩ := bind_ok.mp ran
  obtain ⟨rfl, mem_rows, -⟩ :=
    listDescendantsByPath_ok kept.tidy.nodup (kept.plainPath _ member) listed
  have rowMembers : ∀ e ∈ rows, e ∈ s.entries := fun e eMember => ((mem_rows e).mp eMember).1
  obtain ⟨_, _, check, ran⟩ := bind_ok.mp ran
  obtain ⟨-, rfl⟩ := refuseIf_ok.mp check
  obtain ⟨_, s₁, cleaned, ran⟩ := bind_ok.mp ran
  have storage := removeAllStorage_ok cleaned
  obtain ⟨_, s₂, deleted, ran⟩ := bind_ok.mp ran
  obtain rfl := deleteEntries_ok deleted
  have objects : ∀ o ∈ s.objects, (∀ e ∈ s.entries, goesWith input e = true →
      o.address.key ≠ e.uuid) → o ∈ s₁.objects := by
    intro o oMember otherKey
    apply storage.objects o oMember
    intro isGone
    obtain ⟨e, eMember, same⟩ := List.mem_map.mp isGone
    have under := ((mem_rows e).mp eMember).2
    exact otherKey e (rowMembers e eMember) (goesWith_iff.mpr (Or.inr under)) same.symm
  obtain ⟨all, deletedEntry⟩ | ⟨only, rfl⟩ := runIf_ok.mp ran
  · obtain rfl := deleteEntries_ok deletedEntry
    refine ⟨?_, storage.nextId, storage.nextUuid, objects⟩
    change List.filter _ (List.filter _ s₁.entries) = _
    rw [storage.entries, List.filter_filter]
    apply List.filter_congr
    intro e eMember
    rw [Bool.eq_iff_iff, Bool.and_eq_true, all_ids_ne kept.tidy (by simpa using member) eMember,
      all_ids_ne kept.tidy rowMembers eMember, mem_rows, Bool.not_eq_true', ← Bool.not_eq_true,
      goesWith_iff, path_eq_iff kept member eMember]
    simp only [Bool.not_eq_true'] at all
    simp [all, eMember]
  · refine ⟨?_, storage.nextId, storage.nextUuid, objects⟩
    change List.filter _ s₁.entries = _
    rw [storage.entries]
    apply List.filter_congr
    intro e eMember
    rw [Bool.eq_iff_iff, all_ids_ne kept.tidy rowMembers eMember, mem_rows, Bool.not_eq_true',
      ← Bool.not_eq_true, goesWith_iff]
    simp only [Bool.not_eq_false'] at only
    simp [only, isDir, eMember]

theorem removeLeaf_ok (kept : WellKept s) {input : RemoveInput} {u : Unit}
    (member : input.entry ∈ s.entries) (leaf : input.entry.isDir = false)
    (ran : removeLeaf env input.entry s = .ok u s') : Removed s s' input := by
  have outside : ∀ e ∈ s.entries, ¬ Under '/' input.entry.path e.path := by
    intro e eMember under
    rw [kept.isDir_of_under member eMember under] at leaf
    cases leaf
  unfold removeLeaf at ran
  obtain ⟨_, s₁, cleaned, ran⟩ := bind_ok.mp ran
  have storage := removeStorage_ok cleaned
  obtain rfl := deleteEntries_ok ran
  refine ⟨?_, storage.nextId, storage.nextUuid, ?_⟩
  · change List.filter _ s₁.entries = _
    rw [storage.entries]
    apply List.filter_congr
    intro e eMember
    rw [Bool.eq_iff_iff, all_ids_ne kept.tidy (by simpa using member) eMember, Bool.not_eq_true',
      ← Bool.not_eq_true, goesWith_iff, path_eq_iff kept member eMember]
    simp [leaf, outside e eMember]
  · intro o oMember otherKey
    apply storage.objects o oMember
    have selfGoes : goesWith input input.entry = true := goesWith_iff.mpr (Or.inl ⟨rfl, Or.inl leaf⟩)
    simpa using otherKey input.entry member selfGoes

theorem assertCrossAppDeleteAllowed_ok {path : Text} {u : Unit}
    (ran : assertCrossAppDeleteAllowed env path s = .ok u s') :
    env.crossAppDeleteAllowed s path = true ∧ s = s' := by
  unfold assertCrossAppDeleteAllowed at ran
  obtain ⟨_, _, got, ran⟩ := bind_ok.mp ran
  obtain ⟨rfl, rfl⟩ := get_ok.mp got
  obtain ⟨allowed, rfl⟩ := refuseIf_ok.mp ran
  exact ⟨by simpa using allowed, rfl⟩

theorem assertCanRestructure_ok {entry : FSEntry} {userId : Nat} {u : Unit}
    (ran : assertCanRestructure env entry userId s = .ok u s') :
    mayRestructure env s entry userId = true ∧ s = s' := by
  unfold assertCanRestructure at ran
  obtain ⟨_, _, got, ran⟩ := bind_ok.mp ran
  obtain ⟨rfl, rfl⟩ := get_ok.mp got
  obtain ⟨allowed, rfl⟩ := refuseIf_ok.mp ran
  exact ⟨by simpa using allowed, rfl⟩

def mayRemove (env : FsEnv) (s : FsState) (userId : Nat) (input : RemoveInput) : Bool :=
  (input.systemInitiated || env.crossAppDeleteAllowed s input.entry.path) &&
    mayRestructure env s input.entry userId

theorem assertRemovable_ok {userId : Nat} {input : RemoveInput} {u : Unit}
    (ran : assertRemovable env userId input s = .ok u s') :
    mayRemove env s userId input = true ∧ s = s' := by
  unfold assertRemovable at ran
  obtain ⟨_, between, first, ran⟩ := bind_ok.mp ran
  have crossApp : (input.systemInitiated || env.crossAppDeleteAllowed s input.entry.path) = true ∧
      s = between := by
    obtain ⟨-, check⟩ | ⟨system, rfl⟩ := runIf_ok.mp first
    · obtain ⟨allowed, rfl⟩ := assertCrossAppDeleteAllowed_ok check
      simp [allowed]
    · exact ⟨by simp_all, rfl⟩
  obtain ⟨allowed, rfl⟩ := crossApp
  obtain ⟨may, rfl⟩ := assertCanRestructure_ok ran
  exact ⟨by rw [mayRemove, allowed, may]; rfl, rfl⟩

theorem remove_ok (kept : WellKept s) {userId : Nat} {input : RemoveInput} {u : Unit}
    (member : input.entry ∈ s.entries) (ran : remove env userId input s = .ok u s') :
    Removed s s' input := by
  unfold remove at ran
  obtain ⟨_, _, checks, ran⟩ := bind_ok.mp ran
  obtain ⟨-, rfl⟩ := assertRemovable_ok checks
  split at ran
  next isDir => exact removeDirectory_ok kept member isDir ran
  next leaf => exact removeLeaf_ok kept member (by simpa using leaf) ran

theorem Removed.kept {input : RemoveInput} (removed : Removed s s' input) (kept : WellKept s) :
    WellKept s' where
  tree := by
    rw [removed.entries]
    apply kept.tree.filter
    intro e member stays d dMember child
    rw [Bool.not_eq_true', ← Bool.not_eq_true, goesWith_iff] at stays ⊢
    have ePath : e.path = d.path ++ '/' :: e.name := child.path_eq
    intro dGoes
    apply stays
    apply Or.inr
    rw [ePath]
    obtain ⟨atEntry, -⟩ | under := dGoes
    · rw [atEntry]
      exact under_append '/' _ _
    · exact under.trans (under_append '/' _ _)
  tidy := by
    apply kept.tidy.sublist _ removed.nextUuid.ge removed.nextId.ge
    rw [removed.entries]
    exact List.filter_sublist

end Puter

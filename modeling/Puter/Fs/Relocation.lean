/-
Module: Puter.Fs.Relocation
Purpose: Renaming and moving as one update of the table: the row of the entry, and the stored paths and
  owners of everything below it. When the rewritten prefix is cut at the right place, the update moves
  the subtree as a whole; when it is not, the descendants no longer fit their parent.
Trusted boundary: none
Main exports: relocateRow, not_wellFormed_of_cut
-/
import Puter.Fs.StoreTree

namespace Puter

open PosixPath StateRun FSEntryStore PathForest

variable {env : FsEnv} {s s' : FsState}

theorem length_le_utf16Length (text : Text) : text.length ≤ utf16Length text := by
  induction text with
  | nil => exact le_refl _
  | cons c text ih =>
      simp only [utf16Length, List.map_cons, List.sum_cons, List.length_cons] at ih ⊢
      split <;> omega

theorem readBack_ok {uuid : Nat} {message : String} {entry : FSEntry}
    (ran : readBack uuid message s = .ok entry s') :
    entry ∈ s.entries ∧ entry.uuid = uuid ∧ s = s' := by
  unfold readBack at ran
  obtain ⟨_, _, got, ran⟩ := bind_ok.mp ran
  obtain ⟨rfl, rfl⟩ := get_ok.mp got
  obtain ⟨stored, rfl⟩ := orThrow_ok.mp ran
  obtain ⟨member, same⟩ := entryOf_some stored
  exact ⟨member, same, rfl⟩

theorem updateEntry_ok {uuid : Nat} {patch : EntryPatch} {entry : FSEntry}
    (ran : updateEntry env uuid patch s = .ok entry s') :
    s' = { s with entries := updateWhere (·.uuid == uuid) (patch.apply env) s.entries } ∧
      entry ∈ s'.entries ∧ entry.uuid = uuid := by
  unfold updateEntry at ran
  obtain ⟨_, _, got, ran⟩ := bind_ok.mp ran
  obtain ⟨rfl, rfl⟩ := get_ok.mp got
  obtain ⟨_, _, check, ran⟩ := bind_ok.mp ran
  obtain ⟨-, rfl⟩ := refuseIf_ok.mp check
  obtain ⟨_, _, written, ran⟩ := bind_ok.mp ran
  obtain ⟨member, same, rfl⟩ := readBack_ok ran
  exact ⟨(set_ok.mp written).symm, member, same⟩

theorem updatePathPrefixForUser_ok {userId : Nat} {oldPrefix newPrefix : Text}
    {newUserId : Option Nat} {u : Unit} (plainOld : PlainPath oldPrefix)
    (plainNew : PlainPath newPrefix)
    (ran : updatePathPrefixForUser env userId oldPrefix newPrefix newUserId s = .ok u s') :
    s' = s ∧ oldPrefix = newPrefix ∨ oldPrefix ≠ newPrefix ∧ s' = { s with
      entries := updateWhere (fun entry => pathLike oldPrefix entry.path)
        (rewrittenRow env userId oldPrefix newPrefix newUserId) s.entries } := by
  unfold updatePathPrefixForUser at ran
  obtain ⟨_, _, norm, ran⟩ := bind_ok.mp ran
  obtain ⟨rfl, rfl⟩ := (normalized_plain plainOld).mp norm
  obtain ⟨_, _, norm, ran⟩ := bind_ok.mp ran
  obtain ⟨rfl, rfl⟩ := (normalized_plain plainNew).mp norm
  obtain ⟨_, _, check, ran⟩ := bind_ok.mp ran
  obtain ⟨-, rfl⟩ := refuseIf_ok.mp check
  obtain ⟨differ, ran⟩ | ⟨same, rfl⟩ := runIf_ok.mp ran
  · exact Or.inr ⟨by simpa using differ, (modify_ok.mp ran).symm⟩
  · exact Or.inl ⟨rfl, by simpa using same⟩

section Rows

variable (env) (userId : Nat) (old new : Text) (newUserId : Option Nat) (patch : EntryPatch)
  (row : FSEntry)

@[simp] theorem rewrittenRow_uuid :
    (rewrittenRow env userId old new newUserId row).uuid = row.uuid := rfl

@[simp] theorem rewrittenRow_id :
    (rewrittenRow env userId old new newUserId row).id = row.id := rfl

@[simp] theorem rewrittenRow_isDir :
    (rewrittenRow env userId old new newUserId row).isDir = row.isDir := rfl

@[simp] theorem rewrittenRow_parentUid :
    (rewrittenRow env userId old new newUserId row).parentUid = row.parentUid := rfl

@[simp] theorem rewrittenRow_name :
    (rewrittenRow env userId old new newUserId row).name = row.name := rfl

@[simp] theorem rewrittenRow_path :
    (rewrittenRow env userId old new newUserId row).path = rewrittenPath old new row.path := rfl

theorem rewrittenRow_userId (owned : row.userId = userId) :
    (rewrittenRow env userId old new newUserId row).userId = newUserId.getD userId := by
  cases newUserId with
  | none => exact owned
  | some owner =>
      simp only [rewrittenRow, Option.getD_some]
      split
      next same => rw [owned, same]
      next => rfl

@[simp] theorem apply_uuid : (patch.apply env row).uuid = row.uuid := rfl

@[simp] theorem apply_id : (patch.apply env row).id = row.id := rfl

@[simp] theorem apply_isDir : (patch.apply env row).isDir = row.isDir := rfl

@[simp] theorem apply_name : (patch.apply env row).name = patch.name.getD row.name := rfl

@[simp] theorem apply_path : (patch.apply env row).path = patch.path.getD row.path := rfl

@[simp] theorem apply_userId : (patch.apply env row).userId = patch.userId.getD row.userId := rfl

@[simp] theorem apply_parentUid : (patch.apply env row).parentUid =
    if patch.parentUid.isSome then patch.parentUid else row.parentUid := rfl

end Rows

/-- What a rename or a move makes of a row: the patch on the entry itself, then, if they are rewritten,
    the new prefix on the rows below it. -/
def relocateRow (env : FsEnv) (src : FSEntry) (patch : EntryPatch) (newPath : Text)
    (rewrite : Bool) (row : FSEntry) : FSEntry :=
  let patched := if row.uuid == src.uuid then patch.apply env row else row
  if rewrite && pathLike src.path patched.path then
    rewrittenRow env src.userId src.path newPath patch.userId patched
  else patched

section Relocating

variable {src row : FSEntry} {patch : EntryPatch} {newPath : Text} {rewrite : Bool}

theorem relocateRow_key (env : FsEnv) (src : FSEntry) (patch : EntryPatch) (newPath : Text)
    (rewrite : Bool) (row : FSEntry) : (relocateRow env src patch newPath rewrite row).uuid = row.uuid ∧
    (relocateRow env src patch newPath rewrite row).id = row.id ∧
    (relocateRow env src patch newPath rewrite row).isDir = row.isDir := by
  unfold relocateRow
  dsimp only
  split <;> split <;> simp

theorem relocateRow_link (other : row.uuid ≠ src.uuid) :
    (relocateRow env src patch newPath rewrite row).parentUid = row.parentUid ∧
      (relocateRow env src patch newPath rewrite row).name = row.name := by
  simp only [relocateRow, beq_eq_false_iff_ne.mpr other, Bool.false_eq_true, if_false]
  split <;> simp

theorem relocateRow_src_link (env : FsEnv) (src : FSEntry) (patch : EntryPatch) (newPath : Text)
    (rewrite : Bool) :
    (relocateRow env src patch newPath rewrite src).parentUid =
        (if patch.parentUid.isSome then patch.parentUid else src.parentUid) ∧
      (relocateRow env src patch newPath rewrite src).name = patch.name.getD src.name := by
  simp only [relocateRow, beq_self_eq_true, if_true]
  split <;> simp

theorem relocateRow_src (env : FsEnv) (rewrite : Bool) (path : patch.path = some newPath)
    (apart : ¬ Under '/' src.path newPath) :
    (relocateRow env src patch newPath rewrite src).path = newPath ∧
      (relocateRow env src patch newPath rewrite src).userId = patch.userId.getD src.userId := by
  have notLike : pathLike src.path newPath = false :=
    Bool.eq_false_iff.mpr fun like => apart (pathLike_iff.mp like)
  simp [relocateRow, path, notLike]

theorem relocateRow_under (env : FsEnv) (patch : EntryPatch) (newPath : Text)
    (other : row.uuid ≠ src.uuid) (under : Under '/' src.path row.path) :
    relocateRow env src patch newPath true row =
      rewrittenRow env src.userId src.path newPath patch.userId row := by
  simp [relocateRow, other, pathLike_iff.mpr under]

theorem relocateRow_other (other : row.uuid ≠ src.uuid)
    (stays : rewrite = false ∨ ¬ Under '/' src.path row.path) :
    relocateRow env src patch newPath rewrite row = row := by
  have notLike : (rewrite && pathLike src.path row.path) = false := by
    obtain rfl | outside := stays
    · rfl
    · rw [Bool.eq_false_iff.mpr fun like => outside (pathLike_iff.mp like), Bool.and_false]
  simp [relocateRow, other, notLike]

/-- The rows below the entry are dealt with properly: their prefix is cut where it ends, or they stay
    where they are, and so does the entry. -/
def FaithfulBelow (s : FsState) (src : FSEntry) (patch : EntryPatch) (newPath : Text)
    (rewrite : Bool) : Prop :=
  ∀ e ∈ s.entries, Under '/' src.path e.path →
    rewrite = true ∧ utf16Length src.path = src.path.length ∨
      rewrite = false ∧ newPath = src.path ∧ patch.userId.getD src.userId = src.userId

theorem relocateRow_relocates (kept : WellKept s) (srcMember : src ∈ s.entries)
    (path : patch.path = some newPath) (apart : ¬ Under '/' src.path newPath)
    (faithful : FaithfulBelow s src patch newPath rewrite) :
    Relocates fsShape '/' s.entries src newPath (patch.userId.getD src.userId)
      (relocateRow env src patch newPath rewrite) := by
  have other : ∀ e ∈ s.entries, e ≠ src → e.uuid ≠ src.uuid := fun e member differs same =>
    differs (kept.tidy.uuids e member src srcMember same)
  constructor
  · intro e member
    exact (relocateRow_key env src patch newPath rewrite e).1
  · intro e member
    exact (relocateRow_key env src patch newPath rewrite e).2.2
  · exact (relocateRow_src env _ path apart).1
  · exact (relocateRow_src env _ path apart).2
  · intro e member differs
    exact (relocateRow_link (other e member differs)).1
  · intro e member differs
    exact (relocateRow_link (other e member differs)).2
  · intro e member differs under
    obtain ⟨rfl, cut⟩ | ⟨rfl, stays, -⟩ := faithful e member under
    · rw [relocateRow_under env patch newPath (other e member differs) under]
      change newPath ++ e.path.drop (utf16Length src.path) = newPath ++ e.path.drop src.path.length
      rw [cut]
    · rw [relocateRow_other (other e member differs) (Or.inl rfl), stays]
      obtain ⟨rest, same⟩ := id under
      rw [List.append_assoc] at same
      change src.path ++ (['/'] ++ rest) = e.path at same
      change e.path = src.path ++ e.path.drop src.path.length
      rw [← same, List.drop_left]
  · intro e member differs under
    have owned : e.userId = src.userId := (kept.owner_of_under srcMember member under).symm
    obtain ⟨rfl, -⟩ | ⟨rfl, -, owner⟩ := faithful e member under
    · rw [relocateRow_under env patch newPath (other e member differs) under]
      exact rewrittenRow_userId env src.userId src.path newPath patch.userId e owned
    · rw [relocateRow_other (other e member differs) (Or.inl rfl), owner]
      exact owned
  · intro e member differs outside
    rw [relocateRow_other (other e member differs) (Or.inr outside)]
  · intro e member differs outside
    rw [relocateRow_other (other e member differs) (Or.inr outside)]

/-- Where the entry hangs after a relocation. -/
structure NewPlace (s : FsState) (src : FSEntry) (patch : EntryPatch) (newPath : Text) : Prop where
  path : patch.path = some newPath
  apart : ¬ Under '/' src.path newPath
  plain : PlainName (patch.name.getD src.name)
  free : ∀ e ∈ s.entries, e.path = newPath → e = src
  hangs : (patch.parentUid = none ∧ src.parentUid = none ∧
      newPath = '/' :: patch.name.getD src.name) ∨
    ∃ d ∈ s.entries, (if patch.parentUid.isSome then patch.parentUid else src.parentUid) = some d.uuid ∧
      d.isDir = true ∧ d.userId = patch.userId.getD src.userId ∧ d ≠ src ∧
      newPath = d.path ++ '/' :: patch.name.getD src.name

theorem NewPlace.not_nil (place : NewPlace s src patch newPath) : newPath ≠ [] := by
  obtain ⟨-, -, rfl⟩ | ⟨d, -, -, -, -, -, rfl⟩ := place.hangs <;> simp

theorem NewPlace.parent_outside (place : NewPlace s src patch newPath) {d : FSEntry}
    (below : newPath = d.path ++ '/' :: patch.name.getD src.name) : ¬ Under '/' src.path d.path := by
  intro under
  apply place.apart
  rw [below]
  exact under.trans (under_append '/' _ _)

theorem WellKept.relocate (kept : WellKept s) (srcMember : src ∈ s.entries)
    (place : NewPlace s src patch newPath) (faithful : FaithfulBelow s src patch newPath rewrite)
    (entries : s'.entries = s.entries.map (relocateRow env src patch newPath rewrite))
    (moreUuids : s.nextUuid ≤ s'.nextUuid) (moreIds : s.nextId ≤ s'.nextId) : WellKept s' := by
  have moves : Relocates fsShape '/' s.entries src newPath (patch.userId.getD src.userId)
      (relocateRow env src patch newPath rewrite) :=
    relocateRow_relocates kept srcMember place.path place.apart faithful
  have other : ∀ e ∈ s.entries, e ≠ src → e.uuid ≠ src.uuid := fun e member differs same =>
    differs (kept.tidy.uuids e member src srcMember same)
  obtain ⟨srcParent, srcName⟩ := relocateRow_src_link env src patch newPath rewrite
  obtain ⟨srcPath, srcOwner⟩ := relocateRow_src env rewrite place.path place.apart
  constructor
  · rw [entries]
    apply kept.tree.relocate kept.segmented srcMember place.not_nil moves place.free
    obtain ⟨noPatch, root, -⟩ | ⟨d, dMember, parent, isDir, owner, differs, below⟩ := place.hangs
    · apply Or.inl
      change (relocateRow env src patch newPath rewrite src).parentUid = none
      rw [srcParent, noPatch, root]
      rfl
    · refine Or.inr ⟨d, dMember, ?_⟩
      have stays : relocateRow env src patch newPath rewrite d = d :=
        relocateRow_other (other d dMember differs) (Or.inr (place.parent_outside below))
      rw [stays]
      refine ⟨srcParent.trans parent, isDir, owner.trans srcOwner.symm, ?_⟩
      change (relocateRow env src patch newPath rewrite src).path =
        d.path ++ '/' :: (relocateRow env src patch newPath rewrite src).name
      rw [srcPath, srcName, below]
  · apply kept.tidy.map entries moreUuids moreIds (fun e _ => (relocateRow_key env src patch newPath rewrite e).1)
      (fun e _ => (relocateRow_key env src patch newPath rewrite e).2.1)
    · intro e member
      by_cases isSrc : e = src
      · rw [isSrc, srcName]
        exact place.plain
      · rw [(relocateRow_link (other e member isSrc)).2]
        exact kept.tidy.names e member
    · intro e member root
      by_cases isSrc : e = src
      · subst isSrc
        rw [srcParent] at root
        rw [srcPath, srcName]
        obtain ⟨-, -, atRoot⟩ | ⟨d, -, parent, -⟩ := place.hangs
        · exact atRoot
        · rw [parent] at root
          cases root
      · rw [(relocateRow_link (other e member isSrc)).1] at root
        have outside := kept.home_outside member root (kept.plainPath src srcMember).ne_nil
        rw [relocateRow_other (other e member isSrc) (Or.inr outside)]
        exact kept.tidy.homes e member root

theorem keysDistinct_relocate (kept : WellKept s) :
    KeysDistinct fsShape (s.entries.map (relocateRow env src patch newPath rewrite)) := by
  intro r member r' member' same
  obtain ⟨e, eMember, rfl⟩ := List.mem_map.mp member
  obtain ⟨e', e'Member, rfl⟩ := List.mem_map.mp member'
  have sameUuid : e.uuid = e'.uuid := by
    rw [← (relocateRow_key env src patch newPath rewrite e).1,
      ← (relocateRow_key env src patch newPath rewrite e').1]
    exact same
  rw [kept.tidy.uuids e eMember e' e'Member sameUuid]

theorem not_wellFormed_of_cut (kept : WellKept s) (srcMember : src ∈ s.entries)
    (path : patch.path = some newPath) (apart : ¬ Under '/' src.path newPath)
    (cut : utf16Length src.path ≠ src.path.length) {e : FSEntry} (member : e ∈ s.entries)
    (under : Under '/' src.path e.path) :
    ¬ WellFormed (s.entries.map (relocateRow env src patch newPath true)) := by
  intro wf
  obtain ⟨c, cMember, child⟩ := exists_child_of_under kept.tree kept.segmented srcMember
    (kept.plainPath src srcMember).ne_nil e member under
  have below : c.path = src.path ++ '/' :: c.name := child.path_eq
  have differs : c.uuid ≠ src.uuid := by
    intro same
    have isSrc := kept.tidy.uuids c cMember src srcMember same
    rw [isSrc] at child
    exact absurd child.length_lt (lt_irrefl _)
  have cUnder : Under '/' src.path c.path := below ▸ under_append '/' src.path c.name
  have moved := relocateRow_under env patch newPath differs cUnder
  have stillChild := wf.isChild (keysDistinct_relocate kept)
    (List.mem_map_of_mem cMember) (List.mem_map_of_mem srcMember) (by
      change (relocateRow env src patch newPath true c).parentUid =
        some (relocateRow env src patch newPath true src).uuid
      rw [(relocateRow_link differs).1, (relocateRow_key env src patch newPath true src).1]
      exact child.parent_eq)
  have tooShort : newPath ++ c.path.drop (utf16Length src.path) = newPath ++ '/' :: c.name := by
    have atChild : (relocateRow env src patch newPath true c).path =
        (relocateRow env src patch newPath true src).path ++
          '/' :: (relocateRow env src patch newPath true c).name := stillChild.path_eq
    rw [(relocateRow_src env _ path apart).1, (relocateRow_link differs).2, moved] at atChild
    exact atChild
  have lengths := congrArg List.length (List.append_cancel_left tooShort)
  have longer := length_le_utf16Length src.path
  simp only [below, List.length_drop, List.length_append, List.length_cons] at lengths
  omega

/-- Some row is below the entry, and the length that JavaScript tells of the entry's path is not the
    number of its characters. -/
def Miscut (s : FsState) (src : FSEntry) : Prop :=
  utf16Length src.path ≠ src.path.length ∧ ∃ e ∈ s.entries, Under '/' src.path e.path

/-- The writes of a rename or a move, as one update of the table. -/
structure Relocated (env : FsEnv) (s s' : FsState) (src : FSEntry) (patch : EntryPatch)
    (newPath : Text) : Prop where
  stored : ∃ e ∈ s.entries, e.uuid = src.uuid
  entries : s'.entries = s.entries.map
    (relocateRow env src patch newPath (src.isDir && src.path != newPath))
  objects : s'.objects = s.objects
  nextId : s'.nextId = s.nextId
  nextUuid : s'.nextUuid = s.nextUuid

theorem relocated_of_writes {between : FsState} {updated : FSEntry} {u : Unit}
    (oldPlain : PlainPath src.path) (newPlain : PlainPath newPath)
    (wrote : updateEntry env src.uuid patch s = .ok updated between)
    (rewrote : runIf (src.isDir && src.path != newPath)
      (updatePathPrefixForUser env src.userId src.path newPath patch.userId) between = .ok u s') :
    Relocated env s s' src patch newPath := by
  obtain ⟨after, member, sameUuid⟩ := updateEntry_ok wrote
  have stored : ∃ e ∈ s.entries, e.uuid = src.uuid := by
    rw [after] at member
    obtain ⟨e, eMember, rfl⟩ := List.mem_map.mp member
    refine ⟨e, eMember, ?_⟩
    rw [← sameUuid]
    split <;> rfl
  have written : between.entries = s.entries.map (relocateRow env src patch newPath false) := by
    rw [after]
    rfl
  have rest : between.objects = s.objects ∧ between.nextId = s.nextId ∧
      between.nextUuid = s.nextUuid := by
    rw [after]
    exact ⟨rfl, rfl, rfl⟩
  obtain ⟨sameObjects, sameId, sameUuids⟩ := rest
  obtain ⟨wanted, rewrote⟩ | ⟨unwanted, rfl⟩ := runIf_ok.mp rewrote
  · have moved : src.path ≠ newPath := by simp_all
    obtain ⟨-, same⟩ | ⟨-, rfl⟩ := updatePathPrefixForUser_ok oldPlain newPlain rewrote
    · exact absurd same moved
    · refine ⟨stored, ?_, sameObjects, sameId, sameUuids⟩
      change List.map _ between.entries = _
      rw [written, List.map_map, wanted]
      rfl
  · refine ⟨stored, ?_, sameObjects, sameId, sameUuids⟩
    rw [written, unwanted]

theorem Relocated.wellKept (relocated : Relocated env s s' src patch newPath) (kept : WellKept s)
    (srcMember : src ∈ s.entries) (place : NewPlace s src patch newPath)
    (stays : src.path = newPath → patch.userId.getD src.userId = src.userId)
    (cut : src.path = newPath ∨ ¬ Miscut s src) : WellKept s' := by
  apply kept.relocate srcMember place _ relocated.entries relocated.nextUuid.ge relocated.nextId.ge
  intro e member under
  obtain same | sound := cut
  · exact Or.inr ⟨by simp [same], same.symm, stays same⟩
  · have isDir := kept.isDir_of_under srcMember member under
    by_cases same : src.path = newPath
    · exact Or.inr ⟨by simp [same], same.symm, stays same⟩
    · refine Or.inl ⟨by simp [isDir, same], ?_⟩
      by_contra differs
      exact sound ⟨differs, e, member, under⟩

theorem Relocated.not_wellFormed (relocated : Relocated env s s' src patch newPath)
    (kept : WellKept s) (srcMember : src ∈ s.entries) (path : patch.path = some newPath)
    (apart : ¬ Under '/' src.path newPath) (moved : src.path ≠ newPath) (miscut : Miscut s src) :
    ¬ WellFormed s'.entries := by
  obtain ⟨cut, e, member, under⟩ := miscut
  have isDir := kept.isDir_of_under srcMember member under
  have rewrites : (src.isDir && src.path != newPath) = true := by simp [isDir, moved]
  rw [relocated.entries, rewrites]
  exact not_wellFormed_of_cut kept srcMember path apart cut member under

theorem Relocated.not_wellFormed_of_self (relocated : Relocated env s s' src patch newPath)
    (kept : WellKept s) (srcMember : src ∈ s.entries) (own : patch.parentUid = some src.uuid) :
    ¬ WellFormed s'.entries := by
  intro wf
  rw [relocated.entries] at wf
  apply wf.parent_ne_self (keysDistinct_relocate kept) (List.mem_map_of_mem srcMember)
  change (relocateRow env src patch newPath _ src).parentUid =
    some (relocateRow env src patch newPath _ src).uuid
  rw [(relocateRow_src_link env src patch newPath _).1,
    (relocateRow_key env src patch newPath _ src).1, own]
  rfl

end Relocating

end Puter

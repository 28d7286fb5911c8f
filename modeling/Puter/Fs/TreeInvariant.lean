/-
Module: Puter.Fs.TreeInvariant
Purpose: The filesystem tree as an invariant of the calls of FSService. A call that ends well leaves a
  tree behind, but for two slips: `move` does not refuse a directory as its own destination, as `copy`
  does, and the prefix of the stored paths is cut by a length that JavaScript and the database count
  differently.
Trusted boundary: none
Main exports: FsCall, fsCall_wellFormed_iff
-/
import Puter.Fs.Relocation
import Puter.Fs.CopyTree

namespace Puter

open PosixPath StateRun FSEntryStore PathForest FSService

variable {env : FsEnv} {s s' : FsState}

theorem assertCanRename_ok {entry : FSEntry} {userId : Nat} {u : Unit}
    (ran : assertCanRename env entry userId s = .ok u s') : s = s' := by
  unfold assertCanRename at ran
  obtain ⟨_, _, got, ran⟩ := bind_ok.mp ran
  obtain ⟨rfl, rfl⟩ := get_ok.mp got
  split at ran
  · exact (pure_ok.mp ran).2
  · exact (assertCanRestructure_ok ran).2

/-- What `rename` writes to the row. -/
def renamePatch (newName newPath : Text) : EntryPatch :=
  { name := some newName, path := some newPath }

def renamedPath (entry : FSEntry) (newName : Text) : Text := childPath (dirname entry.path) newName

theorem renamedPath_cases (kept : WellKept s) {entry : FSEntry} (member : entry ∈ s.entries)
    (newName : Text) :
    (entry.parentUid = none ∧ entry.path = '/' :: entry.name ∧
      renamedPath entry newName = '/' :: newName) ∨
    ∃ d ∈ s.entries, entry.parentUid = some d.uuid ∧ IsChild fsShape '/' entry d ∧
      renamedPath entry newName = d.path ++ '/' :: newName := by
  cases parent : entry.parentUid with
  | none =>
      have atRoot := kept.tidy.homes entry member parent
      refine Or.inl ⟨rfl, atRoot, ?_⟩
      rw [renamedPath, atRoot, dirname_home (kept.tidy.names entry member).segment]
      rfl
  | some k =>
      obtain ⟨d, dMember, isKey, child⟩ := kept.tree.linked entry member k parent
      refine Or.inr ⟨d, dMember, congrArg some isKey.symm, child, ?_⟩
      rw [renamedPath, kept.dirname_eq member dMember child, kept.childPath_eq dMember]

theorem renamedPath_plain (kept : WellKept s) {entry : FSEntry} (member : entry ∈ s.entries)
    {newName : Text} (plain : PlainName newName) : PlainPath (renamedPath entry newName) := by
  obtain ⟨-, -, path⟩ | ⟨d, dMember, -, -, path⟩ := renamedPath_cases kept member newName
  · rw [path]
    exact .home plain
  · rw [path]
    exact (kept.plainPath d dMember).child plain

theorem renamedPath_ne (kept : WellKept s) {entry : FSEntry} (member : entry ∈ s.entries)
    {newName : Text} (differs : entry.name ≠ newName) : entry.path ≠ renamedPath entry newName := by
  intro same
  obtain ⟨-, atRoot, path⟩ | ⟨d, -, -, child, path⟩ := renamedPath_cases kept member newName
  · rw [atRoot, path] at same
    exact differs (List.cons.inj same).2
  · rw [path, show entry.path = d.path ++ '/' :: entry.name from child.path_eq] at same
    exact differs (List.cons.inj (List.append_cancel_left same)).2

theorem rename_place (kept : WellKept s) {entry : FSEntry} (member : entry ∈ s.entries)
    {newName : Text} (plain : PlainName newName)
    (free : ∀ e ∈ s.entries, e.path = renamedPath entry newName → e = entry) :
    NewPlace s entry (renamePatch newName (renamedPath entry newName))
      (renamedPath entry newName) := by
  obtain ⟨root, -, path⟩ | ⟨d, dMember, parent, child, path⟩ :=
    renamedPath_cases kept member newName
  · refine ⟨rfl, ?_, plain, free, Or.inl ⟨rfl, root, path⟩⟩
    rw [path, ← List.nil_append ('/' :: newName), under_child plain.noSlash]
    rintro (nil | above)
    · exact (kept.plainPath entry member).ne_nil nil
    · exact absurd above.length_lt (by simp)
  · have longer : d.path.length < entry.path.length := child.length_lt
    refine ⟨rfl, ?_, plain, free, Or.inr ⟨d, dMember, parent, child.isDir, ?_, ?_, path⟩⟩
    · rw [path, under_child plain.noSlash]
      rintro (same | above)
      · rw [same] at longer
        exact absurd longer (lt_irrefl _)
      · exact absurd (longer.trans above.length_lt) (lt_irrefl _)
    · exact child.owner_eq
    · rintro rfl
      exact absurd longer (lt_irrefl _)

theorem rename_ok (kept : WellKept s) {userId : Nat} {entry updated : FSEntry} {newName : Text}
    (member : entry ∈ s.entries) (plain : PlainName newName)
    (ran : rename env userId entry newName s = .ok updated s') :
    entry.name = newName ∧ s = s' ∨ entry.name ≠ newName ∧
      (∀ e ∈ s.entries, e.path = renamedPath entry newName → e = entry) ∧
      Relocated env s s' entry (renamePatch newName (renamedPath entry newName))
        (renamedPath entry newName) := by
  unfold rename at ran
  obtain ⟨_, _, check, ran⟩ := bind_ok.mp ran
  obtain rfl := assertCanRename_ok check
  obtain ⟨_, _, check, ran⟩ := bind_ok.mp ran
  obtain ⟨-, rfl⟩ := assertUsableName_ok check
  split at ran
  next same => exact Or.inl ⟨same, (pure_ok.mp ran).2⟩
  next differs =>
    have moved := renamedPath_ne kept member differs
    have newPlain := renamedPath_plain kept member plain
    obtain ⟨_, _, check, ran⟩ := bind_ok.mp ran
    obtain ⟨-, rfl⟩ := assertCrossAppDeleteAllowed_ok check
    unfold renameTo at ran
    obtain ⟨collision, _, looked, ran⟩ := bind_ok.mp ran
    obtain ⟨found, rfl⟩ := getEntryByPath_plain newPlain looked
    obtain ⟨_, _, check, ran⟩ := bind_ok.mp ran
    obtain ⟨noCollision, rfl⟩ := refuseIf_ok.mp check
    obtain ⟨_, between, wrote, ran⟩ := bind_ok.mp ran
    obtain ⟨_, _, rewrote, ran⟩ := bind_ok.mp ran
    obtain ⟨rfl, rfl⟩ := pure_ok.mp ran
    refine Or.inr ⟨differs, ?_, ?_⟩
    · intro e eMember atTarget
      cases collision with
      | none => exact absurd atTarget (entryAt_none found.symm e eMember)
      | some c =>
          obtain ⟨cMember, cAtTarget⟩ := entryAt_some found.symm
          have isEntry : c.uuid = entry.uuid := by simpa using noCollision
          rw [kept.tree.paths_distinct e eMember c cMember (atTarget.trans cAtTarget.symm)]
          exact kept.tidy.uuids c cMember entry member isEntry
    · have wanted : (entry.isDir && entry.path != renamedPath entry newName) = entry.isDir := by
        simp [moved]
      apply relocated_of_writes (kept.plainPath entry member) newPlain wrote
      rw [wanted]
      exact rewrote

theorem rename_tree (kept : WellKept s) {userId : Nat} {entry updated : FSEntry} {newName : Text}
    (member : entry ∈ s.entries) (plain : PlainName newName)
    (ran : rename env userId entry newName s = .ok updated s') :
    (newName ≠ entry.name ∧ Miscut s entry → ¬ WellFormed s'.entries) ∧
      (¬ (newName ≠ entry.name ∧ Miscut s entry) → WellKept s') := by
  obtain ⟨same, rfl⟩ | ⟨differs, free, relocated⟩ := rename_ok kept member plain ran
  · exact ⟨fun slips => absurd same.symm slips.1, fun _ => kept⟩
  · have place := rename_place kept member plain free
    have moved := renamedPath_ne kept member differs
    constructor
    · rintro ⟨-, miscut⟩
      exact relocated.not_wellFormed kept member rfl place.apart moved miscut
    · intro sound
      apply relocated.wellKept kept member place (fun _ => rfl)
      exact Or.inr fun miscut => sound ⟨fun same => differs same.symm, miscut⟩

/-- What `move` writes to the row. -/
def movePatch (env : FsEnv) (input : MoveInput) (name finalPath : Text) : EntryPatch :=
  { name := some name
    path := some finalPath
    userId := some input.destinationParent.userId
    parentId := some input.destinationParent.id
    parentUid := some input.destinationParent.uuid
    metadata := input.newMetadata.map (·.map env.stripReservedMetadataKeys) }

/-- What `move` refuses before it looks at its target. -/
structure Movable (env : FsEnv) (s : FsState) (userId : Nat) (input : MoveInput) : Prop where
  crossApp : env.crossAppDeleteAllowed s input.source.path = true
  restructure : mayRestructure env s input.source userId = true
  staysOwned : input.source.userId = userId ∨
    input.source.userId = input.destinationParent.userId
  isDir : input.destinationParent.isDir = true
  apart : input.source.isDir = true →
    ¬ Under '/' input.source.path input.destinationParent.path
  usable : UsableName input.name

theorem assertMovable_ok {userId : Nat} {input : MoveInput} {u : Unit}
    (ran : assertMovable env userId input s = .ok u s') : Movable env s userId input ∧ s = s' := by
  unfold assertMovable at ran
  obtain ⟨_, _, check, ran⟩ := bind_ok.mp ran
  obtain ⟨crossApp, rfl⟩ := assertCrossAppDeleteAllowed_ok check
  obtain ⟨_, _, check, ran⟩ := bind_ok.mp ran
  obtain ⟨restructure, rfl⟩ := assertCanRestructure_ok check
  obtain ⟨_, _, check, ran⟩ := bind_ok.mp ran
  obtain ⟨stays, rfl⟩ := refuseIf_ok.mp check
  obtain ⟨_, _, check, ran⟩ := bind_ok.mp ran
  obtain ⟨isDir, rfl⟩ := refuseIf_ok.mp check
  obtain ⟨_, _, check, ran⟩ := bind_ok.mp ran
  obtain ⟨apart, rfl⟩ := refuseIf_ok.mp check
  obtain ⟨usable, rfl⟩ := assertUsableName_ok ran
  refine ⟨⟨crossApp, restructure, ?_, by simpa using isDir, fun dir under => ?_, usable⟩, rfl⟩
  · simp only [Bool.and_eq_false_iff, bne_eq_false_iff_eq] at stays
    exact stays
  · rw [dir, startsUnder_iff.mpr under] at apart
    cases apart

/-- The entry that `move` finds in its way. -/
def FSService.MoveInput.collision (s : FsState) (input : MoveInput) : Option FSEntry :=
  (storedAt s.entries (childPath input.destinationParent.path input.name)).filter
    (·.uuid != input.source.uuid)

theorem FSService.MoveInput.collision_mem {input : MoveInput} {c : FSEntry}
    (isCollision : input.collision s = some c) : c ∈ s.entries ∧ c.uuid ≠ input.source.uuid := by
  obtain ⟨found, differs⟩ := Option.filter_eq_some_iff.mp isCollision
  exact ⟨storedAt_mem found, by simpa using differs⟩

theorem FSService.MoveInput.collision_some (kept : WellKept s) {input : MoveInput} {c : FSEntry}
    (member : input.destinationParent ∈ s.entries) (plain : PlainName input.name)
    (isCollision : input.collision s = some c) :
    c ∈ s.entries ∧ c.path = input.destinationParent.path ++ '/' :: input.name ∧
      c.uuid ≠ input.source.uuid := by
  obtain ⟨cMember, differs⟩ := MoveInput.collision_mem isCollision
  obtain ⟨found, -⟩ := Option.filter_eq_some_iff.mp isCollision
  rw [kept.childPath_eq member, storedAt_plain ((kept.plainPath _ member).child plain)] at found
  exact ⟨cMember, (entryAt_some found).2, differs⟩

theorem FSService.MoveInput.collision_none (kept : WellKept s) {input : MoveInput}
    (sourceMember : input.source ∈ s.entries) (member : input.destinationParent ∈ s.entries)
    (plain : PlainName input.name) (noCollision : input.collision s = none) : ∀ e ∈ s.entries,
      e.path = input.destinationParent.path ++ '/' :: input.name → e = input.source := by
  intro e eMember atTarget
  rw [MoveInput.collision, kept.childPath_eq member,
    storedAt_plain ((kept.plainPath _ member).child plain)] at noCollision
  cases found : entryAt s.entries (input.destinationParent.path ++ '/' :: input.name) with
  | none => exact absurd atTarget (entryAt_none found e eMember)
  | some c =>
      obtain ⟨cMember, cAtTarget⟩ := entryAt_some found
      rw [kept.tree.paths_distinct e eMember c cMember (atTarget.trans cAtTarget.symm)]
      have sameUuid : c.uuid = input.source.uuid := by
        simpa [found, Option.filter] using noCollision
      exact kept.tidy.uuids c cMember input.source sourceMember sameUuid

theorem move_ok (kept : WellKept s) {userId : Nat} {input : MoveInput} {updated : FSEntry}
    (sourceMember : input.source ∈ s.entries) (member : input.destinationParent ∈ s.entries)
    (plain : PlainName input.name) (ran : move env userId input s = .ok updated s') :
    Movable env s userId input ∧ ∃ cleared name,
      WayMade s cleared input.destinationParent input.name input.overwrite (input.collision s) name ∧
      Relocated env cleared s' input.source
        (movePatch env input name (input.destinationParent.path ++ '/' :: name))
        (input.destinationParent.path ++ '/' :: name) := by
  unfold move at ran
  obtain ⟨_, _, check, ran⟩ := bind_ok.mp ran
  obtain ⟨movable, rfl⟩ := assertMovable_ok check
  obtain ⟨found, _, looked, ran⟩ := bind_ok.mp ran
  obtain ⟨rfl, rfl⟩ := getEntryByPath_storedAt looked
  obtain ⟨name, cleared, made, ran⟩ := bind_ok.mp ran
  change makeWay env userId _ _ _ _ (input.collision s) s = _ at made
  have collides := fun c => @MoveInput.collision_some _ kept _ c member plain
  have way := makeWay_ok kept member plain (fun c isCollision => (collides c isCollision).1) made
  obtain ⟨clearedKept, clearedMember, plainResult⟩ :=
    way.kept kept member plain fun c isCollision => (collides c isCollision).2.1
  obtain ⟨_, _, check, ran⟩ := bind_ok.mp ran
  obtain rfl := (assertHandOver_reads env input).ok check
  refine ⟨movable, cleared, name, way, ?_⟩
  rw [clearedKept.childPath_eq clearedMember] at ran
  unfold relocate at ran
  obtain ⟨_, between, wrote, ran⟩ := bind_ok.mp ran
  obtain ⟨_, _, rewrote, ran⟩ := bind_ok.mp ran
  obtain ⟨rfl, rfl⟩ := pure_ok.mp ran
  apply relocated_of_writes (kept.plainPath _ sourceMember)
    ((kept.plainPath _ member).child plainResult) wrote rewrote

def MoveSlips (s : FsState) (input : MoveInput) : Prop :=
  input.destinationParent = input.source ∨
    childPath input.destinationParent.path input.name ≠ input.source.path ∧ Miscut s input.source

theorem Movable.not_under {userId : Nat} {input : MoveInput} {name : Text}
    (movable : Movable env s userId input) (kept : WellKept s)
    (sourceMember : input.source ∈ s.entries) (member : input.destinationParent ∈ s.entries)
    (notSelf : input.destinationParent ≠ input.source) (plain : PlainName name) :
    ¬ Under '/' input.source.path (input.destinationParent.path ++ '/' :: name) := by
  rw [under_child plain.noSlash]
  rintro (same | under)
  · exact notSelf (kept.tree.paths_distinct _ member _ sourceMember same.symm)
  · exact movable.apart (kept.isDir_of_under sourceMember member under) under

theorem Relocated.source_mem {cleared : FsState} {source destination : FSEntry} {name result : Text}
    {overwrite : Bool} {collision : Option FSEntry} {patch : EntryPatch} {newPath : Text}
    (relocated : Relocated env cleared s' source patch newPath) (kept : WellKept s)
    (sourceMember : source ∈ s.entries)
    (way : WayMade s cleared destination name overwrite collision result) :
    source ∈ cleared.entries := by
  obtain ⟨e, eMember, sameUuid⟩ := relocated.stored
  rw [← kept.tidy.uuids e (way.old eMember) source sourceMember sameUuid]
  exact eMember

theorem moved_iff (kept : WellKept s) {input : MoveInput} {cleared : FsState} {name : Text}
    (sourceMember : input.source ∈ s.entries) (member : input.destinationParent ∈ s.entries)
    (plain : PlainName input.name)
    (way : WayMade s cleared input.destinationParent input.name input.overwrite (input.collision s)
      name) :
    input.source.path = input.destinationParent.path ++ '/' :: name ↔
      childPath input.destinationParent.path input.name = input.source.path := by
  rw [kept.childPath_eq member]
  generalize collided : input.collision s = collision at way
  cases way with
  | free same => exact eq_comm
  | removed c asked gone => exact eq_comm
  | deduped c asked deduped same plainDeduped free =>
      obtain ⟨cMember, atTarget, differs⟩ := MoveInput.collision_some kept member plain collided
      constructor
      · intro atFree
        exact absurd atFree (free _ sourceMember)
      · intro atSource
        have isSource := kept.tree.paths_distinct c cMember _ sourceMember (atTarget.trans atSource)
        exact absurd (congrArg FSEntry.uuid isSource) differs

theorem miscut_iff (kept : WellKept s) {userId : Nat} {input : MoveInput} {cleared : FsState}
    {name : Text} (movable : Movable env s userId input) (plain : PlainName input.name)
    (sourceMember : input.source ∈ s.entries) (member : input.destinationParent ∈ s.entries)
    (notSelf : input.destinationParent ≠ input.source)
    (way : WayMade s cleared input.destinationParent input.name input.overwrite (input.collision s)
      name) (stays : input.source ∈ cleared.entries) :
    Miscut cleared input.source ↔ Miscut s input.source := by
  generalize collided : input.collision s = collision at way
  cases way with
  | free same => rw [same]
  | deduped c asked deduped same plainDeduped free => rw [same]
  | removed c asked gone =>
      apply and_congr_right
      intro _
      constructor
      · rintro ⟨e, eMember, under⟩
        exact ⟨e, gone.old eMember, under⟩
      · rintro ⟨e, eMember, under⟩
        obtain ⟨cMember, atTarget, differs⟩ := MoveInput.collision_some kept member plain collided
        have apart := movable.not_under kept sourceMember member notSelf plain
        rw [← atTarget] at apart
        refine ⟨e, gone.mem eMember ?_ ?_, under⟩
        · intro atCollision
          rw [atCollision] at under
          exact apart under
        · intro underCollision
          obtain same | above | below := under_total underCollision under
          · have isSource := kept.tree.paths_distinct c cMember _ sourceMember same
            exact differs (congrArg FSEntry.uuid isSource)
          · exact gone.not_under stays above
          · exact apart below

theorem move_tree (kept : WellKept s) {userId : Nat} {input : MoveInput} {updated : FSEntry}
    (sourceMember : input.source ∈ s.entries) (member : input.destinationParent ∈ s.entries)
    (plain : PlainName input.name) (ran : move env userId input s = .ok updated s') :
    (MoveSlips s input → ¬ WellFormed s'.entries) ∧ (¬ MoveSlips s input → WellKept s') := by
  obtain ⟨movable, cleared, name, way, relocated⟩ := move_ok kept sourceMember member plain ran
  have collides := fun c => @MoveInput.collision_some _ kept _ c member plain
  obtain ⟨clearedKept, clearedMember, plainResult⟩ :=
    way.kept kept member plain fun c isCollision => (collides c isCollision).2.1
  have stays := relocated.source_mem kept sourceMember way
  by_cases self : input.destinationParent = input.source
  · have ownParent := relocated.not_wellFormed_of_self clearedKept stays
      (congrArg (fun d : FSEntry => some d.uuid) self)
    exact ⟨fun _ => ownParent, fun sound => absurd (Or.inl self) sound⟩
  · have apart := movable.not_under kept sourceMember member self plainResult
    have moved := moved_iff kept sourceMember member plain way
    have miscut := miscut_iff kept movable plain sourceMember member self way stays
    have place : NewPlace cleared input.source
        (movePatch env input name (input.destinationParent.path ++ '/' :: name))
        (input.destinationParent.path ++ '/' :: name) := by
      refine ⟨rfl, apart, plainResult, ?_, Or.inr ⟨_, clearedMember, rfl, movable.isDir, rfl, self, rfl⟩⟩
      apply way.only_source
      · exact MoveInput.collision_none kept sourceMember member plain
      · exact fun c isCollision => (collides c isCollision).2.1
    constructor
    · rintro (isSelf | ⟨elsewhere, miscutSource⟩)
      · exact absurd isSelf self
      · apply relocated.not_wellFormed clearedKept stays rfl apart _ (miscut.mpr miscutSource)
        exact fun same => elsewhere (moved.mp same)
    · intro sound
      apply relocated.wellKept clearedKept stays place
      · intro same
        apply kept.owner_of_under member sourceMember
        rw [same]
        exact under_append '/' _ _
      · by_cases same : input.source.path = input.destinationParent.path ++ '/' :: name
        · exact Or.inl same
        · exact Or.inr fun miscutCleared => sound (Or.inr
            ⟨fun elsewhere => same (moved.mpr elsewhere), miscut.mp miscutCleared⟩)

/-- One call of the service. -/
inductive FsCall where
  | mkdir (input : MkdirInput)
  | touch (input : TouchInput)
  | mkshortcut (input : MkshortcutInput)
  | write (request : WriteRequest)
  | rename (entry : FSEntry) (newName : Text)
  | move (input : MoveInput)
  | copy (input : CopyInput)
  | remove (input : RemoveInput)

namespace FsCall

def run (env : FsEnv) (userId : Nat) : FsCall → FsRun Unit
  | .mkdir input => do
      let _ ← FSService.mkdir env userId input
      return ()
  | .touch input => do
      let _ ← FSService.touch env userId input
      return ()
  | .mkshortcut input => do
      let _ ← FSService.mkshortcut env input
      return ()
  | .write request => do
      let _ ← FSService.write env userId request
      return ()
  | .rename entry newName => do
      let _ ← FSService.rename env userId entry newName
      return ()
  | .move input => do
      let _ ← FSService.move env userId input
      return ()
  | .copy input => do
      let _ ← FSService.copy env userId input
      return ()
  | .remove input => FSService.remove env userId input

/-- The entries of a call are rows of the state, and its names and paths are plain. -/
def DrawnFrom (s : FsState) : FsCall → Prop
  | .mkdir input => PlainPath input.path
  | .touch input => PlainPath input.path
  | .mkshortcut input =>
      input.parent ∈ s.entries ∧ input.parent.isDir = true ∧ PlainName input.name
  | .write request => PlainPath request.path
  | .rename entry newName => entry ∈ s.entries ∧ PlainName newName
  | .move input =>
      input.source ∈ s.entries ∧ input.destinationParent ∈ s.entries ∧ PlainName input.name
  | .copy input =>
      input.source ∈ s.entries ∧ input.destinationParent ∈ s.entries ∧ PlainName input.name
  | .remove input => input.entry ∈ s.entries

def Slips (s : FsState) : FsCall → Prop
  | .rename entry newName => newName ≠ entry.name ∧ Miscut s entry
  | .move input => MoveSlips s input
  | _ => False

theorem tree {userId : Nat} {call : FsCall} (kept : WellKept s) (drawn : call.DrawnFrom s)
    (ran : call.run env userId s = .ok () s') :
    (call.Slips s → ¬ WellFormed s'.entries) ∧ (¬ call.Slips s → WellKept s') := by
  cases call with
  | mkdir input =>
      obtain ⟨_, _, called, done⟩ := bind_ok.mp ran
      obtain ⟨-, rfl⟩ := pure_ok.mp done
      exact ⟨fun slips => slips.elim, fun _ => mkdir_kept kept drawn called⟩
  | touch input =>
      obtain ⟨_, _, called, done⟩ := bind_ok.mp ran
      obtain ⟨-, rfl⟩ := pure_ok.mp done
      exact ⟨fun slips => slips.elim, fun _ => touch_kept kept drawn called⟩
  | mkshortcut input =>
      obtain ⟨member, isDir, plain⟩ := drawn
      obtain ⟨_, _, called, done⟩ := bind_ok.mp ran
      obtain ⟨-, rfl⟩ := pure_ok.mp done
      exact ⟨fun slips => slips.elim, fun _ => mkshortcut_kept kept member isDir plain called⟩
  | write request =>
      obtain ⟨_, _, called, done⟩ := bind_ok.mp ran
      obtain ⟨-, rfl⟩ := pure_ok.mp done
      exact ⟨fun slips => slips.elim, fun _ => write_kept kept drawn called⟩
  | rename entry newName =>
      obtain ⟨member, plain⟩ := drawn
      obtain ⟨_, _, called, done⟩ := bind_ok.mp ran
      obtain ⟨-, rfl⟩ := pure_ok.mp done
      exact rename_tree kept member plain called
  | move input =>
      obtain ⟨sourceMember, member, plain⟩ := drawn
      obtain ⟨_, _, called, done⟩ := bind_ok.mp ran
      obtain ⟨-, rfl⟩ := pure_ok.mp done
      exact move_tree kept sourceMember member plain called
  | copy input =>
      obtain ⟨sourceMember, member, plain⟩ := drawn
      obtain ⟨_, _, called, done⟩ := bind_ok.mp ran
      obtain ⟨-, rfl⟩ := pure_ok.mp done
      exact ⟨fun slips => slips.elim, fun _ => copy_kept kept sourceMember member plain called⟩
  | remove input =>
      exact ⟨fun slips => slips.elim, fun _ => (remove_ok kept drawn ran).kept kept⟩

end FsCall

/-- A run of calls that end well, each drawn from the state it finds and none of them a slip. -/
inductive SoundRun : FsState → FsState → Prop where
  | none {s : FsState} : SoundRun s s
  | call {s between s' : FsState} {env : FsEnv} {userId : Nat} {call : FsCall}
      (before : SoundRun s between) (drawn : call.DrawnFrom between) (sound : ¬ call.Slips between)
      (ran : call.run env userId between = .ok () s') : SoundRun s s'

def openEnv : FsEnv where
  now := 7
  uniqueNames := true
  s3Bucket := ['b']
  s3Region := ['r']
  s3Fails := fun _ => false
  storageMax := fun _ _ => 100
  crossAppDeleteAllowed := fun _ _ => true
  actorMayWrite := fun _ _ => false
  stripReservedMetadataKeys := id
  serializeMetadata := fun metadata _ _ => metadata

def sampleRow (id userId : Nat) (parent : Option Nat) (name path : Text) (isDir : Bool)
    (size : Nat) : FSEntry where
  id := id
  uuid := id
  userId := userId
  parentId := parent
  parentUid := parent
  name := name
  path := path
  isDir := isDir
  isShortcut := false
  shortcutTo := none
  isSymlink := false
  symlinkPath := none
  bucket := if isDir then none else some ['b']
  bucketRegion := if isDir then none else some ['r']
  size := size
  details := ⟨none, none, none, none, false, 1, 1, 1⟩

def sampleHome : FSEntry := sampleRow 1 1 none ['u'] ['/', 'u'] true 0

def sampleDir : FSEntry := sampleRow 2 1 (some 1) ['😀'] ['/', 'u', '/', '😀'] true 0

def sampleFile : FSEntry := sampleRow 3 1 (some 2) ['x'] ['/', 'u', '/', '😀', '/', 'x'] false 5

def sampleTree : FsState where
  entries := [sampleHome, sampleDir, sampleFile]
  objects := [⟨⟨['r'], ['b'], 3⟩, ['h', 'e', 'l', 'l', 'o']⟩]
  nextId := 4
  nextUuid := 4

theorem sampleTree_kept : WellKept sampleTree := by decide +kernel

end Puter

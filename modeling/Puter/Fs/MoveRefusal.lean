/-
Module: Puter.Fs.MoveRefusal
Purpose: A move that one of its own checks refuses changes nothing, and one that overwrites takes away
  the replaced entry and what lies below it, and nothing else. The one check that comes too late is the
  allowance of the new owner: it is made after the entry in the way has been removed.
Trusted boundary: none
Main exports: moveRefusals, move_allOrNothing_iff
-/
import Puter.Fs.TreeInvariant
import Puter.Fs.Refusal

namespace Puter

open PosixPath StateRun FSEntryStore PathForest FSService

variable {env : FsEnv} {s s' : FsState} {userId : Nat} {input : MoveInput}

/-- The errors of the checks that `move` makes: authorization, destination kind, moving into itself,
    name, collision, and the allowance of the new owner. -/
def moveRefusals (input : MoveInput) : List FsError :=
  [.ofHttp 403 "Forbidden".toList "forbidden",
    .ofHttp 403 "Cannot restructure an entry owned by another user".toList "forbidden",
    .ofHttp 403 "Cannot move an entry out of its owner's tree".toList "forbidden",
    destIsNotADirectory,
    .ofHttp 400 "Cannot move a directory into itself".toList "cannot_move_directory_into_itself",
    .ofHttp 400 "Name cannot be empty".toList "bad_request",
    .ofHttp 400 "Name cannot contain a slash".toList "bad_request",
    .ofHttp 400 "Name cannot be `.` or `..`".toList "bad_request",
    sameNameExists (childPath input.destinationParent.path input.name) input.name,
    storageLimitReached]

def handedSize (entries : List FSEntry) (source : FSEntry) : Nat :=
  if source.isDir then ((subtreeRows entries source.userId source.path).map (·.size)).sum
  else source.size

def handOverRefused (env : FsEnv) (entries : List FSEntry) (input : MoveInput) : Bool :=
  input.destinationParent.userId != input.source.userId &&
    overAllowance env entries input.destinationParent.userId (handedSize entries input.source) 0 none

/-- A move takes the entry in its way and is refused after that: it is asked and allowed to overwrite,
    and the new owner has no room, as the table stands without the replaced entry. -/
def LosesReplaced (env : FsEnv) (userId : Nat) (s : FsState) (input : MoveInput) : Prop :=
  Movable env s userId input ∧ input.overwrite = true ∧
    ∃ c, input.collision s = some c ∧
      mayRemove env s userId { entry := c, recursive := true } = true ∧
      handOverRefused env (entriesWithout s.entries c) input = true

theorem assertMovable_error {e : FsError} (ran : assertMovable env userId input s = .error e s') :
    ¬ Movable env s userId input := by
  intro movable
  unfold assertMovable at ran
  obtain failed | ⟨_, _, check, ran⟩ := bind_error.mp ran
  · exact absurd movable.crossApp (by simp [assertCrossAppDeleteAllowed_error failed])
  obtain ⟨-, rfl⟩ := assertCrossAppDeleteAllowed_ok check
  obtain failed | ⟨_, _, check, ran⟩ := bind_error.mp ran
  · exact absurd movable.restructure (by simp [assertCanRestructure_error failed])
  obtain ⟨-, rfl⟩ := assertCanRestructure_ok check
  obtain failed | ⟨_, _, check, ran⟩ := bind_error.mp ran
  · obtain ⟨leaves, -⟩ := refuseIf_error.mp failed
    simp only [Bool.and_eq_true, bne_iff_ne, ne_eq] at leaves
    exact movable.staysOwned.elim leaves.1 leaves.2
  obtain ⟨-, rfl⟩ := refuseIf_ok.mp check
  obtain failed | ⟨_, _, check, ran⟩ := bind_error.mp ran
  · simp [refuseIf_error, movable.isDir] at failed
  obtain ⟨-, rfl⟩ := refuseIf_ok.mp check
  obtain failed | ⟨_, _, check, ran⟩ := bind_error.mp ran
  · obtain ⟨into, -⟩ := refuseIf_error.mp failed
    rw [Bool.and_eq_true, startsUnder_iff] at into
    exact movable.apart into.1 into.2
  · exact assertUsableName_error ran movable.usable

theorem entryStorageSize_value {entry : FSEntry} (plain : PlainPath entry.path) {size : Nat}
    (ran : entryStorageSize entry s = .ok size s') :
    size = handedSize s.entries entry ∧ s = s' := by
  unfold entryStorageSize at ran
  unfold handedSize
  split at ran
  next isDir =>
    obtain ⟨_, _, norm, ran⟩ := bind_ok.mp ran
    obtain ⟨rfl, rfl⟩ := (normalized_plain plain).mp norm
    obtain ⟨_, _, got, ran⟩ := bind_ok.mp ran
    obtain ⟨rfl, rfl⟩ := get_ok.mp got
    obtain ⟨rfl, rfl⟩ := pure_ok.mp ran
    exact ⟨by rw [if_pos isDir], rfl⟩
  next leaf =>
    obtain ⟨rfl, rfl⟩ := pure_ok.mp ran
    exact ⟨by rw [if_neg leaf], rfl⟩

theorem entryStorageSize_plain_error {entry : FSEntry} (plain : PlainPath entry.path) {e : FsError} :
    ¬ entryStorageSize entry s = .error e s' := by
  intro ran
  unfold entryStorageSize at ran
  split at ran
  · obtain failed | ⟨_, _, -, ran⟩ := bind_error.mp ran
    · exact normalized_plain_error plain failed
    obtain failed | ⟨_, _, -, ran⟩ := bind_error.mp ran
    · exact get_error failed
    · exact pure_error ran
  · exact pure_error ran

theorem assertHandOver_passes (plain : PlainPath input.source.path) {u : Unit}
    (ran : assertHandOver env input s = .ok u s') : handOverRefused env s.entries input = false := by
  unfold handOverRefused
  obtain ⟨-, ran⟩ | ⟨same, rfl⟩ := runIf_ok.mp ran
  · obtain ⟨size, _, sized, ran⟩ := bind_ok.mp ran
    obtain ⟨rfl, rfl⟩ := entryStorageSize_value plain sized
    rw [(assertStorageAllowance_ok ran).1, Bool.and_false]
  · rw [same, Bool.false_and]

theorem assertHandOver_error (plain : PlainPath input.source.path) {e : FsError}
    (ran : assertHandOver env input s = .error e s') :
    e = storageLimitReached ∧ handOverRefused env s.entries input = true := by
  unfold handOverRefused
  obtain ⟨differs, ran⟩ := runIf_error.mp ran
  obtain failed | ⟨size, _, sized, ran⟩ := bind_error.mp ran
  · exact absurd failed (entryStorageSize_plain_error plain)
  · obtain ⟨rfl, rfl⟩ := entryStorageSize_value plain sized
    unfold assertStorageAllowance at ran
    obtain failed | ⟨_, _, got, ran⟩ := bind_error.mp ran
    · exact absurd failed get_error
    · obtain ⟨rfl, rfl⟩ := get_ok.mp got
      obtain ⟨tooMuch, rfl, -⟩ := refuseIf_error.mp ran
      exact ⟨rfl, by rw [differs, tooMuch]; rfl⟩

theorem updateEntry_error {uuid : Nat} {patch : EntryPatch} {e : FsError}
    (ran : updateEntry env uuid patch s = .error e s') : e = .duplicateEntry ∨
      e = .ofHttp 404 "Entry not found after update".toList "not_found" := by
  unfold updateEntry at ran
  obtain failed | ⟨_, _, -, ran⟩ := bind_error.mp ran
  · exact absurd failed get_error
  obtain failed | ⟨_, _, -, ran⟩ := bind_error.mp ran
  · exact Or.inl (refuseIf_error.mp failed).2.1.symm
  obtain failed | ⟨_, _, -, ran⟩ := bind_error.mp ran
  · exact absurd failed set_error
  obtain failed | ⟨_, _, -, ran⟩ := bind_error.mp ran
  · exact absurd failed get_error
  · exact Or.inr (orThrow_error.mp ran).2.1.symm

theorem normalizePath_error {path : Text} {e : FsError} (refused : normalizePath path = .error e) :
    e = .ofHttp 400 "Path cannot be empty".toList "bad_request" ∨
      e = .ofHttp 400 "Invalid path".toList "bad_request" := by
  unfold normalizePath at refused
  dsimp only at refused
  split at refused
  · exact Or.inl (Except.error.inj refused).symm
  · split at refused
    · exact Or.inr (Except.error.inj refused).symm
    · cases refused

theorem normalized_refuses {path : Text} {e : FsError} (ran : normalized path s = .error e s') :
    e = .ofHttp 400 "Path cannot be empty".toList "bad_request" ∨
      e = .ofHttp 400 "Invalid path".toList "bad_request" := by
  unfold normalized at ran
  cases norm : normalizePath path with
  | ok normalizedPath =>
      rw [norm] at ran
      exact absurd ran pure_error
  | error error =>
      rw [norm] at ran
      obtain ⟨rfl, -⟩ := throw_error.mp ran
      exact normalizePath_error norm

theorem updatePathPrefixForUser_error {owner : Nat} {oldPrefix newPrefix : Text}
    {newUserId : Option Nat} {e : FsError}
    (ran : updatePathPrefixForUser env owner oldPrefix newPrefix newUserId s = .error e s') :
    e = .ofHttp 400 "Path cannot be empty".toList "bad_request" ∨
      e = .ofHttp 400 "Invalid path".toList "bad_request" ∨
      e = .ofHttp 400 "Cannot rewrite path prefix to/from root".toList "bad_request" := by
  unfold updatePathPrefixForUser at ran
  obtain failed | ⟨_, _, -, ran⟩ := bind_error.mp ran
  · exact (normalized_refuses failed).imp_right Or.inl
  obtain failed | ⟨_, _, -, ran⟩ := bind_error.mp ran
  · exact (normalized_refuses failed).imp_right Or.inl
  obtain failed | ⟨_, _, -, ran⟩ := bind_error.mp ran
  · exact Or.inr (Or.inr (refuseIf_error.mp failed).2.1.symm)
  · exact absurd (runIf_error.mp ran).2 modify_error

theorem relocate_error {name finalPath : Text} {e : FsError}
    (ran : relocate env input name finalPath s = .error e s') : e ∉ moveRefusals input := by
  unfold relocate at ran
  obtain failed | ⟨_, _, -, ran⟩ := bind_error.mp ran
  · obtain rfl | rfl := updateEntry_error failed
    · simp [moveRefusals, FsError.ofHttp, destIsNotADirectory, sameNameExists, storageLimitReached]
    · simp [moveRefusals, FsError.ofHttp, destIsNotADirectory, sameNameExists, storageLimitReached]
  obtain failed | ⟨_, _, -, ran⟩ := bind_error.mp ran
  · obtain rfl | rfl | rfl := updatePathPrefixForUser_error (runIf_error.mp failed).2
    · simp [moveRefusals, FsError.ofHttp, destIsNotADirectory, sameNameExists, storageLimitReached]
    · simp [moveRefusals, FsError.ofHttp, destIsNotADirectory, sameNameExists, storageLimitReached]
    · simp [moveRefusals, FsError.ofHttp, destIsNotADirectory, sameNameExists, storageLimitReached]
  · exact absurd ran pure_error

/-- What happened to the entry in the way: nothing, or it was removed as it was asked. -/
def Cleared (env : FsEnv) (userId : Nat) (s cleared : FsState) (input : MoveInput) : Prop :=
  s = cleared ∧ (input.collision s = none ∨ input.overwrite = false) ∨
    ∃ c, input.collision s = some c ∧ input.overwrite = true ∧
      mayRemove env s userId { entry := c, recursive := true } = true ∧
      Removed s cleared { entry := c, recursive := true }

theorem Cleared.not_loses {cleared : FsState} (way : Cleared env userId s cleared input)
    (passes : handOverRefused env cleared.entries input = false) :
    ¬ LosesReplaced env userId s input := by
  rintro ⟨-, asked, c, isCollision, -, refused⟩
  obtain ⟨-, none | notAsked⟩ | ⟨c', isCollision', -, -, removed⟩ := way
  · rw [isCollision] at none
    cases none
  · rw [asked] at notAsked
    cases notAsked
  · rw [isCollision] at isCollision'
    cases isCollision'
    rw [removed.entriesWithout, refused] at passes
    cases passes

theorem move_error (kept : WellKept s) (sourceMember : input.source ∈ s.entries) {e : FsError}
    (ran : move env userId input s = .error e s') :
    s = s' ∧ ¬ LosesReplaced env userId s input ∨
    (LosesReplaced env userId s input ∧ e = storageLimitReached ∧
      ∃ c, input.collision s = some c ∧ s'.entries = entriesWithout s.entries c) ∨
    e ∉ moveRefusals input ∧ ¬ LosesReplaced env userId s input := by
  have plain := kept.plainPath _ sourceMember
  unfold move at ran
  obtain failed | ⟨_, _, check, ran⟩ := bind_error.mp ran
  · exact Or.inl ⟨(assertMovable_reads env userId input).error failed,
      fun loses => assertMovable_error failed loses.1⟩
  obtain ⟨movable, rfl⟩ := assertMovable_ok check
  obtain failed | ⟨found, _, looked, ran⟩ := bind_error.mp ran
  · refine Or.inl ⟨(getEntryByPath_reads _).error failed, ?_⟩
    rintro ⟨-, -, c, isCollision, -⟩
    simp [MoveInput.collision, getEntryByPath_error failed] at isCollision
  obtain ⟨rfl, rfl⟩ := getEntryByPath_storedAt looked
  have collides : ∀ c, input.collision s = some c → c ∈ s.entries :=
    fun c isCollision => (MoveInput.collision_mem isCollision).1
  obtain failed | ⟨name, cleared, made, ran⟩ := bind_error.mp ran
  · obtain ⟨same, refused⟩ := makeWay_error kept collides failed
    refine Or.inl ⟨same, ?_⟩
    rintro ⟨-, asked, c, isCollision, allowed, -⟩
    rw [refused c isCollision asked] at allowed
    cases allowed
  have way : Cleared env userId s cleared input := makeWay_cleared kept collides made
  obtain failed | ⟨_, _, check, ran⟩ := bind_error.mp ran
  · obtain ⟨isLimit, refused⟩ := assertHandOver_error plain failed
    obtain rfl := (assertHandOver_reads env input).error failed
    obtain ⟨rfl, notReplacing⟩ | ⟨c, isCollision, asked, allowed, removed⟩ := way
    · refine Or.inl ⟨rfl, ?_⟩
      rintro ⟨-, asked, c, isCollision, -⟩
      simp [asked, isCollision] at notReplacing
    · have without := removed.entriesWithout
      rw [without] at refused
      exact Or.inr (Or.inl ⟨⟨movable, asked, c, isCollision, allowed, refused⟩, isLimit, c,
        isCollision, without⟩)
  · have passes := assertHandOver_passes plain check
    obtain rfl := (assertHandOver_reads env input).ok check
    exact Or.inr (Or.inr ⟨relocate_error ran, way.not_loses passes⟩)

theorem updateEntry_uuids {uuid : Nat} {patch : EntryPatch} {entry : FSEntry}
    (ran : updateEntry env uuid patch s = .ok entry s') :
    s'.entries.map (·.uuid) = s.entries.map (·.uuid) ∧ uuid ∈ s.entries.map (·.uuid) := by
  obtain ⟨after, member, sameUuid⟩ := updateEntry_ok ran
  have sameUuids : s'.entries.map (·.uuid) = s.entries.map (·.uuid) := by
    rw [after]
    change List.map _ (List.map _ _) = _
    rw [List.map_map]
    apply List.map_congr_left
    intro e _
    simp only [Function.comp_apply]
    split <;> rfl
  exact ⟨sameUuids, sameUuids ▸ List.mem_map.mpr ⟨entry, member, sameUuid⟩⟩

theorem updatePathPrefixForUser_uuids {owner : Nat} {oldPrefix newPrefix : Text}
    {newUserId : Option Nat} {u : Unit}
    (ran : updatePathPrefixForUser env owner oldPrefix newPrefix newUserId s = .ok u s') :
    s'.entries.map (·.uuid) = s.entries.map (·.uuid) := by
  unfold updatePathPrefixForUser at ran
  obtain ⟨_, _, norm, ran⟩ := bind_ok.mp ran
  obtain ⟨-, rfl⟩ := normalized_ok.mp norm
  obtain ⟨_, _, norm, ran⟩ := bind_ok.mp ran
  obtain ⟨-, rfl⟩ := normalized_ok.mp norm
  obtain ⟨_, _, check, ran⟩ := bind_ok.mp ran
  obtain ⟨-, rfl⟩ := refuseIf_ok.mp check
  obtain ⟨-, ran⟩ | ⟨-, rfl⟩ := runIf_ok.mp ran
  · rw [← modify_ok.mp ran]
    change List.map _ (List.map _ _) = _
    rw [List.map_map]
    apply List.map_congr_left
    intro e _
    simp only [Function.comp_apply]
    split <;> rfl
  · rfl

theorem relocate_uuids {name finalPath : Text} {moved : FSEntry}
    (ran : relocate env input name finalPath s = .ok moved s') :
    s'.entries.map (·.uuid) = s.entries.map (·.uuid) ∧
      input.source.uuid ∈ s.entries.map (·.uuid) := by
  unfold relocate at ran
  obtain ⟨_, between, wrote, ran⟩ := bind_ok.mp ran
  obtain ⟨_, _, rewrote, ran⟩ := bind_ok.mp ran
  obtain ⟨rfl, rfl⟩ := pure_ok.mp ran
  obtain ⟨sameUuids, stored⟩ := updateEntry_uuids wrote
  refine ⟨?_, stored⟩
  obtain ⟨-, rewrote⟩ | ⟨-, rfl⟩ := runIf_ok.mp rewrote
  · exact (updatePathPrefixForUser_uuids rewrote).trans sameUuids
  · exact sameUuids

theorem move_uuids (kept : WellKept s) (sourceMember : input.source ∈ s.entries) {moved : FSEntry}
    (ran : move env userId input s = .ok moved s') :
    ¬ LosesReplaced env userId s input ∧ ∃ cleared, Cleared env userId s cleared input ∧
      s'.entries.map (·.uuid) = cleared.entries.map (·.uuid) ∧
      input.source.uuid ∈ cleared.entries.map (·.uuid) := by
  have plain := kept.plainPath _ sourceMember
  unfold move at ran
  obtain ⟨_, _, check, ran⟩ := bind_ok.mp ran
  obtain ⟨-, rfl⟩ := assertMovable_ok check
  obtain ⟨found, _, looked, ran⟩ := bind_ok.mp ran
  obtain ⟨rfl, rfl⟩ := getEntryByPath_storedAt looked
  obtain ⟨name, cleared, made, ran⟩ := bind_ok.mp ran
  have way : Cleared env userId s cleared input :=
    makeWay_cleared kept (fun c isCollision => (MoveInput.collision_mem isCollision).1) made
  obtain ⟨_, _, check, ran⟩ := bind_ok.mp ran
  have passes := assertHandOver_passes plain check
  obtain rfl := (assertHandOver_reads env input).ok check
  exact ⟨way.not_loses passes, _, way, relocate_uuids ran⟩

/-- Refused by one of its own checks, the move has changed neither a row nor an object; and when it has
    overwritten, only the replaced entry and what is below it are gone, and not the moved entry. -/
def AllOrNothing (env : FsEnv) (userId : Nat) (s : FsState) (input : MoveInput) : Prop :=
  (∀ e s', move env userId input s = .error e s' → e ∈ moveRefusals input →
    s'.entries = s.entries ∧ s'.objects = s.objects) ∧
  ∀ moved s', move env userId input s = .ok moved s' → input.overwrite = true →
    ∀ e ∈ s.entries, e.uuid ∉ s'.entries.map (·.uuid) → e ≠ input.source ∧
      ∃ c, input.collision s = some c ∧ (e = c ∨ Below fsShape s.entries c e)

theorem move_takes (kept : WellKept s) (sourceMember : input.source ∈ s.entries) {moved : FSEntry}
    (ran : move env userId input s = .ok moved s') {e : FSEntry} (member : e ∈ s.entries)
    (gone : e.uuid ∉ s'.entries.map (·.uuid)) : e ≠ input.source ∧
      ∃ c, input.collision s = some c ∧ (e = c ∨ Below fsShape s.entries c e) := by
  obtain ⟨-, cleared, way, sameUuids, stored⟩ := move_uuids kept sourceMember ran
  rw [sameUuids] at gone
  constructor
  · rintro rfl
    exact gone stored
  obtain ⟨rfl, -⟩ | ⟨c, isCollision, -, -, removed⟩ := way
  · exact absurd (List.mem_map_of_mem member) gone
  · refine ⟨c, isCollision, ?_⟩
    have cMember := (MoveInput.collision_mem isCollision).1
    by_contra stays
    apply gone
    apply List.mem_map_of_mem
    apply removed.mem member
    · intro here
      exact stays (Or.inl (kept.tree.paths_distinct e member c cMember here))
    · intro under
      have notRoot := (kept.plainPath c cMember).ne_nil
      exact stays (Or.inr ((below_iff_under kept.tree kept.segmented kept.tidy.uuids cMember notRoot
        member).mpr under))

/-- Two homes. The first has a file of 50 bytes; the second has one of 10 bytes with the same name, and
    one of 60. -/
def handOverTree : FsState where
  entries := [sampleRow 1 1 none ['a'] ['/', 'a'] true 0, sampleRow 2 2 none ['b'] ['/', 'b'] true 0,
    sampleRow 3 1 (some 1) ['x'] ['/', 'a', '/', 'x'] false 50,
    sampleRow 4 2 (some 2) ['x'] ['/', 'b', '/', 'x'] false 10,
    sampleRow 5 2 (some 2) ['y'] ['/', 'b', '/', 'y'] false 60]
  objects := [⟨⟨['r'], ['b'], 3⟩, ['3']⟩, ⟨⟨['r'], ['b'], 4⟩, ['4']⟩, ⟨⟨['r'], ['b'], 5⟩, ['5']⟩]
  nextId := 6
  nextUuid := 6

def handOver : MoveInput where
  source := sampleRow 3 1 (some 1) ['x'] ['/', 'a', '/', 'x'] false 50
  destinationParent := sampleRow 2 2 none ['b'] ['/', 'b'] true 0
  overwrite := true

theorem handOverTree_kept : WellKept handOverTree := by decide +kernel

def moveHome : MoveInput :=
  { handOver with destinationParent := sampleRow 1 1 none ['a'] ['/', 'a'] true 0 }

end Puter

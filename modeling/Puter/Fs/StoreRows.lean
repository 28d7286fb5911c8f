/-
Module: Puter.Fs.StoreRows
Purpose: What the creating calls of the filesystem store do to the rows of any table, however they end:
  making the directories of a path only adds directories with new uuids, and writing a file then changes
  one row or adds one, or nothing.
Trusted boundary: none
Main exports: MadeDirectories, createEntry_written
-/
import Puter.Fs.Refusal

namespace Puter

open PosixPath StateRun FSEntryStore

variable {env : FsEnv} {s s' : FsState}

/-- Only directories were added, with uuids drawn meanwhile. -/
structure MadeDirectories (s s' : FsState) : Prop where
  entries : ∃ made, s'.entries = s.entries ++ made ∧
    ∀ row ∈ made, row.isDir = true ∧ s.nextUuid ≤ row.uuid ∧ row.uuid < s'.nextUuid
  objects : s'.objects = s.objects
  moreUuids : s.nextUuid ≤ s'.nextUuid

namespace MadeDirectories

theorem refl (s : FsState) : MadeDirectories s s :=
  ⟨⟨[], by simp, by simp⟩, rfl, le_refl _⟩

theorem trans {s₁ s₂ : FsState} (first : MadeDirectories s s₁) (second : MadeDirectories s₁ s₂) :
    MadeDirectories s s₂ := by
  obtain ⟨made₁, entries₁, new₁⟩ := first.entries
  obtain ⟨made₂, entries₂, new₂⟩ := second.entries
  refine ⟨⟨made₁ ++ made₂, by rw [entries₂, entries₁, List.append_assoc], ?_⟩,
    second.objects.trans first.objects, first.moreUuids.trans second.moreUuids⟩
  intro row member
  rcases List.mem_append.mp member with one | two
  · obtain ⟨isDir, low, high⟩ := new₁ row one
    exact ⟨isDir, low, high.trans_le second.moreUuids⟩
  · obtain ⟨isDir, low, high⟩ := new₂ row two
    exact ⟨isDir, first.moreUuids.trans low, high⟩

instance : IsPreorder FsState MadeDirectories where
  refl := refl
  trans := fun _ _ _ => trans

theorem old (made : MadeDirectories s s') {row : FSEntry} (member : row ∈ s.entries) :
    row ∈ s'.entries := by
  obtain ⟨rows, entries, -⟩ := made.entries
  rw [entries]
  exact List.mem_append_left _ member

theorem cases (made : MadeDirectories s s') {row : FSEntry} (member : row ∈ s'.entries) :
    row ∈ s.entries ∨ row.isDir = true ∧ s.nextUuid ≤ row.uuid ∧ row.uuid < s'.nextUuid := by
  obtain ⟨rows, entries, new⟩ := made.entries
  rw [entries] at member
  exact (List.mem_append.mp member).imp_right (new row)

theorem draw (entries : s'.entries = s.entries) (objects : s'.objects = s.objects)
    (moreUuids : s.nextUuid ≤ s'.nextUuid) : MadeDirectories s s' :=
  ⟨⟨[], by rw [entries, List.append_nil], by simp⟩, objects, moreUuids⟩

end MadeDirectories

theorem insertDirectory_made (env : FsEnv) (path : Text) (userId : Nat)
    (parentEntry : Option FSEntry) :
    Keeps MadeDirectories (insertDirectory env path userId parentEntry) := by
  intro s
  change MadeDirectories s (if keyTaken env s.entries
    (directoryRow env path userId parentEntry s.nextId s.nextUuid) then _ else _)
  split
  · exact .draw rfl rfl (Nat.le_succ _)
  · refine ⟨⟨_, rfl, fun row member => ?_⟩, rfl, Nat.le_succ _⟩
    rw [List.mem_singleton.mp member]
    exact ⟨rfl, le_refl _, Nat.lt_succ_self _⟩

theorem asDirectory_reads (path : Text) (found : Option FSEntry) :
    ReadsOnly (asDirectory path found) := by
  cases found with
  | none => exact .throw _
  | some entry =>
      unfold asDirectory
      dsimp only
      split
      · exact .pure _
      · exact .throw _

theorem insertBelow_made {path : Text} {userId : Nat} {ensureParent : Text → FsRun FSEntry}
    (ensures : ∀ parentPath, Keeps MadeDirectories (ensureParent parentPath)) :
    Keeps MadeDirectories (insertBelow env path userId ensureParent) := by
  unfold insertBelow
  split
  · exact insertDirectory_made env path userId none
  · exact (ensures _).bind fun parentEntry => insertDirectory_made env path userId (some parentEntry)

theorem ensureDirectoryPath_made (env : FsEnv) (userId : Nat) (createPaths : Bool) (levels : Nat)
    (path : Text) : Keeps MadeDirectories (ensureDirectoryPath env userId createPaths levels path) := by
  induction levels generalizing createPaths path with
  | zero => exact .throw _
  | succ levels ih =>
      refine (normalized_reads path).keeps.bind fun normalizedPath => Keeps.get.bind fun before => ?_
      split
      · exact (asDirectory_reads _ _).keeps
      · exact (Keeps.refuseIf _ _).bind fun _ => (Keeps.refuseIf _ _).bind fun _ =>
          (insertBelow_made fun parentPath => ih true parentPath).bind fun _ =>
          Keeps.get.bind fun _ => (asDirectory_reads _ _).keeps

theorem readEntriesByPaths_reads (paths : List Text) : ReadsOnly (readEntriesByPaths paths) := by
  induction paths with
  | nil => exact .pure _
  | cons path paths ih =>
      exact (getEntryByPath_reads path).bind fun _ => ih.bind fun _ => .pure _

theorem knownParent_reads (known : List (Text × FSEntry)) (path parentPath : Text) :
    ReadsOnly (knownParent known path parentPath) :=
  (Keeps.orThrow _ _).bind fun _ => (Keeps.refuseIf _ _).bind fun _ => .pure _

theorem resolveInserted_made (env : FsEnv) (userId : Nat) (path : Text) :
    Keeps MadeDirectories (resolveInserted env userId path) := by
  refine (readEntriesByPaths_reads _).keeps.bind fun inserted => ?_
  split
  · exact .pure _
  · exact ensureDirectoryPath_made env userId true _ path

theorem createMissingDirectory_made (env : FsEnv) (userId : Nat) (path : Text)
    (known : List (Text × FSEntry)) :
    Keeps MadeDirectories (createMissingDirectory env userId path known) :=
  (insertBelow_made fun parentPath => (knownParent_reads known path parentPath).keeps).bind fun _ =>
    (resolveInserted_made env userId path).bind fun _ => (Keeps.refuseIf _ _).bind fun _ => .pure _

theorem createMissingDirectories_made (env : FsEnv) (userId : Nat) (missing : List Text)
    (known : List (Text × FSEntry)) :
    Keeps MadeDirectories (createMissingDirectories env userId missing known) := by
  induction missing generalizing known with
  | nil => exact .pure _
  | cons path missing ih =>
      exact (createMissingDirectory_made env userId path known).bind ih

theorem ensureDirectoryPathsForUser_made (env : FsEnv) (userId : Nat) (requiredPath : Text) :
    Keeps MadeDirectories (ensureDirectoryPathsForUser env userId requiredPath) := by
  refine (normalized_reads requiredPath).keeps.bind fun required =>
    (readEntriesByPaths_reads _).keeps.bind fun allEntries => ?_
  split
  · exact .throw _
  · exact createMissingDirectories_made env userId _ _

/-- What a file write that ends well does to the rows, once the directories of its path are made: the row
    at the target is written over, or there is none and a new row is put in, or none is because the uuid
    is taken, by the row that is then handed back. -/
inductive FileWritten (env : FsEnv) (input : FSEntryCreateInput) (targetPath : Text)
    (parentEntry : FSEntry) (s : FsState) : FSEntry → FsState → Prop where
  | replaced {existing : FSEntry} (stored : entryAt s.entries targetPath = some existing)
      (asked : input.overwrite = true) (isFile : existing.isDir = false) :
      FileWritten env input targetPath parentEntry s
        (overwrittenRow env input targetPath parentEntry existing)
        { s with
          entries := updateWhere (·.id == existing.id)
            (overwrittenRow env input targetPath parentEntry) s.entries }
  | added (free : entryAt s.entries targetPath = none)
      (fresh : ∀ row ∈ s.entries, row.uuid ≠ input.uuid) :
      FileWritten env input targetPath parentEntry s
        (fileRow env input targetPath parentEntry s.nextId)
        { s with
          entries := s.entries ++ [fileRow env input targetPath parentEntry s.nextId]
          nextId := s.nextId + 1 }
  | taken {entry : FSEntry} (free : entryAt s.entries targetPath = none)
      (holder : entryOf s.entries input.uuid = some entry) :
      FileWritten env input targetPath parentEntry s entry { s with nextId := s.nextId + 1 }

theorem overwriteEntry_written {input : FSEntryCreateInput} {targetPath : Text}
    {parentEntry existing entry : FSEntry} (stored : entryAt s.entries targetPath = some existing)
    (ran : overwriteEntry env input targetPath parentEntry existing s = .ok entry s') :
    FileWritten env input targetPath parentEntry s entry s' := by
  obtain ⟨_, _, check, ran⟩ := bind_ok.mp ran
  obtain ⟨asked, rfl⟩ := refuseIf_ok.mp check
  obtain ⟨_, _, check, ran⟩ := bind_ok.mp ran
  obtain ⟨isFile, rfl⟩ := refuseIf_ok.mp check
  obtain ⟨_, _, got, ran⟩ := bind_ok.mp ran
  obtain ⟨rfl, rfl⟩ := get_ok.mp got
  obtain ⟨_, _, check, ran⟩ := bind_ok.mp ran
  obtain ⟨-, rfl⟩ := refuseIf_ok.mp check
  obtain ⟨_, _, written, ran⟩ := bind_ok.mp ran
  obtain ⟨rfl, rfl⟩ := pure_ok.mp ran
  rw [← set_ok.mp written]
  exact .replaced stored (by simpa using asked) isFile

theorem insertFile_written {input : FSEntryCreateInput} {targetPath : Text}
    {parentEntry entry : FSEntry} (free : entryAt s.entries targetPath = none)
    (ran : insertFile env input targetPath parentEntry s = .ok entry s') :
    FileWritten env input targetPath parentEntry s entry s' := by
  obtain ⟨id, _, drawn, ran⟩ := bind_ok.mp ran
  obtain ⟨rfl, rfl⟩ := drawId_ok.mp drawn
  obtain ⟨_, _, inserted, ran⟩ := bind_ok.mp ran
  obtain ⟨_, _, got, ran⟩ := bind_ok.mp ran
  obtain ⟨rfl, rfl⟩ := get_ok.mp got
  obtain ⟨stored, rfl⟩ := orThrow_ok.mp ran
  have after := modify_ok.mp inserted
  by_cases refused : keyTaken env s.entries (fileRow env input targetPath parentEntry s.nextId) = true
  · rw [if_pos refused] at after
    subst after
    exact .taken free stored
  · rw [if_neg refused] at after
    subst after
    have fresh : ∀ row ∈ s.entries, row.uuid ≠ input.uuid := by
      simp only [keyTaken, Bool.or_eq_true, List.any_eq_true, beq_iff_eq, not_or, not_exists,
        not_and] at refused
      exact refused.1
    rw [entryOf_append _ fresh stored]
    exact .added free fresh

theorem insertFile_made {input : FSEntryCreateInput} {targetPath : Text} {parentEntry : FSEntry}
    {e : FsError} (ran : insertFile env input targetPath parentEntry s = .error e s') :
    MadeDirectories s s' := by
  obtain failed | ⟨id, _, drawn, ran⟩ := bind_error.mp ran
  · exact absurd failed drawId_error
  obtain ⟨rfl, rfl⟩ := drawId_ok.mp drawn
  obtain failed | ⟨_, _, inserted, ran⟩ := bind_error.mp ran
  · exact absurd failed modify_error
  obtain failed | ⟨_, _, got, ran⟩ := bind_error.mp ran
  · exact absurd failed get_error
  obtain ⟨rfl, rfl⟩ := get_ok.mp got
  obtain ⟨missing, -, rfl⟩ := orThrow_error.mp ran
  have after := modify_ok.mp inserted
  split at after
  · subst after
    exact .draw rfl rfl (le_refl _)
  · -- The row that was put in is found by its uuid.
    subst after
    simp [entryOf, fileRow] at missing

theorem overwriteEntry_made {input : FSEntryCreateInput} {targetPath : Text}
    {parentEntry existing : FSEntry} {e : FsError}
    (ran : overwriteEntry env input targetPath parentEntry existing s = .error e s') :
    MadeDirectories s s' := by
  obtain failed | ⟨_, _, check, ran⟩ := bind_error.mp ran
  · exact (refuseIf_error.mp failed).2.2 ▸ .refl s
  obtain ⟨-, rfl⟩ := refuseIf_ok.mp check
  obtain failed | ⟨_, _, check, ran⟩ := bind_error.mp ran
  · exact (refuseIf_error.mp failed).2.2 ▸ .refl s
  obtain ⟨-, rfl⟩ := refuseIf_ok.mp check
  obtain failed | ⟨_, _, got, ran⟩ := bind_error.mp ran
  · exact absurd failed get_error
  obtain ⟨rfl, rfl⟩ := get_ok.mp got
  obtain failed | ⟨_, _, check, ran⟩ := bind_error.mp ran
  · exact (refuseIf_error.mp failed).2.2 ▸ .refl s
  obtain failed | ⟨_, _, -, ran⟩ := bind_error.mp ran
  · exact absurd failed set_error
  · exact absurd ran pure_error

theorem createEntry_made {input : FSEntryCreateInput} {createPaths : Bool} {e : FsError}
    (ran : createEntry env input createPaths s = .error e s') : MadeDirectories s s' := by
  obtain failed | ⟨targetPath, _, norm, ran⟩ := bind_error.mp ran
  · exact normalized_error failed ▸ .refl s
  obtain ⟨-, rfl⟩ := normalized_ok.mp norm
  obtain failed | ⟨_, _, check, ran⟩ := bind_error.mp ran
  · exact (refuseIf_error.mp failed).2.2 ▸ .refl s
  obtain ⟨-, rfl⟩ := refuseIf_ok.mp check
  obtain failed | ⟨parentPath, _, norm, ran⟩ := bind_error.mp ran
  · exact normalized_error failed ▸ .refl s
  obtain ⟨-, rfl⟩ := normalized_ok.mp norm
  obtain failed | ⟨_, _, check, ran⟩ := bind_error.mp ran
  · exact (refuseIf_error.mp failed).2.2 ▸ .refl s
  obtain ⟨-, rfl⟩ := refuseIf_ok.mp check
  have makes : Keeps MadeDirectories (runIf (input.createMissingParents.getD createPaths)
      (ensureDirectoryPathsForUser env input.userId parentPath)) :=
    .runIf fun _ => ensureDirectoryPathsForUser_made env input.userId parentPath
  obtain failed | ⟨_, between, ensured, ran⟩ := bind_error.mp ran
  · exact makes.error failed
  refine (makes.ok ensured).trans ?_
  obtain failed | ⟨_, _, got, ran⟩ := bind_error.mp ran
  · exact absurd failed get_error
  obtain ⟨rfl, rfl⟩ := get_ok.mp got
  obtain failed | ⟨parentEntry, _, found, ran⟩ := bind_error.mp ran
  · exact (asDirectory_reads _ _).error failed ▸ .refl between
  obtain rfl := (asDirectory_reads _ _).ok found
  obtain failed | ⟨_, _, got, ran⟩ := bind_error.mp ran
  · exact absurd failed get_error
  obtain ⟨rfl, rfl⟩ := get_ok.mp got
  generalize entryAt between.entries targetPath = existing at ran
  cases existing with
  | some existing => exact overwriteEntry_made ran
  | none => exact insertFile_made ran

theorem createEntry_written {input : FSEntryCreateInput} {createPaths : Bool} {entry : FSEntry}
    (ran : createEntry env input createPaths s = .ok entry s') :
    ∃ between targetPath parentEntry, MadeDirectories s between ∧
      normalizePath input.path = .ok targetPath ∧ parentEntry ∈ between.entries ∧
      FileWritten env input targetPath parentEntry between entry s' := by
  obtain ⟨targetPath, _, norm, ran⟩ := bind_ok.mp ran
  obtain ⟨target, rfl⟩ := normalized_ok.mp norm
  obtain ⟨_, _, check, ran⟩ := bind_ok.mp ran
  obtain ⟨-, rfl⟩ := refuseIf_ok.mp check
  obtain ⟨parentPath, _, norm, ran⟩ := bind_ok.mp ran
  obtain ⟨-, rfl⟩ := normalized_ok.mp norm
  obtain ⟨_, _, check, ran⟩ := bind_ok.mp ran
  obtain ⟨-, rfl⟩ := refuseIf_ok.mp check
  have makes : Keeps MadeDirectories (runIf (input.createMissingParents.getD createPaths)
      (ensureDirectoryPathsForUser env input.userId parentPath)) :=
    .runIf fun _ => ensureDirectoryPathsForUser_made env input.userId parentPath
  obtain ⟨_, between, ensured, ran⟩ := bind_ok.mp ran
  obtain ⟨_, _, got, ran⟩ := bind_ok.mp ran
  obtain ⟨rfl, rfl⟩ := get_ok.mp got
  obtain ⟨parentEntry, _, found, ran⟩ := bind_ok.mp ran
  obtain ⟨member, -, -, rfl⟩ := asDirectory_entryAt found
  obtain ⟨_, _, got, ran⟩ := bind_ok.mp ran
  obtain ⟨rfl, rfl⟩ := get_ok.mp got
  refine ⟨between, targetPath, parentEntry, makes.ok ensured, target, member, ?_⟩
  generalize stored : entryAt between.entries targetPath = existing at ran
  cases existing with
  | some existing => exact overwriteEntry_written stored ran
  | none => exact insertFile_written stored ran

theorem FileWritten.uuids {input : FSEntryCreateInput} {targetPath : Text}
    {parentEntry entry : FSEntry} (written : FileWritten env input targetPath parentEntry s entry s') :
    s'.nextUuid = s.nextUuid ∧
      (∀ row ∈ s'.entries, row.uuid = input.uuid ∨ ∃ old ∈ s.entries, old.uuid = row.uuid) ∧
      (∀ old ∈ s.entries, ∃ row ∈ s'.entries, row.uuid = old.uuid) ∧
      (input.overwrite = false → ∃ row ∈ s'.entries, row.uuid = input.uuid) := by
  cases written with
  | @replaced existing stored asked isFile =>
      have sameUuid : ∀ row : FSEntry, (if (row.id == existing.id) = true then
          overwrittenRow env input targetPath parentEntry row else row).uuid = row.uuid := by
        intro row
        split <;> rfl
      refine ⟨rfl, fun row member => ?_, fun old member => ?_, fun notAsked => ?_⟩
      · obtain ⟨old, isOld, rfl⟩ := List.mem_map.mp member
        exact .inr ⟨old, isOld, (sameUuid old).symm⟩
      · exact ⟨_, List.mem_map_of_mem member, sameUuid old⟩
      · rw [asked] at notAsked
        cases notAsked
  | added free fresh =>
      refine ⟨rfl, fun row member => ?_, fun old member => ?_, fun _ => ?_⟩
      · rcases List.mem_append.mp member with old | added
        · exact .inr ⟨row, old, rfl⟩
        · rw [List.mem_singleton.mp added]
          exact .inl rfl
      · exact ⟨old, List.mem_append_left _ member, rfl⟩
      · exact ⟨_, List.mem_append_right _ (List.mem_singleton_self _), rfl⟩
  | taken free holder =>
      obtain ⟨member, same⟩ := entryOf_some holder
      exact ⟨rfl, fun row member => .inr ⟨row, member, rfl⟩, fun old member => ⟨old, member, rfl⟩,
        fun _ => ⟨entry, member, same⟩⟩

end Puter

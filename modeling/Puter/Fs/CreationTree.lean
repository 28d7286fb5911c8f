/-
Module: Puter.Fs.CreationTree
Purpose: The calls that add to the tree keep it in good order: mkdir, touch, mkshortcut, write and copy.
  Each looks its target up before it adds a row, so the place of the row is free, and it adds the row
  below the directory that the path names.
Trusted boundary: none
Main exports: Added, mkshortcut_kept, copy_kept
-/
import Puter.Fs.Removal

namespace Puter

open PosixPath StateRun FSEntryStore PathForest FSService

variable {env : FsEnv} {s s' : FsState}

theorem decimal_noSlash (n : Nat) : '/' ∉ decimal n := by
  intro member
  exact absurd (isDigit_of_mem_decimal member) (by decide)

theorem dedupedName_plain {name : Text} (plain : PlainName name) (suffix : Nat) :
    PlainName (dedupedName name suffix) := by
  apply plainName_numbered _ (decimal_noSlash suffix) (extname_trimmed plain)
  rwa [basename_plain plain]

theorem firstFree_ok {candidatePath : Nat → Text} {attempts suffix : Nat} {found : Option Nat}
    (ran : firstFree candidatePath attempts suffix s = .ok found s') :
    s = s' ∧ ∀ n, found = some n → ∃ normalizedPath,
      normalizePath (candidatePath n) = .ok normalizedPath ∧
        entryAt s.entries normalizedPath = none := by
  induction attempts generalizing suffix with
  | zero =>
      obtain ⟨rfl, rfl⟩ := pure_ok.mp ran
      exact ⟨rfl, fun n isSome => by cases isSome⟩
  | succ attempts ih =>
      obtain ⟨stored, _, looked, ran⟩ := bind_ok.mp ran
      obtain ⟨normalizedPath, norm, result, rfl⟩ := getEntryByPath_ok.mp looked
      cases stored with
      | none =>
          obtain ⟨rfl, rfl⟩ := pure_ok.mp ran
          refine ⟨rfl, fun n isSuffix => ?_⟩
          cases isSuffix
          exact ⟨normalizedPath, norm, result.symm⟩
      | some entry => exact ih ran

theorem findDedupedName_ok (kept : WellKept s) {parent : FSEntry} (member : parent ∈ s.entries)
    {name deduped : Text} (plain : PlainName name)
    (ran : findDedupedName parent name s = .ok deduped s') :
    s = s' ∧ PlainName deduped ∧ ∀ e ∈ s.entries, e.path ≠ parent.path ++ '/' :: deduped := by
  obtain ⟨found, _, searched, ran⟩ := bind_ok.mp ran
  obtain ⟨rfl, isFree⟩ := firstFree_ok searched
  cases found with
  | none => exact absurd ran throw_ok
  | some suffix =>
      obtain ⟨rfl, rfl⟩ := pure_ok.mp ran
      have plainDeduped := dedupedName_plain plain suffix
      obtain ⟨_, norm, free⟩ := isFree suffix rfl
      rw [kept.childPath_eq member,
        ((kept.plainPath parent member).child plainDeduped).normalizePath_eq] at norm
      cases norm
      exact ⟨rfl, plainDeduped, entryAt_none free⟩

/-- A call has added one row, and the state is still in good order. -/
structure Added (s s' : FsState) (row : FSEntry) : Prop where
  kept : WellKept s'
  entries : s'.entries = s.entries ++ [row]

theorem Added.old {row : FSEntry} (added : Added s s' row) {e : FSEntry} (member : e ∈ s.entries) :
    e ∈ s'.entries := by
  rw [added.entries]
  exact List.mem_append_left _ member

theorem Added.mem {row : FSEntry} (added : Added s s' row) : row ∈ s'.entries := by
  simp [added.entries]

theorem Added.cases {row e : FSEntry} (added : Added s s' row) (member : e ∈ s'.entries) :
    e ∈ s.entries ∨ e = row := by
  simpa [added.entries] using member

theorem createNonFileEntry_added (kept : WellKept s) {input : NonFileInput} {entry : FSEntry}
    (member : input.parent ∈ s.entries) (isDir : input.parent.isDir = true)
    (plain : PlainName input.name)
    (free : ∀ e ∈ s.entries, e.path ≠ input.parent.path ++ '/' :: input.name)
    (ran : createNonFileEntry env input s = .ok entry s') :
    Added s s' entry ∧ entry.path = input.parent.path ++ '/' :: input.name ∧
      entry.isDir = (input.kind == .directory) ∧ entry.uuid = s.nextUuid := by
  obtain ⟨rfl, after⟩ := createNonFileEntry_ok kept.tidy (kept.plainPath _ member) ran
  have path : (nonFileRow env input input.parent.path s.nextId s.nextUuid).path =
      input.parent.path ++ '/' :: input.name := kept.childPath_eq member input.name
  have entries : s'.entries = s.entries ++
      [nonFileRow env input input.parent.path s.nextId s.nextUuid] := by rw [after]
  have child : IsChild fsShape '/'
      (nonFileRow env input input.parent.path s.nextId s.nextUuid) input.parent :=
    ⟨rfl, isDir, rfl, path⟩
  refine ⟨⟨⟨?_, ?_⟩, entries⟩, path, rfl, rfl⟩
  · rw [entries]
    apply kept.tree.insert member child
    intro e eMember same
    exact free e eMember (same.trans path)
  · apply kept.tidy.insert entries (fun e eMember => (kept.tidy.freshUuid e eMember).ne)
      (fun e eMember => (kept.tidy.freshId e eMember).ne)
    · rw [after]
      exact Nat.lt_succ_self _
    · rw [after]
      exact Nat.lt_succ_self _
    · rw [after]
      exact Nat.le_succ _
    · rw [after]
      exact Nat.le_succ _
    · exact plain
    · intro root
      cases root

theorem createNonFileEntry_duplicate {input : NonFileInput}
    (ran : createNonFileEntry env input s = .error .duplicateEntry s') :
    s'.entries = s.entries ∧ s.nextUuid ≤ s'.nextUuid ∧ s.nextId ≤ s'.nextId := by
  unfold createNonFileEntry at ran
  obtain failed | ⟨uuid, _, drawn, ran⟩ := bind_error.mp ran
  · exact absurd failed uuidv4_error
  obtain ⟨rfl, rfl⟩ := uuidv4_ok.mp drawn
  obtain failed | ⟨parentPath, _, norm, ran⟩ := bind_error.mp ran
  · obtain rfl := normalized_error failed
    exact ⟨rfl, Nat.le_succ _, le_refl _⟩
  obtain ⟨-, rfl⟩ := normalized_ok.mp norm
  obtain failed | ⟨id, _, drawn, ran⟩ := bind_error.mp ran
  · exact absurd failed drawId_error
  obtain ⟨rfl, rfl⟩ := drawId_ok.mp drawn
  obtain failed | ⟨_, _, inserted, ran⟩ := bind_error.mp ran
  · obtain rfl := insertEntry_error failed
    exact ⟨rfl, Nat.le_succ _, Nat.le_succ _⟩
  obtain failed | ⟨_, _, got, ran⟩ := bind_error.mp ran
  · exact absurd failed get_error
  obtain ⟨-, other, -⟩ := orThrow_error.mp ran
  cases other

theorem createDirectory_kept (kept : WellKept s) {parent entry : FSEntry} {name : Text}
    {thumbnail : Option Text} (member : parent ∈ s.entries) (isDir : parent.isDir = true)
    (plain : PlainName name) (free : ∀ e ∈ s.entries, e.path ≠ parent.path ++ '/' :: name)
    (ran : createDirectory env parent name thumbnail s = .ok entry s') : WellKept s' := by
  obtain created | ⟨error, stopped, failed, raced⟩ := tryCatch_ok.mp ran
  · exact (createNonFileEntry_added kept member isDir plain free created).1.kept
  · unfold racedDirectory at raced
    split at raced
    · exact absurd raced throw_ok
    next isDuplicate =>
      rw [not_not.mp isDuplicate] at failed
      obtain ⟨entries, moreUuids, moreIds⟩ := createNonFileEntry_duplicate failed
      obtain ⟨found, _, looked, raced⟩ := bind_ok.mp raced
      obtain ⟨_, -, -, rfl⟩ := getEntryByPath_ok.mp looked
      have stoppedKept := kept.of_entries_eq entries moreUuids moreIds
      cases found with
      | none => exact absurd raced throw_ok
      | some existing =>
          dsimp only at raced
          split at raced
          · rw [← (pure_ok.mp raced).2]
            exact stoppedKept
          · exact absurd raced throw_ok

theorem resolveOrCreateParent_ok (kept : WellKept s) {userId : Nat} {targetPath : Text}
    {createMissingParents : Bool} {parent : FSEntry} (plain : PlainPath targetPath)
    (ran : resolveOrCreateParent env userId targetPath createMissingParents s = .ok parent s') :
    WellKept s' ∧ parent ∈ s'.entries ∧ parent.isDir = true ∧
      targetPath = parent.path ++ '/' :: basename targetPath := by
  unfold resolveOrCreateParent at ran
  rw [plain.trim_eq] at ran
  obtain ⟨_, _, check, ran⟩ := bind_ok.mp ran
  obtain ⟨-, rfl⟩ := refuseIf_ok.mp check
  obtain ⟨_, _, check, ran⟩ := bind_ok.mp ran
  obtain ⟨notRoot, rfl⟩ := refuseIf_ok.mp check
  obtain ⟨-, ⟨atRoot, -⟩ | ⟨plainAbove, shape⟩⟩ := plain.parts
  · simp [atRoot] at notRoot
  · obtain ⟨kept', -, member, isDir, atPath⟩ := ensureDirectoryPath_ok kept plainAbove ran
    exact ⟨kept', member, isDir, by rw [atPath]; exact shape⟩

theorem Removed.mem {input : RemoveInput} (removed : Removed s s' input) {e : FSEntry}
    (member : e ∈ s.entries) (elsewhere : e.path ≠ input.entry.path)
    (outside : ¬ Under '/' input.entry.path e.path) : e ∈ s'.entries := by
  rw [removed.entries, List.mem_filter, Bool.not_eq_true', ← Bool.not_eq_true, goesWith_iff]
  refine ⟨member, ?_⟩
  rintro (⟨here, -⟩ | under)
  · exact elsewhere here
  · exact outside under

theorem Removed.old {input : RemoveInput} (removed : Removed s s' input) {e : FSEntry}
    (member : e ∈ s'.entries) : e ∈ s.entries := by
  rw [removed.entries] at member
  exact List.mem_of_mem_filter member

theorem Removed.not_under {input : RemoveInput} (removed : Removed s s' input) {e : FSEntry}
    (member : e ∈ s'.entries) : ¬ Under '/' input.entry.path e.path := by
  rw [removed.entries, List.mem_filter, Bool.not_eq_true', ← Bool.not_eq_true, goesWith_iff] at member
  exact fun under => member.2 (Or.inr under)

theorem Removed.free {input : RemoveInput} (removed : Removed s s' input)
    (whole : input.descendantsOnly = false) : ∀ e ∈ s'.entries, e.path ≠ input.entry.path := by
  intro e member here
  rw [removed.entries, List.mem_filter, Bool.not_eq_true', ← Bool.not_eq_true, goesWith_iff] at member
  exact member.2 (Or.inl ⟨here, Or.inr whole⟩)

theorem Removed.parent_mem {input : RemoveInput} (removed : Removed s s' input) {d : FSEntry}
    {name : Text} (member : d ∈ s.entries) (below : input.entry.path = d.path ++ '/' :: name) :
    d ∈ s'.entries := by
  apply removed.mem member
  · intro here
    exact (under_append '/' d.path name).ne (here.trans below)
  · intro under
    have longer := under.length_lt
    rw [below] at longer
    simp only [List.length_append, List.length_cons] at longer
    omega

theorem mkdirTarget_ok (kept : WellKept s) {userId : Nat} {input : MkdirInput}
    {parent existing : FSEntry} {targetPath : Text} {result : FSEntry ⊕ Text}
    (plain : PlainPath targetPath) (parentMember : parent ∈ s.entries)
    (below : targetPath = parent.path ++ '/' :: basename targetPath)
    (member : existing ∈ s.entries) (atTarget : existing.path = targetPath)
    (ran : mkdirTarget env userId input parent existing targetPath s = .ok result s') :
    WellKept s' ∧ ∀ name, result = .inr name → parent ∈ s'.entries ∧ PlainName name ∧
      ∀ e ∈ s'.entries, e.path ≠ parent.path ++ '/' :: name := by
  have plainName := plain.parts.1
  have dedupes : ∀ {deduped : Text} {between : FsState},
      findDedupedName parent (basename targetPath) s = .ok deduped between →
        (pure (.inr deduped) : FsRun (FSEntry ⊕ Text)) between = .ok result s' →
          WellKept s' ∧ ∀ name, result = .inr name → parent ∈ s'.entries ∧ PlainName name ∧
            ∀ e ∈ s'.entries, e.path ≠ parent.path ++ '/' :: name := by
    intro deduped between found answered
    obtain ⟨rfl, plainDeduped, free⟩ := findDedupedName_ok kept parentMember plainName found
    obtain ⟨rfl, rfl⟩ := pure_ok.mp answered
    refine ⟨kept, fun name isName => ?_⟩
    cases isName
    exact ⟨parentMember, plainDeduped, free⟩
  unfold mkdirTarget at ran
  split at ran
  · split at ran
    · obtain ⟨deduped, between, found, answered⟩ := bind_ok.mp ran
      exact dedupes found answered
    · obtain ⟨rfl, rfl⟩ := pure_ok.mp ran
      exact ⟨kept, fun name isName => by cases isName⟩
  · split at ran
    · obtain ⟨_, between, gone, answered⟩ := bind_ok.mp ran
      have removed := remove_ok kept member gone
      obtain ⟨rfl, rfl⟩ := pure_ok.mp answered
      refine ⟨removed.kept kept, fun name isName => ?_⟩
      cases isName
      refine ⟨removed.parent_mem parentMember (atTarget.trans below), plainName, ?_⟩
      rw [← below, ← atTarget]
      exact removed.free rfl
    · split at ran
      · obtain ⟨deduped, between, found, answered⟩ := bind_ok.mp ran
        exact dedupes found answered
      · exact absurd ran throw_ok

theorem mkdir_kept (kept : WellKept s) {userId : Nat} {input : MkdirInput} {entry : FSEntry}
    (plain : PlainPath input.path) (ran : mkdir env userId input s = .ok entry s') :
    WellKept s' := by
  unfold mkdir at ran
  rw [plain.trim_eq] at ran
  obtain ⟨parent, between, resolved, ran⟩ := bind_ok.mp ran
  obtain ⟨kept₁, parentMember, isDir, below⟩ := resolveOrCreateParent_ok kept plain resolved
  obtain ⟨found, _, looked, ran⟩ := bind_ok.mp ran
  obtain ⟨result, rfl⟩ := getEntryByPath_plain plain looked
  cases found with
  | none =>
      have free : ∀ e ∈ between.entries, e.path ≠ parent.path ++ '/' :: basename input.path := by
        rw [← below]
        exact entryAt_none result.symm
      exact createDirectory_kept kept₁ parentMember isDir plain.parts.1 free ran
  | some existing =>
      obtain ⟨member, atTarget⟩ := entryAt_some result.symm
      obtain ⟨answer, s₂, targeted, ran⟩ := bind_ok.mp ran
      obtain ⟨kept₂, named⟩ :=
        mkdirTarget_ok kept₁ plain parentMember below member atTarget targeted
      cases answer with
      | inl existing =>
          rw [← (pure_ok.mp ran).2]
          exact kept₂
      | inr name =>
          obtain ⟨parentMember₂, plainName, free⟩ := named name rfl
          exact createDirectory_kept kept₂ parentMember₂ isDir plainName free ran

theorem touchEntryTimestamps_kept (kept : WellKept s) {uuid : Nat} {options : TouchOptions}
    {entry : FSEntry} (ran : touchEntryTimestamps env uuid options s = .ok entry s') :
    WellKept s' := by
  unfold touchEntryTimestamps at ran
  obtain ⟨_, between, written, ran⟩ := bind_ok.mp ran
  have after := (modify_ok.mp written).symm
  obtain ⟨_, _, got, ran⟩ := bind_ok.mp ran
  obtain ⟨rfl, rfl⟩ := get_ok.mp got
  obtain ⟨-, rfl⟩ := orThrow_ok.mp ran
  apply kept.updateWhere (congrArg FsState.entries after) (by rw [after]) (by rw [after])
  intro e _ _
  exact ⟨rfl, rfl, rfl, rfl, rfl, rfl, rfl⟩

theorem touch_kept (kept : WellKept s) {userId : Nat} {input : TouchInput} {entry : FSEntry}
    (plain : PlainPath input.path) (ran : touch env userId input s = .ok entry s') :
    WellKept s' := by
  unfold touch at ran
  rw [plain.trim_eq] at ran
  obtain ⟨parent, between, resolved, ran⟩ := bind_ok.mp ran
  obtain ⟨kept₁, parentMember, isDir, below⟩ := resolveOrCreateParent_ok kept plain resolved
  obtain ⟨found, _, looked, ran⟩ := bind_ok.mp ran
  obtain ⟨result, rfl⟩ := getEntryByPath_plain plain looked
  cases found with
  | some existing => exact touchEntryTimestamps_kept kept₁ ran
  | none =>
      have free : ∀ e ∈ between.entries, e.path ≠ parent.path ++ '/' :: basename input.path := by
        rw [← below]
        exact entryAt_none result.symm
      exact (createNonFileEntry_added kept₁ parentMember isDir plain.parts.1 free ran).1.kept

theorem mkshortcut_kept (kept : WellKept s) {input : MkshortcutInput} {entry : FSEntry}
    (member : input.parent ∈ s.entries) (isDir : input.parent.isDir = true)
    (plain : PlainName input.name) (ran : mkshortcut env input s = .ok entry s') :
    WellKept s' := by
  unfold mkshortcut at ran
  obtain ⟨name, between, named, created⟩ := bind_ok.mp ran
  have found : s = between ∧ PlainName name ∧
      ∀ e ∈ s.entries, e.path ≠ input.parent.path ++ '/' :: name := by
    obtain ⟨collision, _, looked, named⟩ := bind_ok.mp named
    rw [kept.childPath_eq member] at looked
    obtain ⟨result, rfl⟩ :=
      getEntryByPath_plain ((kept.plainPath _ member).child plain) looked
    cases collision with
    | none =>
        obtain ⟨rfl, rfl⟩ := pure_ok.mp named
        exact ⟨rfl, plain, entryAt_none result.symm⟩
    | some existing =>
        dsimp only at named
        split at named
        · exact findDedupedName_ok kept member plain named
        · exact absurd named throw_ok
  obtain ⟨rfl, plainName, free⟩ := found
  exact (createNonFileEntry_added kept member isDir plainName free created).1.kept

theorem normalizeWritePath_ok {path normalizedPath : Text}
    (ran : normalizeWritePath path s = .ok normalizedPath s') :
    normalizePath path = .ok normalizedPath ∧ s = s' := by
  unfold normalizeWritePath at ran
  obtain ⟨_, _, check, ran⟩ := bind_ok.mp ran
  obtain ⟨-, rfl⟩ := refuseIf_ok.mp check
  exact normalized_ok.mp ran

theorem findDedupedPath_ok {targetPath deduped : Text} (plain : PlainPath targetPath)
    (ran : findDedupedPath targetPath s = .ok deduped s') : PlainPath deduped ∧ s = s' := by
  unfold findDedupedPath at ran
  obtain ⟨found, _, searched, ran⟩ := bind_ok.mp ran
  obtain ⟨rfl, -⟩ := firstFree_ok searched
  cases found with
  | none => exact absurd ran throw_ok
  | some suffix =>
      obtain ⟨rfl, rfl⟩ := pure_ok.mp ran
      obtain ⟨plainName, place⟩ := plain.parts
      have ends : ∀ c, (extname targetPath).getLast? = some c → isSpace c = false := by
        have sameExt : extname targetPath = extname (basename targetPath) := by
          rw [extname, extname, basename_plain plainName]
        rw [sameExt]
        exact extname_trimmed plainName
      have plainNumbered := plainName_numbered plainName (decimal_noSlash suffix) ends
      refine ⟨?_, rfl⟩
      obtain ⟨atRoot, -⟩ | ⟨plainAbove, -⟩ := place
      · dsimp only
        rw [atRoot, List.singleton_append, normalize_root_child plainNumbered]
        exact .home plainNumbered
      · have plainPath := plainAbove.child plainNumbered
        dsimp only
        rwa [plainPath.normalize_eq]

theorem resolveWriteTarget_ok {request : WriteRequest} {path : Text} {target : WriteTarget}
    (plain : PlainPath path) (ran : resolveWriteTarget request path s = .ok target s') :
    s = s' ∧ PlainPath target.path ∧ target.existing = entryAt s.entries target.path := by
  unfold resolveWriteTarget at ran
  obtain ⟨settled, between, targeted, ran⟩ := bind_ok.mp ran
  obtain ⟨_, _, check, ran⟩ := bind_ok.mp ran
  obtain ⟨-, rfl⟩ := refuseIf_ok.mp check
  obtain ⟨_, _, check, ran⟩ := bind_ok.mp ran
  obtain ⟨-, rfl⟩ := refuseIf_ok.mp check
  obtain ⟨rfl, rfl⟩ := pure_ok.mp ran
  unfold writeTarget at targeted
  obtain ⟨existing, _, looked, targeted⟩ := bind_ok.mp targeted
  obtain ⟨result, rfl⟩ := getEntryByPath_plain plain looked
  split at targeted
  · obtain ⟨deduped, _, found, targeted⟩ := bind_ok.mp targeted
    obtain ⟨plainDeduped, rfl⟩ := findDedupedPath_ok plain found
    obtain ⟨existing', _, looked, targeted⟩ := bind_ok.mp targeted
    obtain ⟨result', rfl⟩ := getEntryByPath_plain plainDeduped looked
    obtain ⟨rfl, rfl⟩ := pure_ok.mp targeted
    exact ⟨rfl, plainDeduped, result'⟩
  · obtain ⟨rfl, rfl⟩ := pure_ok.mp targeted
    exact ⟨rfl, plain, result⟩

theorem assertStorageAllowance_ok {userId incomingSize existingSize : Nat} {override : Option Nat}
    {u : Unit}
    (ran : assertStorageAllowance env userId incomingSize existingSize override s = .ok u s') :
    overAllowance env s.entries userId incomingSize existingSize override = false ∧ s = s' := by
  unfold assertStorageAllowance at ran
  obtain ⟨_, _, got, ran⟩ := bind_ok.mp ran
  obtain ⟨rfl, rfl⟩ := get_ok.mp got
  exact refuseIf_ok.mp ran

theorem storageOwnerOf_ok {path : Text} {actingUserId owner : Nat}
    (ran : storageOwnerOf path actingUserId s = .ok owner s') : s = s' := by
  unfold storageOwnerOf at ran
  obtain ⟨_, _, norm, ran⟩ := bind_ok.mp ran
  obtain ⟨-, rfl⟩ := normalizeWritePath_ok norm
  split at ran
  · exact (pure_ok.mp ran).2
  · obtain ⟨found, _, looked, ran⟩ := bind_ok.mp ran
    obtain ⟨_, -, -, rfl⟩ := getEntryByPath_ok.mp looked
    cases found with
    | none => exact (pure_ok.mp ran).2
    | some entry => exact (pure_ok.mp ran).2

theorem upload_ok {request : WriteRequest} {address : S3Address} {owner existingSize : Nat}
    {override : Option Nat} {u : Unit}
    (ran : upload env request address owner existingSize override s = .ok u s') :
    s'.entries = s.entries ∧ s'.nextId = s.nextId ∧ s'.nextUuid = s.nextUuid := by
  unfold upload at ran
  obtain ⟨_, between, stored, ran⟩ := bind_ok.mp ran
  unfold S3ObjectStore.uploadFromServer at stored
  obtain ⟨_, _, check, stored⟩ := bind_ok.mp stored
  obtain ⟨-, rfl⟩ := refuseIf_ok.mp check
  obtain rfl := modify_ok.mp stored
  obtain ⟨-, check⟩ | ⟨-, rfl⟩ := runIf_ok.mp ran
  · obtain ⟨-, rfl⟩ := assertStorageAllowance_ok check
    exact ⟨rfl, rfl, rfl⟩
  · exact ⟨rfl, rfl, rfl⟩

theorem write_kept (kept : WellKept s) {userId : Nat} {request : WriteRequest} {entry : FSEntry}
    (plain : PlainPath request.path) (ran : write env userId request s = .ok entry s') :
    WellKept s' := by
  unfold write at ran
  obtain ⟨path, _, norm, ran⟩ := bind_ok.mp ran
  obtain ⟨same, rfl⟩ := normalizeWritePath_ok norm
  rw [plain.normalizePath_eq] at same
  obtain rfl := Except.ok.inj same
  obtain ⟨_, _, check, ran⟩ := bind_ok.mp ran
  obtain ⟨-, rfl⟩ := refuseIf_ok.mp check
  obtain ⟨target, _, targeted, ran⟩ := bind_ok.mp ran
  obtain ⟨rfl, plainTarget, existing⟩ := resolveWriteTarget_ok plain targeted
  obtain ⟨owner, _, owned, ran⟩ := bind_ok.mp ran
  obtain rfl := storageOwnerOf_ok owned
  obtain ⟨_, _, check, ran⟩ := bind_ok.mp ran
  obtain ⟨-, rfl⟩ := assertStorageAllowance_ok check
  dsimp only at ran
  obtain ⟨key, drawn, keyed, ran⟩ := bind_ok.mp ran
  obtain ⟨_, stored, uploaded, created⟩ := bind_ok.mp ran
  obtain ⟨sameEntries, sameId, sameUuid⟩ := upload_ok uploaded
  cases found : target.existing with
  | some old =>
      rw [found] at keyed existing
      obtain ⟨-, rfl⟩ := pure_ok.mp keyed
      obtain ⟨member, atTarget⟩ := entryAt_some existing.symm
      have storedKept := kept.of_entries_eq sameEntries sameUuid.ge sameId.ge
      refine createEntry_ok storedKept ?_ (Or.inl ?_) created
      · exact plainTarget
      · exact ⟨old, sameEntries ▸ member, atTarget⟩
  | none =>
      rw [found] at keyed
      obtain ⟨rfl, rfl⟩ := uuidv4_ok.mp keyed
      have storedKept : WellKept stored := kept.of_entries_eq sameEntries
        (by rw [sameUuid]; exact Nat.le_succ _) sameId.ge
      refine createEntry_ok storedKept ?_ (Or.inr ⟨?_, ?_⟩) created
      · exact plainTarget
      · intro e member
        rw [sameEntries] at member
        exact (kept.tidy.freshUuid e member).ne
      · rw [sameUuid]
        exact Nat.lt_succ_self _

end Puter

/-
Module: Puter.Fs.CopyTree
Purpose: Copying keeps the tree in good order. The copy of a directory is built from its top: when an
  entry has its turn, the copy of its parent is there, and the place of its own copy is still free,
  since no two entries of the source share a path.
Trusted boundary: none
Main exports: makeWay_ok, copyEntry_added, copy_kept
-/
import Puter.Fs.CreationTree

namespace Puter

open PosixPath StateRun FSEntryStore PathForest FSService

variable {env : FsEnv} {s s' : FsState}

/-- The names that `#assertUsableName` lets pass. -/
structure UsableName (name : Text) : Prop where
  notBlank : trim name ≠ []
  noSlash : '/' ∉ name
  notDot : name ≠ ['.']
  notDots : name ≠ ['.', '.']

theorem assertUsableName_ok {name : Text} {u : Unit} (ran : assertUsableName name s = .ok u s') :
    UsableName name ∧ s = s' := by
  unfold assertUsableName at ran
  obtain ⟨_, _, check, ran⟩ := bind_ok.mp ran
  obtain ⟨notBlank, rfl⟩ := refuseIf_ok.mp check
  obtain ⟨_, _, check, ran⟩ := bind_ok.mp ran
  obtain ⟨noSlash, rfl⟩ := refuseIf_ok.mp check
  obtain ⟨notDots, rfl⟩ := refuseIf_ok.mp ran
  simp only [Bool.or_eq_false_iff, beq_eq_false_iff_ne] at notDots
  exact ⟨⟨by simpa using notBlank, by simpa using noSlash, notDots.1, notDots.2⟩, rfl⟩

/-- The ways in which a target is made free: it is, its entry is removed, or another name is taken. -/
inductive WayMade (s s' : FsState) (destination : FSEntry) (name : Text) (overwrite : Bool) :
    Option FSEntry → Text → Prop where
  | free (same : s = s') : WayMade s s' destination name overwrite none name
  | removed (collision : FSEntry) (asked : overwrite = true)
      (gone : Removed s s' { entry := collision, recursive := true }) :
      WayMade s s' destination name overwrite (some collision) name
  | deduped (collision : FSEntry) (asked : overwrite = false) (deduped : Text) (same : s = s')
      (plain : PlainName deduped)
      (free : ∀ e ∈ s.entries, e.path ≠ destination.path ++ '/' :: deduped) :
      WayMade s s' destination name overwrite (some collision) deduped

theorem makeWay_ok (kept : WellKept s) {userId : Nat} {overwrite dedupeName : Bool}
    {destination : FSEntry} {name result : Text} {collision : Option FSEntry}
    (member : destination ∈ s.entries) (plain : PlainName name)
    (found : ∀ c, collision = some c → c ∈ s.entries)
    (ran : makeWay env userId overwrite dedupeName destination name collision s = .ok result s') :
    WayMade s s' destination name overwrite collision result := by
  cases collision with
  | none =>
      obtain ⟨rfl, rfl⟩ := pure_ok.mp ran
      exact .free rfl
  | some c =>
      unfold makeWay at ran
      dsimp only at ran
      split at ran
      next asked =>
        obtain ⟨_, between, gone, ran⟩ := bind_ok.mp ran
        obtain ⟨rfl, rfl⟩ := pure_ok.mp ran
        exact .removed c asked (remove_ok kept (found c rfl) gone)
      next asked =>
        split at ran
        · obtain ⟨rfl, plainDeduped, free⟩ := findDedupedName_ok kept member plain ran
          exact .deduped c (by simpa using asked) result rfl plainDeduped free
        · exact absurd ran throw_ok

theorem WayMade.kept {destination : FSEntry} {name result : Text} {overwrite : Bool}
    {collision : Option FSEntry} (way : WayMade s s' destination name overwrite collision result)
    (kept : WellKept s) (member : destination ∈ s.entries) (plain : PlainName name)
    (found : ∀ c, collision = some c → c.path = destination.path ++ '/' :: name) :
    WellKept s' ∧ destination ∈ s'.entries ∧ PlainName result := by
  cases way with
  | free same => exact same ▸ ⟨kept, member, plain⟩
  | removed c asked gone =>
      exact ⟨gone.kept kept, gone.parent_mem member (found c rfl), plain⟩
  | deduped c asked deduped same plainDeduped free => exact same ▸ ⟨kept, member, plainDeduped⟩

theorem WayMade.target_free {destination : FSEntry} {name result : Text} {overwrite : Bool}
    {collision : Option FSEntry} (way : WayMade s s' destination name overwrite collision result)
    (nothing : collision = none → ∀ e ∈ s.entries, e.path ≠ destination.path ++ '/' :: name)
    (found : ∀ c, collision = some c → c.path = destination.path ++ '/' :: name) :
    ∀ e ∈ s'.entries, e.path ≠ destination.path ++ '/' :: result := by
  cases way with
  | free same => exact same ▸ nothing rfl
  | removed c asked gone =>
      rw [← found c rfl]
      exact gone.free rfl
  | deduped c asked deduped same plainDeduped free => exact same ▸ free

theorem WayMade.old {destination : FSEntry} {name result : Text} {overwrite : Bool}
    {collision : Option FSEntry} (way : WayMade s s' destination name overwrite collision result)
    {e : FSEntry} (member : e ∈ s'.entries) : e ∈ s.entries := by
  cases way with
  | free same => exact same ▸ member
  | removed c asked gone => exact gone.old member
  | deduped c asked deduped same plainDeduped free => exact same ▸ member

theorem WayMade.only_source {source destination : FSEntry} {name result : Text} {overwrite : Bool}
    {collision : Option FSEntry} (way : WayMade s s' destination name overwrite collision result)
    (nothing : collision = none → ∀ e ∈ s.entries, e.path = destination.path ++ '/' :: name →
      e = source)
    (found : ∀ c, collision = some c → c.path = destination.path ++ '/' :: name) :
    ∀ e ∈ s'.entries, e.path = destination.path ++ '/' :: result → e = source := by
  cases way with
  | free same => exact same ▸ nothing rfl
  | removed c asked gone =>
      intro e member atTarget
      exact absurd (atTarget.trans (found c rfl).symm) (gone.free rfl e member)
  | deduped c asked deduped same plainDeduped free =>
      intro e member atTarget
      exact absurd atTarget (free e (same ▸ member))

theorem copyObject_ok {source destination : S3Address} {u : Unit}
    (ran : S3ObjectStore.copyObject env source destination s = .ok u s') :
    s'.entries = s.entries ∧ s'.nextId = s.nextId ∧ s'.nextUuid = s.nextUuid := by
  unfold S3ObjectStore.copyObject at ran
  obtain ⟨_, _, check, ran⟩ := bind_ok.mp ran
  obtain ⟨-, rfl⟩ := refuseIf_ok.mp check
  obtain ⟨_, _, got, ran⟩ := bind_ok.mp ran
  obtain ⟨rfl, rfl⟩ := get_ok.mp got
  generalize List.find? _ _ = found at ran
  cases found with
  | none => exact absurd ran throw_ok
  | some object =>
      obtain rfl := modify_ok.mp ran
      exact ⟨rfl, rfl, rfl⟩

theorem copyFailed_throws {source : FSEntry} {error : FsError} {u : Unit} :
    ¬ copyFailed env source error s = .ok u s' := by
  intro ran
  unfold copyFailed at ran
  split at ran
  · obtain ⟨_, _, -, ran⟩ := bind_ok.mp ran
    exact throw_ok ran
  · exact throw_ok ran

theorem copyFile_added (kept : WellKept s) {userId : Nat} {source newParent copied : FSEntry}
    {newName : Text} (member : newParent ∈ s.entries) (plain : PlainName newName)
    (ran : copyFile env userId source newParent newName s = .ok copied s') :
    Added s s' copied ∧ copied.path = newParent.path ++ '/' :: newName ∧ copied.isDir = false := by
  unfold copyFile at ran
  obtain ⟨uuid, _, drawn, ran⟩ := bind_ok.mp ran
  obtain ⟨rfl, rfl⟩ := uuidv4_ok.mp drawn
  obtain ⟨_, stored, copied, created⟩ := bind_ok.mp ran
  have ⟨entries, nextId, nextUuid⟩ : stored.entries = s.entries ∧ stored.nextId = s.nextId ∧
      stored.nextUuid = s.nextUuid + 1 := by
    obtain copied | ⟨error, stopped, -, failed⟩ := tryCatch_ok.mp copied
    · exact copyObject_ok copied
    · exact absurd failed copyFailed_throws
  have newUuid : ∀ e ∈ stored.entries, e.uuid ≠ s.nextUuid := by
    intro e eMember
    rw [entries] at eMember
    exact (kept.tidy.freshUuid e eMember).ne
  have storedKept : WellKept stored :=
    kept.of_entries_eq entries (by rw [nextUuid]; exact Nat.le_succ _) nextId.ge
  have path := kept.childPath_eq member newName
  have plainTarget : PlainPath (childPath newParent.path newName) := by
    rw [path]
    exact (kept.plainPath newParent member).child plain
  obtain ⟨atPath, isLeaf, after⟩ := createEntry_new plainTarget ⟨rfl, rfl⟩ newUuid created
  refine ⟨⟨?_, by rw [after, entries]⟩, atPath.trans path, isLeaf⟩
  refine createEntry_ok storedKept ?_ (Or.inr ⟨newUuid, ?_⟩) created
  · exact plainTarget
  · rw [nextUuid]
    exact Nat.lt_succ_self _

theorem copyEntry_added (kept : WellKept s) {userId : Nat} {source newParent copied : FSEntry}
    {newName : Text} (member : newParent ∈ s.entries) (isDir : newParent.isDir = true)
    (plain : PlainName newName) (free : ∀ e ∈ s.entries, e.path ≠ newParent.path ++ '/' :: newName)
    (ran : copyEntry env userId source newParent newName s = .ok copied s') :
    Added s s' copied ∧ copied.path = newParent.path ++ '/' :: newName ∧
      copied.isDir = source.isDir := by
  have created : ∀ input : NonFileInput, createNonFileEntry env input s = .ok copied s' →
      input.parent = newParent → input.name = newName → (input.kind == .directory) = source.isDir →
        Added s s' copied ∧ copied.path = newParent.path ++ '/' :: newName ∧
          copied.isDir = source.isDir := by
    rintro input made rfl rfl kind
    obtain ⟨added, path, dir, -⟩ := createNonFileEntry_added kept member isDir plain free made
    exact ⟨added, path, dir.trans kind⟩
  unfold copyEntry at ran
  split at ran
  next dir => exact created _ ran rfl rfl dir.symm
  next leaf =>
    have isLeaf : false = source.isDir := by simpa using leaf
    unfold copyLeafEntry at ran
    split at ran
    · exact created _ ran rfl rfl isLeaf
    · split at ran
      · exact created _ ran rfl rfl isLeaf
      · split at ran
        · exact created _ ran rfl rfl isLeaf
        · rw [← isLeaf]
          exact copyFile_added kept member plain ran

/-- What the loop over the descendants has made so far, for the rows it started from: every known copy
    is where it belongs, and the places of the copies to come are free. -/
structure Copying (start s : FsState) (source newRoot : FSEntry) (todo : List FSEntry)
    (table : List (Text × FSEntry)) : Prop where
  kept : WellKept s
  known : ∀ path copied, table.lookup path = some copied → copied ∈ s.entries ∧
    copied.path = newRoot.path ++ path.drop source.path.length ∧
    ∀ d ∈ start.entries, d.path = path → d.isDir = true → copied.isDir = true
  places : ∀ x ∈ todo, ∀ e ∈ s.entries,
    e.path ≠ newRoot.path ++ x.path.drop source.path.length

theorem place_child {source d x : FSEntry} {base : Text} (child : x.path = d.path ++ '/' :: x.name)
    (under : source.path = d.path ∨ Under '/' source.path d.path) :
    base ++ x.path.drop source.path.length =
      (base ++ d.path.drop source.path.length) ++ '/' :: x.name := by
  have long : source.path.length ≤ d.path.length := by
    obtain same | below := under
    · rw [same]
    · exact below.length_lt.le
  rw [child, List.drop_append_of_le_length long, List.append_assoc]

theorem drop_inj {source x y : FSEntry} (xUnder : Under '/' source.path x.path)
    (yUnder : Under '/' source.path y.path)
    (same : x.path.drop source.path.length = y.path.drop source.path.length) : x.path = y.path := by
  obtain ⟨xRest, xPath⟩ := xUnder
  obtain ⟨yRest, yPath⟩ := yUnder
  rw [List.append_assoc] at xPath yPath
  rw [← xPath, ← yPath, List.drop_left, List.drop_left] at same
  rw [← xPath, ← yPath, same]

theorem copyDescendants_kept {start : FsState} (startKept : WellKept start) {userId : Nat}
    {source newRoot : FSEntry} (notRoot : source.path ≠ []) {todo : List FSEntry}
    {table : List (Text × FSEntry)} {u : Unit}
    (rows : ∀ x ∈ todo, x ∈ start.entries ∧ Under '/' source.path x.path) (distinct : todo.Nodup)
    (copying : Copying start s source newRoot todo table)
    (ran : copyDescendants env userId todo table s = .ok u s') : WellKept s' := by
  induction todo generalizing s table with
  | nil =>
      rw [← (pure_ok.mp ran).2]
      exact copying.kept
  | cons x todo ih =>
      obtain ⟨xFirst, othersDistinct⟩ := List.nodup_cons.mp distinct
      have others : ∀ y ∈ todo, y ∈ start.entries ∧ Under '/' source.path y.path :=
        fun y member => rows y (List.mem_cons_of_mem _ member)
      obtain ⟨xMember, xUnder⟩ := rows x List.mem_cons_self
      obtain ⟨d, dMember, child, place⟩ :=
        parent_of_under startKept.tree startKept.segmented xMember notRoot xUnder
      have dirname_x := startKept.dirname_eq xMember dMember child
      unfold copyDescendants at ran
      generalize looked : List.lookup (dirname x.path) table = newParent at ran
      cases newParent with
      | none =>
          apply ih others othersDistinct _ ran
          exact ⟨copying.kept, copying.known,
            fun y member => copying.places y (List.mem_cons_of_mem _ member)⟩
      | some newParent =>
          obtain ⟨copied, between, made, ran⟩ := bind_ok.mp ran
          obtain ⟨member, parentPath, dirs⟩ := copying.known _ _ looked
          have isDir : newParent.isDir = true := dirs d dMember dirname_x.symm child.isDir
          have target : newRoot.path ++ x.path.drop source.path.length =
              newParent.path ++ '/' :: x.name := by
            rw [place_child child.path_eq place, parentPath, dirname_x]
          obtain ⟨added, copiedPath, copiedDir⟩ := copyEntry_added copying.kept member isDir
            (startKept.tidy.names x xMember)
            (fun e eMember => target ▸ copying.places x List.mem_cons_self e eMember) made
          apply ih others othersDistinct _ ran
          refine ⟨added.kept, ?_, ?_⟩
          · intro path found foundAt
            by_cases same : path = x.path
            · subst same
              simp only [List.lookup_cons_self, Option.some.injEq] at foundAt
              subst foundAt
              refine ⟨added.mem, copiedPath.trans target.symm, ?_⟩
              intro r rMember rPath rDir
              rw [copiedDir, ← startKept.tree.paths_distinct r rMember x xMember rPath, rDir]
            · have different : (path == x.path) = false := by simpa using same
              simp only [List.lookup_cons, different] at foundAt
              obtain ⟨foundMember, rest⟩ := copying.known path found foundAt
              exact ⟨added.old foundMember, rest⟩
          · intro y yMember e eMember atPlace
            obtain old | rfl := added.cases eMember
            · exact copying.places y (List.mem_cons_of_mem _ yMember) e old atPlace
            · obtain ⟨yStart, yUnder⟩ := others y yMember
              rw [copiedPath, ← target] at atPlace
              have samePath := drop_inj xUnder yUnder (List.append_cancel_left atPlace)
              rw [startKept.tree.paths_distinct x xMember y yStart samePath] at xFirst
              exact xFirst yMember

theorem Added.nothing_under (kept : WellKept s) {row : FSEntry} (added : Added s s' row)
    (newUuid : row.uuid = s.nextUuid) {e : FSEntry} (member : e ∈ s'.entries) :
    ¬ Under '/' row.path e.path := by
  intro under
  obtain ⟨c, cMember, child⟩ := exists_child_of_under added.kept.tree added.kept.segmented added.mem
    (added.kept.plainPath row added.mem).ne_nil e member under
  have parent : c.parentUid = some row.uuid := child.parent_eq
  obtain old | rfl := added.cases cMember
  · obtain ⟨d, dMember, sameUuid, -⟩ := kept.tree.linked c old row.uuid parent
    have drawn := kept.tidy.freshUuid d dMember
    change d.uuid = row.uuid at sameUuid
    omega
  · exact absurd child.length_lt (lt_irrefl _)

theorem copyDirectory_kept (kept : WellKept s) {userId : Nat} {source destination entry : FSEntry}
    {newName : Text} (sourcePlain : PlainPath source.path) (member : destination ∈ s.entries)
    (isDir : destination.isDir = true) (plain : PlainName newName)
    (free : ∀ e ∈ s.entries, e.path ≠ destination.path ++ '/' :: newName)
    (ran : copyDirectory env userId source destination newName s = .ok entry s') : WellKept s' := by
  unfold copyDirectory at ran
  obtain ⟨newRoot, start, made, ran⟩ := bind_ok.mp ran
  obtain ⟨added, -, rootDir, newUuid⟩ :=
    createNonFileEntry_added kept member isDir plain free made
  obtain ⟨descendants, _, listed, ran⟩ := bind_ok.mp ran
  obtain ⟨rfl, mem_descendants, distinct⟩ :=
    listDescendantsByPath_ok added.kept.tidy.nodup sourcePlain listed
  obtain ⟨_, done, copied, ran⟩ := bind_ok.mp ran
  rw [← (pure_ok.mp ran).2]
  generalize sorted : descendants.mergeSort _ = todo at copied
  have rows : ∀ x ∈ todo, x ∈ start.entries ∧ Under '/' source.path x.path := by
    intro x xMember
    rw [← sorted, List.mem_mergeSort] at xMember
    exact (mem_descendants x).mp xMember
  have copying : Copying start start source newRoot todo [(source.path, newRoot)] := by
    refine ⟨added.kept, ?_, ?_⟩
    · intro path found looked
      by_cases same : path = source.path
      · subst same
        simp only [List.lookup_cons_self, Option.some.injEq] at looked
        subst looked
        exact ⟨added.mem, by simp, fun _ _ _ _ => rootDir⟩
      · have different : (path == source.path) = false := by simpa using same
        simp [List.lookup_cons, different] at looked
    · intro x xMember e eMember atPlace
      obtain ⟨-, rest, xPath⟩ := rows x xMember
      rw [← xPath, List.append_assoc, List.drop_left] at atPlace
      exact added.nothing_under kept newUuid eMember (atPlace ▸ under_append '/' _ rest)
  apply copyDescendants_kept added.kept sourcePlain.ne_nil rows _ copying copied
  rw [← sorted]
  exact (List.mergeSort_perm _ _).nodup_iff.mpr distinct

theorem copyLeafEntry_kept (kept : WellKept s) {userId : Nat} {source destination entry : FSEntry}
    {newName : Text} (leaf : source.isDir = false) (member : destination ∈ s.entries)
    (isDir : destination.isDir = true) (plain : PlainName newName)
    (free : ∀ e ∈ s.entries, e.path ≠ destination.path ++ '/' :: newName)
    (ran : copyLeafEntry env userId source destination newName s = .ok entry s') : WellKept s' := by
  have asEntry : copyEntry env userId source destination newName s = .ok entry s' := by
    simp only [copyEntry, leaf, Bool.false_eq_true, if_false, ran]
  exact (copyEntry_added kept member isDir plain free asEntry).1.kept

/-- What `copy` refuses before it looks at its target. -/
structure Copyable (input : CopyInput) : Prop where
  isDir : input.destinationParent.isDir = true
  apart : input.source.isDir = true → input.destinationParent.path ≠ input.source.path ∧
    ¬ Under '/' input.source.path input.destinationParent.path
  usable : UsableName input.name

theorem assertCopyable_ok {input : CopyInput} {u : Unit} (ran : assertCopyable input s = .ok u s') :
    Copyable input ∧ s = s' := by
  unfold assertCopyable at ran
  obtain ⟨_, _, check, ran⟩ := bind_ok.mp ran
  obtain ⟨isDir, rfl⟩ := refuseIf_ok.mp check
  obtain ⟨_, _, check, ran⟩ := bind_ok.mp ran
  obtain ⟨apart, rfl⟩ := refuseIf_ok.mp check
  obtain ⟨usable, rfl⟩ := assertUsableName_ok ran
  refine ⟨⟨by simpa using isDir, fun dir => ?_, usable⟩, rfl⟩
  rw [dir, Bool.true_and, Bool.or_eq_false_iff, beq_eq_false_iff_ne] at apart
  refine ⟨apart.1, fun under => ?_⟩
  rw [startsUnder_iff.mpr under] at apart
  exact absurd apart.2 (by decide)

theorem normalized_reads (path : Text) : ReadsOnly (normalized path) := by
  unfold normalized
  cases normalizePath path with
  | ok normalizedPath => exact .pure _
  | error e => exact .throw _

theorem getSubtreeSize_reads (userId : Nat) (path : Text) :
    ReadsOnly (getSubtreeSize userId path) :=
  .bind (normalized_reads path) fun _ => .bind .get fun _ => .pure _

theorem entryStorageSize_reads (entry : FSEntry) : ReadsOnly (entryStorageSize entry) := by
  unfold entryStorageSize
  split
  · exact getSubtreeSize_reads _ _
  · exact .pure _

theorem assertStorageAllowance_reads (env : FsEnv) (userId incomingSize existingSize : Nat)
    (override : Option Nat) :
    ReadsOnly (assertStorageAllowance env userId incomingSize existingSize override) :=
  .bind .get fun _ => .refuseIf _ _

theorem assertHandOver_reads (env : FsEnv) (input : MoveInput) :
    ReadsOnly (assertHandOver env input) :=
  .runIf fun _ => .bind (entryStorageSize_reads _) fun _ => assertStorageAllowance_reads env _ _ _ _

theorem assertCopyAllowance_reads (env : FsEnv) (userId : Nat) (input : CopyInput)
    (collision : Option FSEntry) : ReadsOnly (assertCopyAllowance env userId input collision) := by
  refine .bind (entryStorageSize_reads _) fun _ => .bind ?_ fun _ => assertStorageAllowance_reads env _ _ _ _
  cases collision with
  | none => exact .pure _
  | some c =>
      unfold freedSize
      cases input.overwrite with
      | true => exact entryStorageSize_reads c
      | false => exact .pure _

theorem copy_kept (kept : WellKept s) {userId : Nat} {input : CopyInput} {entry : FSEntry}
    (sourceMember : input.source ∈ s.entries) (member : input.destinationParent ∈ s.entries)
    (plain : PlainName input.name) (ran : copy env userId input s = .ok entry s') :
    WellKept s' := by
  have plainTarget := (kept.plainPath _ member).child plain
  have sourcePlain := kept.plainPath _ sourceMember
  unfold copy at ran
  obtain ⟨_, _, check, ran⟩ := bind_ok.mp ran
  obtain ⟨copyable, rfl⟩ := assertCopyable_ok check
  obtain ⟨collision, _, looked, ran⟩ := bind_ok.mp ran
  rw [kept.childPath_eq member] at looked
  obtain ⟨found, rfl⟩ := getEntryByPath_plain plainTarget looked
  obtain ⟨_, _, check, ran⟩ := bind_ok.mp ran
  obtain rfl := (assertCopyAllowance_reads env userId input _).ok check
  obtain ⟨name, cleared, made, ran⟩ := bind_ok.mp ran
  have collides : ∀ c, collision = some c → c ∈ s.entries ∧
      c.path = input.destinationParent.path ++ '/' :: input.name :=
    fun c isCollision => entryAt_some (found.symm.trans isCollision)
  have way := makeWay_ok kept member plain (fun c isCollision => (collides c isCollision).1) made
  obtain ⟨clearedKept, clearedMember, plainResult⟩ :=
    way.kept kept member plain fun c isCollision => (collides c isCollision).2
  have free := way.target_free (fun isNone => entryAt_none (found.symm.trans isNone))
    fun c isCollision => (collides c isCollision).2
  unfold copyTo at ran
  split at ran
  · exact copyDirectory_kept clearedKept sourcePlain clearedMember copyable.isDir plainResult free ran
  next leaf =>
    apply copyLeafEntry_kept clearedKept _ clearedMember copyable.isDir plainResult free ran
    simpa using leaf

end Puter

/-
Module: Puter.Fs.StoreTree
Purpose: What the writes of the filesystem store do to a tree in good order, when they succeed: a new
  entry, the directories made on the way to one, a file written, and a pruned subtree.
Trusted boundary: none
Main exports: Grown, createEntry_ok, insertFile_ok
-/
import Puter.Fs.FsTree

namespace Puter

open PosixPath StateRun FSEntryStore PathForest

variable {env : FsEnv} {s s' : FsState}

theorem uuidv4_ok {uuid : Nat} :
    uuidv4 s = .ok uuid s' ↔ uuid = s.nextUuid ∧ s' = { s with nextUuid := s.nextUuid + 1 } := by
  unfold uuidv4
  simp only [bind_ok, get_ok, set_ok, pure_ok]
  constructor
  · rintro ⟨_, _, ⟨rfl, rfl⟩, _, _, rfl, rfl, rfl⟩
    exact ⟨rfl, rfl⟩
  · rintro ⟨rfl, rfl⟩
    exact ⟨s, s, ⟨rfl, rfl⟩, PUnit.unit, _, rfl, rfl, rfl⟩

theorem drawId_ok {id : Nat} :
    drawId s = .ok id s' ↔ id = s.nextId ∧ s' = { s with nextId := s.nextId + 1 } := by
  unfold drawId
  simp only [bind_ok, get_ok, set_ok, pure_ok]
  constructor
  · rintro ⟨_, _, ⟨rfl, rfl⟩, _, _, rfl, rfl, rfl⟩
    exact ⟨rfl, rfl⟩
  · rintro ⟨rfl, rfl⟩
    exact ⟨s, s, ⟨rfl, rfl⟩, PUnit.unit, _, rfl, rfl, rfl⟩

theorem uuidv4_error {e : FsError} : ¬ uuidv4 s = .error e s' := by
  intro failed
  cases failed

theorem drawId_error {e : FsError} : ¬ drawId s = .error e s' := by
  intro failed
  cases failed

theorem insertEntry_error {row : FSEntry} {e : FsError}
    (ran : insertEntry env row s = .error e s') : s = s' := by
  unfold insertEntry at ran
  obtain failed | ⟨_, _, got, ran⟩ := bind_error.mp ran
  · exact absurd failed get_error
  obtain ⟨rfl, rfl⟩ := get_ok.mp got
  obtain failed | ⟨_, _, -, ran⟩ := bind_error.mp ran
  · exact (refuseIf_error.mp failed).2.2
  · exact absurd ran modify_error

theorem insertEntry_ok {row : FSEntry} {u : Unit} (ran : insertEntry env row s = .ok u s') :
    s' = { s with entries := s.entries ++ [row] } := by
  unfold insertEntry at ran
  simp only [bind_ok, get_ok, refuseIf_ok, modify_ok] at ran
  obtain ⟨_, _, ⟨rfl, rfl⟩, _, _, ⟨-, rfl⟩, rfl⟩ := ran
  rfl

theorem entryOf_append {entries : List FSEntry} (row : FSEntry) {entry : FSEntry}
    (newUuid : ∀ e ∈ entries, e.uuid ≠ row.uuid)
    (found : entryOf (entries ++ [row]) row.uuid = some entry) : entry = row := by
  obtain ⟨member, same⟩ := entryOf_some found
  simp only [List.mem_append, List.mem_singleton] at member
  obtain old | new := member
  · exact absurd same (newUuid entry old)
  · exact new

theorem createNonFileEntry_ok {input : NonFileInput} {entry : FSEntry} (tidy : Tidy s)
    (plain : PlainPath input.parent.path) (ran : createNonFileEntry env input s = .ok entry s') :
    entry = nonFileRow env input input.parent.path s.nextId s.nextUuid ∧
      s' = { s with
        entries := s.entries ++ [entry], nextId := s.nextId + 1, nextUuid := s.nextUuid + 1 } := by
  unfold createNonFileEntry at ran
  obtain ⟨uuid, s₁, drawn, ran⟩ := bind_ok.mp ran
  obtain ⟨rfl, rfl⟩ := uuidv4_ok.mp drawn
  obtain ⟨parentPath, s₂, norm, ran⟩ := bind_ok.mp ran
  obtain ⟨rfl, rfl⟩ := (normalized_plain plain).mp norm
  obtain ⟨id, s₃, drawn, ran⟩ := bind_ok.mp ran
  obtain ⟨rfl, rfl⟩ := drawId_ok.mp drawn
  obtain ⟨_, s₄, inserted, ran⟩ := bind_ok.mp ran
  have after := insertEntry_ok inserted
  obtain ⟨s₅, _, got, ran⟩ := bind_ok.mp ran
  obtain ⟨rfl, rfl⟩ := get_ok.mp got
  obtain ⟨stored, rfl⟩ := orThrow_ok.mp ran
  rw [after] at stored
  have isRow := entryOf_append (nonFileRow env input input.parent.path s.nextId s.nextUuid)
    (fun e member => (tidy.freshUuid e member).ne) stored
  exact ⟨isRow, by rw [after, isRow]⟩

/-- A call has only added rows: with new uuids, and at paths of a bounded length. -/
structure Grown (s s' : FsState) (longest : Nat) : Prop where
  old : ∀ e ∈ s.entries, e ∈ s'.entries
  new : ∀ e ∈ s'.entries, e ∈ s.entries ∨ s.nextUuid ≤ e.uuid ∧ e.path.length ≤ longest
  moreUuids : s.nextUuid ≤ s'.nextUuid
  moreIds : s.nextId ≤ s'.nextId

namespace Grown

variable {s₁ s₂ : FsState} {longest longer : Nat}

theorem refl (s : FsState) (longest : Nat) : Grown s s longest :=
  ⟨fun _ member => member, fun _ member => Or.inl member, le_refl _, le_refl _⟩

theorem trans (first : Grown s s₁ longest) (second : Grown s₁ s₂ longer)
    (bound : longest ≤ longer) : Grown s s₂ longer where
  old := fun e member => second.old e (first.old e member)
  new := by
    intro e member
    obtain between | ⟨later, short⟩ := second.new e member
    · obtain old | ⟨new, short⟩ := first.new e between
      · exact Or.inl old
      · exact Or.inr ⟨new, short.trans bound⟩
    · exact Or.inr ⟨first.moreUuids.trans later, short⟩
  moreUuids := first.moreUuids.trans second.moreUuids
  moreIds := first.moreIds.trans second.moreIds

theorem mono (grown : Grown s s₁ longest) (bound : longest ≤ longer) : Grown s s₁ longer :=
  grown.trans (refl s₁ longer) bound

theorem free (grown : Grown s s₁ longest) {path : Text} (long : longest < path.length)
    (free : ∀ e ∈ s.entries, e.path ≠ path) : ∀ e ∈ s₁.entries, e.path ≠ path := by
  intro e member same
  obtain old | ⟨-, short⟩ := grown.new e member
  · exact free e old same
  · rw [same] at short
    omega

end Grown

theorem insertDirectory_ok {path : Text} {userId : Nat} {parentEntry : Option FSEntry} {u : Unit}
    (ran : insertDirectory env path userId parentEntry s = .ok u s') :
    s'.nextUuid = s.nextUuid + 1 ∧ s'.nextId = s.nextId + 1 ∧
      (s'.entries = s.entries ∨ s'.entries =
        s.entries ++ [directoryRow env path userId parentEntry s.nextId s.nextUuid]) := by
  unfold insertDirectory at ran
  obtain ⟨uuid, s₁, drawn, ran⟩ := bind_ok.mp ran
  obtain ⟨rfl, rfl⟩ := uuidv4_ok.mp drawn
  obtain ⟨id, s₂, drawn, ran⟩ := bind_ok.mp ran
  obtain ⟨rfl, rfl⟩ := drawId_ok.mp drawn
  have after := modify_ok.mp ran
  split at after
  · subst after
    exact ⟨rfl, rfl, Or.inl rfl⟩
  · subst after
    exact ⟨rfl, rfl, Or.inr rfl⟩

def HangsAt (s : FsState) (path : Text) : Option FSEntry → Prop
  | none => path = '/' :: basename path
  | some d => d ∈ s.entries ∧ d.isDir = true ∧ path = d.path ++ '/' :: basename path

theorem insertDirectory_kept (kept : WellKept s) {path : Text} {userId : Nat}
    {parentEntry : Option FSEntry} {u : Unit} (plainName : PlainName (basename path))
    (hangs : HangsAt s path parentEntry) (free : ∀ e ∈ s.entries, e.path ≠ path)
    (ran : insertDirectory env path userId parentEntry s = .ok u s') :
    WellKept s' ∧ Grown s s' path.length := by
  obtain ⟨uuids, ids, same | added⟩ := insertDirectory_ok ran
  · refine ⟨kept.of_entries_eq same (by omega) (by omega), ?_, ?_, by omega, by omega⟩
    · intro e member
      exact same ▸ member
    · intro e member
      exact Or.inl (same ▸ member)
  · refine ⟨⟨?_, ?_⟩, ?_, ?_, by omega, by omega⟩
    · rw [added]
      cases parentEntry with
      | none => exact kept.tree.insertHome rfl free
      | some d =>
          obtain ⟨dMember, isDir, below⟩ := hangs
          exact kept.tree.insert dMember ⟨rfl, isDir, rfl, below⟩ free
    · apply kept.tidy.insert added (fun e member => (kept.tidy.freshUuid e member).ne)
        (fun e member => (kept.tidy.freshId e member).ne)
      · change s.nextUuid < s'.nextUuid
        omega
      · change s.nextId < s'.nextId
        omega
      · omega
      · omega
      · exact plainName
      · intro root
        cases parentEntry with
        | none => exact hangs
        | some d => cases root
    · intro e member
      rw [added]
      exact List.mem_append_left _ member
    · intro e member
      simp only [added, List.mem_append, List.mem_singleton] at member
      obtain old | rfl := member
      · exact Or.inl old
      · exact Or.inr ⟨le_refl s.nextUuid, le_refl path.length⟩

theorem asDirectory_ok {path : Text} {found : Option FSEntry} {d : FSEntry}
    (ran : asDirectory path found s = .ok d s') :
    found = some d ∧ d.isDir = true ∧ s = s' := by
  cases found with
  | none => exact absurd ran throw_ok
  | some entry =>
      simp only [asDirectory] at ran
      split at ran
      next isDir =>
        obtain ⟨rfl, rfl⟩ := pure_ok.mp ran
        exact ⟨rfl, isDir, rfl⟩
      next => exact absurd ran throw_ok

theorem asDirectory_entryAt {path : Text} {d : FSEntry}
    (ran : asDirectory path (entryAt s.entries path) s = .ok d s') :
    d ∈ s.entries ∧ d.isDir = true ∧ d.path = path ∧ s = s' := by
  obtain ⟨found, isDir, same⟩ := asDirectory_ok ran
  obtain ⟨member, atPath⟩ := entryAt_some found
  exact ⟨member, isDir, atPath, same⟩

theorem insertBelow_kept (kept : WellKept s) {path : Text} {userId : Nat}
    {ensureParent : Text → FsRun FSEntry} {u : Unit} (plain : PlainPath path)
    (free : ∀ e ∈ s.entries, e.path ≠ path)
    (ensures : ∀ parentPath d between, PlainPath parentPath →
      ensureParent parentPath s = .ok d between → WellKept between ∧
        Grown s between parentPath.length ∧ d ∈ between.entries ∧ d.isDir = true ∧
        d.path = parentPath)
    (ran : insertBelow env path userId ensureParent s = .ok u s') :
    WellKept s' ∧ Grown s s' path.length := by
  unfold insertBelow at ran
  obtain ⟨plainName, ⟨atRoot, shape⟩ | ⟨plainAbove, shape⟩⟩ := plain.parts
  · rw [if_pos atRoot] at ran
    exact insertDirectory_kept kept plainName (show HangsAt s path none from shape) free ran
  · rw [if_neg plainAbove.ne_root] at ran
    obtain ⟨d, between, ensured, inserted⟩ := bind_ok.mp ran
    obtain ⟨kept', grown, dMember, isDir, atParent⟩ := ensures _ d between plainAbove ensured
    have shorter : (dirname path).length < path.length := by
      conv_rhs => rw [shape]
      simp
    have hangs : HangsAt between path (some d) := ⟨dMember, isDir, by rw [atParent]; exact shape⟩
    obtain ⟨kept'', grown'⟩ :=
      insertDirectory_kept kept' plainName hangs (grown.free shorter free) inserted
    exact ⟨kept'', grown.trans grown' shorter.le⟩

theorem ensureDirectoryPath_ok (kept : WellKept s) {userId levels : Nat} {createPaths : Bool}
    {path : Text} {d : FSEntry} (plain : PlainPath path)
    (ran : ensureDirectoryPath env userId createPaths levels path s = .ok d s') :
    WellKept s' ∧ Grown s s' path.length ∧ d ∈ s'.entries ∧ d.isDir = true ∧ d.path = path := by
  induction levels generalizing s s' createPaths path d with
  | zero => exact absurd ran throw_ok
  | succ levels ih =>
      unfold ensureDirectoryPath at ran
      obtain ⟨_, _, norm, ran⟩ := bind_ok.mp ran
      obtain ⟨rfl, rfl⟩ := (normalized_plain plain).mp norm
      obtain ⟨_, _, got, ran⟩ := bind_ok.mp ran
      obtain ⟨rfl, rfl⟩ := get_ok.mp got
      cases found : entryAt s.entries path with
      | some existing =>
          simp only [found] at ran
          rw [← found] at ran
          obtain ⟨member, isDir, atPath, rfl⟩ := asDirectory_entryAt ran
          exact ⟨kept, .refl _ _, member, isDir, atPath⟩
      | none =>
          simp only [found] at ran
          obtain ⟨_, _, check, ran⟩ := bind_ok.mp ran
          obtain ⟨-, rfl⟩ := refuseIf_ok.mp check
          obtain ⟨_, _, check, ran⟩ := bind_ok.mp ran
          obtain ⟨-, rfl⟩ := refuseIf_ok.mp check
          obtain ⟨_, made, inserted, ran⟩ := bind_ok.mp ran
          obtain ⟨_, _, got, ran⟩ := bind_ok.mp ran
          obtain ⟨rfl, rfl⟩ := get_ok.mp got
          obtain ⟨member, isDir, atPath, rfl⟩ := asDirectory_entryAt ran
          obtain ⟨kept', grown⟩ := insertBelow_kept kept plain (entryAt_none found)
            (fun _ _ _ plainAbove ensured => ih kept plainAbove ensured) inserted
          exact ⟨kept', grown, member, isDir, atPath⟩

def Known (s : FsState) (known : List (Text × FSEntry)) : Prop :=
  ∀ path entry, known.lookup path = some entry → entry ∈ s.entries ∧ entry.path = path

theorem knownParent_ok {known : List (Text × FSEntry)} (sound : Known s known)
    {path parentPath : Text} {d : FSEntry}
    (ran : knownParent known path parentPath s = .ok d s') :
    d ∈ s'.entries ∧ d.isDir = true ∧ d.path = parentPath ∧ s = s' := by
  unfold knownParent at ran
  obtain ⟨_, _, looked, ran⟩ := bind_ok.mp ran
  obtain ⟨found, rfl⟩ := orThrow_ok.mp looked
  obtain ⟨_, _, check, ran⟩ := bind_ok.mp ran
  obtain ⟨isDir, rfl⟩ := refuseIf_ok.mp check
  obtain ⟨rfl, rfl⟩ := pure_ok.mp ran
  obtain ⟨member, atPath⟩ := sound parentPath _ found
  exact ⟨member, by simpa using isDir, atPath, rfl⟩

theorem readEntriesByPaths_ok {paths : List Text} {found : List (Text × FSEntry)}
    (plain : ∀ path ∈ paths, PlainPath path)
    (ran : readEntriesByPaths paths s = .ok found s') :
    s = s' ∧ found = paths.filterMap fun path => (entryAt s.entries path).map fun e => (e.path, e) := by
  induction paths generalizing found s' with
  | nil =>
      obtain ⟨rfl, rfl⟩ := pure_ok.mp ran
      exact ⟨rfl, rfl⟩
  | cons path paths ih =>
      unfold readEntriesByPaths at ran
      obtain ⟨_, _, first, ran⟩ := bind_ok.mp ran
      obtain ⟨rfl, rfl⟩ := getEntryByPath_plain (plain path List.mem_cons_self) first
      obtain ⟨_, _, others, ran⟩ := bind_ok.mp ran
      obtain ⟨rfl, rfl⟩ :=
        ih (fun p member => plain p (List.mem_cons_of_mem _ member)) others
      obtain ⟨rfl, rfl⟩ := pure_ok.mp ran
      refine ⟨rfl, ?_⟩
      cases stored : entryAt s.entries path with
      | none => simp [stored]
      | some e => simp [stored]

theorem known_of_read {paths : List Text} :
    Known s (paths.filterMap fun path => (entryAt s.entries path).map fun e => (e.path, e)) := by
  intro path entry found
  obtain ⟨front, back, split, -⟩ := List.lookup_eq_some_iff.mp found
  have member : (path, entry) ∈
      paths.filterMap fun path => (entryAt s.entries path).map fun e => (e.path, e) := by
    simp [split]
  obtain ⟨asked, -, shape⟩ := List.mem_filterMap.mp member
  obtain ⟨e, stored, same⟩ := Option.map_eq_some_iff.mp shape
  obtain ⟨rfl, rfl⟩ := Prod.mk.inj same
  exact ⟨(entryAt_some stored).1, rfl⟩

theorem free_of_read {paths : List Text} {path : Text} (asked : path ∈ paths)
    (unknown : (paths.filterMap fun path =>
      (entryAt s.entries path).map fun e => (e.path, e)).lookup path = none) :
    ∀ e ∈ s.entries, e.path ≠ path := by
  apply entryAt_none
  cases stored : entryAt s.entries path with
  | none => rfl
  | some e =>
      have member : (path, e) ∈
          paths.filterMap fun path => (entryAt s.entries path).map fun e => (e.path, e) := by
        apply List.mem_filterMap.mpr
        exact ⟨path, asked, by simp [stored, (entryAt_some stored).2]⟩
      simpa using List.lookup_eq_none_iff.mp unknown _ member

theorem resolveInserted_ok (kept : WellKept s) {userId : Nat} {path : Text} {entry : FSEntry}
    (plain : PlainPath path) (ran : resolveInserted env userId path s = .ok entry s') :
    WellKept s' ∧ Grown s s' path.length ∧ entry ∈ s'.entries ∧ entry.path = path := by
  unfold resolveInserted at ran
  obtain ⟨inserted, _, read, ran⟩ := bind_ok.mp ran
  obtain ⟨rfl, rfl⟩ := readEntriesByPaths_ok (by simpa using plain) read
  generalize looked : List.lookup path _ = found at ran
  cases found with
  | some found =>
      obtain ⟨rfl, rfl⟩ := pure_ok.mp ran
      obtain ⟨member, atPath⟩ := known_of_read path _ looked
      exact ⟨kept, .refl _ _, member, atPath⟩
  | none =>
      obtain ⟨kept', grown, member, -, atPath⟩ := ensureDirectoryPath_ok kept plain ran
      exact ⟨kept', grown, member, atPath⟩

theorem createMissingDirectory_ok (kept : WellKept s) {userId : Nat} {path : Text}
    {known known' : List (Text × FSEntry)} (plain : PlainPath path) (sound : Known s known)
    (free : ∀ e ∈ s.entries, e.path ≠ path)
    (ran : createMissingDirectory env userId path known s = .ok known' s') :
    WellKept s' ∧ Grown s s' path.length ∧ Known s' known' := by
  unfold createMissingDirectory at ran
  obtain ⟨_, made, inserted, ran⟩ := bind_ok.mp ran
  obtain ⟨kept₁, grown₁⟩ := insertBelow_kept kept plain free (by
    intro parentPath d between plainAbove ensured
    obtain ⟨member, isDir, atPath, rfl⟩ := knownParent_ok sound ensured
    exact ⟨kept, .refl _ _, member, isDir, atPath⟩) inserted
  obtain ⟨entry, between, resolved, ran⟩ := bind_ok.mp ran
  obtain ⟨kept₂, grown₂, member, atPath⟩ := resolveInserted_ok kept₁ plain resolved
  obtain ⟨_, _, check, ran⟩ := bind_ok.mp ran
  obtain ⟨-, rfl⟩ := refuseIf_ok.mp check
  obtain ⟨rfl, rfl⟩ := pure_ok.mp ran
  have grown := grown₁.trans grown₂ (le_refl _)
  refine ⟨kept₂, grown, ?_⟩
  intro other found looked
  by_cases same : other = path
  · subst same
    simp only [List.lookup_cons_self, Option.some.injEq] at looked
    exact looked ▸ ⟨member, atPath⟩
  · have different : (other == path) = false := by simpa using same
    simp only [List.lookup_cons, different] at looked
    obtain ⟨foundMember, foundPath⟩ := sound other found looked
    exact ⟨grown.old found foundMember, foundPath⟩

theorem createMissingDirectories_ok (kept : WellKept s) {userId : Nat} {missing : List Text}
    {known : List (Text × FSEntry)} {longest : Nat} {u : Unit}
    (plain : ∀ path ∈ missing, PlainPath path) (sound : Known s known)
    (free : ∀ path ∈ missing, ∀ e ∈ s.entries, e.path ≠ path)
    (shallowFirst : missing.Pairwise fun a b => a.length < b.length)
    (bounded : ∀ path ∈ missing, path.length ≤ longest)
    (ran : createMissingDirectories env userId missing known s = .ok u s') :
    WellKept s' ∧ Grown s s' longest := by
  induction missing generalizing s known with
  | nil =>
      obtain ⟨-, rfl⟩ := pure_ok.mp ran
      exact ⟨kept, .refl _ _⟩
  | cons path missing ih =>
      obtain ⟨deeper, others⟩ := List.pairwise_cons.mp shallowFirst
      obtain ⟨known', between, first, rest⟩ := bind_ok.mp ran
      obtain ⟨kept₁, grown₁, sound₁⟩ := createMissingDirectory_ok kept
        (plain path List.mem_cons_self) sound (free path List.mem_cons_self) first
      obtain ⟨kept₂, grown₂⟩ := ih kept₁
        (fun p member => plain p (List.mem_cons_of_mem _ member)) sound₁
        (fun p member => grown₁.free (deeper p member) (free p (List.mem_cons_of_mem _ member)))
        others (fun p member => bounded p (List.mem_cons_of_mem _ member)) rest
      exact ⟨kept₂, (grown₁.mono (bounded path List.mem_cons_self)).trans grown₂ (le_refl _)⟩

theorem candidateDirs_chain {levels : Nat} {path : Text} (plain : PlainPath path) :
    (∀ dir ∈ candidateDirs levels path, PlainPath dir ∧ dir.length ≤ path.length) ∧
      (candidateDirs levels path).Pairwise fun a b => b.length < a.length := by
  induction levels generalizing path with
  | zero => simp [candidateDirs]
  | succ levels ih =>
      simp only [candidateDirs, plain.ne_root, if_false]
      obtain ⟨-, ⟨atRoot, -⟩ | ⟨plainAbove, shape⟩⟩ := plain.parts
      · have stops : candidateDirs levels (dirname path) = [] := by
          cases levels <;> simp [candidateDirs, atRoot]
        simpa [stops] using plain
      · obtain ⟨above, sorted⟩ := ih plainAbove
        have shorter : (dirname path).length < path.length := by
          conv_rhs => rw [shape]
          simp
        constructor
        · intro dir member
          obtain rfl | member := List.mem_cons.mp member
          · exact ⟨plain, le_refl _⟩
          · exact ⟨(above dir member).1, (above dir member).2.trans shorter.le⟩
        · exact List.pairwise_cons.mpr
            ⟨fun dir member => (above dir member).2.trans_lt shorter, sorted⟩

theorem ensureDirectoryPathsForUser_ok (kept : WellKept s) {userId : Nat} {path : Text} {u : Unit}
    (plain : PlainPath path) (ran : ensureDirectoryPathsForUser env userId path s = .ok u s') :
    WellKept s' ∧ Grown s s' path.length := by
  unfold ensureDirectoryPathsForUser at ran
  obtain ⟨_, _, norm, ran⟩ := bind_ok.mp ran
  obtain ⟨rfl, rfl⟩ := (normalized_plain plain).mp norm
  obtain ⟨chain, sorted⟩ := candidateDirs_chain plain
  obtain ⟨_, _, read, ran⟩ := bind_ok.mp ran
  obtain ⟨rfl, rfl⟩ := readEntriesByPaths_ok (fun dir member => (chain dir member).1) read
  generalize List.find? _ _ = blocked at ran
  cases blocked with
  | some dir => exact absurd ran throw_ok
  | none =>
      apply createMissingDirectories_ok kept _ known_of_read _ _ _ ran
      · intro dir member
        exact (chain dir (List.mem_of_mem_filter (List.mem_reverse.mp member))).1
      · intro dir member
        obtain ⟨asked, unknown⟩ := List.mem_filter.mp (List.mem_reverse.mp member)
        exact free_of_read asked (by simpa using unknown)
      · exact List.pairwise_reverse.mpr (sorted.filter _)
      · intro dir member
        exact (chain dir (List.mem_of_mem_filter (List.mem_reverse.mp member))).2

theorem insertIgnoreEntry_ok {row : FSEntry} {u : Unit}
    (ran : insertIgnoreEntry env row s = .ok u s') :
    s' = s ∨ s' = { s with entries := s.entries ++ [row] } := by
  have after := modify_ok.mp ran
  split at after
  · exact Or.inl after.symm
  · exact Or.inr after.symm

theorem insertFile_ok {input : FSEntryCreateInput} {targetPath : Text} {parentEntry entry : FSEntry}
    (newUuid : ∀ e ∈ s.entries, e.uuid ≠ input.uuid)
    (ran : insertFile env input targetPath parentEntry s = .ok entry s') :
    entry = fileRow env input targetPath parentEntry s.nextId ∧
      s' = { s with entries := s.entries ++ [entry], nextId := s.nextId + 1 } := by
  unfold insertFile at ran
  obtain ⟨id, _, drawn, ran⟩ := bind_ok.mp ran
  obtain ⟨rfl, rfl⟩ := drawId_ok.mp drawn
  obtain ⟨_, _, inserted, ran⟩ := bind_ok.mp ran
  obtain ⟨_, _, got, ran⟩ := bind_ok.mp ran
  obtain ⟨rfl, rfl⟩ := get_ok.mp got
  obtain ⟨stored, rfl⟩ := orThrow_ok.mp ran
  obtain dropped | added := insertIgnoreEntry_ok inserted
  · rw [dropped] at stored
    obtain ⟨member, same⟩ := entryOf_some stored
    exact absurd same (newUuid entry member)
  · rw [added] at stored
    have isRow := entryOf_append (fileRow env input targetPath parentEntry s.nextId) newUuid stored
    exact ⟨isRow, by rw [added, isRow]⟩

theorem overwriteEntry_ok {input : FSEntryCreateInput} {targetPath : Text}
    {parentEntry existingEntry entry : FSEntry}
    (ran : overwriteEntry env input targetPath parentEntry existingEntry s = .ok entry s') :
    s' = { s with
      entries := updateWhere (·.id == existingEntry.id)
        (overwrittenRow env input targetPath parentEntry) s.entries } := by
  unfold overwriteEntry at ran
  obtain ⟨_, _, check, ran⟩ := bind_ok.mp ran
  obtain ⟨-, rfl⟩ := refuseIf_ok.mp check
  obtain ⟨_, _, check, ran⟩ := bind_ok.mp ran
  obtain ⟨-, rfl⟩ := refuseIf_ok.mp check
  obtain ⟨_, _, got, ran⟩ := bind_ok.mp ran
  obtain ⟨rfl, rfl⟩ := get_ok.mp got
  obtain ⟨_, _, check, ran⟩ := bind_ok.mp ran
  obtain ⟨-, rfl⟩ := refuseIf_ok.mp check
  obtain ⟨_, _, written, ran⟩ := bind_ok.mp ran
  rw [← (pure_ok.mp ran).2]
  exact (set_ok.mp written).symm

theorem overwriteEntry_kept (kept : WellKept s) {input : FSEntryCreateInput} {targetPath : Text}
    {parentEntry existingEntry entry : FSEntry} (parentMember : parentEntry ∈ s.entries)
    (atParent : parentEntry.path = dirname targetPath) (notHome : dirname targetPath ≠ ['/'])
    (member : existingEntry ∈ s.entries) (atTarget : existingEntry.path = targetPath)
    (ran : overwriteEntry env input targetPath parentEntry existingEntry s = .ok entry s') :
    WellKept s' := by
  subst atTarget
  obtain ⟨d, dMember, child, atDir⟩ := kept.exists_parent member notHome
  have isParent : d = parentEntry :=
    kept.tree.paths_distinct d dMember parentEntry parentMember (atDir.trans atParent.symm)
  subst isParent
  have after := overwriteEntry_ok ran
  apply kept.updateWhere (by rw [after]) (by rw [after]) (by rw [after])
  intro e eMember selected
  have isEntry := kept.tidy.ids e eMember existingEntry member (by simpa using selected)
  subst isEntry
  exact ⟨rfl, rfl, child.parent_eq.symm, rfl, rfl, kept.basename_eq member, rfl⟩

theorem createEntry_steps {input : FSEntryCreateInput} {createPaths : Bool} {entry : FSEntry}
    (plain : PlainPath input.path) (ran : createEntry env input createPaths s = .ok entry s') :
    PlainPath (dirname input.path) ∧ ∃ between parentEntry,
      runIf (input.createMissingParents.getD createPaths)
        (ensureDirectoryPathsForUser env input.userId (dirname input.path)) s = .ok () between ∧
      parentEntry ∈ between.entries ∧ parentEntry.isDir = true ∧
      parentEntry.path = dirname input.path ∧
      ((∃ existing, entryAt between.entries input.path = some existing ∧
          overwriteEntry env input input.path parentEntry existing between = .ok entry s') ∨
        entryAt between.entries input.path = none ∧
          insertFile env input input.path parentEntry between = .ok entry s') := by
  unfold createEntry at ran
  obtain ⟨_, _, norm, ran⟩ := bind_ok.mp ran
  obtain ⟨rfl, rfl⟩ := (normalized_plain plain).mp norm
  obtain ⟨_, _, check, ran⟩ := bind_ok.mp ran
  obtain ⟨-, rfl⟩ := refuseIf_ok.mp check
  obtain ⟨parentPath, _, norm, ran⟩ := bind_ok.mp ran
  obtain ⟨_, _, check, ran⟩ := bind_ok.mp ran
  obtain ⟨notRoot, rfl⟩ := refuseIf_ok.mp check
  obtain ⟨-, ⟨atRoot, -⟩ | ⟨plainAbove, -⟩⟩ := plain.parts
  · rw [atRoot, normalized_ok] at norm
    rw [← Except.ok.inj ((by decide : normalizePath ['/'] = .ok ['/']).symm.trans norm.1)] at notRoot
    simp at notRoot
  · obtain ⟨rfl, rfl⟩ := (normalized_plain plainAbove).mp norm
    obtain ⟨_, between, ensured, ran⟩ := bind_ok.mp ran
    obtain ⟨_, _, got, ran⟩ := bind_ok.mp ran
    obtain ⟨rfl, rfl⟩ := get_ok.mp got
    obtain ⟨parentEntry, _, found, ran⟩ := bind_ok.mp ran
    obtain ⟨member, isDir, atParent, rfl⟩ := asDirectory_entryAt found
    obtain ⟨_, _, got, ran⟩ := bind_ok.mp ran
    obtain ⟨rfl, rfl⟩ := get_ok.mp got
    refine ⟨plainAbove, between, parentEntry, ensured, member, isDir, atParent, ?_⟩
    generalize stored : entryAt between.entries input.path = existing at ran
    cases existing with
    | some existing => exact Or.inl ⟨existing, rfl, ran⟩
    | none => exact Or.inr ⟨rfl, ran⟩

theorem createEntry_ok (kept : WellKept s) {input : FSEntryCreateInput} {createPaths : Bool}
    {entry : FSEntry} (plain : PlainPath input.path)
    (key : (∃ e ∈ s.entries, e.path = input.path) ∨
      (∀ e ∈ s.entries, e.uuid ≠ input.uuid) ∧ input.uuid < s.nextUuid)
    (ran : createEntry env input createPaths s = .ok entry s') : WellKept s' := by
  obtain ⟨plainAbove, between, parentEntry, ensured, parentMember, isDir, atParent, written⟩ :=
    createEntry_steps plain ran
  have made : WellKept between ∧ Grown s between (dirname input.path).length := by
    obtain ⟨-, ensured⟩ | ⟨-, rfl⟩ := runIf_ok.mp ensured
    · exact ensureDirectoryPathsForUser_ok kept plainAbove ensured
    · exact ⟨kept, .refl _ _⟩
  obtain ⟨kept', grown⟩ := made
  obtain ⟨existing, stored, ran⟩ | ⟨stored, ran⟩ := written
  · obtain ⟨member, atTarget⟩ := entryAt_some stored
    exact overwriteEntry_kept kept' parentMember atParent plainAbove.ne_root member atTarget ran
  · have free := entryAt_none stored
    have newUuid : (∀ e ∈ between.entries, e.uuid ≠ input.uuid) ∧ input.uuid < between.nextUuid := by
      obtain ⟨e, member, atTarget⟩ | ⟨new, drawn⟩ := key
      · exact absurd atTarget (free e (grown.old e member))
      · refine ⟨?_, drawn.trans_le grown.moreUuids⟩
        intro e member
        obtain old | ⟨later, -⟩ := grown.new e member
        · exact new e old
        · omega
    obtain ⟨rfl, rfl⟩ := insertFile_ok newUuid.1 ran
    have atPath : input.path = parentEntry.path ++ '/' :: basename input.path := by
      obtain ⟨-, ⟨atRoot, -⟩ | ⟨-, shape⟩⟩ := plain.parts
      · exact absurd atRoot plainAbove.ne_root
      · rw [atParent]
        exact shape
    refine ⟨kept'.tree.insert parentMember ⟨rfl, isDir, rfl, atPath⟩ free, ?_⟩
    exact kept'.tidy.insert rfl newUuid.1 (fun e member => (kept'.tidy.freshId e member).ne)
      newUuid.2 (Nat.lt_succ_self _) (le_refl _) (Nat.le_succ _) plain.parts.1
      (fun root => absurd root (by simp [fileRow]))

theorem createEntry_new {input : FSEntryCreateInput} {entry : FSEntry} (plain : PlainPath input.path)
    (onlyNew : input.overwrite = false ∧ input.createMissingParents = none)
    (newUuid : ∀ e ∈ s.entries, e.uuid ≠ input.uuid)
    (ran : createEntry env input false s = .ok entry s') :
    entry.path = input.path ∧ entry.isDir = false ∧
      s' = { s with entries := s.entries ++ [entry], nextId := s.nextId + 1 } := by
  obtain ⟨-, between, parentEntry, ensured, -, -, -, written⟩ := createEntry_steps plain ran
  rw [onlyNew.2] at ensured
  obtain rfl := (pure_ok.mp ensured).2
  obtain ⟨existing, -, ran⟩ | ⟨-, ran⟩ := written
  · obtain ⟨_, _, check, -⟩ := bind_ok.mp ran
    rw [onlyNew.1] at check
    exact absurd check throw_ok
  · obtain ⟨rfl, after⟩ := insertFile_ok newUuid ran
    exact ⟨rfl, rfl, after⟩

end Puter

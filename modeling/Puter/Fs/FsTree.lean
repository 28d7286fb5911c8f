/-
Module: Puter.Fs.FsTree
Purpose: The filesystem tree as an invariant of the `fsentries` table: the parent links, the stored
  paths and the owners tell one tree. The lookups and the single writes of the store are specified
  against it.
Trusted boundary: none
Main exports: fsShape, createEntry_ok, entriesWithout
-/
import Puter.Fs.FSService
import Puter.Library.PathForest

namespace Puter

open PosixPath StateRun FSEntryStore PathForest

/-- How a row of `fsentries` encodes its place in the tree. -/
def fsShape : Shape FSEntry Nat Nat Char where
  key := (·.uuid)
  parent := (·.parentUid)
  owner := (·.userId)
  isDir := (·.isDir)
  name := (·.name)
  path := (·.path)

/-- The filesystem tree invariant: the parent of an entry is a directory of the same owner and the
    entry's path is the parent's with its name added, no two entries share a path, and the parent
    links lead to a home. -/
abbrev WellFormed (entries : List FSEntry) : Prop := PathForest.WellFormed fsShape '/' entries

/-- What the table keeps besides the tree: its keys, names that are one segment each and are stored as
    `#normalizePath` leaves them, and homes directly under the root. -/
structure Tidy (s : FsState) : Prop where
  nodup : s.entries.Nodup
  uuids : KeysDistinct fsShape s.entries
  ids : ∀ e ∈ s.entries, ∀ e' ∈ s.entries, e.id = e'.id → e = e'
  freshUuid : ∀ e ∈ s.entries, e.uuid < s.nextUuid
  freshId : ∀ e ∈ s.entries, e.id < s.nextId
  names : ∀ e ∈ s.entries, PlainName e.name
  homes : ∀ e ∈ s.entries, e.parentUid = none → e.path = '/' :: e.name

/-- A state of the filesystem in good order. -/
structure WellKept (s : FsState) : Prop where
  tree : WellFormed s.entries
  tidy : Tidy s

instance (s : FsState) : Decidable (Tidy s) :=
  decidable_of_iff (s.entries.Nodup ∧ (∀ e ∈ s.entries, ∀ e' ∈ s.entries, e.uuid = e'.uuid → e = e') ∧
      (∀ e ∈ s.entries, ∀ e' ∈ s.entries, e.id = e'.id → e = e') ∧
      (∀ e ∈ s.entries, e.uuid < s.nextUuid) ∧ (∀ e ∈ s.entries, e.id < s.nextId) ∧
      (∀ e ∈ s.entries, PlainName e.name) ∧
      ∀ e ∈ s.entries, e.parentUid = none → e.path = '/' :: e.name)
    ⟨fun ⟨nodup, uuids, ids, freshUuid, freshId, names, homes⟩ =>
        ⟨nodup, uuids, ids, freshUuid, freshId, names, homes⟩,
      fun ⟨nodup, uuids, ids, freshUuid, freshId, names, homes⟩ =>
        ⟨nodup, uuids, ids, freshUuid, freshId, names, homes⟩⟩

instance (s : FsState) : Decidable (WellFormed s.entries) :=
  inferInstanceAs (Decidable (PathForest.WellFormed fsShape '/' s.entries))

instance (s : FsState) : Decidable (WellKept s) :=
  decidable_of_iff (WellFormed s.entries ∧ Tidy s)
    ⟨fun ⟨tree, tidy⟩ => ⟨tree, tidy⟩, fun ⟨tree, tidy⟩ => ⟨tree, tidy⟩⟩

theorem PosixPath.PlainPath.normalizePath_eq {path : Text} (plain : PlainPath path) :
    normalizePath path = .ok path := by
  obtain ⟨rest, absolute⟩ := plain.eq_cons
  obtain ⟨c, last, -, notSlash⟩ := plain.getLast_plain
  have rooted : path.head? = some '/' := by simp [absolute]
  simp [normalizePath, plain.trim_eq, plain.ne_nil, plain.normalize_eq, rooted, last, notSlash]

theorem normalized_ok {path normalizedPath : Text} {s s' : FsState} :
    normalized path s = .ok normalizedPath s' ↔
      normalizePath path = .ok normalizedPath ∧ s = s' := by
  unfold normalized
  cases normalizePath path with
  | ok p => simp [pure_ok]
  | error e => simp [throw_ok]

theorem normalized_error {path : Text} {s s' : FsState} {e : FsError}
    (ran : normalized path s = .error e s') : s = s' := by
  unfold normalized at ran
  cases norm : normalizePath path with
  | ok p =>
      rw [norm] at ran
      exact absurd ran pure_error
  | error e' =>
      rw [norm] at ran
      exact (throw_error.mp ran).2

theorem normalized_plain {path normalizedPath : Text} (plain : PlainPath path) {s s' : FsState} :
    normalized path s = .ok normalizedPath s' ↔ path = normalizedPath ∧ s = s' := by
  rw [normalized_ok, plain.normalizePath_eq, Except.ok.injEq]

theorem entryAt_some {entries : List FSEntry} {path : Text} {e : FSEntry}
    (found : entryAt entries path = some e) : e ∈ entries ∧ e.path = path :=
  ⟨List.mem_of_find?_eq_some found, by simpa using List.find?_some found⟩

theorem entryAt_none {entries : List FSEntry} {path : Text} (found : entryAt entries path = none) :
    ∀ e ∈ entries, e.path ≠ path := by
  intro e member
  simpa using List.find?_eq_none.mp found e member

theorem entryOf_some {entries : List FSEntry} {uuid : Nat} {e : FSEntry}
    (found : entryOf entries uuid = some e) : e ∈ entries ∧ e.uuid = uuid :=
  ⟨List.mem_of_find?_eq_some found, by simpa using List.find?_some found⟩

theorem getEntryByPath_ok {path : Text} {found : Option FSEntry} {s s' : FsState} :
    getEntryByPath path s = .ok found s' ↔
      ∃ normalizedPath, normalizePath path = .ok normalizedPath ∧
        found = entryAt s.entries normalizedPath ∧ s = s' := by
  unfold getEntryByPath
  simp only [bind_ok, normalized_ok, get_ok, pure_ok]
  constructor
  · rintro ⟨p, _, ⟨norm, rfl⟩, _, _, ⟨rfl, rfl⟩, rfl, rfl⟩
    exact ⟨p, norm, rfl, rfl⟩
  · rintro ⟨p, norm, rfl, rfl⟩
    exact ⟨p, s, ⟨norm, rfl⟩, s, s, ⟨rfl, rfl⟩, rfl, rfl⟩

theorem getEntryByPath_plain {path : Text} (plain : PlainPath path) {found : Option FSEntry}
    {s s' : FsState} (ran : getEntryByPath path s = .ok found s') :
    found = entryAt s.entries path ∧ s = s' := by
  obtain ⟨p, norm, result, same⟩ := getEntryByPath_ok.mp ran
  rw [plain.normalizePath_eq] at norm
  cases norm
  exact ⟨result, same⟩

def storedAt (entries : List FSEntry) (path : Text) : Option FSEntry :=
  match normalizePath path with
  | .ok normalizedPath => entryAt entries normalizedPath
  | .error _ => none

theorem storedAt_plain {path : Text} (plain : PlainPath path) (entries : List FSEntry) :
    storedAt entries path = entryAt entries path := by
  rw [storedAt, plain.normalizePath_eq]

theorem storedAt_mem {entries : List FSEntry} {path : Text} {e : FSEntry}
    (found : storedAt entries path = some e) : e ∈ entries := by
  unfold storedAt at found
  split at found
  · exact (entryAt_some found).1
  · cases found

theorem getEntryByPath_storedAt {path : Text} {found : Option FSEntry} {s s' : FsState}
    (ran : getEntryByPath path s = .ok found s') : found = storedAt s.entries path ∧ s = s' := by
  obtain ⟨p, norm, rfl, rfl⟩ := getEntryByPath_ok.mp ran
  exact ⟨by rw [storedAt, norm], rfl⟩

theorem pathLike_iff {base path : Text} : pathLike base path = true ↔ Under '/' base path := by
  rw [pathLike, SqlLike.like_escapeLiteral_percent base ['/'] path (by decide) (by simp)]
  rfl

theorem startsUnder_iff {base path : Text} :
    FSService.startsUnder path base = true ↔ Under '/' base path := by
  simp [FSService.startsUnder, Under, List.isPrefixOf_iff_prefix]

def entriesWithout (entries : List FSEntry) (entry : FSEntry) : List FSEntry :=
  entries.filter fun e => !(e.path == entry.path || FSService.startsUnder e.path entry.path)

theorem mem_entriesWithout {entries : List FSEntry} {entry e : FSEntry} :
    e ∈ entriesWithout entries entry ↔
      e ∈ entries ∧ e.path ≠ entry.path ∧ ¬ Under '/' entry.path e.path := by
  simp [entriesWithout, ← startsUnder_iff]

namespace Tidy

variable {s s' : FsState}

theorem insert (tidy : Tidy s) {row : FSEntry} (entries : s'.entries = s.entries ++ [row])
    (newUuid : ∀ e ∈ s.entries, e.uuid ≠ row.uuid) (newId : ∀ e ∈ s.entries, e.id ≠ row.id)
    (uuidDrawn : row.uuid < s'.nextUuid) (idDrawn : row.id < s'.nextId)
    (moreUuids : s.nextUuid ≤ s'.nextUuid) (moreIds : s.nextId ≤ s'.nextId)
    (plainName : PlainName row.name) (home : row.parentUid = none → row.path = '/' :: row.name) :
    Tidy s' := by
  have cases : ∀ e ∈ s'.entries, e ∈ s.entries ∨ e = row := by simp [entries]
  constructor
  · rw [entries]
    apply List.Nodup.append tidy.nodup (List.nodup_singleton row)
    intro e member isRow
    exact newUuid e member (by rw [List.mem_singleton.mp isRow])
  · intro e member e' member' same
    obtain old | rfl := cases e member <;> obtain old' | rfl := cases e' member'
    · exact tidy.uuids e old e' old' same
    · exact absurd same (newUuid e old)
    · exact absurd same.symm (newUuid e' old')
    · rfl
  · intro e member e' member' same
    obtain old | rfl := cases e member <;> obtain old' | rfl := cases e' member'
    · exact tidy.ids e old e' old' same
    · exact absurd same (newId e old)
    · exact absurd same.symm (newId e' old')
    · rfl
  · intro e member
    obtain old | rfl := cases e member
    · exact (tidy.freshUuid e old).trans_le moreUuids
    · exact uuidDrawn
  · intro e member
    obtain old | rfl := cases e member
    · exact (tidy.freshId e old).trans_le moreIds
    · exact idDrawn
  · intro e member
    obtain old | rfl := cases e member
    · exact tidy.names e old
    · exact plainName
  · intro e member root
    obtain old | rfl := cases e member
    · exact tidy.homes e old root
    · exact home root

theorem sublist (tidy : Tidy s) (entries : s'.entries.Sublist s.entries)
    (moreUuids : s.nextUuid ≤ s'.nextUuid) (moreIds : s.nextId ≤ s'.nextId) : Tidy s' where
  nodup := tidy.nodup.sublist entries
  uuids := fun e member e' member' =>
    tidy.uuids e (entries.subset member) e' (entries.subset member')
  ids := fun e member e' member' => tidy.ids e (entries.subset member) e' (entries.subset member')
  freshUuid := fun e member => (tidy.freshUuid e (entries.subset member)).trans_le moreUuids
  freshId := fun e member => (tidy.freshId e (entries.subset member)).trans_le moreIds
  names := fun e member => tidy.names e (entries.subset member)
  homes := fun e member => tidy.homes e (entries.subset member)

theorem map (tidy : Tidy s) {update : FSEntry → FSEntry} (entries : s'.entries = s.entries.map update)
    (moreUuids : s.nextUuid ≤ s'.nextUuid) (moreIds : s.nextId ≤ s'.nextId)
    (uuid : ∀ e ∈ s.entries, (update e).uuid = e.uuid) (id : ∀ e ∈ s.entries, (update e).id = e.id)
    (names : ∀ e ∈ s.entries, PlainName (update e).name)
    (homes : ∀ e ∈ s.entries, (update e).parentUid = none → (update e).path = '/' :: (update e).name) :
    Tidy s' := by
  have cases : ∀ r ∈ s'.entries, ∃ e ∈ s.entries, r = update e := by
    intro r member
    rw [entries] at member
    obtain ⟨e, eMember, rfl⟩ := List.mem_map.mp member
    exact ⟨e, eMember, rfl⟩
  constructor
  · rw [entries]
    apply tidy.nodup.map_on
    intro e member e' member' same
    exact tidy.uuids e member e' member' (by
      change e.uuid = e'.uuid
      rw [← uuid e member, ← uuid e' member', same])
  · intro r member r' member' same
    obtain ⟨e, eMember, rfl⟩ := cases r member
    obtain ⟨e', e'Member, rfl⟩ := cases r' member'
    have sameUuid : e.uuid = e'.uuid := by rw [← uuid e eMember, ← uuid e' e'Member]; exact same
    rw [tidy.uuids e eMember e' e'Member sameUuid]
  · intro r member r' member' same
    obtain ⟨e, eMember, rfl⟩ := cases r member
    obtain ⟨e', e'Member, rfl⟩ := cases r' member'
    rw [id e eMember, id e' e'Member] at same
    rw [tidy.ids e eMember e' e'Member same]
  · intro r member
    obtain ⟨e, eMember, rfl⟩ := cases r member
    rw [uuid e eMember]
    exact (tidy.freshUuid e eMember).trans_le moreUuids
  · intro r member
    obtain ⟨e, eMember, rfl⟩ := cases r member
    rw [id e eMember]
    exact (tidy.freshId e eMember).trans_le moreIds
  · intro r member
    obtain ⟨e, eMember, rfl⟩ := cases r member
    exact names e eMember
  · intro r member
    obtain ⟨e, eMember, rfl⟩ := cases r member
    exact homes e eMember

end Tidy

namespace WellKept

variable {s : FsState}

theorem segmented (kept : WellKept s) : Segmented fsShape '/' s.entries where
  names := fun e member => (kept.tidy.names e member).noSlash
  homes := kept.tidy.homes

theorem plainPath (kept : WellKept s) (e : FSEntry) (member : e ∈ s.entries) :
    PlainPath e.path := by
  induction e, member using linked_induction fsShape '/' with
  | step e member parentPlain =>
      have plainName := kept.tidy.names e member
      cases parent : e.parentUid with
      | none =>
          rw [kept.tidy.homes e member parent]
          exact .home plainName
      | some k =>
          obtain ⟨d, dMember, -, child⟩ := kept.tree.linked e member k parent
          have above := parentPlain d dMember child
          rw [show e.path = d.path ++ '/' :: e.name from child.path_eq]
          exact above.child plainName

theorem childPath_eq (kept : WellKept s) {d : FSEntry} (member : d ∈ s.entries) (name : Text) :
    childPath d.path name = d.path ++ '/' :: name := by
  obtain ⟨c, last, -, notSlash⟩ := (kept.plainPath d member).getLast_plain
  have notRoot : d.path ≠ ['/'] := by
    rintro same
    simp only [same, List.getLast?_singleton, Option.some.injEq] at last
    exact notSlash last.symm
  simp [childPath, notRoot]

theorem dirname_eq (kept : WellKept s) {e d : FSEntry} (member : e ∈ s.entries)
    (dMember : d ∈ s.entries) (child : IsChild fsShape '/' e d) : dirname e.path = d.path := by
  rw [show e.path = d.path ++ '/' :: e.name from child.path_eq]
  exact dirname_child (kept.plainPath d dMember) (kept.tidy.names e member)

theorem basename_eq (kept : WellKept s) {e : FSEntry} (member : e ∈ s.entries) :
    basename e.path = e.name := by
  have plainName := kept.tidy.names e member
  cases parent : e.parentUid with
  | none =>
      rw [kept.tidy.homes e member parent]
      exact basename_child plainName []
  | some k =>
      obtain ⟨d, -, -, child⟩ := kept.tree.linked e member k parent
      rw [show e.path = d.path ++ '/' :: e.name from child.path_eq]
      exact basename_child plainName d.path

theorem exists_parent (kept : WellKept s) {e : FSEntry} (member : e ∈ s.entries)
    (notHome : dirname e.path ≠ ['/']) :
    ∃ d ∈ s.entries, IsChild fsShape '/' e d ∧ d.path = dirname e.path := by
  cases parent : e.parentUid with
  | none =>
      rw [kept.tidy.homes e member parent] at notHome
      exact absurd (dirname_home (kept.tidy.names e member).segment) notHome
  | some k =>
      obtain ⟨d, dMember, -, child⟩ := kept.tree.linked e member k parent
      exact ⟨d, dMember, child, (kept.dirname_eq member dMember child).symm⟩

theorem home_outside (kept : WellKept s) {e : FSEntry} (member : e ∈ s.entries)
    (root : e.parentUid = none) {base : Text} (notRoot : base ≠ []) : ¬ Under '/' base e.path := by
  rw [kept.tidy.homes e member root, ← List.nil_append ('/' :: e.name),
    under_child (kept.tidy.names e member).noSlash]
  rintro (nil | above)
  · exact notRoot nil
  · exact absurd above.length_lt (by simp)

theorem isDir_of_under (kept : WellKept s) {a e : FSEntry} (aMember : a ∈ s.entries)
    (member : e ∈ s.entries) (under : Under '/' a.path e.path) : a.isDir = true := by
  obtain ⟨d, dMember, samePath, isDir, -⟩ := exists_at_of_under kept.tree kept.segmented
    (kept.plainPath a aMember).ne_nil e member under
  rw [kept.tree.paths_distinct a aMember d dMember samePath.symm]
  exact isDir

theorem owner_of_under (kept : WellKept s) {a e : FSEntry} (aMember : a ∈ s.entries)
    (member : e ∈ s.entries) (under : Under '/' a.path e.path) : a.userId = e.userId := by
  obtain ⟨d, dMember, samePath, -, sameOwner⟩ := exists_at_of_under kept.tree kept.segmented
    (kept.plainPath a aMember).ne_nil e member under
  rw [kept.tree.paths_distinct a aMember d dMember samePath.symm]
  exact sameOwner

theorem of_entries_eq (kept : WellKept s) {s' : FsState} (entries : s'.entries = s.entries)
    (moreUuids : s.nextUuid ≤ s'.nextUuid) (moreIds : s.nextId ≤ s'.nextId) : WellKept s' where
  tree := by
    rw [entries]
    exact kept.tree
  tidy := kept.tidy.sublist (entries ▸ List.Sublist.refl _) moreUuids moreIds

theorem updateWhere (kept : WellKept s) {s' : FsState} {selects : FSEntry → Bool}
    {change : FSEntry → FSEntry}
    (entries : s'.entries = FSEntryStore.updateWhere selects change s.entries)
    (moreUuids : s.nextUuid ≤ s'.nextUuid) (moreIds : s.nextId ≤ s'.nextId)
    (same : ∀ e ∈ s.entries, selects e = true → (change e).uuid = e.uuid ∧ (change e).id = e.id ∧
      (change e).parentUid = e.parentUid ∧ (change e).userId = e.userId ∧
      (change e).isDir = e.isDir ∧ (change e).name = e.name ∧ (change e).path = e.path) :
    WellKept s' := by
  have fields : ∀ e ∈ s.entries, ∀ row, row = (if selects e then change e else e) →
      row.uuid = e.uuid ∧ row.id = e.id ∧ row.parentUid = e.parentUid ∧ row.userId = e.userId ∧
        row.isDir = e.isDir ∧ row.name = e.name ∧ row.path = e.path := by
    rintro e member row rfl
    split
    next selected => exact same e member selected
    next => exact ⟨rfl, rfl, rfl, rfl, rfl, rfl, rfl⟩
  constructor
  · rw [entries]
    exact kept.tree.map_same (fun e member => (fields e member _ rfl).1)
      (fun e member => (fields e member _ rfl).2.2.1)
      (fun e member => (fields e member _ rfl).2.2.2.1)
      (fun e member => (fields e member _ rfl).2.2.2.2.1)
      (fun e member => (fields e member _ rfl).2.2.2.2.2.1)
      (fun e member => (fields e member _ rfl).2.2.2.2.2.2)
  · apply kept.tidy.map entries moreUuids moreIds (fun e member => (fields e member _ rfl).1)
      (fun e member => (fields e member _ rfl).2.1)
    · intro e member
      obtain ⟨-, -, -, -, -, sameName, -⟩ := fields e member _ rfl
      rw [sameName]
      exact kept.tidy.names e member
    · intro e member root
      obtain ⟨-, -, sameParent, -, -, sameName, samePath⟩ := fields e member _ rfl
      rw [samePath, sameName]
      exact kept.tidy.homes e member (sameParent ▸ root)

end WellKept

end Puter

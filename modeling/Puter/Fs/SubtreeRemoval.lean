/-
Module: Puter.Fs.SubtreeRemoval
Purpose: What removing a directory deletes, with any names and for a database whose LIKE may fold characters. The rows
  that the pattern finds are the descendants unless the stored path ends in white space, which the lookup trims, or the
  folding takes another path for the same.
Trusted boundary: LIKE compares character by character up to a folding (none in PostgreSQL, ASCII case in SQLite)
Main exports: removeWith, removes_exactly_iff
-/
import Puter.Fs.Refusal
import Puter.Fs.TreeInvariant

namespace Puter

open PosixPath StateRun FSEntryStore PathForest FSService

/-- `path LIKE '<prefix>/%' ESCAPE '!'`, up to a folding of characters. -/
def pathLikeFolded (folding : Char → Char) (normalizedPrefix path : Text) : Bool :=
  SqlLike.likeFolded folding '!' (SqlLike.escapeLiteral '!' normalizedPrefix ++ (['/'] ++ ['%'])) path

/-- `listDescendantsByPath` -/
def listDescendantsWith (like : Text → Text → Bool) (pathPrefix : Text) : FsRun (List FSEntry) := do
  let normalizedPrefix ← normalized pathPrefix
  refuseIf (normalizedPrefix == ['/'])
    (.ofHttp 400 "Refusing to list descendants of root".toList "bad_request")
  let rows := (← get).entries.filter fun entry => like normalizedPrefix entry.path
  return rows.mergeSort fun a b => decide (a.path ≤ b.path)

def notEmpty : FsError := .ofHttp 409 "Directory is not empty".toList "conflict"

/-- What `remove` does with a directory. -/
def removeDirectoryWith (like : Text → Text → Bool) (env : FsEnv) (input : RemoveInput) : FsRun Unit := do
  let descendants ← listDescendantsWith like input.entry.path
  refuseIf (!descendants.isEmpty && !input.recursive) notEmpty
  forEach (removeStorage env) descendants
  deleteEntries descendants
  runIf (!input.descendantsOnly) (deleteEntries [input.entry])

/-- `remove` -/
def removeWith (like : Text → Text → Bool) (env : FsEnv) (userId : Nat) (input : RemoveInput) : FsRun Unit := do
  assertRemovable env userId input
  if input.entry.isDir then removeDirectoryWith like env input else removeLeaf env input.entry

/-- A state whose rows tell one tree, with names of any characters but the separator. -/
structure SoundTree (s : FsState) : Prop where
  tree : WellFormed s.entries
  nodup : s.entries.Nodup
  uuids : KeysDistinct fsShape s.entries
  ids : ∀ e ∈ s.entries, ∀ e' ∈ s.entries, e.id = e'.id → e = e'
  segmented : Segmented fsShape '/' s.entries

def Goes (entries : List FSEntry) (input : RemoveInput) (e : FSEntry) : Prop :=
  Below fsShape entries input.entry e ∨ e = input.entry ∧ input.descendantsOnly = false

/-- These rows are gone and no others, and only objects behind them are. -/
structure RemovedExactly (env : FsEnv) (s s' : FsState) (input : RemoveInput) : Prop where
  kept : s'.entries.Sublist s.entries
  rows : ∀ e ∈ s.entries, e ∈ s'.entries ↔ ¬Goes s.entries input e
  objects : s'.objects.Sublist s.objects
  backed : ∀ o ∈ s.objects, o ∉ s'.objects → ∃ e ∈ s.entries, Goes s.entries input e ∧ backingAddress env e = some o.address

/-- A recursive removal deletes exactly the subtree; another one deletes an empty directory, or refuses and leaves
    everything. -/
def RemovesExactly (like : Text → Text → Bool) (env : FsEnv) (s : FsState) (userId : Nat) (input : RemoveInput) : Prop :=
  (input.recursive = true → ∃ s', removeWith like env userId input s = .ok () s' ∧ RemovedExactly env s s' input) ∧
    (input.recursive = false →
      (∃ s', removeWith like env userId input s = .ok () s' ∧ (∀ e ∈ s.entries, ¬Below fsShape s.entries input.entry e) ∧
        RemovedExactly env s s' input) ∨
      removeWith like env userId input s = .error notEmpty s)

/-- What the lookup finds under the path of the entry, as it normalizes it, are the descendants; without `recursive` it
    is enough that it finds something if there are any. -/
def FindsDescendants (like : Text → Text → Bool) (s : FsState) (input : RemoveInput) : Prop :=
  ∃ base, normalizePath input.entry.path = .ok base ∧ base ≠ ['/'] ∧
    (input.recursive = true → ∀ e ∈ s.entries, e ≠ input.entry ∨ input.descendantsOnly = true →
      (like base e.path = true ↔ Under '/' input.entry.path e.path)) ∧
    (input.recursive = false →
      (∃ e ∈ s.entries, like base e.path = true) ∨ ∀ e ∈ s.entries, ¬Under '/' input.entry.path e.path)

section Storage

variable {env : FsEnv} {s s' : FsState}

/-- The rows are as before, and only objects behind these rows are gone. -/
structure StorageTaken (env : FsEnv) (s s' : FsState) (gone : List FSEntry) : Prop where
  entries : s'.entries = s.entries
  objects : s'.objects.Sublist s.objects
  backed : ∀ o ∈ s.objects, o ∉ s'.objects → ∃ e ∈ gone, backingAddress env e = some o.address

theorem removeStorage_takes (env : FsEnv) (entry : FSEntry) (s : FsState) :
    ∃ s', removeStorage env entry s = .ok () s' ∧ StorageTaken env s s' [entry] := by
  cases ran : removeStorage env entry s with
  | error e s' => exact absurd ran removeStorage_error
  | ok u s' =>
      refine ⟨s', rfl, ?_⟩
      obtain ⟨stored, deleted⟩ | ⟨-, rfl⟩ := runIf_ok.mp ran
      · simp only [Bool.and_eq_true, Bool.not_eq_true'] at stored
        obtain ⟨⟨⟨⟨bucketed, regioned⟩, isDir⟩, isShortcut⟩, isSymlink⟩ := stored
        have named : entry.bucket ≠ none := by
          intro none
          rw [none] at bucketed
          cases bucketed
        have address : backingAddress env entry = some ⟨entry.bucketRegion.getD [], entry.bucket.getD [], entry.uuid⟩ := by
          simp [backingAddress, isDir, isShortcut, isSymlink, hasNoBackingS3Object, named, resolveRegion, resolveBucket,
            bucketed, regioned]
        have after := modify_ok.mp deleted
        split at after
        · subst after
          exact ⟨rfl, List.Sublist.refl _, fun o member gone => absurd member gone⟩
        · subst after
          refine ⟨rfl, List.filter_sublist, ?_⟩
          intro o member gone
          have same : o.address = ⟨entry.bucketRegion.getD [], entry.bucket.getD [], entry.uuid⟩ := by
            by_contra other
            exact gone (List.mem_filter.mpr ⟨member, by simpa using other⟩)
          exact ⟨entry, List.mem_singleton_self _, by rw [same]; exact address⟩
      · exact ⟨rfl, List.Sublist.refl _, fun o member gone => absurd member gone⟩

theorem removeAllStorage_takes (env : FsEnv) (gone : List FSEntry) (s : FsState) :
    ∃ s', forEach (removeStorage env) gone s = .ok () s' ∧ StorageTaken env s s' gone := by
  induction gone generalizing s with
  | nil => exact ⟨s, rfl, rfl, List.Sublist.refl _, fun o member left => absurd member left⟩
  | cons entry gone ih =>
      obtain ⟨between, first, one⟩ := removeStorage_takes env entry s
      obtain ⟨s', others, rest⟩ := ih between
      refine ⟨s', bind_ok.mpr ⟨(), between, first, others⟩, rest.entries.trans one.entries,
        rest.objects.trans one.objects, ?_⟩
      intro o member left
      by_cases still : o ∈ between.objects
      · obtain ⟨e, isGone, backs⟩ := rest.backed o still left
        exact ⟨e, List.mem_cons_of_mem _ isGone, backs⟩
      · obtain ⟨e, isEntry, backs⟩ := one.backed o member still
        exact ⟨e, List.mem_cons.mpr (.inl (List.mem_singleton.mp isEntry)), backs⟩

end Storage

section Directory

variable {like : Text → Text → Bool} {env : FsEnv} {s : FsState} {input : RemoveInput}

theorem SoundTree.path_ne_nil (sound : SoundTree s) {e : FSEntry} (member : e ∈ s.entries) : e.path ≠ [] := by
  cases parent : e.parentUid with
  | none =>
      rw [show e.path = '/' :: e.name from sound.segmented.homes e member parent]
      exact List.cons_ne_nil _ _
  | some uuid =>
      obtain ⟨d, -, -, child⟩ := sound.tree.linked e member uuid parent
      rw [show e.path = d.path ++ '/' :: e.name from child.path_eq]
      exact List.append_ne_nil_of_right_ne_nil _ (List.cons_ne_nil _ _)

theorem SoundTree.goes_iff (sound : SoundTree s) (entryMember : input.entry ∈ s.entries) {e : FSEntry}
    (member : e ∈ s.entries) : Goes s.entries input e ↔
      Under '/' input.entry.path e.path ∨ e = input.entry ∧ input.descendantsOnly = false :=
  or_congr_left (below_iff_under sound.tree sound.segmented sound.uuids entryMember (sound.path_ne_nil entryMember) member)

theorem assertRemovable_run {userId : Nat} (allowed : mayRemove env s userId input = true) :
    assertRemovable env userId input s = .ok () s := by
  cases ran : assertRemovable env userId input s with
  | error e s' =>
      rw [assertRemovable_error ran] at allowed
      cases allowed
  | ok u s' => rw [(assertRemovable_ok ran).2]

theorem listDescendantsWith_run {path base : Text} (norm : normalizePath path = .ok base) (notRoot : base ≠ ['/']) :
    ∃ rows, listDescendantsWith like path s = .ok rows s ∧
      ∀ e, e ∈ rows ↔ e ∈ s.entries ∧ like base e.path = true := by
  refine ⟨(s.entries.filter fun entry => like base entry.path).mergeSort fun a b => decide (a.path ≤ b.path), ?_, ?_⟩
  · have normal : normalized path s = .ok base s := by
      rw [normalized, norm]
      rfl
    exact bind_ok.mpr ⟨base, s, normal, bind_ok.mpr ⟨(), s, refuseIf_ok.mpr ⟨by simpa using notRoot, rfl⟩,
      bind_ok.mpr ⟨s, s, rfl, rfl⟩⟩⟩
  · intro e
    rw [List.mem_mergeSort, List.mem_filter]

theorem listDescendantsWith_fails {path : Text} (refused : ∀ base, normalizePath path = .ok base → base = ['/']) :
    ∃ e, e ≠ notEmpty ∧ listDescendantsWith like path s = .error e s := by
  cases norm : normalizePath path with
  | error e =>
      have fails : normalized path s = .error e s := by
        rw [normalized, norm]
        rfl
      refine ⟨e, ?_, bind_error.mpr (.inl fails)⟩
      rintro rfl
      simp only [normalizePath] at norm
      split at norm
      · cases norm
      · split at norm <;> cases norm
  | ok base =>
      obtain rfl := refused base norm
      have normal : normalized path s = .ok ['/'] s := by
        rw [normalized, norm]
        rfl
      refine ⟨_, ?_, bind_error.mpr (.inr ⟨['/'], s, normal, bind_error.mpr (.inl (refuseIf_error.mpr ⟨rfl, rfl, rfl⟩))⟩)⟩
      rintro ⟨⟩

/-- The rows that are found are deleted, with the entry if that is asked for, and their objects with them. -/
structure FoundDeleted (like : Text → Text → Bool) (env : FsEnv) (s s' : FsState) (input : RemoveInput) (base : Text) :
    Prop where
  kept : s'.entries.Sublist s.entries
  rows : ∀ e ∈ s.entries, e ∈ s'.entries ↔
    ¬(like base e.path = true ∨ e = input.entry ∧ input.descendantsOnly = false)
  objects : s'.objects.Sublist s.objects
  backed : ∀ o ∈ s.objects, o ∉ s'.objects →
    ∃ e ∈ s.entries, like base e.path = true ∧ backingAddress env e = some o.address

theorem removeDirectoryWith_deletes (sound : SoundTree s) (member : input.entry ∈ s.entries) {base : Text}
    (norm : normalizePath input.entry.path = .ok base) (notRoot : base ≠ ['/'])
    (goesOn : input.recursive = true ∨ ∀ e ∈ s.entries, like base e.path = false) :
    ∃ s', removeDirectoryWith like env input s = .ok () s' ∧ FoundDeleted like env s s' input base := by
  obtain ⟨found, listed, mem_found⟩ := @listDescendantsWith_run like s _ _ norm notRoot
  obtain ⟨s₁, cleaned, storage⟩ := removeAllStorage_takes env found s
  have passes : (!found.isEmpty && !input.recursive) = false := by
    obtain recursive | none := goesOn
    · rw [recursive]
      exact Bool.and_false _
    · have empty : found = [] := by
        apply List.eq_nil_iff_forall_not_mem.mpr
        intro e isFound
        have hit := (mem_found e).mp isFound
        rw [none e hit.1] at hit
        exact Bool.false_ne_true hit.2
      rw [empty]
      rfl
  have foundIds : ∀ e ∈ s.entries, (found.all (·.id != e.id) = true ↔ like base e.path = false) := by
    intro e eMember
    rw [List.all_eq_true, ← Bool.not_eq_true]
    constructor
    · intro apart hit
      have differs := apart e ((mem_found e).mpr ⟨eMember, hit⟩)
      simp at differs
    · intro miss f isFound
      rw [bne_iff_ne]
      intro sameId
      have hit := (mem_found f).mp isFound
      rw [sound.ids f hit.1 e eMember sameId] at hit
      exact miss hit.2
  have backed : ∀ o ∈ s.objects, o ∉ s₁.objects →
      ∃ e ∈ s.entries, like base e.path = true ∧ backingAddress env e = some o.address := by
    intro o oMember gone
    obtain ⟨e, isFound, backs⟩ := storage.backed o oMember gone
    obtain ⟨eMember, hit⟩ := (mem_found e).mp isFound
    exact ⟨e, eMember, hit, backs⟩
  cases only : input.descendantsOnly with
  | true =>
      refine ⟨{ s₁ with entries := s₁.entries.filter fun entry => found.all (·.id != entry.id) },
        bind_ok.mpr ⟨found, s, listed, bind_ok.mpr ⟨(), s, refuseIf_ok.mpr ⟨passes, rfl⟩,
          bind_ok.mpr ⟨(), s₁, cleaned, bind_ok.mpr ⟨(), _, rfl, runIf_ok.mpr (.inr ⟨by rw [only]; rfl, rfl⟩)⟩⟩⟩⟩, ?_⟩
      refine ⟨?_, ?_, storage.objects, backed⟩
      · rw [storage.entries]
        exact List.filter_sublist
      · intro e eMember
        rw [List.mem_filter, storage.entries, foundIds e eMember]
        simp [eMember, only]
  | false =>
      refine ⟨{ s₁ with
          entries := (s₁.entries.filter fun entry => found.all (·.id != entry.id)).filter fun entry =>
            [input.entry].all (·.id != entry.id) },
        bind_ok.mpr ⟨found, s, listed, bind_ok.mpr ⟨(), s, refuseIf_ok.mpr ⟨passes, rfl⟩,
          bind_ok.mpr ⟨(), s₁, cleaned, bind_ok.mpr ⟨(), _, rfl, runIf_ok.mpr (.inl ⟨by rw [only]; rfl, rfl⟩)⟩⟩⟩⟩, ?_⟩
      refine ⟨?_, ?_, storage.objects, backed⟩
      · rw [storage.entries]
        exact List.filter_sublist.trans List.filter_sublist
      · intro e eMember
        have notEntry : [input.entry].all (·.id != e.id) = true ↔ e ≠ input.entry := by
          rw [List.all_cons, List.all_nil, Bool.and_true, bne_iff_ne]
          constructor
          · rintro differs rfl
            exact differs rfl
          · intro differs sameId
            exact differs (sound.ids e eMember input.entry member sameId.symm)
        rw [List.mem_filter, List.mem_filter, storage.entries, foundIds e eMember, notEntry]
        simp [eMember, only]

theorem removeDirectoryWith_refuses {base : Text} (norm : normalizePath input.entry.path = .ok base)
    (notRoot : base ≠ ['/']) (notRecursive : input.recursive = false) (some : ∃ e ∈ s.entries, like base e.path = true) :
    removeDirectoryWith like env input s = .error notEmpty s := by
  obtain ⟨found, listed, mem_found⟩ := @listDescendantsWith_run like s _ _ norm notRoot
  obtain ⟨e, member, hit⟩ := some
  have nonempty : (!found.isEmpty && !input.recursive) = true := by
    rw [notRecursive, Bool.not_false, Bool.and_true, Bool.not_eq_true', List.isEmpty_eq_false_iff]
    exact List.ne_nil_of_mem ((mem_found e).mpr ⟨member, hit⟩)
  exact bind_error.mpr (.inr ⟨found, s, listed, bind_error.mpr (.inl (refuseIf_error.mpr ⟨nonempty, rfl, rfl⟩))⟩)

theorem removeWith_directory {userId : Nat} (allowed : mayRemove env s userId input = true)
    (isDir : input.entry.isDir = true) : removeWith like env userId input s = removeDirectoryWith like env input s := by
  have checked := assertRemovable_run allowed
  simp only [removeWith, isDir, if_true]
  show (assertRemovable env userId input >>= fun _ => removeDirectoryWith like env input) s = _
  simp only [bind, EStateM.bind, checked]

theorem removedExactly_iff (sound : SoundTree s) (member : input.entry ∈ s.entries) {s' : FsState} {base : Text}
    (deleted : FoundDeleted like env s s' input base) : RemovedExactly env s s' input ↔
      ∀ e ∈ s.entries, e ≠ input.entry ∨ input.descendantsOnly = true →
        (like base e.path = true ↔ Under '/' input.entry.path e.path) := by
  constructor
  · intro exactly e eMember other
    have same := not_iff_not.mp ((deleted.rows e eMember).symm.trans (exactly.rows e eMember))
    rw [sound.goes_iff member eMember] at same
    have notSelf : ¬(e = input.entry ∧ input.descendantsOnly = false) := by
      rintro ⟨rfl, all⟩
      obtain differs | only := other
      · exact differs rfl
      · rw [only] at all
        cases all
    rwa [or_iff_left notSelf, or_iff_left notSelf] at same
  · intro finds
    have same : ∀ e ∈ s.entries, (like base e.path = true ∨ e = input.entry ∧ input.descendantsOnly = false) ↔
        Goes s.entries input e := by
      intro e eMember
      rw [sound.goes_iff member eMember]
      by_cases self : e = input.entry ∧ input.descendantsOnly = false
      · exact iff_of_true (.inr self) (.inr self)
      · rw [or_iff_left self, or_iff_left self]
        apply finds e eMember
        by_cases differs : e = input.entry
        · exact .inr (Bool.eq_true_of_not_eq_false fun all => self ⟨differs, all⟩)
        · exact .inl differs
    exact
      { kept := deleted.kept
        rows := fun e eMember => (deleted.rows e eMember).trans (not_congr (same e eMember))
        objects := deleted.objects
        backed := by
          intro o oMember gone
          obtain ⟨e, eMember, hit, backs⟩ := deleted.backed o oMember gone
          exact ⟨e, eMember, (same e eMember).mp (.inl hit), backs⟩ }

theorem findsDescendants_of_exact (sound : SoundTree s) (member : input.entry ∈ s.entries) (isDir : input.entry.isDir = true)
    {userId : Nat} (allowed : mayRemove env s userId input = true) (exactly : RemovesExactly like env s userId input) :
    FindsDescendants like s input := by
  unfold RemovesExactly at exactly
  rw [removeWith_directory allowed isDir] at exactly
  by_cases accepted : ∃ base, normalizePath input.entry.path = .ok base ∧ base ≠ ['/']
  · obtain ⟨base, norm, notRoot⟩ := accepted
    refine ⟨base, norm, notRoot, ?_, ?_⟩
    · intro recursive
      obtain ⟨s', ran, removed⟩ := exactly.1 recursive
      obtain ⟨s₁, ran', deleted⟩ := @removeDirectoryWith_deletes like env s input sound member base norm notRoot (.inl recursive)
      obtain ⟨-, rfl⟩ := EStateM.Result.ok.inj (ran.symm.trans ran')
      exact (removedExactly_iff sound member deleted).mp removed
    · intro notRecursive
      by_cases some : ∃ e ∈ s.entries, like base e.path = true
      · exact .inl some
      · right
        have none : ∀ e ∈ s.entries, like base e.path = false := by
          intro e eMember
          rw [← Bool.not_eq_true]
          exact fun hit => some ⟨e, eMember, hit⟩
        obtain ⟨s₁, ran', -⟩ := @removeDirectoryWith_deletes like env s input sound member base norm notRoot (.inr none)
        obtain ⟨s', -, empty, -⟩ | refused := exactly.2 notRecursive
        · intro e eMember under
          exact empty e eMember
            ((below_iff_under sound.tree sound.segmented sound.uuids member (sound.path_ne_nil member) eMember).mpr under)
        · rw [ran'] at refused
          cases refused
  · have refused : ∀ base, normalizePath input.entry.path = .ok base → base = ['/'] := by
      intro base norm
      by_contra notRoot
      exact accepted ⟨base, norm, notRoot⟩
    obtain ⟨e, other, fails⟩ := @listDescendantsWith_fails like s _ refused
    have ran : removeDirectoryWith like env input s = .error e s := bind_error.mpr (.inl fails)
    rw [ran] at exactly
    cases recursive : input.recursive with
    | true =>
        obtain ⟨s', impossible, -⟩ := exactly.1 recursive
        cases impossible
    | false =>
        obtain ⟨s', impossible, -⟩ | refused := exactly.2 recursive
        · cases impossible
        · exact absurd (EStateM.Result.error.inj refused).1 other

end Directory

theorem findsDescendants_of_plain {s : FsState} {input : RemoveInput} (plain : PlainPath input.entry.path) :
    FindsDescendants (pathLikeFolded id) s input := by
  have norm : normalizePath input.entry.path = .ok input.entry.path := plain.normalizePath_eq
  have same : ∀ e : FSEntry, pathLikeFolded id input.entry.path e.path = true ↔ Under '/' input.entry.path e.path := by
    intro e
    rw [pathLikeFolded, SqlLike.likeFolded_id]
    exact pathLike_iff
  refine ⟨_, norm, plain.ne_root, fun _ e _ _ => same e, fun _ => ?_⟩
  by_cases some : ∃ e ∈ s.entries, Under '/' input.entry.path e.path
  · obtain ⟨e, member, under⟩ := some
    exact .inl ⟨e, member, (same e).mpr under⟩
  · exact .inr fun e member under => some ⟨e, member, under⟩

def twoDirectories (one other : Text) : FsState where
  entries := [sampleRow 1 1 none ['u'] ['/', 'u'] true 0,
    sampleRow 2 1 (some 1) one (['/', 'u', '/'] ++ one) true 0,
    sampleRow 3 1 (some 1) other (['/', 'u', '/'] ++ other) true 0,
    sampleRow 4 1 (some 3) ['x'] (['/', 'u', '/'] ++ other ++ ['/', 'x']) false 5]
  objects := [⟨⟨['r'], ['b'], 4⟩, ['h', 'e', 'l', 'l', 'o']⟩]
  nextId := 5
  nextUuid := 5

def removeFirst (one : Text) : RemoveInput where
  entry := sampleRow 2 1 (some 1) one (['/', 'u', '/'] ++ one) true 0
  recursive := true

theorem twoDirectories_sound {one other : Text}
    (checked : WellFormed (twoDirectories one other).entries ∧ (twoDirectories one other).entries.Nodup ∧
      (∀ e ∈ (twoDirectories one other).entries, '/' ∉ e.name)) : SoundTree (twoDirectories one other) where
  tree := checked.1
  nodup := checked.2.1
  uuids := by
    intro e member e' member' same
    simp only [twoDirectories, List.mem_cons, List.not_mem_nil, or_false] at member member'
    rcases member with rfl | rfl | rfl | rfl <;> rcases member' with rfl | rfl | rfl | rfl <;> first | rfl | cases same
  ids := by
    intro e member e' member' same
    simp only [twoDirectories, List.mem_cons, List.not_mem_nil, or_false] at member member'
    rcases member with rfl | rfl | rfl | rfl <;> rcases member' with rfl | rfl | rfl | rfl <;> first | rfl | cases same
  segmented := by
    refine ⟨checked.2.2, ?_⟩
    intro e member root
    simp only [twoDirectories, List.mem_cons, List.not_mem_nil, or_false] at member
    rcases member with rfl | rfl | rfl | rfl
    · rfl
    all_goals cases root

theorem removeFirst_finds_file {like : Text → Text → Bool} {one other base : Text}
    (norm : normalizePath (removeFirst one).entry.path = .ok base)
    (hit : like base (['/', 'u', '/'] ++ other ++ ['/', 'x']) = true)
    (apart : ¬Under '/' (['/', 'u', '/'] ++ one) (['/', 'u', '/'] ++ other ++ ['/', 'x'])) :
    ¬FindsDescendants like (twoDirectories one other) (removeFirst one) := by
  rintro ⟨base', norm', -, finds, -⟩
  obtain rfl := Except.ok.inj (norm.symm.trans norm')
  have file : sampleRow 4 1 (some 3) ['x'] (['/', 'u', '/'] ++ other ++ ['/', 'x']) false 5 ∈
      (twoDirectories one other).entries := by
    simp [twoDirectories]
  exact apart ((finds rfl _ file (.inl nofun)).mp hit)

end Puter

/-
Module: Puter.Fs.HealedPaths
Purpose: What the lookups of entries answer where old rows have no path (stores/fs/FSEntryStore.ts). A walk down
  finds the row whose lineage spells a path, a walk up finds the lineage of a row, and both write back the paths
  that these lineages spell. Every lookup but the batched one without a fallback sees a row without a path as it
  sees the others.
Trusted boundary: none
Main exports: LegacyTable, lookup_exact_iff
-/
import Puter.Fs.LegacyTables

namespace Puter

open PosixPath Lineage LineageLookups

variable {γ : Type}

def AnswersPath (table : List (FSEntryRow γ)) (path : Text) : (found : Option (FSEntryRow γ)) → Prop
  | some entry => ∃ row ∈ table, SpellsPath table row path ∧ entry = { row with path := some path }
  | none => ∀ row ∈ table, ¬ SpellsPath table row path

def AnswersRow (table : List (FSEntryRow γ)) (selects : FSEntryRow γ → Prop) :
    (found : Option (FSEntryRow γ)) → Prop
  | some entry => ∃ row ∈ table, selects row ∧ ∃ path, SpellsPath table row path ∧ entry = { row with path := some path }
  | none => ∀ row ∈ table, ¬ selects row

section Rows

variable {table : List (FSEntryRow γ)} {row : FSEntryRow γ}

theorem healed_answers (legacy : LegacyTable table) (member : row ∈ table) :
    ∃ path t, SpellsPath table row path ∧ Healed table t ∧ healed row table = ({ row with path := some path }, t) := by
  unfold healed
  cases stored : row.path with
  | none =>
      obtain ⟨path, t, spells, heals, walked⟩ := healEntryPathByLineageUp_eq legacy member
      refine ⟨path, t, spells, heals, ?_⟩
      rw [if_neg (by simp [isPresent]), walked]
  | some path =>
      have spells := legacy.paths row member path stored
      refine ⟨path, table, spells, .refl table, ?_⟩
      rw [if_pos (by simp [isPresent, spells.ne_nil]), ← stored]

theorem getEntryByUuid_answers (legacy : LegacyTable table) (uuid : Nat) :
    AnswersRow table (·.uuid = uuid) (getEntryByUuid uuid table).1 ∧ Healed table (getEntryByUuid uuid table).2 := by
  unfold getEntryByUuid
  cases found : table.find? (·.uuid = uuid) with
  | none =>
      refine ⟨fun row member => ?_, .refl table⟩
      simpa using List.find?_eq_none.mp found row member
  | some row =>
      have member := List.mem_of_find?_eq_some found
      obtain ⟨path, t, spells, heals, same⟩ := healed_answers legacy member
      dsimp only
      rw [same]
      exact ⟨⟨row, member, by simpa using List.find?_some found, path, spells, rfl⟩, heals⟩

theorem getEntryById_answers (legacy : LegacyTable table) (id : Nat) :
    AnswersRow table (·.id = id) (getEntryById id table).1 ∧ Healed table (getEntryById id table).2 := by
  unfold getEntryById
  cases found : table.find? (·.id = id) with
  | none =>
      refine ⟨fun row member => ?_, .refl table⟩
      simpa using List.find?_eq_none.mp found row member
  | some row =>
      have member := List.mem_of_find?_eq_some found
      obtain ⟨path, t, spells, heals, same⟩ := healed_answers legacy member
      dsimp only
      rw [same]
      exact ⟨⟨row, member, by simpa using List.find?_some found, path, spells, rfl⟩, heals⟩

end Rows

section Paths

variable {table t : List (FSEntryRow γ)} {row : FSEntryRow γ} {path : Text}

theorem Healed.exists_before (healed : Healed table t) (member : row ∈ t) :
    ∃ old ∈ table, row.uuid = old.uuid ∧ ∀ path, { row with path := path } = { old with path := path } := by
  obtain ⟨heal, rfl, heals⟩ := healed
  obtain ⟨old, isRow, rfl⟩ := List.mem_map.mp member
  exact ⟨old, isRow, (heals old isRow).links.2.1, (heals old isRow).withPath⟩

theorem Healed.exists_after (healed : Healed table t) (member : row ∈ table) : ∃ new ∈ t, new.uuid = row.uuid := by
  obtain ⟨heal, rfl, heals⟩ := healed
  exact ⟨heal row, List.mem_map_of_mem member, (heals row member).links.2.1⟩

theorem AnswersPath.of_healed (healed : Healed table t) {found : Option (FSEntryRow γ)}
    (answers : AnswersPath t path found) : AnswersPath table path found := by
  cases found with
  | some entry =>
      obtain ⟨row, member, spells, rfl⟩ := answers
      obtain ⟨old, isRow, same, columns⟩ := healed.exists_before member
      exact ⟨old, isRow, (healed.spellsPath_iff same).mp spells, columns _⟩
  | none =>
      intro row member spells
      obtain ⟨new, isRow, same⟩ := healed.exists_after member
      exact answers new isRow ((healed.spellsPath_iff same).mpr spells)

theorem AnswersRow.toPath (healed : Healed table t) (legacy : LegacyTable table) {target : FSEntryRow γ}
    (member : target ∈ table) (spells : SpellsPath table target path) {found : Option (FSEntryRow γ)}
    (answers : AnswersRow t (·.uuid = target.uuid) found) : AnswersPath table path found := by
  cases found with
  | some entry =>
      obtain ⟨row, isRow, same, path', spells', rfl⟩ := answers
      obtain ⟨old, isOld, sameOld, columns⟩ := healed.exists_before isRow
      obtain rfl := legacy.row_of_uuid isOld member (sameOld.symm.trans same)
      rw [healed.spellsPath_iff sameOld] at spells'
      rw [legacy.path_eq spells' spells]
      exact ⟨old, isOld, spells, columns _⟩
  | none =>
      obtain ⟨new, isRow, same⟩ := healed.exists_after member
      exact absurd same (answers new isRow)

theorem resolve_answers (legacy : LegacyTable table) {path : Text} (normal : NormalPath path) :
    AnswersPath table path (resolveEntryByPathLineage path table).1 ∧
      Healed table (resolveEntryByPathLineage path table).2 := by
  unfold resolveEntryByPathLineage
  obtain rfl | ⟨names, nonempty, segments, rfl, notRoot⟩ := normal.segments
  · rw [if_pos rfl]
    exact ⟨fun row _ => not_spellsPath_root legacy, .refl table⟩
  · have split : ((pathOf names).splitOn '/').filter (· ≠ []) = names := by
      rw [splitOn_pathOf nonempty fun name member => (segments name member).2, List.filter_cons_of_neg (by simp),
        List.filter_eq_self]
      intro name member
      simpa using (segments name member).1
    rw [if_neg notRoot, split]
    obtain ⟨trail, target, walked, line, isLast⟩ | ⟨walked, missing⟩ := lineage_cases legacy names nonempty
    · have heals := backfill_heals legacy line
      obtain ⟨member, spells⟩ := line.last isLast
      obtain ⟨answers, heals'⟩ := getEntryByUuid_answers (legacy.healed heals) target.uuid
      simp only [walked, isLast]
      refine ⟨?_, heals.trans heals'⟩
      exact answers.toPath heals legacy member ⟨names, spells, rfl⟩
    · simp only [walked]
      refine ⟨?_, .refl table⟩
      rintro row - ⟨names', spells, same⟩
      rw [legacy.pathOf_iff spells fun name member => (segments name member).2] at same
      exact missing row.uuid (same ▸ spells)

end Paths

section Batches

variable {table : List (FSEntryRow γ)} {path : Text} {paths : List Text}

theorem mem_chunk {α : Type} {values : List α} {value : α} {size : Nat} (positive : 0 < size) :
    (∃ part ∈ chunk values size, value ∈ part) ↔ value ∈ values := by
  constructor
  · rintro ⟨part, isPart, member⟩
    obtain ⟨i, -, rfl⟩ := List.mem_map.mp isPart
    exact List.mem_of_mem_drop (List.mem_of_mem_take member)
  · intro member
    obtain ⟨i, within, rfl⟩ := List.mem_iff_getElem.mp member
    have split := Nat.div_add_mod i size
    have below := Nat.mod_lt i positive
    refine ⟨_, List.mem_map.mpr ⟨i / size, List.mem_range.mpr ?_, rfl⟩, ?_⟩
    · rw [Nat.div_lt_iff_lt_mul positive]
      have enough := Nat.div_add_mod (values.length + (size - 1)) size
      have left := Nat.mod_lt (values.length + (size - 1)) positive
      rw [Nat.mul_comm] at enough
      omega
    · rw [List.mem_iff_getElem]
      refine ⟨i % size, ?_, ?_⟩
      · rw [List.length_take, List.length_drop, Nat.mul_comm]
        omega
      · rw [List.getElem_take, List.getElem_drop]
        congr 1
        rw [Nat.mul_comm]
        exact split

theorem foldl_entries (rows : List (FSEntryRow γ)) (entriesByPath : List (Text × FSEntryRow γ)) :
    rows.foldl (fun entriesByPath entry => (entry.path.getD [], entry) :: entriesByPath) entriesByPath =
      (rows.map fun entry => (entry.path.getD [], entry)).reverse ++ entriesByPath := by
  induction rows generalizing entriesByPath with
  | nil => rfl
  | cons row rest ih =>
      rw [List.foldl_cons, ih]
      simp

theorem mem_selectPaths {entry : Text × FSEntryRow γ} :
    entry ∈ selectPaths paths table ↔ entry.2 ∈ table ∧ entry.2.path = some entry.1 ∧ entry.1 ∈ paths := by
  rw [selectPaths, foldl_entries, List.append_nil, List.mem_reverse, List.mem_map]
  constructor
  · rintro ⟨row, selected, rfl⟩
    obtain ⟨part, isPart, selected⟩ := List.mem_flatMap.mp selected
    obtain ⟨member, wanted⟩ := List.mem_filter.mp selected
    obtain ⟨path, isPath, wanted⟩ := (Option.any_eq_true _ _).mp wanted
    have inPart : path ∈ part := by simpa using wanted
    rw [isPath]
    exact ⟨member, rfl, (mem_chunk (by decide)).mp ⟨part, isPart, inPart⟩⟩
  · rintro ⟨member, isPath, wanted⟩
    obtain ⟨part, isPart, inPart⟩ := (mem_chunk (by decide : 0 < bulkQueryChunkSize)).mpr wanted
    refine ⟨entry.2, List.mem_flatMap.mpr ⟨part, isPart, List.mem_filter.mpr ⟨member, ?_⟩⟩, ?_⟩
    · simp [isPath, inPart]
    · simp [isPath]

theorem lookup_selectPaths (wanted : path ∈ paths) :
    (∃ row ∈ table, row.path = some path ∧ (selectPaths paths table).lookup path = some row) ∨
      (∀ row ∈ table, row.path ≠ some path) ∧ (selectPaths paths table).lookup path = none := by
  cases found : (selectPaths paths table).lookup path with
  | some entry =>
      left
      obtain ⟨before, after, whole, -⟩ := List.lookup_eq_some_iff.mp found
      have selected : (path, entry) ∈ selectPaths paths table := by rw [whole]; simp
      obtain ⟨member, isPath, -⟩ := mem_selectPaths.mp selected
      exact ⟨entry, member, isPath, rfl⟩
  | none =>
      right
      refine ⟨fun row member isPath => ?_, rfl⟩
      have other := List.lookup_eq_none_iff.mp found (path, row) (mem_selectPaths.mpr ⟨member, isPath, wanted⟩)
      simp at other

theorem LegacyTable.answers_of_path (legacy : LegacyTable table) {row : FSEntryRow γ} (member : row ∈ table)
    (isPath : row.path = some path) : AnswersPath table path (some row) :=
  ⟨row, member, legacy.paths row member path isPath, by rw [← isPath]⟩

theorem resolveMissing_answers {t : List (FSEntryRow γ)} (legacy : LegacyTable table) (healed : Healed table t)
    {missing : List Text} (normal : ∀ path ∈ missing, NormalPath path) (entriesByPath : List (Text × FSEntryRow γ)) :
    Healed table (resolveMissing missing entriesByPath t).2 ∧
      ∀ path, AnswersPath table path (entriesByPath.lookup path) ∨
          path ∈ missing ∧ entriesByPath.lookup path = none →
        AnswersPath table path ((resolveMissing missing entriesByPath t).1.lookup path) := by
  induction missing generalizing t entriesByPath with
  | nil =>
      refine ⟨healed, fun path state => ?_⟩
      obtain answers | ⟨member, -⟩ := state
      · exact answers
      · cases member
  | cons next rest ih =>
      obtain ⟨answers, heals⟩ := resolve_answers (legacy.healed healed) (normal next List.mem_cons_self)
      have later := fun path member => normal path (List.mem_cons_of_mem next member)
      have answers' := AnswersPath.of_healed healed answers
      rw [resolveMissing]
      cases resolved : resolveEntryByPathLineage next t with
      | mk found t' =>
          rw [resolved] at heals answers'
          cases found with
          | some entry =>
              obtain ⟨heals', others⟩ :=
                ih (healed.trans heals) later ((next, entry) :: entriesByPath)
              refine ⟨heals', fun path state => others path ?_⟩
              rw [List.lookup_cons]
              by_cases same : path = next
              · subst same
                rw [beq_self_eq_true]
                exact .inl answers'
              · rw [beq_false_of_ne same]
                refine state.imp_right fun missing => ⟨?_, missing.2⟩
                exact (List.mem_cons.mp missing.1).resolve_left same
          | none =>
              obtain ⟨heals', others⟩ := ih (healed.trans heals) later entriesByPath
              refine ⟨heals', fun path state => others path ?_⟩
              obtain answered | ⟨member, absent⟩ := state
              · exact .inl answered
              · obtain rfl | member := List.mem_cons.mp member
                · rw [absent]
                  exact .inl answers'
                · exact .inr ⟨member, absent⟩

theorem NormalPath.ne_nil (normal : NormalPath path) : path ≠ [] := by
  obtain ⟨rooted, -⟩ := normal.shape
  rintro rfl
  cases rooted

theorem normalizedPaths_eq (normal : ∀ path ∈ paths, NormalPath path) :
    normalizedPaths paths = .ok (paths.filter (0 < ·.length)).eraseDups := by
  have all : paths.mapM FSEntryStore.normalizePath = .ok paths := by
    induction paths with
    | nil => rfl
    | cons path rest ih =>
        have first : FSEntryStore.normalizePath path = .ok path := normal path List.mem_cons_self
        rw [List.mapM_cons, first, ih fun other later => normal other (List.mem_cons_of_mem _ later)]
        rfl
  rw [normalizedPaths, all]
  rfl

theorem mem_normalizedPaths (normal : ∀ path ∈ paths, NormalPath path) :
    path ∈ (paths.filter (0 < ·.length)).eraseDups ↔ path ∈ paths := by
  rw [List.mem_eraseDups, List.mem_filter, and_iff_left_iff_imp]
  intro member
  simpa using List.length_pos_iff.mpr (normal path member).ne_nil

theorem readEntriesByPathsForUser_answers (legacy : LegacyTable table) (normal : ∀ path ∈ paths, NormalPath path) :
    ∃ entriesByPath t, readEntriesByPathsForUser paths table = .ok (entriesByPath, t) ∧
      (∀ path ∈ paths, AnswersPath table path (entriesByPath.lookup path)) ∧ Healed table t := by
  let asked := (paths.filter (0 < ·.length)).eraseDups
  let missing := asked.filter fun path => ((selectPaths asked table).lookup path).isNone
  have normalMissing : ∀ path ∈ missing, NormalPath path := fun path member =>
    normal path ((mem_normalizedPaths normal).mp (List.mem_of_mem_filter member))
  obtain ⟨heals, answers⟩ := resolveMissing_answers legacy (.refl table) normalMissing (selectPaths asked table)
  refine ⟨_, _, ?_, fun path member => answers path ?_, heals⟩
  · rw [readEntriesByPathsForUser, normalizedPaths_eq normal]
    rfl
  · have isAsked : path ∈ asked := (mem_normalizedPaths normal).mpr member
    obtain ⟨row, isRow, isPath, found⟩ | ⟨-, absent⟩ := lookup_selectPaths isAsked
    · rw [found]
      exact .inl (legacy.answers_of_path isRow isPath)
    · exact .inr ⟨List.mem_filter.mpr ⟨isAsked, by rw [absent]; rfl⟩, absent⟩

theorem getEntryByPath_exact (legacy : LegacyTable table) (normal : NormalPath path) (direct : Bool) :
    ∃ found t, getEntryByPath path direct table = .ok (found, t) ∧ AnswersPath table path found ∧ Healed table t := by
  have isNormal : FSEntryStore.normalizePath path = .ok path := normal
  cases direct with
  | true =>
      obtain ⟨entriesByPath, t, read, answers, heals⟩ :=
        readEntriesByPathsForUser_answers legacy (List.forall_mem_singleton.mpr normal)
      refine ⟨_, t, ?_, answers path (List.mem_singleton_self path), heals⟩
      rw [getEntryByPath, isNormal]
      change (readEntriesByPathsForUser [path] table >>= _) = _
      rw [read]
      rfl
  | false =>
      cases found : table.find? (·.path = some path) with
      | some row =>
          refine ⟨some row, table, ?_, ?_, .refl table⟩
          · simp only [getEntryByPath, isNormal, found, bind, Except.bind, pure, Except.pure]
            rfl
          · exact legacy.answers_of_path (List.mem_of_find?_eq_some found) (by simpa using List.find?_some found)
      | none =>
          obtain ⟨answers, heals⟩ := resolve_answers legacy normal
          refine ⟨_, _, ?_, answers, heals⟩
          simp only [getEntryByPath, isNormal, found, bind, Except.bind, pure, Except.pure]
          rfl

theorem getEntriesByPaths_answers_iff (legacy : LegacyTable table) (normal : ∀ path ∈ paths, NormalPath path) :
    (∃ entriesByPath, getEntriesByPaths paths table = .ok entriesByPath ∧
      ∀ path ∈ paths, AnswersPath table path (entriesByPath.lookup path)) ↔
      ∀ path ∈ paths, ∀ row ∈ table, SpellsPath table row path → row.path ≠ none := by
  let asked := (paths.filter (0 < ·.length)).eraseDups
  have read : getEntriesByPaths paths table = .ok (selectPaths asked table) := by
    rw [getEntriesByPaths, normalizedPaths_eq normal]
    rfl
  constructor
  · rintro ⟨entriesByPath, ran, answers⟩ path member row isRow spells missing
    obtain rfl := Except.ok.inj (ran.symm.trans read)
    have answered := answers path member
    obtain ⟨other, isOther, isPath, found⟩ | ⟨-, absent⟩ :=
      lookup_selectPaths ((mem_normalizedPaths normal).mpr member)
    · have same := legacy.row_eq isRow isOther spells (legacy.paths other isOther path isPath)
      rw [same, isPath] at missing
      cases missing
    · rw [absent] at answered
      exact answered row isRow spells
  · intro covered
    refine ⟨_, read, fun path member => ?_⟩
    obtain ⟨row, isRow, isPath, found⟩ | ⟨noRow, absent⟩ :=
      lookup_selectPaths ((mem_normalizedPaths normal).mpr member)
    · rw [found]
      exact legacy.answers_of_path isRow isPath
    · rw [absent]
      intro row isRow spells
      obtain ⟨stored, isPath⟩ := Option.ne_none_iff_exists'.mp (covered path member row isRow spells)
      apply noRow row isRow
      rw [isPath, legacy.path_eq (legacy.paths row isRow stored isPath) spells]

end Batches

/-- A lookup of entries: of one path or several, or of a uuid or an id. -/
inductive EntryLookup where
  | byPath (path : Text) (direct : Bool)
  | byPathsForUser (paths : List Text)
  | byPaths (paths : List Text)
  | byUuid (uuid : Nat)
  | byId (id : Nat)

namespace EntryLookup

def paths : EntryLookup → List Text
  | .byPath path _ => [path]
  | .byPathsForUser paths | .byPaths paths => paths
  | .byUuid _ | .byId _ => []

/-- The lookup answers each path with the row whose lineage spells it, and a uuid or an id with its row and the
    right path; afterwards a row whose path changed has the right one and the others are what they were. -/
def Exact (table : List (FSEntryRow γ)) : EntryLookup → Prop
  | .byPath path direct =>
      ∃ found t, getEntryByPath path direct table = .ok (found, t) ∧ AnswersPath table path found ∧ Healed table t
  | .byPathsForUser paths =>
      ∃ entriesByPath t, readEntriesByPathsForUser paths table = .ok (entriesByPath, t) ∧
        (∀ path ∈ paths, AnswersPath table path (entriesByPath.lookup path)) ∧ Healed table t
  | .byPaths paths =>
      ∃ entriesByPath, getEntriesByPaths paths table = .ok entriesByPath ∧
        ∀ path ∈ paths, AnswersPath table path (entriesByPath.lookup path)
  | .byUuid uuid =>
      AnswersRow table (·.uuid = uuid) (getEntryByUuid uuid table).1 ∧ Healed table (getEntryByUuid uuid table).2
  | .byId id => AnswersRow table (·.id = id) (getEntryById id table).1 ∧ Healed table (getEntryById id table).2

/-- No path that `getEntriesByPaths` is asked for is that of a row without one. -/
def Covered (table : List (FSEntryRow γ)) : EntryLookup → Prop
  | .byPaths paths => ∀ path ∈ paths, ∀ row ∈ table, SpellsPath table row path → row.path ≠ none
  | .byPath _ _ | .byPathsForUser _ | .byUuid _ | .byId _ => True

end EntryLookup

/-- Every lookup is exact, but for a batch without a fallback that asks for a row without a path. -/
theorem lookup_exact_iff {table : List (FSEntryRow γ)} (legacy : LegacyTable table) {lookup : EntryLookup}
    (normal : ∀ path ∈ lookup.paths, NormalPath path) : lookup.Exact table ↔ lookup.Covered table := by
  cases lookup with
  | byPath path direct =>
      exact iff_of_true (getEntryByPath_exact legacy (normal path (List.mem_singleton_self path)) direct) trivial
  | byPathsForUser paths => exact iff_of_true (readEntriesByPathsForUser_answers legacy normal) trivial
  | byPaths paths => exact getEntriesByPaths_answers_iff legacy normal
  | byUuid uuid => exact iff_of_true (getEntryByUuid_answers legacy uuid) trivial
  | byId id => exact iff_of_true (getEntryById_answers legacy id) trivial

def oldHome : List (FSEntryRow Unit) := [⟨1, 1, none, ['a'], none, ()⟩]

theorem oldHome_spells : Spells rowLinks oldHome [['a']] 1 :=
  @Spells.home _ _ _ rowLinks oldHome ⟨1, 1, none, ['a'], none, ()⟩ List.mem_cons_self rfl

theorem oldHome_legacy : LegacyTable oldHome where
  uuids := by decide
  ids := by decide
  rooted row member := by
    rw [List.mem_singleton.mp member]
    exact ⟨_, oldHome_spells⟩
  siblings row member other member' _ _ := by rw [List.mem_singleton.mp member, List.mem_singleton.mp member']
  names := by decide
  paths row member path isPath := by
    rw [List.mem_singleton.mp member] at isPath
    cases isPath

theorem lookup_exact_oldHome : (EntryLookup.byPath ['/', 'a'] false).Exact oldHome :=
  (lookup_exact_iff oldHome_legacy (by decide)).mpr trivial

/-- The batched lookup does not see the home. -/
theorem batch_misses_old_home :
    LegacyTable oldHome ∧ NormalPath ['/', 'a'] ∧ ¬ (EntryLookup.byPaths [['/', 'a']]).Exact oldHome := by
  refine ⟨oldHome_legacy, by decide, ?_⟩
  rintro ⟨entriesByPath, read, answers⟩
  have nothing : getEntriesByPaths [['/', 'a']] oldHome = .ok [] := by decide
  obtain rfl := Except.ok.inj (read.symm.trans nothing)
  exact answers ['/', 'a'] (List.mem_singleton_self _) _ List.mem_cons_self ⟨_, oldHome_spells, rfl⟩


end Puter

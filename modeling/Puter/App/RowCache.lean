/-
Module: Puter.App.RowCache
Purpose: The cache of app rows against the table. Under each key of the cache there is a form of the current row that
  the key is of; what a form may be is a parameter, which the writers of the cache have to meet.
Trusted boundary: none
Main exports: UniqueApps, RowsKept.deleted
-/
import Puter.App.AppStore

namespace Puter

open FanOutCache

variable {μ : Type} {env : AppEnv μ} {s : AppStoreState μ} {row other : AppRecord μ} {key : AppKey}

/-- The keys of the rows are unique. -/
structure UniqueApps (table : List (AppRecord μ)) : Prop where
  ids : (table.map (·.id)).Nodup
  uids : (table.map (·.uid)).Nodup
  names : (table.map (·.name)).Nodup

theorem matches_iff_mem_cacheKeys : row.matches key = true ↔ key ∈ cacheKeysForApp row := by
  cases key <;> simp [AppRecord.matches, cacheKeysForApp, eq_comm]

theorem UniqueApps.eq {table : List (AppRecord μ)} (unique : UniqueApps table) (member : row ∈ table)
    (memberOther : other ∈ table) (found : row.matches key = true) (foundOther : other.matches key = true) :
    row = other := by
  cases key with
  | id value =>
      have same : row.id = other.id := by
        simp only [AppRecord.matches, decide_eq_true_eq] at found foundOther
        rw [found, foundOther]
      exact List.inj_on_of_nodup_map unique.ids member memberOther same
  | uid value =>
      have same : row.uid = other.uid := by
        simp only [AppRecord.matches, decide_eq_true_eq] at found foundOther
        rw [found, foundOther]
      exact List.inj_on_of_nodup_map unique.uids member memberOther same
  | name value =>
      have same : row.name = other.name := by
        simp only [AppRecord.matches, decide_eq_true_eq] at found foundOther
        rw [found, foundOther]
      exact List.inj_on_of_nodup_map unique.names member memberOther same

theorem select_eq_some (unique : UniqueApps s.table) :
    s.select key = some row ↔ row ∈ s.table ∧ row.matches key = true := by
  constructor
  · intro found
    rw [AppStoreState.select] at found
    have holds := List.find?_some found
    exact ⟨List.mem_of_find?_eq_some found, holds⟩
  · intro both
    have some_first : (s.table.find? (·.matches key)).isSome = true := List.find?_isSome.mpr ⟨row, both⟩
    obtain ⟨first, isFirst⟩ := Option.isSome_iff_exists.mp some_first
    have holds := List.find?_some isFirst
    rw [AppStoreState.select, isFirst, unique.eq (List.mem_of_find?_eq_some isFirst) both.1 holds both.2]

theorem accepts_unique [DecidableEq μ] {table : List (AppRecord μ)} (accepted : AppStoreState.accepts table = true) :
    UniqueApps table := by
  rw [AppStoreState.accepts, Bool.and_eq_true, decide_eq_true_eq] at accepted
  exact ⟨accepted.1.1, accepted.1.2.1, accepted.1.2.2⟩

/-- A cached row is a form of a row: it has its keys, and `form` says what else holds of the two. -/
structure StandsFor (form : AppRecord μ → AppRecord μ → Prop) (cached row : AppRecord μ) : Prop where
  id : cached.id = row.id
  uid : cached.uid = row.uid
  name : cached.name = row.name
  form : form cached row

theorem StandsFor.keys {form : AppRecord μ → AppRecord μ → Prop} {cached : AppRecord μ}
    (stands : StandsFor form cached row) : cacheKeysForApp cached = cacheKeysForApp row := by
  rw [cacheKeysForApp, cacheKeysForApp, stands.id, stands.uid, stands.name]

def RowsKept (form : AppRecord μ → AppRecord μ → Prop) (s : AppStoreState μ) : Prop :=
  s.rows.Faithful cacheKeysForApp fun cached => ∃ row ∈ s.table, StandsFor form cached row

variable {form : AppRecord μ → AppRecord μ → Prop}

theorem RowsKept.same {t : AppStoreState μ} (kept : RowsKept form s) (sameRows : t.rows = s.rows)
    (sameTable : t.table = s.table) : RowsKept form t := by
  rw [RowsKept, sameRows, sameTable]
  exact kept

theorem normalize_stands (form_normalize : form (normalizeAppRow env row) row) :
    StandsFor form (normalizeAppRow env row) row := ⟨rfl, rfl, rfl, form_normalize⟩

theorem resolveByOldName_some {name : Text} {found : AppRecord μ}
    (isFound : (s.resolveByOldName env name).2 = some found) :
    ∃ row ∈ s.table, found = normalizeAppRow env row := by
  obtain ⟨entry, first, rfl⟩ := Option.map_eq_some_iff.mp isFound
  have listed := List.mem_of_mem_head? first
  rw [AppStoreState.redirected, List.mem_insertionSort] at listed
  obtain ⟨old, -, isEntry⟩ := List.mem_filterMap.mp listed
  obtain ⟨row, isRow, rfl⟩ := Option.map_eq_some_iff.mp isEntry
  exact ⟨row, List.mem_of_find?_eq_some isRow, rfl⟩

theorem readFromDb_some {found : AppRecord μ} (isFound : (s.readFromDb env key).2 = some found) :
    ∃ row ∈ s.table, found = normalizeAppRow env row := by
  unfold AppStoreState.readFromDb at isFound
  split at isFound
  · next row selected => exact ⟨row, List.mem_of_find?_eq_some selected, (Option.some.inj isFound).symm⟩
  · exact resolveByOldName_some isFound
  · cases isFound

theorem readFromDb_state (env : AppEnv μ) (s : AppStoreState μ) (key : AppKey) :
    (s.readFromDb env key).1 = { s with oldNames := (s.readFromDb env key).1.oldNames } := by
  unfold AppStoreState.readFromDb
  split <;> rfl

theorem readFromDb_eq (notName : ∀ name, key ≠ .name name) :
    (s.readFromDb env key).2 = (s.select key).map (normalizeAppRow env) := by
  cases selected : s.select key with
  | some row => simp only [AppStoreState.readFromDb, selected, Option.map_some]
  | none =>
      cases key with
      | name name => exact absurd rfl (notName name)
      | id id => simp only [AppStoreState.readFromDb, selected, Option.map_none]
      | uid uid => simp only [AppStoreState.readFromDb, selected, Option.map_none]

theorem getByProperty_cases (env : AppEnv μ) (key : AppKey) :
    (∃ cached, s.rows key = some cached ∧
      s.getByProperty env key = (s, some (normalizeAppRow env cached))) ∨
    (s.rows key = none ∧ (s.readFromDb env key).2 = none ∧
      s.getByProperty env key = ((s.readFromDb env key).1, none)) ∨
    (s.rows key = none ∧ ∃ row ∈ s.table, (s.readFromDb env key).2 = some (normalizeAppRow env row) ∧
      s.getByProperty env key =
        ((s.readFromDb env key).1.writeCache (normalizeAppRow env row), some (normalizeAppRow env row))) := by
  unfold AppStoreState.getByProperty AppStoreState.readCache
  cases held : s.rows key with
  | some cached => exact .inl ⟨cached, rfl, rfl⟩
  | none =>
      right
      cases isFound : (s.readFromDb env key).2 with
      | none =>
          left
          refine ⟨rfl, rfl, ?_⟩
          simp only [Option.map_none]
          split
          · next isRead => rw [isRead]
          · next isRead =>
              rw [isRead] at isFound
              cases isFound
      | some found =>
          right
          obtain ⟨row, member, rfl⟩ := readFromDb_some isFound
          refine ⟨rfl, row, member, rfl, ?_⟩
          simp only [Option.map_none]
          split
          · next isRead =>
              rw [isRead] at isFound
              cases isFound
          · next app isRead =>
              rw [isRead] at isFound ⊢
              obtain rfl := Option.some.inj isFound
              rfl

theorem readFromDb_id (unique : UniqueApps s.table) {id : ℕ}
    (isRead : (s.readFromDb env (.id id)).2 = some (normalizeAppRow env row)) : row.id = id := by
  cases selected : s.select (.id id) with
  | none =>
      simp only [AppStoreState.readFromDb, selected] at isRead
      cases isRead
  | some other =>
      simp only [AppStoreState.readFromDb, selected] at isRead
      have found := ((select_eq_some unique).mp selected).2
      have same : (normalizeAppRow env other).id = (normalizeAppRow env row).id := by rw [Option.some.inj isRead]
      have isOther : other.id = id := by simpa [AppRecord.matches] using found
      exact same.symm.trans isOther

theorem getByProperty_state (env : AppEnv μ) (s : AppStoreState μ) (key : AppKey) :
    (s.getByProperty env key).1 =
      { s with oldNames := (s.getByProperty env key).1.oldNames, rows := (s.getByProperty env key).1.rows } := by
  rcases getByProperty_cases env key with ⟨cached, -, isState⟩ | ⟨-, -, isState⟩ | ⟨-, row, -, -, isState⟩
  · rw [isState]
  · rw [isState]
    simp only
    rw [readFromDb_state env s key]
  · rw [isState]
    simp only [AppStoreState.writeCache]
    rw [readFromDb_state env s key]

theorem getByProperty_table (env : AppEnv μ) (s : AppStoreState μ) (key : AppKey) :
    (s.getByProperty env key).1.table = s.table := by
  rw [getByProperty_state]

theorem getByProperty_uncached (unique : UniqueApps s.table) {id : ℕ} (member : other ∈ s.table)
    (differs : other.id ≠ id) (uncached : ∀ key ∈ cacheKeysForApp other, s.rows key = none) :
    ∀ key ∈ cacheKeysForApp other, (s.getByProperty env (.id id)).1.rows key = none := by
  intro key isKey
  rcases getByProperty_cases env (s := s) (.id id) with
    ⟨cached, -, isState⟩ | ⟨-, -, isState⟩ | ⟨-, row, memberRow, isRead, isState⟩
  · rw [isState]
    exact uncached key isKey
  · rw [isState, readFromDb_state]
    exact uncached key isKey
  · have notRowKey : key ∉ cacheKeysForApp (normalizeAppRow env row) := by
      intro isRowKey
      have isSame := unique.eq member memberRow (matches_iff_mem_cacheKeys.mpr isKey)
        (matches_iff_mem_cacheKeys.mpr isRowKey)
      rw [isSame] at differs
      exact differs (readFromDb_id unique isRead)
    rw [isState]
    simp only [AppStoreState.writeCache]
    rw [Cache.put_of_notMem notRowKey, readFromDb_state]
    exact uncached key isKey

theorem RowsKept.getByProperty (kept : RowsKept form s)
    (forms : ∀ row ∈ s.table, form (normalizeAppRow env row) row) (key : AppKey) :
    RowsKept form (s.getByProperty env key).1 := by
  rcases getByProperty_cases env key with ⟨cached, -, isState⟩ | ⟨-, -, isState⟩ | ⟨-, row, member, -, isState⟩
  · rw [isState]
    exact kept
  · rw [isState]
    exact kept.same (by rw [readFromDb_state env s key]) (by rw [readFromDb_state env s key])
  · rw [isState]
    have read : RowsKept form (s.readFromDb env key).1 :=
      kept.same (by rw [readFromDb_state env s key]) (by rw [readFromDb_state env s key])
    apply read.put
    rw [readFromDb_state env s key]
    exact ⟨row, member, normalize_stands (forms row member)⟩

theorem RowsKept.grown (kept : RowsKept form s) (added : List (AppRecord μ)) :
    RowsKept form { s with table := s.table ++ added } := by
  intro key cached held
  obtain ⟨⟨row, member, stands⟩, isKey⟩ := kept key cached held
  exact ⟨⟨row, List.mem_append_left _ member, stands⟩, isKey⟩

theorem RowsKept.uncached (kept : RowsKept form s) {id : ℕ} (fresh : ∀ row ∈ s.table, row.id ≠ id) :
    s.rows (.id id) = none := by
  cases held : s.rows (.id id) with
  | none => rfl
  | some cached =>
      obtain ⟨⟨row, member, stands⟩, isKey⟩ := kept _ _ held
      rw [stands.keys, ← matches_iff_mem_cacheKeys] at isKey
      have isId : row.id = id := by simpa [AppRecord.matches] using isKey
      exact absurd isId (fresh row member)

theorem UniqueApps.fresh {table : List (AppRecord μ)} (unique : UniqueApps (table ++ [row])) :
    ∀ other ∈ table, other.id ≠ row.id := by
  have once := unique.ids
  rw [List.map_append, List.nodup_append] at once
  intro other member
  exact once.2.2 _ (List.mem_map_of_mem member) _ (by simp)

theorem getByProperty_inserted (env : AppEnv μ) (kept : RowsKept form s) (unique : UniqueApps (s.table ++ [row])) :
    { s with table := s.table ++ [row] }.getByProperty env (.id row.id) =
      ({ s with table := s.table ++ [row] }.writeCache (normalizeAppRow env row), some (normalizeAppRow env row)) := by
  have uncached : s.rows (.id row.id) = none := kept.uncached unique.fresh
  have selected : { s with table := s.table ++ [row] }.select (.id row.id) = some row :=
    (select_eq_some unique).mpr ⟨by simp, by simp [AppRecord.matches]⟩
  simp only [AppStoreState.getByProperty, AppStoreState.readCache, uncached, Option.map_none,
    AppStoreState.readFromDb, selected]

theorem clearOldAppNamesForName_state (name : Text) :
    s.clearOldAppNamesForName name = { s with oldNames := (s.clearOldAppNamesForName name).oldNames } := by
  unfold AppStoreState.clearOldAppNamesForName
  split <;> rfl

theorem RowsKept.inserted (kept : RowsKept form s) (row : AppRecord μ) (forms : form (normalizeAppRow env row) row) :
    RowsKept form ({ s with table := s.table ++ [row] }.writeCache (normalizeAppRow env row)) := by
  apply (kept.grown [row]).put
  exact ⟨row, by simp, normalize_stands forms⟩

theorem mem_updatedTable {appId : ℕ} {allowed : AppPatch μ} :
    other ∈ s.updatedTable appId allowed ↔
      (other ∈ s.table ∧ other.id ≠ appId) ∨ ∃ row ∈ s.table, row.id = appId ∧ other = row.patched allowed := by
  constructor
  · intro member
    obtain ⟨row, isRow, rfl⟩ := List.mem_map.mp member
    by_cases same : row.id = appId
    · rw [if_pos same]
      exact .inr ⟨row, isRow, same, rfl⟩
    · rw [if_neg same]
      exact .inl ⟨isRow, same⟩
  · rintro (⟨member, differs⟩ | ⟨row, member, same, rfl⟩)
    · exact List.mem_map.mpr ⟨other, member, if_neg differs⟩
    · exact List.mem_map.mpr ⟨row, member, if_pos same⟩

theorem updatedTable_of_absent {appId : ℕ} {allowed : AppPatch μ} (absent : s.select (.id appId) = none) :
    s.updatedTable appId allowed = s.table := by
  rw [AppStoreState.select, List.find?_eq_none] at absent
  have same : s.updatedTable appId allowed = s.table.map id := by
    apply List.map_congr_left
    intro row member
    have differs := absent row member
    rw [if_neg (by simpa [AppRecord.matches] using differs)]
    rfl
  rw [same, List.map_id]

theorem renamed_state (table : List (AppRecord μ)) (appUid oldName name : Text) :
    ({ s with table := table }.recordOldAppName appUid oldName).clearOldAppNamesForName name =
      { s with
        table := table
        oldNames := ((s.recordOldAppName appUid oldName).clearOldAppNamesForName name).oldNames } := by
  have recorded : { s with table := table }.recordOldAppName appUid oldName =
      { s with table := table, oldNames := (s.recordOldAppName appUid oldName).oldNames } := by
    simp only [AppStoreState.recordOldAppName]
    split
    · rfl
    · split <;> rfl
  rw [recorded]
  simp only [AppStoreState.clearOldAppNamesForName]
  split <;> rfl

def renamedTo (row : AppRecord μ) (allowed : AppPatch μ) : Option Text := allowed.name.filter (· ≠ row.name)

def oldNamesAfter (s : AppStoreState μ) (row : AppRecord μ) (allowed : AppPatch μ) : List OldAppName :=
  match renamedTo row allowed with
  | some name => ((s.recordOldAppName row.uid row.name).clearOldAppNamesForName name).oldNames
  | none => s.oldNames

def mergedRow (env : AppEnv μ) (row : AppRecord μ) (allowed : AppPatch μ) : AppRecord μ :=
  (normalizeAppRow env (row.patched allowed)).patched allowed

theorem cacheKeys_mergedRow (row : AppRecord μ) (allowed : AppPatch μ) :
    cacheKeysForApp (mergedRow env row allowed) = [.id row.id, .uid row.uid, .name (allowed.name.getD row.name)] := by
  cases isName : allowed.name <;> simp [cacheKeysForApp, mergedRow, AppRecord.patched, normalizeAppRow, isName]

theorem mergedRow_stands {allowed : AppPatch μ} (forms : form (mergedRow env row allowed) (row.patched allowed)) :
    StandsFor form (mergedRow env row allowed) (row.patched allowed) := by
  refine ⟨rfl, rfl, ?_, forms⟩
  cases isName : allowed.name <;> simp [mergedRow, AppRecord.patched, normalizeAppRow, isName]

theorem map_owners {β : Type} (property : AppRecord μ → β)
    (keeps : ∀ row : AppRecord μ, property { row with appOwner := none } = property row) (rows : List (AppRecord μ))
    (id : ℕ) : (rows.map fun row => if row.appOwner = some id then { row with appOwner := none } else row).map property =
      rows.map property := by
  rw [List.map_map]
  apply List.map_congr_left
  intro row _
  simp only [Function.comp]
  split
  · exact keeps row
  · rfl

section Writes

variable [DecidableEq μ]

theorem create_eq (kept : RowsKept form s) (id : ℕ) (uuid : Text) (fields : AppPatch μ) (ownerUserId : ℕ)
    (appOwner : Option ℕ) :
    s.create env id uuid fields ownerUserId appOwner = (s, none) ∨
      ∃ row : AppRecord μ, ∃ name, fields.name = some name ∧
        row = s.createdRow env id ("app-".toList ++ uuid) name (filterEditable env fields) ownerUserId appOwner ∧
        AppStoreState.accepts (s.table ++ [row]) = true ∧
        s.create env id uuid fields ownerUserId appOwner =
          ((({ s with table := s.table ++ [row] }.writeCache (normalizeAppRow env row)).clearOldAppNamesForName
            name).invalidateListCachesForApps [some (normalizeAppRow env row)], some (normalizeAppRow env row)) := by
  cases isName : fields.name with
  | none =>
      have isName' : (filterEditable env fields).name = none := isName
      left
      simp only [AppStoreState.create, isName']
  | some name =>
      have isName' : (filterEditable env fields).name = some name := isName
      by_cases accepted : AppStoreState.accepts
          (s.table ++ [s.createdRow env id ("app-".toList ++ uuid) name (filterEditable env fields) ownerUserId appOwner]) = true
      · right
        refine ⟨_, name, rfl, rfl, accepted, ?_⟩
        have read : { s with table := s.table ++
            [s.createdRow env id ("app-".toList ++ uuid) name (filterEditable env fields) ownerUserId appOwner] }.getByProperty env
              (.id id) = _ := getByProperty_inserted env kept (accepts_unique accepted)
        simp only [AppStoreState.create, isName', if_pos accepted, read]
        rfl
      · left
        simp only [AppStoreState.create, isName', if_neg accepted]

theorem createFromOrigin_eq (kept : RowsKept form s) (id : ℕ) (uid origin : Text) (ownerUserId : Option ℕ) :
    (s.createFromOrigin env id uid origin ownerUserId).1 = s ∨
      ∃ row : AppRecord μ, row = s.bootstrapRow env id uid origin ownerUserId ∧
        AppStoreState.accepts (s.table ++ [row]) = true ∧
        (s.createFromOrigin env id uid origin ownerUserId).1 =
          ({ s with table := s.table ++ [row] }.writeCache (normalizeAppRow env row)).invalidateListCachesForApps
            [some (normalizeAppRow env row)] := by
  by_cases valid : env.validUrl origin = true
  · by_cases accepted : AppStoreState.accepts (s.table ++ [s.bootstrapRow env id uid origin ownerUserId]) = true
    · right
      refine ⟨_, rfl, accepted, ?_⟩
      have read : { s with table := s.table ++ [s.bootstrapRow env id uid origin ownerUserId] }.getByProperty env
          (.id id) = _ := getByProperty_inserted env kept (accepts_unique accepted)
      simp only [AppStoreState.createFromOrigin, if_pos valid, if_pos accepted, read]
    · left
      simp only [AppStoreState.createFromOrigin, if_pos valid, if_neg accepted]
  · left
    simp only [AppStoreState.createFromOrigin, if_neg valid]

def updatedState (env : AppEnv μ) (s : AppStoreState μ) (row : AppRecord μ) (allowed : AppPatch μ) : AppStoreState μ :=
  { s with
    table := s.updatedTable row.id allowed
    oldNames := oldNamesAfter s row allowed
    rows := (s.rows.put (cacheKeysForApp (mergedRow env row allowed)) (mergedRow env row allowed)).drop
      ((renamedTo row allowed).map fun _ => AppKey.name row.name).toList
    lists := fun key =>
      if key.matchesApp (normalizeAppRow env row) || key.matchesApp (normalizeAppRow env (row.patched allowed)) then none
      else s.lists key }

theorem update_cases (env : AppEnv μ) (unique : UniqueApps s.table) (appId : ℕ) (patch : AppPatch μ) :
    (s.update env appId patch).1 = (s.getByProperty env (.id appId)).1 ∨ (s.update env appId patch).1 = s ∨
      ∃ row, s.select (.id appId) = some row ∧
        UniqueApps (s.updatedTable row.id (filterEditable env patch)) ∧
        (s.update env appId patch).1 = updatedState env s row (filterEditable env patch) := by
  generalize isAllowed : filterEditable env patch = allowed
  by_cases empty : allowed.isEmpty = true
  · left
    simp only [AppStoreState.update, isAllowed, if_pos empty]
  · right
    by_cases accepted : AppStoreState.accepts (s.updatedTable appId allowed) = true
    · cases selected : s.select (.id appId) with
      | none =>
          left
          have sameTable : s.updatedTable appId allowed = s.table := updatedTable_of_absent selected
          rw [sameTable] at accepted
          simp only [AppStoreState.update, isAllowed, if_neg empty, if_pos accepted, selected, Option.map_none,
            Option.bind_none, sameTable]
          simp [AppStoreState.invalidateListCachesForApps]
      | some row =>
          right
          obtain ⟨member, found⟩ := (select_eq_some unique).mp selected
          obtain rfl : row.id = appId := by simpa [AppRecord.matches] using found
          refine ⟨row, rfl, accepts_unique accepted, ?_⟩
          have fresh : ∀ t : AppStoreState μ, t.table = s.updatedTable row.id allowed →
              t.select (.id row.id) = some (row.patched allowed) := by
            intro t isTable
            rw [← isTable] at accepted
            apply (select_eq_some (accepts_unique accepted)).mpr
            rw [isTable, mem_updatedTable]
            exact ⟨.inr ⟨row, member, rfl, rfl⟩, by simp [AppRecord.matches, AppRecord.patched]⟩
          simp only [AppStoreState.update, isAllowed, if_neg empty, if_pos accepted, selected, Option.map_some,
            Option.bind_some]
          have renames : (allowed.name.bind fun name =>
              if name ≠ (normalizeAppRow env row).name then some (normalizeAppRow env row, name) else none) =
              (renamedTo row allowed).map fun name => (normalizeAppRow env row, name) := by
            rw [renamedTo]
            cases allowed.name with
            | none => rfl
            | some name => by_cases same : name = row.name <;> simp [normalizeAppRow, same]
          rw [renames]
          cases isName : renamedTo row allowed with
          | none =>
              simp only [Option.map_none]
              rw [fresh _ rfl]
              simp [updatedState, oldNamesAfter, isName, mergedRow, AppStoreState.invalidateListCachesForApps,
                AppStoreState.writeCache]
          | some name =>
              simp only [Option.map_some, renamed_state]
              rw [fresh _ rfl]
              simp [updatedState, oldNamesAfter, isName, mergedRow, AppStoreState.invalidateListCachesForApps,
                AppStoreState.writeCache, normalizeAppRow]
    · left
      simp only [AppStoreState.update, isAllowed, if_neg empty, if_neg accepted]

theorem RowsKept.updated (kept : RowsKept form s) (allowed : AppPatch μ) (member : row ∈ s.table)
    (unique : UniqueApps s.table) (forms : form (mergedRow env row allowed) (row.patched allowed)) :
    RowsKept form (updatedState env s row allowed) := by
  intro key cached held
  obtain ⟨notDropped, held⟩ := Cache.drop_some.mp held
  by_cases isNew : key ∈ cacheKeysForApp (mergedRow env row allowed)
  · rw [Cache.put_of_mem isNew] at held
    obtain rfl := Option.some.inj held
    refine ⟨⟨row.patched allowed, ?_, mergedRow_stands forms⟩, isNew⟩
    exact mem_updatedTable.mpr (.inr ⟨row, member, rfl, rfl⟩)
  · rw [Cache.put_of_notMem isNew] at held
    obtain ⟨⟨old, isOld, stands⟩, isKey⟩ := kept key cached held
    refine ⟨⟨old, mem_updatedTable.mpr (.inl ⟨isOld, fun same => ?_⟩), stands⟩, isKey⟩
    -- Of the keys of the row, its id and uid are the new row's too, and its name is so or is dropped.
    obtain rfl : old = row := List.inj_on_of_nodup_map unique.ids isOld member same
    rw [stands.keys, cacheKeysForApp] at isKey
    rw [cacheKeys_mergedRow] at isNew
    simp only [List.mem_cons, List.not_mem_nil, or_false, not_or] at isKey isNew
    rcases isKey with isId | isUid | isName
    · exact isNew.1 isId
    · exact isNew.2.1 isUid
    · apply notDropped
      cases given : allowed.name with
      | none =>
          rw [given] at isNew
          exact absurd isName isNew.2.2
      | some name =>
          rw [given] at isNew
          have renames : name ≠ old.name := fun same => isNew.2.2 (by rw [isName, ← same]; rfl)
          simp [renamedTo, given, renames, isName]

theorem delete_cases (kept : RowsKept form s) (unique : UniqueApps s.table) (appId : ℕ) :
    (s.delete env appId).1 = (s.getByProperty env (.id appId)).1 ∨
      ∃ row ∈ s.table, ∃ found, row.id = appId ∧ (StandsFor form found row ∨ found = row) ∧
        (s.delete env appId).1 =
          (((s.getByProperty env (.id appId)).1.deleteRow (normalizeAppRow env found)).invalidate
            (normalizeAppRow env found)) := by
  rcases getByProperty_cases env (s := s) (.id appId) with
    ⟨cached, held, isState⟩ | ⟨-, -, isState⟩ | ⟨-, row, member, isRead, isState⟩
  · right
    obtain ⟨⟨row, member, stands⟩, isKey⟩ := kept _ _ held
    rw [stands.keys, ← matches_iff_mem_cacheKeys] at isKey
    refine ⟨row, member, cached, by simpa [AppRecord.matches] using isKey, .inl stands, ?_⟩
    simp only [AppStoreState.delete, isState]
  · left
    simp only [AppStoreState.delete, isState]
  · right
    have isId : row.id = appId := readFromDb_id unique isRead
    refine ⟨row, member, row, isId, .inr rfl, ?_⟩
    simp only [AppStoreState.delete, isState]

theorem RowsKept.deleted (kept : RowsKept form s) (unique : UniqueApps s.table) (member : row ∈ s.table)
    {app : AppRecord μ} (isId : app.id = row.id) (isUid : app.uid = row.uid) (isName : app.name = row.name)
    (orphans : ∀ other ∈ s.table, other.appOwner = some row.id → other.id ≠ row.id →
      ∀ key ∈ cacheKeysForApp other, ∀ cached, s.rows key = some cached → form cached other →
        form cached { other with appOwner := none }) :
    RowsKept form ((s.deleteRow app).invalidate app) := by
  intro key cached held
  obtain ⟨notDropped, held⟩ := Cache.drop_some.mp held
  obtain ⟨⟨old, isOld, stands⟩, isKey⟩ := kept key cached held
  have others : old.id ≠ row.id := by
    intro same
    obtain rfl : old = row := List.inj_on_of_nodup_map unique.ids isOld member same
    apply notDropped
    rw [cacheKeysForApp, isId, isUid, isName]
    rw [stands.keys] at isKey
    exact isKey
  have stays : old ∈ s.table.filter (·.id ≠ app.id) := by
    rw [isId]
    exact List.mem_filter.mpr ⟨isOld, decide_eq_true others⟩
  refine ⟨⟨_, List.mem_map_of_mem stays, ?_⟩, isKey⟩
  split
  · next owned =>
      rw [isId] at owned
      exact ⟨stands.id, stands.uid, stands.name,
        orphans old isOld owned others key (stands.keys ▸ isKey) cached held stands.form⟩
  · exact stands

def claimedTable (s : AppStoreState μ) (appId userId : ℕ) : List (AppRecord μ) :=
  s.table.map fun row =>
    if row.id = appId ∧ row.ownerUserId = none then { row with ownerUserId := some userId } else row

omit [DecidableEq μ] in
theorem claimedTable_unique (unique : UniqueApps s.table) (appId userId : ℕ) :
    UniqueApps (claimedTable s appId userId) := by
  have keeps : ∀ {β : Type} (property : AppRecord μ → β),
      (∀ row : AppRecord μ, property { row with ownerUserId := some userId } = property row) →
        (claimedTable s appId userId).map property = s.table.map property := by
    intro β property same
    rw [claimedTable, List.map_map]
    apply List.map_congr_left
    intro row _
    simp only [Function.comp]
    split
    · exact same row
    · rfl
  exact ⟨keeps AppRecord.id (fun _ => rfl) ▸ unique.ids, keeps AppRecord.uid (fun _ => rfl) ▸ unique.uids,
    keeps AppRecord.name (fun _ => rfl) ▸ unique.names⟩

theorem claimOwnership_cases (kept : RowsKept form s) (unique : UniqueApps s.table) (appId userId : ℕ) :
    (s.claimOwnership env appId userId).1 = s ∨
      ∃ row ∈ s.table, row.id = appId ∧ row.ownerUserId = none ∧ appId ≠ 0 ∧ userId ≠ 0 ∧ ∃ fresh,
        (s.claimOwnership env appId userId).1 =
          { s with
            table := claimedTable s appId userId
            rows := s.rows.drop (cacheKeysForApp fresh)
            lists := (s.invalidateListCachesForApps [some fresh]).lists } ∧
        ((∃ cached, s.rows (.id appId) = some cached ∧ StandsFor form cached row ∧
            fresh = normalizeAppRow env cached) ∨
          s.rows (.id appId) = none ∧ fresh = normalizeAppRow env { row with ownerUserId := some userId }) := by
  by_cases zero : appId = 0 ∨ userId = 0
  · left
    rw [AppStoreState.claimOwnership, if_pos zero]
  by_cases unowned : (s.table.any fun row => row.id = appId ∧ row.ownerUserId = none) = true
  · right
    obtain ⟨row, member, isRow⟩ := List.any_eq_true.mp unowned
    obtain ⟨isId, noOwner⟩ := of_decide_eq_true isRow
    push Not at zero
    refine ⟨row, member, isId, noOwner, zero.1, zero.2, ?_⟩
    have notZero : ¬ (appId = 0 ∨ userId = 0) := by
      push Not
      exact zero
    rw [AppStoreState.claimOwnership, if_neg notZero, if_pos unowned]
    have written : (s.table.map fun row : AppRecord μ =>
        if row.id = appId ∧ row.ownerUserId = none then { row with ownerUserId := some userId } else row) =
          claimedTable s appId userId := rfl
    simp only [written]
    cases held : s.rows (.id appId) with
    | some cached =>
        obtain ⟨⟨old, isOld, stands⟩, isKey⟩ := kept _ _ held
        rw [stands.keys, ← matches_iff_mem_cacheKeys] at isKey
        have same : old = row := unique.eq isOld member isKey (by simpa [AppRecord.matches] using isId)
        rw [same] at stands
        refine ⟨normalizeAppRow env cached, ?_, .inl ⟨cached, rfl, stands, rfl⟩⟩
        simp [AppStoreState.getByProperty, AppStoreState.readCache, held, AppStoreState.invalidate,
          AppStoreState.invalidateListCachesForApps]
    | none =>
        have isWritten : { row with ownerUserId := some userId } ∈ claimedTable s appId userId :=
          List.mem_map.mpr ⟨row, member, if_pos ⟨isId, noOwner⟩⟩
        have selected : ({ s with table := claimedTable s appId userId } : AppStoreState μ).select (.id appId) =
            some { row with ownerUserId := some userId } :=
          (select_eq_some (claimedTable_unique unique appId userId)).mpr
            ⟨isWritten, by simpa [AppRecord.matches] using isId⟩
        refine ⟨normalizeAppRow env { row with ownerUserId := some userId }, ?_, .inr ⟨rfl, rfl⟩⟩
        simp [AppStoreState.getByProperty, AppStoreState.readCache, held, AppStoreState.readFromDb, selected,
          AppStoreState.invalidate, AppStoreState.invalidateListCachesForApps, AppStoreState.writeCache,
          Cache.drop_put]
  · left
    rw [AppStoreState.claimOwnership, if_neg zero, if_neg unowned]

omit [DecidableEq μ] in
theorem RowsKept.claimed (kept : RowsKept form s) (unique : UniqueApps s.table) (member : row ∈ s.table)
    {appId userId : ℕ} (isId : row.id = appId) {fresh : AppRecord μ}
    (keys : cacheKeysForApp fresh = cacheKeysForApp row) {t : AppStoreState μ}
    (isTable : t.table = claimedTable s appId userId) (rows : t.rows = s.rows.drop (cacheKeysForApp fresh)) :
    RowsKept form t := by
  intro key cached held
  rw [rows, keys] at held
  obtain ⟨notDropped, held⟩ := Cache.drop_some.mp held
  obtain ⟨⟨old, isOld, stands⟩, isKey⟩ := kept key cached held
  have differs : old.id ≠ appId := by
    intro sameId
    have same : old = row := List.inj_on_of_nodup_map unique.ids isOld member (sameId.trans isId.symm)
    rw [stands.keys, same] at isKey
    exact notDropped isKey
  rw [isTable]
  refine ⟨⟨old, List.mem_map.mpr ⟨old, isOld, if_neg fun both => differs both.1⟩, stands⟩, isKey⟩

end Writes

end Puter

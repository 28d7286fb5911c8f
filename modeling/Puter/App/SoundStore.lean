/-
Module: Puter.App.SoundStore
Purpose: What every call of the store of apps keeps: the rows have ids, uids and names of their own, and a cached row
  has the owner and the texts of its row. With it, what each call does to the uids that there are, and to the rows that
  it is not about.
Trusted boundary: none
Main exports: SameTexts, SameApp, StoreSound, StoreSound.found, StoreSound.finds, StoreSound.update,
  StoreSound.delete, StoreSound.create
-/
import Puter.App.RowCache

namespace Puter

open FanOutCache

variable {μ : Type}

/-- A cached row has the owner and the texts of the row. -/
structure SameTexts (cached row : AppRecord μ) : Prop where
  owner : cached.ownerUserId = row.ownerUserId
  texts : ∀ column, column.isBoolean = false → column ≠ .metadata → cached.columns column = row.columns column

/-- The rows have uids of their own, and what is cached are forms of them. -/
structure StoreSound (store : AppStoreState μ) : Prop where
  unique : UniqueApps store.table
  rows : RowsKept SameTexts store
  named : ∀ row ∈ store.table, row.uid ≠ []

/-- A row is another up to the app that owns it. -/
structure SameApp (row other : AppRecord μ) : Prop where
  id : row.id = other.id
  uid : row.uid = other.uid
  name : row.name = other.name
  owner : row.ownerUserId = other.ownerUserId
  columns : row.columns = other.columns
  createdAt : row.createdAt = other.createdAt

/-- The rows behind the deletion of one. -/
def remainingTable (table : List (AppRecord μ)) (appId : ℕ) : List (AppRecord μ) :=
  (table.filter (·.id ≠ appId)).map fun other =>
    if other.appOwner = some appId then { other with appOwner := none } else other

theorem mem_remainingTable {table : List (AppRecord μ)} {row : AppRecord μ} {appId : ℕ} (member : row ∈ table)
    (stays : row.id ≠ appId) : ∃ left ∈ remainingTable table appId, SameApp left row := by
  refine ⟨_, List.mem_map_of_mem (List.mem_filter.mpr ⟨member, by simpa using stays⟩), ?_⟩
  split <;> exact ⟨rfl, rfl, rfl, rfl, rfl, rfl⟩

theorem uids_remainingTable {table : List (AppRecord μ)} {row : AppRecord μ} (unique : UniqueApps table)
    (member : row ∈ table) :
    (remainingTable table row.id).map (·.uid) = (table.map (·.uid)).filter (· ≠ row.uid) := by
  rw [remainingTable, map_owners AppRecord.uid fun _ => rfl, List.filter_map]
  congr 1
  apply List.filter_congr
  intro other isOther
  simp only [Function.comp, decide_eq_decide, not_iff_not]
  constructor
  · intro same
    rw [List.inj_on_of_nodup_map unique.ids isOther member same]
  · intro same
    rw [List.inj_on_of_nodup_map unique.uids isOther member same]

theorem remainingTable_unique {table : List (AppRecord μ)} (unique : UniqueApps table) (appId : ℕ) :
    UniqueApps (remainingTable table appId) := by
  have part := List.filter_sublist (p := fun other : AppRecord μ => decide (other.id ≠ appId)) (l := table)
  refine ⟨?_, ?_, ?_⟩
  · rw [remainingTable, map_owners AppRecord.id fun _ => rfl]
    exact unique.ids.sublist (part.map _)
  · rw [remainingTable, map_owners AppRecord.uid fun _ => rfl]
    exact unique.uids.sublist (part.map _)
  · rw [remainingTable, map_owners AppRecord.name fun _ => rfl]
    exact unique.names.sublist (part.map _)

section Store

variable {env : AppEnv μ} {store : AppStoreState μ} {row app : AppRecord μ} {key : AppKey}

theorem normalizeColumn_text {column : AppColumn} {value : ColumnValue μ} (noFlag : column.isBoolean = false)
    (noMetadata : column ≠ .metadata) : normalizeColumn env column value = value := by
  unfold normalizeColumn
  rw [if_neg (by rw [noFlag]; exact Bool.false_ne_true)]
  cases column with
  | metadata => exact absurd rfl noMetadata
  | _ => rfl

theorem normalize_sameTexts (row : AppRecord μ) : SameTexts (normalizeAppRow env row) row :=
  ⟨rfl, fun _ noFlag noMetadata => normalizeColumn_text noFlag noMetadata⟩

theorem stands_normalize (stands : StandsFor SameTexts app row) :
    StandsFor SameTexts (normalizeAppRow env app) row := by
  refine ⟨stands.id, stands.uid, stands.name, stands.form.owner, fun column noFlag noMetadata => ?_⟩
  exact (normalizeColumn_text noFlag noMetadata).trans (stands.form.texts column noFlag noMetadata)

theorem StoreSound.same {other : AppStoreState μ} (sound : StoreSound store) (rows : other.rows = store.rows)
    (table : other.table = store.table) : StoreSound other := by
  refine ⟨?_, sound.rows.same rows table, ?_⟩
  · rw [table]
    exact sound.unique
  · rw [table]
    exact sound.named

theorem StoreSound.cached (sound : StoreSound store) (held : store.rows key = some app) :
    ∃ row ∈ store.table, StandsFor SameTexts app row ∧ row.matches key = true := by
  obtain ⟨⟨row, member, stands⟩, isKey⟩ := sound.rows _ _ held
  rw [stands.keys, ← matches_iff_mem_cacheKeys] at isKey
  exact ⟨row, member, stands, isKey⟩

theorem StoreSound.getByProperty (env : AppEnv μ) (sound : StoreSound store) (key : AppKey) :
    StoreSound (store.getByProperty env key).1 := by
  refine ⟨?_, sound.rows.getByProperty (fun row _ => normalize_sameTexts row) key, ?_⟩
  · rw [getByProperty_table]
    exact sound.unique
  · rw [getByProperty_table]
    exact sound.named

theorem StoreSound.found (sound : StoreSound store) (isFound : (store.getByProperty env key).2 = some app) :
    ∃ row ∈ store.table, StandsFor SameTexts app row ∧ ((∀ name, key ≠ .name name) → row.matches key = true) := by
  rcases getByProperty_cases env (s := store) key with
    ⟨cached, held, isState⟩ | ⟨-, -, isState⟩ | ⟨-, row, member, isRead, isState⟩
  · rw [isState] at isFound
    obtain rfl := Option.some.inj isFound
    obtain ⟨row, member, stands, isKey⟩ := sound.cached held
    exact ⟨row, member, stands_normalize stands, fun _ => isKey⟩
  · rw [isState] at isFound
    cases isFound
  · rw [isState] at isFound
    obtain rfl := Option.some.inj isFound
    by_cases notName : ∀ name, key ≠ .name name
    · rw [readFromDb_eq notName] at isRead
      obtain ⟨other, selected, same⟩ := Option.map_eq_some_iff.mp isRead
      obtain ⟨memberOther, isKey⟩ := (select_eq_some sound.unique).mp selected
      refine ⟨other, memberOther, ?_, fun _ => isKey⟩
      rw [← same]
      exact normalize_stands (normalize_sameTexts other)
    · exact ⟨row, member, normalize_stands (normalize_sameTexts row), fun isNo => absurd isNo notName⟩

theorem StoreSound.finds (env : AppEnv μ) (sound : StoreSound store) (notName : ∀ name, key ≠ .name name)
    (member : row ∈ store.table) (isKey : row.matches key = true) :
    ∃ app, (store.getByProperty env key).2 = some app ∧ StandsFor SameTexts app row := by
  cases isFound : (store.getByProperty env key).2 with
  | some app =>
      obtain ⟨other, memberOther, stands, isOther⟩ := sound.found isFound
      obtain rfl := sound.unique.eq memberOther member (isOther notName) isKey
      exact ⟨app, rfl, stands⟩
  | none =>
      exfalso
      rcases getByProperty_cases env (s := store) key with
        ⟨cached, -, isState⟩ | ⟨-, isRead, -⟩ | ⟨-, row, -, -, isState⟩
      · rw [isState] at isFound
        cases isFound
      · rw [readFromDb_eq notName, (select_eq_some sound.unique).mpr ⟨member, isKey⟩] at isRead
        cases isRead
      · rw [isState] at isFound
        cases isFound

theorem StoreSound.misses (env : AppEnv μ) (sound : StoreSound store) {uid : Text}
    (missing : uid ∉ store.table.map (·.uid)) : (store.getByProperty env (.uid uid)).2 = none := by
  cases isFound : (store.getByProperty env (.uid uid)).2 with
  | none => rfl
  | some app =>
      obtain ⟨row, member, -, isKey⟩ := sound.found isFound
      have isUid : row.uid = uid := by simpa [AppRecord.matches] using isKey (by simp)
      exact absurd (isUid ▸ List.mem_map_of_mem member) missing

variable [DecidableEq μ]

theorem StoreSound.update (sound : StoreSound store) (appId : ℕ) (patch : AppPatch μ) :
    StoreSound (store.update env appId patch).1 ∧
      (store.update env appId patch).1.table.map (·.uid) = store.table.map (·.uid) ∧
      ∀ row ∈ store.table, row.id ≠ appId → row ∈ (store.update env appId patch).1.table := by
  rcases update_cases env sound.unique appId patch with same | same | ⟨row, selected, unique, isState⟩
  · rw [same, getByProperty_table]
    exact ⟨sound.getByProperty env _, rfl, fun _ member _ => member⟩
  · rw [same]
    exact ⟨sound, rfl, fun _ member _ => member⟩
  · obtain ⟨member, isKey⟩ := (select_eq_some sound.unique).mp selected
    obtain rfl : row.id = appId := by simpa [AppRecord.matches] using isKey
    rw [isState]
    generalize filterEditable env patch = allowed at *
    refine ⟨⟨unique, ?_, ?_⟩, ?_, fun other isOther apart => mem_updatedTable.mpr (.inl ⟨isOther, apart⟩)⟩
    · apply sound.rows.updated allowed member sound.unique
      refine ⟨rfl, fun column noFlag noMetadata => ?_⟩
      simp only [mergedRow, AppRecord.patched, normalizeAppRow, normalizeColumn_text noFlag noMetadata]
      cases allowed.columns column <;> rfl
    · intro other isOther
      rcases mem_updatedTable.mp isOther with ⟨old, -⟩ | ⟨old, isOld, -, rfl⟩
      · exact sound.named other old
      · exact sound.named old isOld
    · simp only [updatedState, AppStoreState.updatedTable, List.map_map]
      apply List.map_congr_left
      intro other _
      simp only [Function.comp]
      split <;> rfl

theorem StoreSound.delete (env : AppEnv μ) (sound : StoreSound store) (appId : ℕ) :
    StoreSound (store.delete env appId).1 ∧ (store.delete env appId).1.table =
      if ∃ row ∈ store.table, row.id = appId then remainingTable store.table appId else store.table := by
  have looked := sound.getByProperty env (.id appId)
  have table := getByProperty_table env store (.id appId)
  generalize isState : store.getByProperty env (.id appId) = answer at looked table
  obtain ⟨after, answered⟩ := answer
  dsimp only at looked table
  cases answered with
  | none =>
      have missing : ¬ ∃ row ∈ store.table, row.id = appId := by
        rintro ⟨row, member, rfl⟩
        have isKey : row.matches (.id row.id) = true := by simp [AppRecord.matches]
        obtain ⟨app, found, -⟩ := sound.finds env (by simp) member isKey
        rw [isState] at found
        cases found
      have deletes : (store.delete env appId).1 = after := by simp only [AppStoreState.delete, isState]
      rw [deletes, if_neg missing]
      exact ⟨looked, table⟩
  | some app =>
      have isFound : (store.getByProperty env (.id appId)).2 = some app := by rw [isState]
      obtain ⟨row, member, stands, isKey⟩ := sound.found isFound
      obtain rfl : row.id = appId := by simpa [AppRecord.matches] using isKey (by simp)
      have deletes : (store.delete env row.id).1 = (after.deleteRow app).invalidate app := by
        simp only [AppStoreState.delete, isState]
      have left : ((after.deleteRow app).invalidate app).table = remainingTable store.table row.id := by
        simp only [AppStoreState.invalidate, AppStoreState.invalidateListCachesForApps, AppStoreState.deleteRow,
          stands.id, table, remainingTable]
      have isRow := member
      rw [← table] at isRow
      have kept : RowsKept SameTexts ((after.deleteRow app).invalidate app) := by
        apply looked.rows.deleted looked.unique isRow stands.id stands.uid stands.name
        intro other _ _ _ _ _ cached _ same
        exact ⟨same.owner, same.texts⟩
      rw [deletes, if_pos ⟨row, member, rfl⟩]
      refine ⟨⟨?_, kept, ?_⟩, left⟩
      · rw [left]
        exact remainingTable_unique sound.unique row.id
      · intro other isOther
        rw [left] at isOther
        obtain ⟨old, isOld, rfl⟩ := List.mem_map.mp isOther
        have named := sound.named old (List.mem_of_mem_filter isOld)
        split <;> exact named

theorem StoreSound.create (env : AppEnv μ) (sound : StoreSound store) (id : ℕ) (uuid : Text) (fields : AppPatch μ)
    (ownerUserId : ℕ) (appOwner : Option ℕ) :
    StoreSound (store.create env id uuid fields ownerUserId appOwner).1 ∧
      ((store.create env id uuid fields ownerUserId appOwner).1.table = store.table ∨ ∃ row,
        row.uid = "app-".toList ++ uuid ∧
          (store.create env id uuid fields ownerUserId appOwner).1.table = store.table ++ [row]) := by
  have written : store.create env id uuid fields ownerUserId appOwner = (store, none) ∨ _ :=
    create_eq sound.rows id uuid fields ownerUserId appOwner
  rcases written with same | ⟨row, name, -, isRow, accepted, isState⟩
  · rw [same]
    exact ⟨sound, .inl rfl⟩
  · have isTable : (store.create env id uuid fields ownerUserId appOwner).1.table = store.table ++ [row] := by
      rw [isState, clearOldAppNamesForName_state]
      rfl
    have isUid : row.uid = "app-".toList ++ uuid := by rw [isRow]; rfl
    refine ⟨⟨?_, ?_, ?_⟩, ?_⟩
    · rw [isTable]
      exact accepts_unique accepted
    · have forms : SameTexts (normalizeAppRow env row) row := normalize_sameTexts row
      apply (sound.rows.inserted row forms).same
      · rw [isState, clearOldAppNamesForName_state]
        rfl
      · rw [isState, clearOldAppNamesForName_state]
        rfl
    · rw [isTable]
      intro other isOther
      rcases List.mem_append.mp isOther with old | new
      · exact sound.named other old
      · rw [List.mem_singleton.mp new, isUid]
        simp
    · exact .inr ⟨row, isUid, isTable⟩

theorem StoreSound.claimOwnership (sound : StoreSound store) (appId userId : ℕ) :
    StoreSound (store.claimOwnership env appId userId).1 ∧
      (store.claimOwnership env appId userId).1.table.map (·.uid) = store.table.map (·.uid) ∧
      ∀ row ∈ store.table, row.ownerUserId ≠ none → row ∈ (store.claimOwnership env appId userId).1.table := by
  have claimed : (store.claimOwnership env appId userId).1 = store ∨ _ :=
    claimOwnership_cases sound.rows sound.unique appId userId
  rcases claimed with
    same | ⟨row, member, isId, -, -, -, fresh, isState, isFresh⟩
  · rw [same]
    exact ⟨sound, rfl, fun _ member _ => member⟩
  · have keys : cacheKeysForApp fresh = cacheKeysForApp row := by
      rcases isFresh with ⟨cached, -, stands, rfl⟩ | ⟨-, rfl⟩
      · exact stands.keys
      · rfl
    have isTable : (store.claimOwnership env appId userId).1.table = claimedTable store appId userId := by
      rw [isState]
    have sameUids : (claimedTable store appId userId).map (·.uid) = store.table.map (·.uid) := by
      rw [claimedTable, List.map_map]
      apply List.map_congr_left
      intro other _
      simp only [Function.comp]
      split <;> rfl
    rw [isTable]
    refine ⟨⟨?_, ?_, ?_⟩, sameUids, fun other isOther owned => ?_⟩
    · rw [isTable]
      exact claimedTable_unique sound.unique appId userId
    · exact sound.rows.claimed sound.unique member isId keys isTable (by rw [isState])
    · rw [isTable]
      intro other isOther
      obtain ⟨old, isOld, rfl⟩ := List.mem_map.mp isOther
      have named := sound.named old isOld
      split <;> exact named
    · exact List.mem_map.mpr ⟨other, isOther, if_neg fun unowned => owned unowned.2⟩

end Store

end Puter

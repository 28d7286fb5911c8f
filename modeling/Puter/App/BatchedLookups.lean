/-
Module: Puter.App.BatchedLookups
Purpose: Batched lookups of apps against single ones. A single lookup normalises what it takes out of the cache and a
  batched one does not, so they agree as long as the rows are normal that the writers put there: those of lookups are
  where metadata does not read as JSON a second time, and the one of an update is where its patch is.
Trusted boundary: none
Main exports: Settled, batched_lookups_agree
-/
import Puter.App.RowCache

namespace Puter

open FanOutCache AppStoreState

variable {μ : Type} {env : AppEnv μ} {s : AppStoreState μ} {row app : AppRecord μ} {key : AppKey}

def Settled (env : AppEnv μ) (row : AppRecord μ) : Prop :=
  normalizeAppRow env (normalizeAppRow env row) = normalizeAppRow env row

/-- Batched lookups answer for each key that is asked for what a single lookup answers, and nothing else; and single
    lookups answer nothing for keys without a row. -/
structure LookupsAgree (env : AppEnv μ) (s : AppStoreState μ) : Prop where
  ids : ∀ ids key row, (key, row) ∈ (s.getByIds env ids).2 ↔
    key ∈ ids.map AppKey.id ∧ (s.getByProperty env key).2 = some row
  uids : ∀ uids key row, (key, row) ∈ (s.getByUids env uids).2 ↔
    key ∈ uids.map AppKey.uid ∧ (s.getByProperty env key).2 = some row
  noId : ∀ id, s.select (.id id) = none → (s.getByProperty env (.id id)).2 = none
  noUid : ∀ uid, s.select (.uid uid) = none → (s.getByProperty env (.uid uid)).2 = none

/-- The cache holds the normal form of the current rows, and normalising that again changes nothing. -/
structure LookupsKept (env : AppEnv μ) (s : AppStoreState μ) : Prop where
  unique : UniqueApps s.table
  settled : ∀ row ∈ s.table, Settled env row
  rows : RowsKept (fun cached row => cached = normalizeAppRow env row) s

section Chunks

variable {keyOf : AppRecord μ → AppKey}

theorem mem_selectMany {keys : List AppKey} :
    row ∈ s.selectMany keys ↔ row ∈ s.table ∧ ∃ key ∈ keys, row.matches key = true := by
  simp [selectMany]

theorem foldl_writeCache_state (apps : List (AppRecord μ)) (s : AppStoreState μ) :
    apps.foldl writeCache s = { s with rows := (apps.foldl writeCache s).rows } := by
  induction apps generalizing s with
  | nil => rfl
  | cons app apps ih =>
      rw [List.foldl_cons, ih]
      rfl

theorem foldl_writeCache_table (apps : List (AppRecord μ)) (s : AppStoreState μ) :
    (apps.foldl writeCache s).table = s.table := by
  rw [foldl_writeCache_state]

theorem mem_chunkApps {keys : List AppKey} :
    (key, app) ∈ (((s.selectMany keys).map (normalizeAppRow env)).map fun app => (keyOf app, app)) ↔
      ∃ row ∈ s.table, (∃ asked ∈ keys, row.matches asked = true) ∧ app = normalizeAppRow env row ∧
        key = keyOf app := by
  constructor
  · intro member
    obtain ⟨_, isApp, isEntry⟩ := List.mem_map.mp member
    obtain ⟨row, isRow, rfl⟩ := List.mem_map.mp isApp
    obtain ⟨rfl, rfl⟩ := Prod.mk.inj isEntry
    obtain ⟨inTable, asked⟩ := mem_selectMany.mp isRow
    exact ⟨row, inTable, asked, rfl, rfl⟩
  · rintro ⟨row, inTable, asked, rfl, rfl⟩
    exact List.mem_map_of_mem (List.mem_map_of_mem (mem_selectMany.mpr ⟨inTable, asked⟩))

theorem mem_readChunks (rounds : ℕ) {s : AppStoreState μ} {missing : List AppKey}
    {result : List (AppKey × AppRecord μ)} (enough : missing.length ≤ rounds) :
    (key, app) ∈ (readChunks env keyOf rounds s missing result).2 ↔
      (key, app) ∈ result ∨ ∃ row ∈ s.table, (∃ asked ∈ missing, row.matches asked = true) ∧
        app = normalizeAppRow env row ∧ key = keyOf app := by
  induction rounds generalizing s missing result with
  | zero =>
      obtain rfl := List.length_eq_zero_iff.mp (Nat.le_zero.mp enough)
      simp [readChunks]
  | succ rounds ih =>
      rw [readChunks]
      split
      · next done =>
          rw [done]
          simp
      · next left =>
          have some_left := List.length_pos_iff.mpr left
          have shorter : (missing.drop bulkQueryChunkSize).length ≤ rounds := by
            rw [List.length_drop, bulkQueryChunkSize]
            omega
          have asked : ∀ row : AppRecord μ, (∃ key ∈ missing, row.matches key = true) ↔
              (∃ key ∈ missing.take bulkQueryChunkSize, row.matches key = true) ∨
                ∃ key ∈ missing.drop bulkQueryChunkSize, row.matches key = true := by
            intro row
            nth_rewrite 1 [← List.take_append_drop bulkQueryChunkSize missing]
            simp only [List.mem_append, or_and_right, exists_or]
          rw [ih shorter, foldl_writeCache_table, List.mem_append, mem_chunkApps, or_assoc]
          simp only [asked, or_and_right, and_or_left, exists_or]

theorem readChunks_state (rounds : ℕ) (s : AppStoreState μ) (missing : List AppKey)
    (result : List (AppKey × AppRecord μ)) :
    (readChunks env keyOf rounds s missing result).1 =
      { s with rows := (readChunks env keyOf rounds s missing result).1.rows } := by
  induction rounds generalizing s missing result with
  | zero => rfl
  | succ rounds ih =>
      rw [readChunks]
      split
      · rfl
      · simp only
        rw [ih, foldl_writeCache_state]

theorem RowsKept.foldl_writeCache {form : AppRecord μ → AppRecord μ → Prop} {apps : List (AppRecord μ)}
    (kept : RowsKept form s) (stands : ∀ app ∈ apps, ∃ row ∈ s.table, StandsFor form app row) :
    RowsKept form (apps.foldl writeCache s) := by
  induction apps generalizing s with
  | nil => exact kept
  | cons app apps ih =>
      have written : RowsKept form (s.writeCache app) := Cache.Faithful.put kept (stands app List.mem_cons_self)
      exact ih written fun other member => stands other (List.mem_cons_of_mem _ member)

theorem RowsKept.readChunks {form : AppRecord μ → AppRecord μ → Prop} (kept : RowsKept form s)
    (keyOf : AppRecord μ → AppKey) (forms : ∀ row ∈ s.table, form (normalizeAppRow env row) row) (rounds : ℕ) (missing : List AppKey)
    (result : List (AppKey × AppRecord μ)) :
    (readChunks env keyOf rounds s missing result).1.table = s.table ∧
      RowsKept form (readChunks env keyOf rounds s missing result).1 := by
  induction rounds generalizing s missing result with
  | zero => exact ⟨rfl, kept⟩
  | succ rounds ih =>
      rw [AppStoreState.readChunks]
      split
      · exact ⟨rfl, kept⟩
      · have sameTable := foldl_writeCache_table
          ((s.selectMany (missing.take bulkQueryChunkSize)).map (normalizeAppRow env)) s
        have written : RowsKept form
            (((s.selectMany (missing.take bulkQueryChunkSize)).map (normalizeAppRow env)).foldl writeCache s) := by
          apply kept.foldl_writeCache
          intro app member
          obtain ⟨row, isRow, rfl⟩ := List.mem_map.mp member
          have inTable := (mem_selectMany.mp isRow).1
          exact ⟨row, inTable, normalize_stands (forms row inTable)⟩
        have onward := ih written (by rw [sameTable]; exact forms)
          (missing.drop bulkQueryChunkSize)
          (result ++ ((s.selectMany (missing.take bulkQueryChunkSize)).map (normalizeAppRow env)).map
            fun app => (keyOf app, app))
        exact ⟨onward.1.trans sameTable, onward.2⟩

end Chunks

section Lookups

variable {keyOf : AppRecord μ → AppKey}

theorem LookupsKept.cached_eq (kept : LookupsKept env s) (held : s.rows key = some app) :
    ∃ row ∈ s.table, row.matches key = true ∧ app = normalizeAppRow env row := by
  obtain ⟨⟨row, member, stands⟩, isKey⟩ := kept.rows _ _ held
  rw [stands.keys, ← matches_iff_mem_cacheKeys] at isKey
  exact ⟨row, member, isKey, stands.form⟩

theorem LookupsKept.getByProperty_eq (kept : LookupsKept env s) (notName : ∀ name, key ≠ .name name) :
    (s.getByProperty env key).2 = (s.select key).map (normalizeAppRow env) := by
  have readRow : (s.readFromDb env key).2 = (s.select key).map (normalizeAppRow env) := readFromDb_eq notName
  rcases getByProperty_cases env (s := s) key with
    ⟨cached, held, isState⟩ | ⟨-, isRead, isState⟩ | ⟨-, row, -, isRead, isState⟩
  · obtain ⟨row, member, found, rfl⟩ := kept.cached_eq held
    rw [isState, (select_eq_some kept.unique).mpr ⟨member, found⟩, Option.map_some]
    exact congrArg some (kept.settled row member)
  · rw [isState, ← readRow, isRead]
  · rw [isState, ← readRow, isRead]

theorem LookupsKept.mem_getManyByProperty (kept : LookupsKept env s) {keys : List AppKey}
    (isKeyOf : ∀ key ∈ keys, ∀ row : AppRecord μ, row.matches key = true ↔ keyOf row = key)
    (keyOf_normalize : ∀ row, keyOf (normalizeAppRow env row) = keyOf row) :
    (key, app) ∈ (s.getManyByProperty env keyOf keys).2 ↔
      key ∈ keys ∧ (s.select key).map (normalizeAppRow env) = some app := by
  have selects : (s.select key).map (normalizeAppRow env) = some app ↔
      ∃ row ∈ s.table, row.matches key = true ∧ app = normalizeAppRow env row := by
    rw [Option.map_eq_some_iff]
    constructor
    · rintro ⟨row, selected, rfl⟩
      obtain ⟨member, found⟩ := (select_eq_some kept.unique).mp selected
      exact ⟨row, member, found, rfl⟩
    · rintro ⟨row, member, found, rfl⟩
      exact ⟨row, (select_eq_some kept.unique).mpr ⟨member, found⟩, rfl⟩
  rw [AppStoreState.getManyByProperty, mem_readChunks _ le_rfl, selects]
  constructor
  · rintro (isCached | ⟨row, member, ⟨asked, isMissing, found⟩, rfl, rfl⟩)
    · obtain ⟨asked, isAsked, isEntry⟩ := List.mem_filterMap.mp isCached
      obtain ⟨cached, held, isPair⟩ := Option.map_eq_some_iff.mp isEntry
      obtain ⟨rfl, rfl⟩ := Prod.mk.inj isPair
      exact ⟨List.mem_eraseDups.mp isAsked, kept.cached_eq held⟩
    · have isAsked := List.mem_eraseDups.mp (List.mem_filter.mp isMissing).1
      have isKey := (isKeyOf asked isAsked row).mp found
      rw [keyOf_normalize, isKey]
      exact ⟨isAsked, row, member, found, rfl⟩
  · rintro ⟨isAsked, row, member, found, rfl⟩
    have isKey := (isKeyOf key isAsked row).mp found
    cases held : s.rows key with
    | some cached =>
        left
        obtain ⟨other, memberOther, foundOther, rfl⟩ := kept.cached_eq held
        rw [kept.unique.eq member memberOther found foundOther]
        exact List.mem_filterMap.mpr ⟨key, List.mem_eraseDups.mpr isAsked, by rw [held]; rfl⟩
    | none =>
        right
        refine ⟨row, member, ⟨key, List.mem_filter.mpr ⟨List.mem_eraseDups.mpr isAsked, ?_⟩, found⟩, rfl, ?_⟩
        · rw [held]
          rfl
        · rw [keyOf_normalize, isKey]

theorem LookupsKept.mem_getManyByProperty_iff (kept : LookupsKept env s) {keys : List AppKey}
    (isKeyOf : ∀ key ∈ keys, ∀ row : AppRecord μ, row.matches key = true ↔ keyOf row = key)
    (keyOf_normalize : ∀ row, keyOf (normalizeAppRow env row) = keyOf row)
    (notName : ∀ key ∈ keys, ∀ name, key ≠ .name name) :
    (key, app) ∈ (s.getManyByProperty env keyOf keys).2 ↔
      key ∈ keys ∧ (s.getByProperty env key).2 = some app := by
  rw [kept.mem_getManyByProperty isKeyOf keyOf_normalize]
  apply and_congr_right
  intro isAsked
  rw [kept.getByProperty_eq (notName key isAsked)]

theorem LookupsKept.agree (kept : LookupsKept env s) : LookupsAgree env s where
  ids := by
    intro ids key row
    apply kept.mem_getManyByProperty_iff
    · intro key isAsked row
      obtain ⟨id, -, rfl⟩ := List.mem_map.mp isAsked
      simp [AppRecord.matches]
    · exact fun _ => rfl
    · intro key isAsked name isName
      obtain ⟨id, -, rfl⟩ := List.mem_map.mp isAsked
      cases isName
  uids := by
    intro uids key row
    apply kept.mem_getManyByProperty_iff
    · intro key isAsked row
      obtain ⟨uid, -, rfl⟩ := List.mem_map.mp isAsked
      simp [AppRecord.matches]
    · exact fun _ => rfl
    · intro key isAsked name isName
      obtain ⟨uid, -, rfl⟩ := List.mem_map.mp isAsked
      cases isName
  noId := by
    intro id absent
    rw [kept.getByProperty_eq (by simp), absent]
    rfl
  noUid := by
    intro uid absent
    rw [kept.getByProperty_eq (by simp), absent]
    rfl

end Lookups

section Calls

def NormalColumn (env : AppEnv μ) (column : AppColumn) (value : ColumnValue μ) : Prop :=
  normalizeColumn env column value = value

def ReadsAgain (env : AppEnv μ) (allowed : AppPatch μ) : Prop :=
  ∀ column value, allowed.columns column = some value → NormalColumn env column (normalizeColumn env column value)

/-- What is asked of the calls: the columns of a new app are normal once they are read, and those of a patch are so
    as they are given, if there is an app to patch. The other calls of the store are no part of this. -/
def KeepsLookups (env : AppEnv μ) (s : AppStoreState μ) : AppCall μ → Prop
  | .lookup _ | .getByIds _ | .getByUids _ | .expire _ | .elapse _ => True
  | .create _ _ fields _ _ =>
      ∀ column value, (filterEditable env fields).columns column = some value →
        NormalColumn env column (normalizeColumn env column value)
  | .update appId patch =>
      ∀ row, s.select (.id appId) = some row → ∀ column value,
        (filterEditable env patch).columns column = some value → NormalColumn env column value
  | _ => False

theorem settled_iff : Settled env row ↔
    ∀ column, NormalColumn env column (normalizeColumn env column (row.columns column)) := by
  constructor
  · intro settled column
    exact congrFun (congrArg AppRecord.columns settled) column
  · intro normal
    have columns : (normalizeAppRow env (normalizeAppRow env row)).columns = (normalizeAppRow env row).columns :=
      funext normal
    have again : normalizeAppRow env (normalizeAppRow env row) =
        { normalizeAppRow env row with columns := (normalizeAppRow env (normalizeAppRow env row)).columns } := rfl
    rw [Settled, again, columns]

theorem created_settled {fields : AppPatch μ} (id : ℕ) (uid name : Text) (ownerUserId : ℕ) (appOwner : Option ℕ)
    (normal : ∀ column value, (filterEditable env fields).columns column = some value →
      NormalColumn env column (normalizeColumn env column value)) :
    Settled env (s.createdRow env id uid name (filterEditable env fields) ownerUserId appOwner) := by
  apply settled_iff.mpr
  intro column
  simp only [createdRow]
  cases given : (filterEditable env fields).columns column with
  | some value => exact normal column value given
  | none => cases column <;> rfl

theorem patched_settled {allowed : AppPatch μ} (settled : Settled env row) (again : ReadsAgain env allowed) :
    Settled env (row.patched allowed) := by
  apply settled_iff.mpr
  intro column
  simp only [AppRecord.patched]
  cases given : allowed.columns column with
  | some value => exact again column value given
  | none => exact settled_iff.mp settled column

theorem merged_normal {allowed : AppPatch μ} (settled : Settled env row)
    (normal : ∀ column value, allowed.columns column = some value → NormalColumn env column value) :
    Settled env (row.patched allowed) ∧ mergedRow env row allowed = normalizeAppRow env (row.patched allowed) := by
  constructor
  · apply settled_iff.mpr
    intro column
    simp only [AppRecord.patched]
    cases given : allowed.columns column with
    | some value =>
        have isNormal : normalizeColumn env column value = value := normal column value given
        rw [Option.getD_some, isNormal]
        exact isNormal
    | none => exact settled_iff.mp settled column
  · have columns : (mergedRow env row allowed).columns = (normalizeAppRow env (row.patched allowed)).columns := by
      funext column
      simp only [mergedRow, AppRecord.patched, normalizeAppRow]
      cases given : allowed.columns column with
      | some value => exact (normal column value given).symm
      | none => rfl
    have isName : (mergedRow env row allowed).name = (normalizeAppRow env (row.patched allowed)).name := by
      simp only [mergedRow, AppRecord.patched, normalizeAppRow]
      cases allowed.name <;> rfl
    have parts : mergedRow env row allowed =
        { normalizeAppRow env (row.patched allowed) with
          name := (mergedRow env row allowed).name
          columns := (mergedRow env row allowed).columns } := rfl
    rw [parts, columns, isName]

theorem LookupsKept.same {t : AppStoreState μ} (kept : LookupsKept env s) (sameTable : t.table = s.table)
    (rows : RowsKept (fun cached row => cached = normalizeAppRow env row) t) : LookupsKept env t where
  unique := by
    rw [sameTable]
    exact kept.unique
  settled := by
    rw [sameTable]
    exact kept.settled
  rows := rows

theorem LookupsKept.getByProperty (kept : LookupsKept env s) (key : AppKey) :
    LookupsKept env (s.getByProperty env key).1 :=
  kept.same (getByProperty_table env s key) (kept.rows.getByProperty (fun _ _ => rfl) key)

theorem LookupsKept.getManyByProperty (kept : LookupsKept env s) (keyOf : AppRecord μ → AppKey) (keys : List AppKey) :
    LookupsKept env (s.getManyByProperty env keyOf keys).1 := by
  have chunks := kept.rows.readChunks keyOf fun row _ => (rfl : normalizeAppRow env row = normalizeAppRow env row)
  exact kept.same (chunks _ _ _).1 (chunks _ _ _).2

variable [DecidableEq μ]

theorem perform_keepsLookups (call : AppCall μ) (kept : LookupsKept env s) (meets : KeepsLookups env s call) :
    LookupsKept env (s.perform env call) := by
  cases call with
  | lookup key => exact kept.getByProperty key
  | getByIds ids => exact kept.getManyByProperty _ _
  | getByUids uids => exact kept.getManyByProperty _ _
  | expire keys => exact kept.same rfl (kept.rows.drop_same keys)
  | elapse time => exact kept.same rfl kept.rows
  | create id uuid fields ownerUserId appOwner =>
      rw [perform]
      rcases create_eq kept.rows id uuid fields ownerUserId appOwner with
        isState | ⟨row, name, -, isRow, accepted, isState⟩
      · rw [isState]
        exact kept
      · have settled : Settled env row := by
          rw [isRow]
          exact created_settled _ _ _ _ _ meets
        rw [isState, clearOldAppNamesForName_state]
        exact {
          unique := accepts_unique accepted
          settled := fun other member => by
            rcases List.mem_append.mp member with isOld | isNew
            · exact kept.settled other isOld
            · rw [List.mem_singleton.mp isNew]
              exact settled
          rows := (kept.rows.inserted row rfl).same rfl rfl }
  | update appId patch =>
      rw [perform]
      rcases update_cases env kept.unique appId patch with isState | isState | ⟨row, selected, unique, isState⟩
      · rw [isState]
        exact kept.getByProperty _
      · rw [isState]
        exact kept
      · have member := ((select_eq_some kept.unique).mp selected).1
        obtain ⟨settled, merged⟩ := merged_normal (kept.settled row member) (meets row selected)
        rw [isState]
        exact {
          unique := unique
          settled := fun other isOther => by
            rcases mem_updatedTable.mp isOther with ⟨isOld, -⟩ | ⟨old, isOld, sameId, rfl⟩
            · exact kept.settled other isOld
            · rw [List.inj_on_of_nodup_map kept.unique.ids isOld member sameId]
              exact settled
          rows := kept.rows.updated _ member kept.unique merged }
  | createFromOrigin => cases meets
  | delete => cases meets
  | claimOwnership => cases meets
  | list => cases meets
  | getAppsByFiletype => cases meets
  | setFiletypeAssociations => cases meets

/-- In a run of such calls, batched and single lookups agree throughout. -/
theorem batched_lookups_agree (env : AppEnv μ) (s : AppStoreState μ) (cold : s.rows = fun _ => none)
    (unique : UniqueApps s.table) (settled : ∀ row ∈ s.table, Settled env row) (calls : List (AppCall μ))
    (meets : EachMeets env (KeepsLookups env) s calls) : LookupsAgree env (s.run env calls) := by
  have kept : LookupsKept env s := by
    refine ⟨unique, settled, ?_⟩
    rw [RowsKept, cold]
    exact Cache.Faithful.empty
  exact (run_keeps (fun _ call kept meets => perform_keepsLookups call kept meets) kept meets).agree

end Calls

section Examples

/-- A store over SQLite: booleans are kept as numbers. Only the text `{}` reads as JSON. -/
def sqliteApps : AppEnv ℕ where
  parse text := if text = ['\x7b', '\x7d'] then some (.object 0) else none
  lower text := text
  validUrl _ := true
  booleanValue b := .number (if b then 1 else 0)
  stamp time := .number time
  oldNameLifetime := 90

def noApps : AppStoreState ℕ := ⟨[], [], [], fun _ => none, fun _ => none, fun _ => none, 0⟩

def titledApp (name : String) : AppPatch ℕ where
  name := some name.toList
  columns column :=
    match column with
    | .title => some (.text name.toList)
    | .indexUrl => some (.text "https://example.com".toList)
    | .metadata => some (.text ['\x7b', '\x7d'])
    | _ => none

def onlyColumn (column : AppColumn) (value : ColumnValue ℕ) : AppPatch ℕ :=
  ⟨none, fun other => if other = column then some value else none⟩

theorem titledApp_readsAgain (name : String) : ReadsAgain sqliteApps (filterEditable sqliteApps (titledApp name)) := by
  intro column value given
  cases column with
  | title => cases given; rfl
  | indexUrl => cases given; rfl
  | metadata => cases given; rfl
  | _ => cases given

theorem batched_lookups_agree_title :
    LookupsAgree sqliteApps (noApps.run sqliteApps [.create 1 "1".toList (titledApp "editor") 7 none,
      .getByIds [1, 2], .update 1 (onlyColumn .title (.text "Editor".toList))]) := by
  apply batched_lookups_agree sqliteApps noApps rfl ⟨by simp [noApps], by simp [noApps], by simp [noApps]⟩
  · simp [noApps]
  · have created : ∀ column ∈ AppColumn.all,
        ∀ value ∈ ((filterEditable sqliteApps (titledApp "editor")).columns column).toList,
          normalizeColumn sqliteApps column (normalizeColumn sqliteApps column value) =
            normalizeColumn sqliteApps column value := by decide +kernel
    have patched : ∀ column ∈ AppColumn.all,
        ∀ value ∈ ((filterEditable sqliteApps (onlyColumn .title (.text "Editor".toList))).columns column).toList,
          normalizeColumn sqliteApps column value = value := by decide +kernel
    refine ⟨?_, trivial, ?_, trivial⟩
    · intro column value given
      exact created column (AppColumn.mem_all column) value (Option.mem_toList.mpr given)
    · intro row _ column value given
      exact patched column (AppColumn.mem_all column) value (Option.mem_toList.mpr given)

/-- After an update of a flag a batched lookup answers the number that was written, and a single one a boolean. -/
theorem batch_answers_number :
    ¬ LookupsAgree sqliteApps (noApps.run sqliteApps [.create 1 "1".toList (titledApp "editor") 7 none,
      .update 1 (onlyColumn .background (.bool true))]) := by
  intro agree
  generalize isState : noApps.run sqliteApps [.create 1 "1".toList (titledApp "editor") 7 none,
    .update 1 (onlyColumn .background (.bool true))] = s at agree
  have batched : (s.getByIds sqliteApps [1]).2.map (fun entry => entry.2.columns .background) = [.number 1] := by
    rw [← isState]
    decide +kernel
  have single : (s.getByProperty sqliteApps (.id 1)).2.map (fun app => app.columns .background) =
      some (.bool true) := by
    rw [← isState]
    decide +kernel
  obtain ⟨app, found, isTrue⟩ := Option.map_eq_some_iff.mp single
  have member := List.mem_map_of_mem (f := fun entry : AppKey × AppRecord ℕ => entry.2.columns .background)
    ((agree.ids [1] (.id 1) app).mpr ⟨by simp, found⟩)
  rw [batched, List.mem_singleton] at member
  rw [isTrue] at member
  cases member

end Examples

end Puter

/-
Module: Puter.App.AppStore
Purpose: The `apps` table with its redirects from old names and its filetype associations, and the caches in front of
  it (stores/app/AppStore.js): rows by id, uid and name, pages of `list`, and lists by filetype.
Trusted boundary: texts are compared character by character, columns keep what is written to them, and JSON keeps the
  values of rows; `JSON.parse`, `toLowerCase` and the boolean form of the database are parameters
Main exports: ColumnValue, AppCall
-/
import Puter.Fs.PosixPath
import Puter.Library.FanOutCache
import Puter.Permission.PermissionRules

namespace Puter

open PosixPath FanOutCache

/-- A value of a column, over the JSON objects that metadata can be. -/
inductive ColumnValue (μ : Type) where
  | null
  | bool (b : Bool)
  | number (n : ℤ)
  | text (t : Text)
  | object (o : μ)
deriving DecidableEq, Repr

/-- `Boolean(value)` -/
def ColumnValue.truthy {μ : Type} : ColumnValue μ → Bool
  | null => false
  | bool b => b
  | number n => n ≠ 0
  | text t => t ≠ []
  | object _ => true

/-- The columns of `apps` besides the keys of an app and its owners. -/
inductive AppColumn where
  | icon
  | title
  | description
  | indexUrl
  | tags
  | timestamp
  | lastReview
  | metadata
  | godmode
  | maximizeOnStart
  | background
  | approvedForListing
  | approvedForOpeningItems
  | approvedForIncentiveProgram
  | isProtected
  | isPrivate
  | feedbackEnabled
deriving DecidableEq, Repr

namespace AppColumn

def all : List AppColumn :=
  [icon, title, description, indexUrl, tags, timestamp, lastReview, metadata, godmode, maximizeOnStart, background,
    approvedForListing, approvedForOpeningItems, approvedForIncentiveProgram, isProtected, isPrivate, feedbackEnabled]

theorem mem_all (column : AppColumn) : column ∈ all := by
  cases column <;> decide

instance : Fintype AppColumn := Fintype.ofList all mem_all

/-- `APP_BOOLEAN_COLUMNS` -/
def isBoolean : AppColumn → Bool
  | godmode | maximizeOnStart | background | approvedForListing | approvedForOpeningItems
  | approvedForIncentiveProgram | isProtected | isPrivate | feedbackEnabled => true
  | _ => false

/-- `READ_ONLY_COLUMNS`, of these. -/
def isReadOnly : AppColumn → Bool
  | timestamp | lastReview | approvedForListing | approvedForOpeningItems | approvedForIncentiveProgram | godmode
  | isProtected | isPrivate => true
  | _ => false

/-- The columns that are `NOT NULL`; the time of a row has a default. -/
def isRequired : AppColumn → Bool
  | title | indexUrl => true
  | _ => false

end AppColumn

/-- A row of `apps`; the alias `created_at` of its time is none until the row is normalised. -/
structure AppRecord (μ : Type) where
  id : ℕ
  uid : Text
  name : Text
  ownerUserId : Option ℕ
  appOwner : Option ℕ
  columns : AppColumn → ColumnValue μ
  createdAt : Option (ColumnValue μ)
deriving DecidableEq

/-- What the store has of its surroundings: `JSON.parse`, `toLowerCase`, `validateUrl`, the database's form of booleans
    and of the time, and how long a redirect from an old name is good. -/
structure AppEnv (μ : Type) where
  parse : Text → Option (ColumnValue μ)
  lower : Text → Text
  validUrl : Text → Bool
  booleanValue : Bool → ColumnValue μ
  stamp : ℕ → ColumnValue μ
  oldNameLifetime : ℕ

/-- The columns of a patch. Keys and owners are read-only and left out already. -/
structure AppPatch (μ : Type) where
  name : Option Text
  columns : AppColumn → Option (ColumnValue μ)

variable {μ : Type}

/-- The value that a row has in a column after `#normalizeRow`. -/
def normalizeColumn (env : AppEnv μ) (column : AppColumn) (value : ColumnValue μ) : ColumnValue μ :=
  if column.isBoolean then .bool value.truthy
  else
    match column, value with
    | .metadata, .text text => (env.parse text).getD .null
    | _, value => value

/-- `#normalizeRow` -/
def normalizeAppRow (env : AppEnv μ) (row : AppRecord μ) : AppRecord μ :=
  { row with
    columns := fun column => normalizeColumn env column (row.columns column)
    createdAt := some (row.createdAt.getD (row.columns .timestamp)) }

/-- `#filterEditable`, with the form that flags have in the database. -/
def filterEditable (env : AppEnv μ) (fields : AppPatch μ) : AppPatch μ :=
  { fields with
    columns := fun column =>
      if column.isReadOnly then none
      else
        (fields.columns column).map fun value =>
          match column.isBoolean, value with
          | true, .null => .null
          | true, value => env.booleanValue value.truthy
          | false, value => value }

def AppPatch.isEmpty (patch : AppPatch μ) : Bool :=
  patch.name.isNone && AppColumn.all.all fun column => (patch.columns column).isNone

/-- The row under a patch: `UPDATE … SET`, and also `{ ...row, ...patch }`. -/
def AppRecord.patched (row : AppRecord μ) (patch : AppPatch μ) : AppRecord μ :=
  { row with
    name := patch.name.getD row.name
    columns := fun column => (patch.columns column).getD (row.columns column) }

/-- What a lookup asks for, and a key of the cache of rows. -/
inductive AppKey where
  | id (value : ℕ)
  | uid (value : Text)
  | name (value : Text)
deriving DecidableEq, Repr

/-- The `WHERE` clause of a lookup. -/
def AppRecord.matches (row : AppRecord μ) : AppKey → Bool
  | .id value => row.id = value
  | .uid value => row.uid = value
  | .name value => row.name = value

def cacheKeysForApp (app : AppRecord μ) : List AppKey := [.id app.id, .uid app.uid, .name app.name]

/-- A row of `old_app_names`. -/
structure OldAppName where
  appUid : Text
  name : Text
  timestamp : ℕ
deriving DecidableEq, Repr

/-- The filters of `list`. -/
structure ListFilters where
  ownerUserId : Option ℕ
  appOwner : Option ℕ
  name : Option Text
  afterId : Option ℕ
  limit : Option ℕ
  offset : Option ℕ
deriving DecidableEq, Repr

/-- The key of a page of `list`: the clause, its parameters, the limit and the offset. -/
structure ListKey (μ : Type) where
  whereClause : Text
  params : List (ColumnValue μ)
  limit : ℕ
  offset : ℕ
deriving DecidableEq

def ColumnValue.ofId : Option ℕ → ColumnValue μ
  | none => .null
  | some id => .number id

namespace ListFilters

def conditions (filters : ListFilters) : List (Text × ColumnValue μ) :=
  (filters.ownerUserId.map fun id => ("`owner_user_id` = ?".toList, .number id)).toList ++
    (filters.appOwner.map fun id => ("`app_owner` = ?".toList, .number id)).toList ++
    (filters.name.map fun name => ("`name` = ?".toList, .text name)).toList ++
    (filters.afterId.map fun id => ("`id` > ?".toList, .number id)).toList

def whereClause (conditions : List Text) : Text :=
  if conditions = [] then [] else "WHERE ".toList ++ " AND ".toList.intercalate conditions

/-- `#listCacheKey` -/
def cacheKey (filters : ListFilters) : ListKey μ :=
  ⟨whereClause ((filters.conditions (μ := μ)).map Prod.fst), filters.conditions.map Prod.snd, filters.limit.getD 500,
    filters.offset.getD 0⟩

def selects (filters : ListFilters) (row : AppRecord μ) : Bool :=
  filters.ownerUserId.all (row.ownerUserId = some ·) && filters.appOwner.all (row.appOwner = some ·) &&
    filters.name.all (row.name = ·) && filters.afterId.all (· < row.id)

/-- `SELECT * FROM apps WHERE … ORDER BY id ASC LIMIT ? OFFSET ?` -/
def select (filters : ListFilters) (table : List (AppRecord μ)) : List (AppRecord μ) :=
  (((table.filter filters.selects).insertionSort fun one other => one.id ≤ other.id).drop
    (filters.offset.getD 0)).take (filters.limit.getD 500)

end ListFilters

def AppRecord.field (row : AppRecord μ) (column : Text) : Option (ColumnValue μ) :=
  if column = "id".toList then some (.number row.id)
  else if column = "uid".toList then some (.text row.uid)
  else if column = "name".toList then some (.text row.name)
  else if column = "owner_user_id".toList then some (.ofId row.ownerUserId)
  else if column = "app_owner".toList then some (.ofId row.appOwner)
  else none

namespace ListKey

def columnMark : Char := Char.ofNat 96

def equalColumn : Text → Option Text
  | [] => none
  | mark :: rest =>
      let column := rest.takeWhile (· ≠ columnMark)
      if mark = columnMark ∧ column ≠ [] ∧ rest.dropWhile (· ≠ columnMark) = "` = ?".toList then some column else none

/-- `#listCacheMatchesApp`: the conditions are read off the clause again. -/
def matchesApp [DecidableEq μ] (key : ListKey μ) (app : AppRecord μ) : Bool :=
  if key.whereClause = [] then true
  else
    let conditions :=
      if "WHERE ".toList.isPrefixOf key.whereClause then (key.whereClause.drop 5).dropWhile isSpace else key.whereClause
    let columns := (splitText " AND ".toList conditions).map equalColumn
    columns.any Option.isNone ||
      (columns.zip key.params).all fun entry => entry.1.bind app.field = some entry.2

end ListKey

def normalizeFiletype (env : AppEnv μ) (type : Text) : Text := (env.lower (trim type)).dropWhile (· = '.')

def distinctApps : List (AppRecord μ) → List (AppRecord μ)
  | [] => []
  | row :: rows => row :: (distinctApps rows).filter (·.id ≠ row.id)

/-- The tables, the caches, and the time. -/
structure AppStoreState (μ : Type) where
  table : List (AppRecord μ)
  oldNames : List OldAppName
  filetypes : List (ℕ × Text)
  rows : Cache AppKey (AppRecord μ)
  lists : Cache (ListKey μ) (List (AppRecord μ))
  byFiletype : Cache Text (List (AppRecord μ))
  now : ℕ

namespace AppStoreState

variable [DecidableEq μ]

/-- `SELECT * FROM apps WHERE … LIMIT 1` -/
def select (s : AppStoreState μ) (key : AppKey) : Option (AppRecord μ) := s.table.find? (·.matches key)

def redirected (s : AppStoreState μ) (name : Text) : List (ℕ × AppRecord μ) :=
  ((s.oldNames.filter (·.name = name)).filterMap fun old =>
    (s.select (.uid old.appUid)).map fun row => (old.timestamp, row)).insertionSort fun one other => other.1 ≤ one.1

def resolveByOldName (env : AppEnv μ) (s : AppStoreState μ) (name : Text) : AppStoreState μ × Option (AppRecord μ) :=
  let s := { s with oldNames := s.oldNames.filter fun old =>
    ¬ (old.name = name ∧ old.timestamp + env.oldNameLifetime < s.now) }
  (s, (s.redirected name).head?.map fun entry => normalizeAppRow env entry.2)

def readFromDb (env : AppEnv μ) (s : AppStoreState μ) (key : AppKey) : AppStoreState μ × Option (AppRecord μ) :=
  match s.select key, key with
  | some row, _ => (s, some (normalizeAppRow env row))
  | none, .name name => s.resolveByOldName env name
  | none, _ => (s, none)

def readCache (env : AppEnv μ) (s : AppStoreState μ) (key : AppKey) : Option (AppRecord μ) :=
  (s.rows key).map (normalizeAppRow env)

/-- `#writeCache`, and `#refreshCache` -/
def writeCache (s : AppStoreState μ) (app : AppRecord μ) : AppStoreState μ :=
  { s with rows := s.rows.put (cacheKeysForApp app) app }

/-- `#getByProperty`: `getById`, `getByUid` and `getByName`. -/
def getByProperty (env : AppEnv μ) (s : AppStoreState μ) (key : AppKey) : AppStoreState μ × Option (AppRecord μ) :=
  match s.readCache env key with
  | some cached => (s, some cached)
  | none =>
      match s.readFromDb env key with
      | (s, none) => (s, none)
      | (s, some app) => (s.writeCache app, some app)

def bulkQueryChunkSize : ℕ := 200

/-- `SELECT * FROM apps WHERE … IN (…)` -/
def selectMany (s : AppStoreState μ) (keys : List AppKey) : List (AppRecord μ) :=
  s.table.filter fun row => keys.any fun key => row.matches key

/-- The loop over the keys that were not cached, a chunk at a time; `keyOf` is the property that they are of. -/
def readChunks (env : AppEnv μ) (keyOf : AppRecord μ → AppKey) : ℕ → AppStoreState μ → List AppKey →
    List (AppKey × AppRecord μ) → AppStoreState μ × List (AppKey × AppRecord μ)
  | 0, s, _, result => (s, result)
  | rounds + 1, s, missing, result =>
      if missing = [] then (s, result)
      else
        let apps := (s.selectMany (missing.take bulkQueryChunkSize)).map (normalizeAppRow env)
        readChunks env keyOf rounds (apps.foldl writeCache s) (missing.drop bulkQueryChunkSize)
          (result ++ apps.map fun app => (keyOf app, app))

/-- `#getManyByProperty`: the cached rows are taken as they are. -/
def getManyByProperty (env : AppEnv μ) (s : AppStoreState μ) (keyOf : AppRecord μ → AppKey) (keys : List AppKey) :
    AppStoreState μ × List (AppKey × AppRecord μ) :=
  let uniqueKeys := keys.eraseDups
  let missing := uniqueKeys.filter fun key => (s.rows key).isNone
  readChunks env keyOf missing.length s missing
    (uniqueKeys.filterMap fun key => (s.rows key).map fun app => (key, app))

def getByIds (env : AppEnv μ) (s : AppStoreState μ) (ids : List ℕ) : AppStoreState μ × List (AppKey × AppRecord μ) :=
  s.getManyByProperty env (fun app => .id app.id) (ids.map .id)

def getByUids (env : AppEnv μ) (s : AppStoreState μ) (uids : List Text) : AppStoreState μ × List (AppKey × AppRecord μ) :=
  s.getManyByProperty env (fun app => .uid app.uid) (uids.map .uid)

def invalidateListCachesForApps (s : AppStoreState μ) (apps : List (Option (AppRecord μ))) : AppStoreState μ :=
  { s with lists := fun key => if apps.any (·.any key.matchesApp) then none else s.lists key }

def invalidate (s : AppStoreState μ) (app : AppRecord μ) : AppStoreState μ :=
  { s with rows := s.rows.drop (cacheKeysForApp app) }.invalidateListCachesForApps [some app]

def list (env : AppEnv μ) (s : AppStoreState μ) (filters : ListFilters) : AppStoreState μ × List (AppRecord μ) :=
  match s.lists filters.cacheKey with
  | some cached => (s, cached.map (normalizeAppRow env))
  | none =>
      let apps := (filters.select s.table).map (normalizeAppRow env)
      ({ s with lists := s.lists.put [filters.cacheKey] apps }, apps)

/-- The unique indexes and the columns that are `NOT NULL` take a table. -/
def accepts (table : List (AppRecord μ)) : Bool :=
  decide ((table.map (·.id)).Nodup ∧ (table.map (·.uid)).Nodup ∧ (table.map (·.name)).Nodup) &&
    table.all fun row => AppColumn.all.all fun column => !column.isRequired || row.columns column ≠ .null

/-- What a column is when an `INSERT` leaves it out. -/
def defaultColumn (env : AppEnv μ) (s : AppStoreState μ) (column : AppColumn) : ColumnValue μ :=
  if column.isBoolean then .number 0
  else
    match column with
    | .timestamp => env.stamp s.now
    | _ => .null

/-- `#recordOldAppName`, the redirect of an app being renewed where it is there. -/
def recordOldAppName (s : AppStoreState μ) (appUid oldName : Text) : AppStoreState μ :=
  if appUid = [] ∨ oldName = [] then s
  else if s.oldNames.any fun old => old.appUid = appUid ∧ old.name = oldName then
    { s with oldNames := s.oldNames.map fun old =>
      if old.appUid = appUid ∧ old.name = oldName then { old with timestamp := s.now } else old }
  else { s with oldNames := s.oldNames ++ [⟨appUid, oldName, s.now⟩] }

def clearOldAppNamesForName (s : AppStoreState μ) (name : Text) : AppStoreState μ :=
  if name = [] then s else { s with oldNames := s.oldNames.filter (·.name ≠ name) }

/-- The row that `create` inserts. -/
def createdRow (env : AppEnv μ) (s : AppStoreState μ) (id : ℕ) (uid name : Text) (allowed : AppPatch μ)
    (ownerUserId : ℕ) (appOwner : Option ℕ) : AppRecord μ where
  id := id
  uid := uid
  name := name
  ownerUserId := some ownerUserId
  appOwner := appOwner
  columns := fun column => (allowed.columns column).getD (s.defaultColumn env column)
  createdAt := none

/-- `create` with the id and the UUID that the app gets, or none where it throws. -/
def create (env : AppEnv μ) (s : AppStoreState μ) (id : ℕ) (uuid : Text) (fields : AppPatch μ) (ownerUserId : ℕ)
    (appOwner : Option ℕ) : AppStoreState μ × Option (AppRecord μ) :=
  let allowed := filterEditable env fields
  match allowed.name with
  | none => (s, none)
  | some name =>
      let uid := "app-".toList ++ uuid
      let table := s.table ++ [s.createdRow env id uid name allowed ownerUserId appOwner]
      if accepts table then
        let fresh := { s with table := table }.getByProperty env (.id id)
        let cleared :=
          match fresh.2 with
          | some app => fresh.1.clearOldAppNamesForName app.name
          | none => fresh.1
        (cleared.invalidateListCachesForApps [fresh.2], fresh.2)
      else (s, none)

/-- The row that `createFromOrigin` inserts. -/
def bootstrapRow (env : AppEnv μ) (s : AppStoreState μ) (id : ℕ) (uid origin : Text) (ownerUserId : Option ℕ) :
    AppRecord μ where
  id := id
  uid := uid
  name := uid
  ownerUserId := ownerUserId.filter (0 < ·)
  appOwner := none
  columns := fun column =>
    match column with
    | .title => .text uid
    | .description => .text ("App created from origin ".toList ++ origin)
    | .indexUrl => .text origin
    | column => s.defaultColumn env column
  createdAt := none

/-- `createFromOrigin`; where the uid is there already, the row is read from the primary. -/
def createFromOrigin (env : AppEnv μ) (s : AppStoreState μ) (id : ℕ) (uid origin : Text) (ownerUserId : Option ℕ) :
    AppStoreState μ × Option (AppRecord μ) :=
  if env.validUrl origin then
    let table := s.table ++ [s.bootstrapRow env id uid origin ownerUserId]
    if accepts table then
      let fresh := { s with table := table }.getByProperty env (.id id)
      (fresh.1.invalidateListCachesForApps [fresh.2], fresh.2)
    else (s, (s.select (.uid uid)).map (normalizeAppRow env))
  else (s, none)

/-- `UPDATE apps SET … WHERE id = ?` -/
def updatedTable (s : AppStoreState μ) (appId : ℕ) (allowed : AppPatch μ) : List (AppRecord μ) :=
  s.table.map fun row => if row.id = appId then row.patched allowed else row

/-- `update`, or none where it throws. -/
def update (env : AppEnv μ) (s : AppStoreState μ) (appId : ℕ) (patch : AppPatch μ) :
    AppStoreState μ × Option (Option (AppRecord μ)) :=
  let allowed := filterEditable env patch
  if allowed.isEmpty then
    let app := s.getByProperty env (.id appId)
    (app.1, some app.2)
  else
    let before := (s.select (.id appId)).map (normalizeAppRow env)
    let table := s.updatedTable appId allowed
    if accepts table then
      let written := { s with table := table }
      -- The old name, where the app is there and the patch renames it.
      let renamed := before.bind fun before => allowed.name.bind fun name =>
        if name ≠ before.name then some (before, name) else none
      let recorded :=
        match renamed with
        | some (before, name) => (written.recordOldAppName before.uid before.name).clearOldAppNamesForName name
        | none => written
      let fresh := (recorded.select (.id appId)).map (normalizeAppRow env)
      let listed := recorded.invalidateListCachesForApps [before, fresh]
      let refreshed :=
        match fresh with
        | some fresh => listed.writeCache (fresh.patched allowed)
        | none => listed
      let retired :=
        match renamed with
        | some (before, _) => { refreshed with rows := refreshed.rows.drop [.name before.name] }
        | none => refreshed
      (retired, some fresh)
    else (s, none)

def deleteRow (s : AppStoreState μ) (app : AppRecord μ) : AppStoreState μ :=
  { s with
    table := (s.table.filter (·.id ≠ app.id)).map fun row =>
      if row.appOwner = some app.id then { row with appOwner := none } else row
    oldNames := s.oldNames.filter (·.appUid ≠ app.uid)
    filetypes := s.filetypes.filter (·.1 ≠ app.id) }

def delete (env : AppEnv μ) (s : AppStoreState μ) (appId : ℕ) : AppStoreState μ × Bool :=
  match s.getByProperty env (.id appId) with
  | (s, none) => (s, false)
  | (s, some app) => ((s.deleteRow app).invalidate app, true)

def claimOwnership (env : AppEnv μ) (s : AppStoreState μ) (appId userId : ℕ) : AppStoreState μ × Bool :=
  if appId = 0 ∨ userId = 0 then (s, false)
  else if s.table.any fun row => row.id = appId ∧ row.ownerUserId = none then
    let written := { s with table := s.table.map fun row : AppRecord μ =>
      if row.id = appId ∧ row.ownerUserId = none then { row with ownerUserId := some userId } else row }
    match written.getByProperty env (.id appId) with
    | (s, some fresh) => (s.invalidate fresh, true)
    | (s, none) => (s, true)
  else (s, false)

def selectByFiletype (s : AppStoreState μ) (ext : Text) : List (AppRecord μ) :=
  s.filetypes.filterMap fun association =>
    if association.2 = ext ∨ association.2 = '.' :: ext then s.select (.id association.1) else none

/-- `getAppsByFiletype`: the cached list is taken as it is. -/
def getAppsByFiletype (env : AppEnv μ) (s : AppStoreState μ) (extension : Text) :
    AppStoreState μ × List (AppRecord μ) :=
  let ext := normalizeFiletype env extension
  if ext = [] then (s, [])
  else
    match s.byFiletype ext with
    | some cached => (s, cached)
    | none =>
        let apps := (distinctApps (s.selectByFiletype ext)).map (normalizeAppRow env)
        ({ s with byFiletype := s.byFiletype.put [ext] apps }, apps)

def setFiletypeAssociations (env : AppEnv μ) (s : AppStoreState μ) (appId : ℕ) (types : List Text) :
    AppStoreState μ :=
  let previous := (s.filetypes.filter (·.1 = appId)).map Prod.snd
  let newTypes := ((types.map (normalizeFiletype env)).filter (· ≠ [])).eraseDups
  let affected := (previous.map (normalizeFiletype env) ++ newTypes).filter (· ≠ [])
  { s with
    filetypes := s.filetypes.filter (·.1 ≠ appId) ++ newTypes.map fun type => (appId, type)
    byFiletype := s.byFiletype.drop affected }

end AppStoreState

/-- The calls of the store, with what the database and the random source choose for them; time passes and cached rows
    expire in between. -/
inductive AppCall (μ : Type) where
  | lookup (key : AppKey)
  | getByIds (ids : List ℕ)
  | getByUids (uids : List Text)
  | create (id : ℕ) (uuid : Text) (fields : AppPatch μ) (ownerUserId : ℕ) (appOwner : Option ℕ)
  | createFromOrigin (id : ℕ) (uid origin : Text) (ownerUserId : Option ℕ)
  | update (appId : ℕ) (patch : AppPatch μ)
  | delete (appId : ℕ)
  | claimOwnership (appId userId : ℕ)
  | list (filters : ListFilters)
  | getAppsByFiletype (extension : Text)
  | setFiletypeAssociations (appId : ℕ) (types : List Text)
  | expire (keys : List AppKey)
  | elapse (time : ℕ)

def AppStoreState.perform [DecidableEq μ] (env : AppEnv μ) (s : AppStoreState μ) : AppCall μ → AppStoreState μ
  | .lookup key => (s.getByProperty env key).1
  | .getByIds ids => (s.getByIds env ids).1
  | .getByUids uids => (s.getByUids env uids).1
  | .create id uuid fields ownerUserId appOwner => (s.create env id uuid fields ownerUserId appOwner).1
  | .createFromOrigin id uid origin ownerUserId => (s.createFromOrigin env id uid origin ownerUserId).1
  | .update appId patch => (s.update env appId patch).1
  | .delete appId => (s.delete env appId).1
  | .claimOwnership appId userId => (s.claimOwnership env appId userId).1
  | .list filters => (s.list env filters).1
  | .getAppsByFiletype extension => (s.getAppsByFiletype env extension).1
  | .setFiletypeAssociations appId types => s.setFiletypeAssociations env appId types
  | .expire keys => { s with rows := s.rows.drop keys }
  | .elapse time => { s with now := s.now + time }

def AppStoreState.run [DecidableEq μ] (env : AppEnv μ) (s : AppStoreState μ) (calls : List (AppCall μ)) :
    AppStoreState μ :=
  calls.foldl (AppStoreState.perform env) s

def EachMeets [DecidableEq μ] (env : AppEnv μ) (meets : AppStoreState μ → AppCall μ → Prop) :
    AppStoreState μ → List (AppCall μ) → Prop
  | _, [] => True
  | s, call :: calls => meets s call ∧ EachMeets env meets (s.perform env call) calls

theorem AppStoreState.run_keeps [DecidableEq μ] {env : AppEnv μ} {meets : AppStoreState μ → AppCall μ → Prop}
    {holds : AppStoreState μ → Prop} (step : ∀ s call, holds s → meets s call → holds (s.perform env call))
    {s : AppStoreState μ} (start : holds s) {calls : List (AppCall μ)} (each : EachMeets env meets s calls) :
    holds (s.run env calls) := by
  induction calls generalizing s with
  | nil => exact start
  | cons call calls ih => exact ih (step s call start each.1) each.2

end Puter

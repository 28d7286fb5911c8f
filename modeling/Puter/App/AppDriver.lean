/-
Module: Puter.App.AppDriver
Purpose: `create`, `update` and `delete` of the driver of apps (drivers/apps/AppDriver.js) over the store of apps, and
  the merging of an app into a row that has its hosted `index_url` already, which leaves an alias from the old uid.
Trusted boundary: `new URL`, the answers of the permission service and of the store of sites, the texts and ids that
  are drawn, and the checks of an icon, of flags, of metadata and of filetypes are parameters. Aliases are written
  whenever they are to be, and none of them lapses. Events are left out, and an app is answered as its row
Main exports: AppFields, AppDriver.update, AppDriverCall
-/
import Puter.App.AppStore
import Puter.Core.Actor
import Puter.Hosting.HostedAppBacking
import Puter.Library.StateRun

namespace Puter

open PosixPath StateRun WebUrl

/-- The fields that a call gives an app, with what is not given being none; and these once they are validated. -/
structure AppFields (μ : Type) where
  name : Option (ColumnValue μ)
  columns : AppColumn → Option (ColumnValue μ)
  filetypeAssociations : Option (List Text)

/-- What `new URL` reads. -/
structure UrlParts where
  protocol : Text
  host : Text
  hostname : Text
  pathname : Text

/-- What the driver has of its surroundings. `validateRest` is the part of `#validateInput` that checks the icon, the
    flags, the metadata and the filetypes, `timeOf` the time that a timestamp stands for. -/
structure AppDriverEnv (μ : Type) where
  store : AppEnv μ
  parseHost : HostParser
  readUrl : Text → Option UrlParts
  hosting : HostedDomainConfig
  appOriginAliases : List (List Text)
  reservedUrls : List Text
  validateRest : AppFields μ → Except HttpError (AppFields μ)
  timeOf : ColumnValue μ → ℕ

/-- Who calls, and what other services answer: whether there is `system:es:write-all-owners`, and whose a site is. -/
structure AppCaller where
  userId : ℕ
  appId : Option ℕ
  writesAll : Bool
  siteOwner : Text → Option ℕ

/-- The errors of the driver with their fields, a statement that the database refuses, and a call that has not ended
    within the turns that it was given. -/
inductive AppDriverError where
  | http (error : HttpError) (fields : List (Text × Text))
  | database
  | unfinished

/-- The store, and the aliases in the key-value store. -/
structure AppDriverState (μ : Type) where
  store : AppStoreState μ
  canonicalUidAlias : Text → Option Text
  canonicalUidAliasReverse : Text → List Text

/-- The ways to name an app: `uid`, and `id` as a number, a text or an object. -/
inductive AppId where
  | number (id : ℕ)
  | text (uid : Text)
  | object (uid name : Option Text) (id : Option ℕ)

structure AppRef where
  uid : Option Text
  id : Option AppId

variable {μ : Type}

/-- `typeof value === 'string' ? value : ''` -/
def ColumnValue.string : ColumnValue μ → Text
  | .text t => t
  | _ => []

def AppFields.nameText (fields : AppFields μ) : Text := (fields.name.map ColumnValue.string).getD []

def AppFields.indexUrl (fields : AppFields μ) : Text := ((fields.columns .indexUrl).map ColumnValue.string).getD []

/-- The statement of an update or of an insert, where no column is null that cannot be. -/
def AppFields.patch (fields : AppFields μ) : Option (AppPatch μ) :=
  match fields.name with
  | none => some ⟨none, fields.columns⟩
  | some (.text name) => some ⟨some name, fields.columns⟩
  | some _ => none

namespace AppDriver

/-- A computation of the driver. -/
abbrev DriverM (μ α : Type) := EStateM AppDriverError (AppDriverState μ) α

def refusal (statusCode : ℕ) (message legacyCode : String) (fields : List (Text × Text)) : AppDriverError :=
  .http ⟨statusCode, message.toList, legacyCode.toList⟩ fields

/-- A call of the store. -/
def inStore {α : Type} (call : AppStoreState μ → AppStoreState μ × α) : DriverM μ α :=
  fun s => .ok (call s.store).2 { s with store := (call s.store).1 }

section Validation

variable [DecidableEq μ]

def quoted (key : String) : String := String.ofList (ListKey.columnMark :: key.toList ++ [ListKey.columnMark])

def validateString (value : Option (ColumnValue μ)) (key : String) (maxLen : ℕ) (format : Text → Bool)
    (required allowEmpty : Bool) : Except HttpError (Option (ColumnValue μ)) :=
  let bad (message : String) : Except HttpError (Option (ColumnValue μ)) :=
    .error ⟨400, message.toList, "bad_request".toList⟩
  match value with
  | none | some .null => if required then bad ("Missing " ++ quoted key) else .ok value
  | some (.text text) =>
      if !allowEmpty && text = [] then bad (quoted key ++ " must not be empty")
      else if maxLen < utf16Length text then bad (quoted key ++ " must be at most " ++ toString maxLen ++ " characters")
      else if !format text then bad (quoted key ++ " has an invalid format")
      else .ok value
  | some _ => bad (quoted key ++ " must be a string")

def validateUrl (env : AppDriverEnv μ) (value : Option (ColumnValue μ)) (key : String) (required : Bool) :
    Except HttpError (Option (ColumnValue μ)) :=
  match validateString value key 3000 (fun _ => true) required false with
  | .ok (some (.text text)) =>
      match env.readUrl text with
      | none => .error ⟨400, (quoted key ++ " must be a valid URL").toList, "bad_request".toList⟩
      | some parsed =>
          if parsed.protocol ∈ ["http:".toList, "https:".toList] then .ok value
          else
            .error ⟨400, (quoted key ++ " must use one of the following protocols: http:, https:").toList,
              "bad_request".toList⟩
  | result => result

def builtinAppsHost : Text := "builtins.namespaces.puter.com".toList

/-- `#assertIndexUrlHostAllowed`, of a new URL where there is one. -/
def assertIndexUrlHostAllowed (env : AppDriverEnv μ) (newUrl : Option (ColumnValue μ)) : Except HttpError Unit :=
  match newUrl.bind fun url => env.readUrl url.string with
  | none => .ok ()
  | some parsed =>
      if parsed.hostname = builtinAppsHost ∨
          parsed.hostname ∈ env.reservedUrls.filterMap fun url => (env.readUrl url).map UrlParts.hostname then
        .error ⟨400, (quoted "index_url" ++ " cannot point at a Puter system host").toList, "bad_request".toList⟩
      else .ok ()

/-- `APP_NAME_REGEX` -/
def isAppName (name : Text) : Bool := name ≠ [] && name.all fun c => c.isAlphanum || c = '_' || c = '-'

/-- `#validateInput`, which is of a `create` where there is no app yet. -/
def validateInput (env : AppDriverEnv μ) (object : AppFields μ) (existing : Option (AppRecord μ)) :
    Except HttpError (AppFields μ) := do
  let isCreate := existing.isNone
  let name ← validateString object.name "name" 100 isAppName isCreate false
  let title ← validateString (object.columns .title) "title" 100 (fun _ => true) isCreate false
  let description ← validateString (object.columns .description) "description" 7000 (fun _ => true) false true
  let indexUrl ← validateUrl env (object.columns .indexUrl) "index_url" isCreate
  assertIndexUrlHostAllowed env (if existing.map (·.columns .indexUrl) = indexUrl then none else indexUrl)
  let rest ← env.validateRest object
  pure
    { rest with
      name := name
      columns := fun column =>
        match column with
        | .title => title
        | .description => description
        | .indexUrl => indexUrl
        | column => rest.columns column }

end Validation

section Conflicts

def isPuterHostedIndexUrl (env : AppDriverEnv μ) (indexUrl : Text) : Bool :=
  (extractPuterHostedSubdomain env.parseHost indexUrl env.hosting).isSome

/-- `#getOriginAliasGroups` -/
def originAliasGroups (env : AppDriverEnv μ) : List (List Text) :=
  (env.appOriginAliases.map fun group =>
    ((group.map fun host => lowerText (trim host)).filter (· ≠ [])).eraseDups).filter (· ≠ [])

def findOriginAliasGroupForIndexUrl (env : AppDriverEnv μ) (indexUrl : Text) : Option (List Text) :=
  if indexUrl = [] then none
  else (env.readUrl indexUrl).bind fun parsed =>
    (originAliasGroups env).find? fun group => lowerText parsed.hostname ∈ group

def buildEquivalentIndexUrlCandidates (env : AppDriverEnv μ) (indexUrl : Text) : List Text :=
  if trim indexUrl = [] then []
  else
    match env.readUrl indexUrl with
    | none => [trim indexUrl]
    | some parsed =>
        let origin := parsed.protocol ++ "//".toList ++ lowerText parsed.host
        let pathname := if parsed.pathname = [] then ['/'] else parsed.pathname
        if pathname = ['/'] ∨ lowerText pathname = "/index.html".toList then
          [origin, origin ++ ['/'], origin ++ "/index.html".toList]
        else
          let normalizedPath := if pathname.getLast? = some '/' then pathname.dropLast else pathname
          [origin ++ normalizedPath, origin ++ normalizedPath ++ ['/']]

/-- The URLs of the roots of the hosts of a group. -/
def groupCandidates (group : List Text) : List Text :=
  group.flatMap fun host => ["https".toList, "http".toList].flatMap fun proto =>
    let base := proto ++ "://".toList ++ host
    [base, base ++ ['/'], base ++ "/index.html".toList]

def hasIndexUrlUniquenessExemption (candidates : List Text) : Bool :=
  candidates.any fun candidate => "https://dev-center.puter.com/coming-soon".toList.isPrefixOf candidate

/-- `findByIndexUrlCandidates` of the store, answering the whole row. -/
def findByIndexUrlCandidates (env : AppDriverEnv μ) (table : List (AppRecord μ)) (candidates : List Text)
    (excludeAppId : ℕ) : Option (AppRecord μ) :=
  let rows := table.filter fun app =>
    candidates.contains (app.columns .indexUrl).string && (excludeAppId = 0 || app.id ≠ excludeAppId)
  let time (app : AppRecord μ) := env.timeOf (app.columns .timestamp)
  (rows.insertionSort fun one other => time one < time other ∨ time one = time other ∧ one.id ≤ other.id).head?

def findIndexUrlConflictRow (env : AppDriverEnv μ) (table : List (AppRecord μ)) (indexUrl : Text)
    (excludeAppId : ℕ) : Option (AppRecord μ) :=
  let aliasGroup := findOriginAliasGroupForIndexUrl env indexUrl
  if !isPuterHostedIndexUrl env indexUrl && aliasGroup.isNone then none
  else
    let candidates := (buildEquivalentIndexUrlCandidates env indexUrl ++ groupCandidates (aliasGroup.getD [])).eraseDups
    if candidates = [] ∨ hasIndexUrlUniquenessExemption candidates then none
    else findByIndexUrlCandidates env table candidates excludeAppId

def isOriginBootstrapApp (app : AppRecord μ) : Bool :=
  app.uid ≠ [] && app.name = app.uid && (app.columns .title).string = app.uid &&
    "App created from origin ".toList.isPrefixOf (app.columns .description).string

def indexUrlInUse (indexUrl appUid : Text) : AppDriverError :=
  refusal 400 "App index_url already in use" "app_index_url_already_in_use"
    [("index_url".toList, indexUrl), ("app_uid".toList, appUid)]

def ensureIndexUrlNotAlreadyInUse (env : AppDriverEnv μ) (indexUrl : Text) (excludeAppId : ℕ) : DriverM μ Unit := do
  let s ← get
  match findIndexUrlConflictRow env s.store.table indexUrl excludeAppId with
  | some conflictRow => throw (indexUrlInUse indexUrl conflictRow.uid)
  | none => pure ()

def ensurePuterSiteSubdomainIsOwned (env : AppDriverEnv μ) (caller : AppCaller) (indexUrl : Text) : DriverM μ Unit :=
  match extractPuterHostedSubdomain env.parseHost indexUrl env.hosting with
  | none => pure ()
  | some subdomain =>
      refuseIf (caller.siteOwner subdomain ≠ some caller.userId)
        (refusal 400 "Subdomain not owned by user" "subdomain_not_owned" [("subdomain".toList, subdomain)])

end Conflicts

section Lookups

variable [DecidableEq μ]

/-- `getById`, `getByUid` and `getByName` of the store. -/
def lookup (env : AppDriverEnv μ) (key : AppKey) : DriverM μ (Option (AppRecord μ)) :=
  inStore fun store => store.getByProperty env.store key

def readCanonicalAppUidAlias (s : AppDriverState μ) (oldAppUid : Text) : Option Text :=
  if oldAppUid = [] then none else (s.canonicalUidAlias oldAppUid).filter (· ≠ [])

def getByUidWithAlias (env : AppDriverEnv μ) (uid : Text) : DriverM μ (Option (AppRecord μ)) := do
  let s ← get
  let direct ← lookup env (.uid uid)
  match direct, (readCanonicalAppUidAlias s uid).filter (· ≠ uid) with
  | some app, _ => pure (some app)
  | none, some canonicalUid => lookup env (.uid canonicalUid)
  | none, none => pure none

def resolve (env : AppDriverEnv μ) (ref : AppRef) : DriverM μ (Option (AppRecord μ)) :=
  match ref.uid.filter (· ≠ []), ref.id with
  | some uid, _ => getByUidWithAlias env uid
  | none, some (.object uid name id) =>
      match uid.filter (· ≠ []), name.filter (· ≠ []), id.filter (· ≠ 0) with
      | some uid, _, _ => getByUidWithAlias env uid
      | none, some name, _ => lookup env (.name name)
      | none, none, some id => lookup env (.id id)
      | none, none, none => pure none
  | none, some (.number id) => lookup env (.id id)
  | none, some (.text uid) => getByUidWithAlias env uid
  | none, none => pure none

/-- `#checkWriteAccess` -/
def mayWrite (caller : AppCaller) (app : AppRecord μ) : Bool :=
  (match caller.appId.filter (· ≠ 0) with
    | none => app.ownerUserId = some caller.userId
    | some appId => app.appOwner = some appId && app.ownerUserId = some caller.userId) || caller.writesAll

/-- The app that a call is about, where the caller may write it. -/
def writableApp (env : AppDriverEnv μ) (caller : AppCaller) (ref : AppRef) : DriverM μ (AppRecord μ) := do
  let found ← resolve env ref
  let app ← orThrow (refusal 404 "App not found" "not_found" []) found
  refuseIf (!mayWrite caller app) (refusal 403 "Access denied" "forbidden" [])
  pure app

end Lookups

section Merging

variable [DecidableEq μ]

def writeCanonicalAppUidAlias (oldAppUid canonicalAppUid : Text) (s : AppDriverState μ) : AppDriverState μ :=
  if oldAppUid = [] ∨ canonicalAppUid = [] ∨ oldAppUid = canonicalAppUid then s
  else
    let reverseAliases := ((s.canonicalUidAliasReverse canonicalAppUid).filter (· ≠ [])).eraseDups
    { s with
      canonicalUidAlias := fun uid => if uid = oldAppUid then some canonicalAppUid else s.canonicalUidAlias uid
      canonicalUidAliasReverse := fun uid =>
        if uid = canonicalAppUid then
          if oldAppUid ∈ reverseAliases then reverseAliases else reverseAliases ++ [oldAppUid]
        else s.canonicalUidAliasReverse uid }

/-- The row of a conflict as the app to join, where it is the caller's to join: unowned, and then claimed, or one that
    was made from its origin. -/
def appToJoin (env : AppDriverEnv μ) (caller : AppCaller) (indexUrl : Text) (conflictRow : AppRecord μ) :
    DriverM μ (AppRecord μ) := do
  let conflictOwnerUserId := conflictRow.ownerUserId.getD 0
  let inUse := indexUrlInUse indexUrl conflictRow.uid
  refuseIf (0 < conflictOwnerUserId && conflictOwnerUserId ≠ caller.userId) inUse
  runIf (conflictOwnerUserId = 0)
    (inStore fun store => ((store.claimOwnership env.store conflictRow.id caller.userId).1, ()))
  let found ← lookup env (.uid conflictRow.uid)
  let app ← orThrow inUse found
  refuseIf (app.uid ≠ conflictRow.uid) inUse
  refuseIf (app.ownerUserId ≠ some caller.userId) inUse
  refuseIf (0 < conflictOwnerUserId && !isOriginBootstrapApp app) inUse
  pure app

/-- The end of the app that was merged: its uid becomes an alias, and its row is deleted. -/
def retireSource (env : AppDriverEnv μ) (sourceAppUid canonicalAppUid : Text) : DriverM μ Unit := do
  modify (writeCanonicalAppUidAlias sourceAppUid canonicalAppUid)
  let found ← lookup env (.uid sourceAppUid)
  match found with
  | none => pure ()
  | some sourceApp => inStore fun store => ((store.delete env.store sourceApp.id).1, ())

/-- `#maybeJoinOwnedHostedIndexUrlApp`, with `again` for the calls of `update` in it. -/
def maybeJoinOwnedHostedIndexUrlApp (env : AppDriverEnv μ) (caller : AppCaller)
    (again : AppRef → AppFields μ → DriverM μ (AppRecord μ)) (object : AppFields μ) (sourceAppUid : Option Text)
    (excludeAppId : ℕ) : DriverM μ (Option (AppRecord μ)) := do
  let s ← get
  match findIndexUrlConflictRow env s.store.table object.indexUrl excludeAppId with
  | none => pure none
  | some conflictRow => do
      let joined ← appToJoin env caller object.indexUrl conflictRow
      match sourceAppUid.filter (· ≠ []) with
      | none => do
          let app ← again ⟨some joined.uid, none⟩ object
          pure (some app)
      | some source => do
          let app ← again ⟨some joined.uid, none⟩ { object with name := none }
          runIf (source ≠ joined.uid) (retireSource env source joined.uid)
          if trim object.nameText = [] then pure (some app)
          else do
            let renamed ← again ⟨some joined.uid, none⟩ ⟨some (.text (trim object.nameText)), fun _ => none, none⟩
            pure (some renamed)

end Merging

section Calls

variable [DecidableEq μ]

def existsByName (s : AppDriverState μ) (name : Text) : Bool := s.store.table.any (·.name = name)

/-- `setFiletypeAssociations`, where filetypes are given. -/
def setFiletypes (env : AppDriverEnv μ) (appId : ℕ) : Option (List Text) → DriverM μ Unit
  | none => pure ()
  | some types => inStore fun store => (store.setFiletypeAssociations env.store appId types, ())

/-- The end of an update that merges nothing. -/
def writeFields (env : AppDriverEnv μ) (app : AppRecord μ) (fields : AppFields μ) : DriverM μ (AppRecord μ) := do
  let s ← get
  refuseIf (fields.nameText ≠ [] && fields.nameText ≠ app.name && existsByName s fields.nameText)
    (refusal 409 "An app with this name already exists" "conflict" [])
  let patch ← orThrow .database fields.patch
  let written ← inStore fun store => store.update env.store app.id patch
  let updated ← orThrow .database written
  setFiletypes env app.id fields.filetypeAssociations
  orThrow .database updated

/-- The body of `update`. -/
def updateWith (env : AppDriverEnv μ) (caller : AppCaller) (again : AppRef → AppFields μ → DriverM μ (AppRecord μ))
    (ref : AppRef) (object : AppFields μ) : DriverM μ (AppRecord μ) := do
  let app ← writableApp env caller ref
  match validateInput env object (some app) with
  | .error error => throw (.http error [])
  | .ok fields =>
      if fields.indexUrl = [] ∨ fields.columns .indexUrl = some (app.columns .indexUrl) then
        writeFields env app fields
      else do
        ensurePuterSiteSubdomainIsOwned env caller fields.indexUrl
        let joined ← maybeJoinOwnedHostedIndexUrlApp env caller again object (some app.uid) app.id
        match joined with
        | some joinedApp => pure joinedApp
        | none => do
            ensureIndexUrlNotAlreadyInUse env fields.indexUrl app.id
            writeFields env app fields

/-- `update`, which calls itself over a merge, within a number of turns. -/
def update (env : AppDriverEnv μ) (caller : AppCaller) : ℕ → AppRef → AppFields μ → DriverM μ (AppRecord μ)
  | 0, _, _ => throw .unfinished
  | turns + 1, ref, object => updateWith env caller (update env caller turns) ref object

/-- The name of a new app, with three tries to tell it from others where that is asked. -/
def freeName (s : AppDriverState μ) (name : Text) (dedupeName : Bool) (drawn : ℕ → Text) :
    Except AppDriverError Text :=
  if !existsByName s name then .ok name
  else if !dedupeName then .error (refusal 400 "An app with this name already exists" "app_name_already_in_use" [])
  else
    match ((List.range 3).map fun i => name ++ '-' :: drawn i).find? fun candidate => !existsByName s candidate with
    | some candidate => .ok candidate
    | none => .error (refusal 400 "Failed to dedupe app name" "app_name_already_in_use" [])

/-- What is drawn for a new app: its id, its UUID, and the texts that may be added to its name. -/
structure AppDraw where
  id : ℕ
  uuid : Text
  suffixes : ℕ → Text

/-- The insertion of a new app. -/
def insertApp (env : AppDriverEnv μ) (caller : AppCaller) (draw : AppDraw) (dedupeName : Bool)
    (fields : AppFields μ) : DriverM μ (AppRecord μ) := do
  let s ← get
  match freeName s fields.nameText dedupeName draw.suffixes with
  | .error error => throw error
  | .ok name => do
      let created ← inStore fun store =>
        store.create env.store draw.id draw.uuid ⟨some name, fields.columns⟩ caller.userId caller.appId
      let app ← orThrow .database created
      setFiletypes env app.id fields.filetypeAssociations
      pure app

def create (env : AppDriverEnv μ) (caller : AppCaller) (turns : ℕ) (draw : AppDraw) (dedupeName : Bool)
    (object : AppFields μ) : DriverM μ (AppRecord μ) :=
  match validateInput env object none with
  | .error error => throw (.http error [])
  | .ok fields => do
      ensurePuterSiteSubdomainIsOwned env caller fields.indexUrl
      let joined ← maybeJoinOwnedHostedIndexUrlApp env caller (update env caller turns) object none 0
      match joined with
      | some joinedApp => pure joinedApp
      | none => do
          ensureIndexUrlNotAlreadyInUse env fields.indexUrl 0
          insertApp env caller draw dedupeName fields

/-- `delete`, answering the uid of the app. -/
def delete (env : AppDriverEnv μ) (caller : AppCaller) (ref : AppRef) : DriverM μ Text := do
  let found ← resolve env ref
  let app ← orThrow (refusal 404 "App not found" "not_found" []) found
  refuseIf (app.columns .isProtected).truthy (refusal 403 "Cannot delete a protected app" "forbidden" [])
  refuseIf (!mayWrite caller app) (refusal 403 "Access denied" "forbidden" [])
  inStore fun store => ((store.delete env.store app.id).1, ())
  pure app.uid

end Calls

end AppDriver

/-- The calls of the driver. -/
inductive AppDriverCall (μ : Type) where
  | create (caller : AppCaller) (turns : ℕ) (draw : AppDriver.AppDraw) (dedupeName : Bool) (object : AppFields μ)
  | update (caller : AppCaller) (turns : ℕ) (ref : AppRef) (object : AppFields μ)
  | delete (caller : AppCaller) (ref : AppRef)

/-- What a call does, also where it throws. -/
def AppDriverState.perform [DecidableEq μ] (env : AppDriverEnv μ) (s : AppDriverState μ) :
    AppDriverCall μ → AppDriverState μ
  | .create caller turns draw dedupeName object =>
      finalState (AppDriver.create env caller turns draw dedupeName object s)
  | .update caller turns ref object => finalState (AppDriver.update env caller turns ref object s)
  | .delete caller ref => finalState (AppDriver.delete env caller ref s)

/-- What calls do one after another. -/
def AppDriverState.run [DecidableEq μ] (env : AppDriverEnv μ) (s : AppDriverState μ) (calls : List (AppDriverCall μ)) :
    AppDriverState μ :=
  calls.foldl (AppDriverState.perform env) s

end Puter

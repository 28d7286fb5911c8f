/-
Module: Puter.Permission.PermissionScan
Purpose: The scan of services/permission/PermissionService.ts: all the ways an actor may hold one of
  several permissions. The scan recurses into the actors that issued a grant and, as in the source,
  nothing bounds that recursion, so it runs on fuel: an answer is one that some fuel reaches. It is
  written over any monad with the effects it has (the scan cache, the flat warms it fires off), and is
  run here on a log of those effects.
  The scanners that the source starts together run in the order it lists them; each only adds to the
  reading. A warm is not awaited there: it is recorded here and written after the scan.
Trusted boundary: the rules other services register are data of the environment
Main exports: PermissionRules, canManagePermission
-/
import Puter.Permission.PermissionReading
import Puter.Permission.PermissionStore

namespace Puter

/-- Why a scan gives no reading: it recurses without end, or a rule threw. -/
inductive ScanError where
  | diverged
  | http (error : HttpError)
  | typeError
deriving DecidableEq, Repr

structure PermissionRewriter where
  matchesPermission : Text → Bool
  rewrite : Text → Except HttpError Text

/-- An implicator. What its check returns matters only for being truthy. -/
structure PermissionImplicator where
  id : Text
  shortcut : Bool
  matchesPermission : Text → Bool
  check : PermissionTables → Actor → Text → Bool

structure PermissionExploder where
  matchesPermission : Text → Bool
  explode : Text → Except ScanError (List Text)

/-- The registries other services add their rules to. -/
structure PermissionRules where
  rewriters : List PermissionRewriter
  implicators : List PermissionImplicator
  exploders : List PermissionExploder

/-- What a scan reads: the permission state, the cache-generation counters, the user table, the
    registered rules and the current second. -/
structure PermissionEnv where
  tables : PermissionTables
  generations : Text → Nat
  getById : Nat → Option UserRow
  rules : PermissionRules
  now : Nat

/-- A flat entry a scan fires off (`setFlatUserPerm` with an expiry). -/
structure FlatWarm where
  holderUserId : Nat
  permission : Text
  value : FlatPermValue
  expireAt : Nat
deriving DecidableEq, Repr

/-- The effects of a scan. `inBackground` starts a computation whose outcome is not waited for. -/
class ScanMonad (m : Type → Type) extends Monad m where
  fail {α : Type} : ScanError → m α
  getScanCache : Text → m (Option Reading)
  setScanCache : Text → Reading → m Unit
  warmFlatUserPerm : FlatWarm → m Unit
  inBackground {α : Type} : m α → m Unit

/-- Seconds a warmed flat entry lives (`FLAT_PERM_WARM_TTL_SECONDS`). -/
def flatPermWarmTtlSeconds : Nat := 60

/-- The roots every user actor holds (`default_user_permissions`). -/
def defaultUserPermissions : List Text := ["driver".toList, "service".toList]

/-- The keys of `default_implicit_user_app_permissions`. -/
def defaultImplicitUserAppPermissions : List Text :=
  ["driver:helloworld:greet", "driver:puter-kvstore", "driver:puter-ocr:recognize",
    "driver:puter-chat-completion", "driver:puter-image-generation",
    "driver:puter-video-generation", "driver:puter-tts", "driver:puter-speech2speech",
    "driver:puter-speech2txt", "driver:puter-apps", "driver:puter-subdomains",
    "driver:temp-email", "service", "feature"].map String.toList

/-- A bucket of `implicit_user_app_permissions`. -/
structure AppPermissionBucket where
  apps : List Text
  permissions : List Text

def implicitUserAppPermissions : List AppPermissionBucket :=
  [{ apps := ["app-0bef044f-918f-4cbf-a0c0-b4a17ee81085",
        "app-838dfbc4-bf8b-48c2-b47b-c4adc77fab58", "app-58282b08-990a-4906-95f7-fa37ff92452b",
        "app-5584fbf7-ed69-41fc-99cd-85da21b1ef51", "app-7bdca1a4-6373-4c98-ad97-03ff2d608ca1",
        "app-240a43f4-43b1-49bc-b9fc-c8ae719dab77", "app-a2ae72a4-1ba3-4a29-b5c0-6de1be5cf178",
        "app-74378e84-b9cd-5910-bcb1-3c50fa96d6e7", "app-13a38aeb-f9f6-54f0-9bd3-9d4dd655ccfe",
        "app-dce8f797-82b0-5d95-a2f8-ebe4d71b9c54",
        "app-93005ce0-80d1-50d9-9b1e-9c453c375d56"].map String.toList
     permissions := ["driver:helloworld:greet", "driver:puter-ocr:recognize",
        "driver:puter-kvstore:get", "driver:puter-kvstore:set", "driver:puter-kvstore:del",
        "driver:puter-kvstore:list", "driver:puter-kvstore:flush",
        "driver:puter-chat-completion:complete", "driver:puter-image-generation:generate",
        "driver:puter-video-generation:generate", "driver:puter-speech2speech:convert",
        "driver:puter-speech2txt:transcribe", "driver:puter-speech2txt:translate",
        "driver:puter-analytics:create_trace", "driver:puter-analytics:record"].map String.toList },
   { apps := ["app-a392f3e5-35ca-5dac-ae10-785696cc7dec",
        "app-a6263561-6a84-5d52-9891-02956f9fac65", "app-26149f0b-8304-5228-b995-772dadcf410e",
        "app-c2e27728-66d9-54dd-87cd-6f4e9b92e3e3"].map String.toList
     permissions := ["driver:helloworld:greet", "driver:puter-ocr:recognize",
        "driver:puter-kvstore:get", "driver:puter-kvstore:set", "driver:puter-kvstore:del",
        "driver:puter-kvstore:list", "driver:puter-kvstore:flush"].map String.toList }]

/-- The keys a plain object has from its prototype. The lookups of the implicit app permissions are
    plain `object[permission]` reads, so these names are found in every table. -/
def objectPrototypeKeys : List Text :=
  ["constructor", "__defineGetter__", "__defineSetter__", "hasOwnProperty", "__lookupGetter__",
    "__lookupSetter__", "isPrototypeOf", "propertyIsEnumerable", "toString", "valueOf", "__proto__",
    "toLocaleString"].map String.toList

/-- Whether `default_implicit_user_app_permissions[permission]` is truthy. -/
def isDefaultImplicitUserAppPermission (permission : Text) : Bool :=
  defaultImplicitUserAppPermissions.contains permission || objectPrototypeKeys.contains permission

def isBucketUserAppPermission (appUid permission : Text) : Bool :=
  objectPrototypeKeys.contains permission ||
    match (implicitUserAppPermissions.filter (·.apps.contains appUid)).getLast? with
    | some bucket => bucket.permissions.contains permission
    | none => false

/-- `rewritePermission`: each matching rewriter in turn. -/
def PermissionEnv.rewritePermission (env : PermissionEnv) (permission : Text) :
    Except HttpError Text :=
  env.rules.rewriters.foldlM
    (fun current rewriter =>
      if rewriter.matchesPermission current then rewriter.rewrite current else pure current)
    permission

/-- `getParentPermissions`: the permission and its ancestors, longest first. -/
def getParentPermissions (permission : Text) : List Text :=
  ((permission.splitOn ':').inits.tail.map fun parts => [':'].intercalate parts).reverse

def PermissionEnv.explodeParent (env : PermissionEnv) (parent : Text) :
    Except ScanError (List Text) := do
  let more ← env.rules.exploders.mapM fun exploder =>
    if exploder.matchesPermission parent then exploder.explode parent else pure []
  return more.flatten

/-- `getHigherPermissions`: the permission, its parents, and what the exploders add to each. -/
def PermissionEnv.getHigherPermissions (env : PermissionEnv) (permission : Text) :
    Except ScanError (List Text) := do
  let parents := getParentPermissions permission
  let more ← parents.mapM fun parent => do
    let added ← env.explodeParent parent
    return parent :: added
  return (permission :: more.flatten).eraseDups

/-- The options of a scan after rewriting and exploding, with the nodes that record both. -/
structure ExpandedOptions where
  steps : Reading
  options : List Text

def rewriteNodes (source target : Text) : Reading :=
  if target = source then [] else [.rewrite source target]

def explodeNodes (source : Text) (higher : List Text) : Reading :=
  if higher.length > 1 then [.explode source higher] else []

def PermissionEnv.expandOptions (env : PermissionEnv) (permissionOptions : List Text) :
    Except ScanError ExpandedOptions := do
  let rewritten ← permissionOptions.mapM fun permission =>
    (env.rewritePermission permission).mapError ScanError.http
  let exploded ← rewritten.mapM env.getHigherPermissions
  return {
    steps := (List.zipWith rewriteNodes permissionOptions rewritten).flatten ++
      (List.zipWith explodeNodes rewritten exploded).flatten
    options := exploded.flatten }

/-- `#cacheGenerationKeys`: a derived actor also depends on the counters of the actors behind it. -/
def cacheGenerationKeys : Actor → List Text
  | .user account system => [actorUid (.user account system)]
  | .appUnderUser account app =>
      (actorUid (.appUnderUser account app) ::
        (if account.uuid.isEmpty then [] else ["user:".toList ++ account.uuid])).eraseDups
  | .accessToken uid issuer fullAccess =>
      (actorUid (.accessToken uid issuer fullAccess) :: cacheGenerationKeys issuer).eraseDups

def PermissionEnv.cacheGenerationTag (env : PermissionEnv) (actor : Actor) : Text :=
  ['.'].intercalate ((cacheGenerationKeys actor).map fun key => decimal (env.generations key))

def buildScanCacheKey (uid : Text) (permissionOptions : List Text) (generation : Text) : Text :=
  PermissionUtil.join ("permission-scan".toList :: uid :: ('g' :: generation) ::
    "options-list".toList :: permissionOptions)

section Scan

open ScanMonad

variable {m : Type → Type} [ScanMonad m]

def raise {α : Type} : Except ScanError α → m α
  | .ok value => pure value
  | .error error => fail error

def collect {α β : Type} (body : α → m (List β)) : List α → m (List β)
  | [] => pure []
  | item :: rest => do
      let pushed ← body item
      let later ← collect body rest
      return pushed ++ later

def implied (env : PermissionEnv) (actor : Actor) (permission : Text)
    (implicator : PermissionImplicator) : Bool :=
  implicator.matchesPermission permission && implicator.check env.tables actor permission

def implicatorCandidates (env : PermissionEnv) (options : List Text) :
    List (Text × PermissionImplicator) :=
  options.flatMap fun permission => env.rules.implicators.map fun implicator => (permission, implicator)

def shortcutImplicators (env : PermissionEnv) (actor : Actor) (options : List Text) : Reading :=
  match (implicatorCandidates env options).find? fun (permission, implicator) =>
      implicator.shortcut && implied env actor permission implicator with
  | some (permission, implicator) => [.option permission (.implicator implicator.id)]
  | none => []

/-- `#scanNonShortcutImplicators`: every hit is an option. -/
def scanNonShortcutImplicators (env : PermissionEnv) (actor : Actor) (options : List Text) :
    Reading :=
  ((implicatorCandidates env options).filter fun (permission, implicator) =>
    !implicator.shortcut && implied env actor permission implicator).map
      fun (permission, implicator) => .option permission (.implicator implicator.id)

/-- The recursive call of a scan: the actor, the options and `antiCycleActors`. A call the source makes
    without a state starts from the actor alone. -/
abbrev ScanCall (m : Type → Type) := Actor → List Text → List Actor → m Reading

variable (env : PermissionEnv) (rescan : ScanCall m)

def pathTo (via : PathVia) (permission : Text) (reading : Reading) : ReadingNode :=
  .path via permission (readingHasTerminal reading) reading

/-- `#scanAccessToken`: a full-access token asks its issuer for every option, a scoped one for the
    options it has a row for. -/
def scanAccessToken (actor : Actor) (options : List Text) : m Reading :=
  match actor with
  | .accessToken uid issuer fullAccess =>
      collect (fun permission => do
        if fullAccess || env.tables.hasAccessTokenPerm uid permission then
          let issuerReading ← rescan issuer [permission] [issuer]
          return [pathTo .accessToken permission issuerReading]
        else return [])
        options
  | _ => pure []

/-- What the flat view says about the wanted permissions. -/
inductive FlatAnswer where
  | silent
  | tombstone
  | granted (permission : Text) (issuerUserId : Option Nat)
deriving DecidableEq, Repr

/-- The loop of `#flatValidateUserPerms`: the first value that is not deleted and names a permission
    grants; a deleted one is remembered. -/
def flatAnswer (anyDeleted : Bool) : List FlatPermValue → FlatAnswer
  | [] => if anyDeleted then .tombstone else .silent
  | value :: rest =>
      if value.deleted then flatAnswer true rest
      else match value.permission with
        | some (c :: permission) => .granted (c :: permission) value.issuerUserId
        | _ => flatAnswer anyDeleted rest

def flatValidateUserPerms (actor : Actor) (permissions : List Text) : FlatAnswer :=
  flatAnswer false (env.tables.getFlatUserPerms env.now actor.accountUser.id permissions)

/-- `#linkedValidateUserPerms`: follow the holder's rows to their issuers, except to an actor the scan
    already came through. -/
def linkedValidateUserPerms (actor : Actor) (permissions : List Text) (state : List Actor) :
    m Reading :=
  collect (fun row =>
    match env.getById row.issuerUserId with
    | none => pure []
    | some issuer =>
        if state.any fun seen => seen.accountUser.id == issuer.id then pure []
        else do
          let issuerReading ← rescan (.ofUser issuer) [row.permission] (state ++ [.ofUser issuer])
          return [pathTo (.user issuer.id) row.permission issuerReading])
    (env.tables.readLinkedUserUserPerms actor.accountUser.id permissions)

def warmFlatOptions (holderUserId : Nat) (options : List ReadingOption) : m (List Unit) :=
  collect (fun option => do
    if option.permission.isEmpty then return []
    else
      warmFlatUserPerm ⟨holderUserId, option.permission, ⟨some option.permission, none, false⟩,
        env.now + flatPermWarmTtlSeconds⟩
      return [])
    options

/-- `validateUserPerms`: the flat view answers when it has an entry; otherwise the rows do, and what
    they led to is warmed into the flat view. Both are started, so the traversal runs either way. -/
def validateUserPerms (actor : Actor) (permissions : List Text) (state : List Actor) :
    m Reading := do
  if actor.accountUser.id = 0 then return []
  else
    match flatValidateUserPerms env actor permissions with
    | .granted permission issuerUserId =>
        inBackground (linkedValidateUserPerms env rescan actor permissions state)
        return [.option permission (.flat issuerUserId)]
    | .tombstone =>
        inBackground (linkedValidateUserPerms env rescan actor permissions state)
        return []
    | .silent =>
        let linkedReading ← linkedValidateUserPerms env rescan actor permissions state
        let _ ← warmFlatOptions env actor.accountUser.id (readingToOptions linkedReading)
        return linkedReading

def scanUserUser (actor : Actor) (options : List Text) (state : List Actor) : m Reading :=
  if actor.isPlainUser then validateUserPerms env rescan actor options state else pure []

def scanUserGroup (actor : Actor) (options : List Text) : m Reading :=
  if actor.isPlainUser && actor.accountUser.id != 0 then
    collect (fun row =>
      match env.getById row.userId with
      | none => pure []
      | some issuer => do
          let issuerReading ← rescan (.ofUser issuer) [row.permission] [.ofUser issuer]
          return [pathTo (.userGroup row.groupId) row.permission issuerReading])
      (env.tables.readUserGroupPerms actor.accountUser.id options)
  else pure []

/-- `#scanUserAppImplied`: the user is scanned once for the whole list, and that one reading stands
    under every option the app holds implicitly. -/
def scanUserAppImplied (actor : Actor) (options : List Text) : m Reading :=
  match actor with
  | .appUnderUser _ app => do
      let issuerReading ← rescan (userRelatedActor actor) options [userRelatedActor actor]
      return options.flatMap fun permission =>
        (if isDefaultImplicitUserAppPermission permission then
          [pathTo .userAppImplied permission issuerReading] else []) ++
        (if isBucketUserAppPermission app.uid permission then
          [pathTo .userAppBucket permission issuerReading] else [])
  | _ => pure []

/-- `#scanUserApp`: only the first row found is followed. -/
def scanUserApp (actor : Actor) (options : List Text) : m Reading :=
  match actor with
  | .appUnderUser user app =>
      if user.id = 0 ∨ app.id = 0 then pure []
      else match env.tables.readUserAppPerms user.id app.id options with
        | [] => pure []
        | row :: _ => do
            let issuer := userRelatedActor actor
            let issuerReading ← rescan issuer [row.permission] [issuer]
            return [pathTo .userApp row.permission issuerReading]
  | _ => pure []

/-- `#scanDevApp`: only the first row found is followed. -/
def scanDevApp (actor : Actor) (options : List Text) : m Reading :=
  match actor with
  | .appUnderUser _ app =>
      if app.id = 0 then pure []
      else match env.tables.readDevAppPerms app.id options with
        | [] => pure []
        | row :: _ =>
            match env.getById row.userId with
            | none => pure []
            | some issuer => do
                let issuerReading ← rescan (.ofUser issuer) [row.permission] [.ofUser issuer]
                return [pathTo .devApp row.permission issuerReading]
  | _ => pure []

def runScanners (actor : Actor) (options : List Text) (state : List Actor) : m Reading := do
  let nonShortcut := scanNonShortcutImplicators env actor options
  let accessToken ← scanAccessToken env rescan actor options
  let userUser ← scanUserUser env rescan actor options state
  let userGroup ← scanUserGroup env rescan actor options
  let userAppImplied ← scanUserAppImplied rescan actor options
  let userApp ← scanUserApp env rescan actor options
  let devApp ← scanDevApp env rescan actor options
  return nonShortcut ++ (accessToken ++ (userUser ++ (userGroup ++ (userAppImplied ++
    (userApp ++ devApp)))))

def defaultUserPermission (actor : Actor) (options : List Text) : Option Text :=
  if actor.isPlainUser && actor.accountUser.id != 0 then
    options.find? (defaultUserPermissions.contains ·)
  else none

def scanBody (actor : Actor) (permissionOptions : List Text) (state : List Actor) : m Reading := do
  if isSystemActor actor then
    return [.option (permissionOptions.headD []) .system, .time]
  else
    let ⟨steps, options⟩ ← raise (env.expandOptions permissionOptions)
    match defaultUserPermission actor options with
    | some granted => return steps ++ [.option granted .defaultUserPermission, .time]
    | none =>
        let shortcut := shortcutImplicators env actor options
        if shortcut.isEmpty then
          let found ← runScanners env rescan actor options state
          return steps ++ (found ++ [.time])
        else return steps ++ (shortcut ++ [.time])

/-- `scan`. `noCache` skips the lookup of this call alone; the scans it makes always look. -/
def scan (noCache : Bool) : Nat → ScanCall m
  | 0 => fun _ _ _ => fail .diverged
  | fuel + 1 => fun actor permissionOptions state => do
      let cacheKey :=
        buildScanCacheKey (actorUid actor) permissionOptions (env.cacheGenerationTag actor)
      let cached ← if noCache then pure none else getScanCache cacheKey
      match cached with
      | some reading => return reading
      | none =>
          let reading ← scanBody env (scan false fuel) actor permissionOptions state
          setScanCache cacheKey reading
          return reading

def check (noCache : Bool) (fuel : Nat) (actor : Actor) (permissionOptions : List Text) :
    m Bool := do
  let reading ← scan env noCache fuel actor permissionOptions [actor]
  return readingGrants reading

def managePermissionOf (permission : Text) : Text :=
  PermissionUtil.join (PermissionUtil.managePermPrefix :: PermissionUtil.split permission)

def canManagePermission (fuel : Nat) (actor : Actor) (permission : Text) : m Bool :=
  check env false fuel actor [managePermissionOf permission]

end Scan

/-- The effects of a run of scans: the scan cache and the warms fired off. A cache that does not retain
    has lost every reading by the time it is looked up, which is what a cold cache is. -/
structure ScanLog where
  cached : Text → Option Reading
  retains : Bool
  warms : List FlatWarm

def ScanLog.start (retains : Bool) : ScanLog := ⟨fun _ => none, retains, []⟩

abbrev ScanRun := EStateM ScanError ScanLog

instance : ScanMonad ScanRun where
  fail error := throw error
  getScanCache key := do
    let log ← get
    return if log.retains then log.cached key else none
  setScanCache key reading :=
    modify fun log => { log with cached := Function.update log.cached key (some reading) }
  warmFlatUserPerm warm := modify fun log => { log with warms := log.warms ++ [warm] }
  inBackground work := fun log =>
    match work log with
    | .ok _ log' => .ok () log'
    | .error _ log' => .ok () log'

end Puter

/-
Module: Puter.Kv.KVStoreDriver
Purpose: The KV methods that apps call (drivers/kv/KVStoreDriver.ts) over the namespaces of the store, with
  the gate on the data of another app (services/permission/appDataScopes.ts). Arguments come as the JSON
  values of the request; what the language makes of a value of another type than a method wants, the
  options that a listing reads of its arguments, and the answers of the permission service are parameters.
  Metering is left out.
Trusted boundary: the coercions of the language
Main exports: KvMethod, KVOpts, KVStoreDriver.call
-/
import Puter.Kv.LapsedEntries

namespace Puter

open Document StateRun

def Actor.effectiveApp : Actor → Option ActorApp
  | .user _ _ => none
  | .appUnderUser _ app => some app
  | .accessToken _ issuer _ => issuer.effectiveApp

/-- The methods of the driver. -/
inductive KvMethod where
  | get
  | set
  | batchPut
  | del
  | list
  | flush
  | incr
  | decr
  | expireAt
  | expire
  | update
  | add
  | remove
deriving DecidableEq, Repr

/-- The operations another app may be granted. -/
inductive AppDataKvOp where
  | get
  | list
  | set
  | add
  | incr
  | decr
  | update
  | del
  | remove
  | expire
  | expireAt
deriving DecidableEq, Repr

def AppDataKvOp.name : AppDataKvOp → Text
  | get => "get".toList
  | list => "list".toList
  | set => "set".toList
  | add => "add".toList
  | incr => "incr".toList
  | decr => "decr".toList
  | update => "update".toList
  | del => "del".toList
  | remove => "remove".toList
  | expire => "expire".toList
  | expireAt => "expireAt".toList

/-- `APP_DATA_KV_METHOD_OPS`: the operation a method is checked as. No scope reaches `flush`. -/
def KvMethod.op : KvMethod → Option AppDataKvOp
  | get => some .get
  | list => some .list
  | set | batchPut => some .set
  | add => some .add
  | incr => some .incr
  | decr => some .decr
  | update => some .update
  | del => some .del
  | remove => some .remove
  | expire => some .expire
  | expireAt => some .expireAt
  | flush => none

def KvMethod.creditUngated : KvMethod → Bool
  | del | remove | flush | list => true
  | _ => false

/-- `appDataPermission` on the KV store of an app. -/
def appDataPermission (targetAppUid op : Text) : Text :=
  PermissionUtil.join (["app-data".toList, targetAppUid, "kv".toList, op].filter (· ≠ []))

def deleteClass : Text := "delete".toList

/-- `APP_DATA_KV_TTL_PARAMS` -/
def ttlParams : List Text := ["expireAt".toList, "ttl".toList]

/-- Whether an app with this metadata lets other apps reach its data: only `share_app_data: false`
    closes it. -/
def appDataSharingAllowed (metadata : Option Json) : Bool :=
  match metadata with
  | some (.map fields) =>
      match field "share_app_data".toList fields with
      | some (.bool false) => false
      | _ => true
  | _ => true

/-- A number of the language. -/
inductive JsNumber where
  | finite (n : ℚ)
  | nan
  | infinite

structure OptConfig where
  appUuid : Option Text
  disableSharing : Option Json

/-- The arguments of a call: the namespace override, and the others by name. -/
structure KvCallArgs where
  optConfig : Option OptConfig
  fields : List (Text × Json)

namespace KvCallArgs

def arg (args : KvCallArgs) (name : Text) : Option Json := field name args.fields

def appUuid (args : KvCallArgs) : Option Text := args.optConfig.bind OptConfig.appUuid

/-- Whether `disableSharing` counts as set. -/
def disableSharing (args : KvCallArgs) : Bool := (args.optConfig.bind OptConfig.disableSharing).any truthy

end KvCallArgs

def present : Option Json → Bool
  | none | some .null => false
  | _ => true

/-- What a call reads of its surroundings: beside those of the store, who acts, the apps by uid with their
    metadata, the answers of the permission service for the actor, whether the account has credits left,
    and the coercions. `stringOf` is `String` of a value that is no text and `numberOf` is `Number`; they
    have no value where the language throws. `listOpts` reads the options of a listing. -/
structure KvContext extends KvEnv where
  actor : Option Actor
  appByUid : Text → Option (Option Json)
  check : Text → Bool
  hasCredits : Bool
  stringOf : Json → Option Text
  numberOf : Json → Option JsNumber
  listOpts : KvCallArgs → Except KvError ListOpts

abbrev KvTables := Text → KvTable

abbrev DriverRun := EStateM KvError KvTables

structure KVOpts where
  actor : Option Actor
  appUuid : Option Text
  namespaceAppUuid : Option Text

def forbidden (message : Text) : KvError := .http ⟨403, message, "forbidden".toList⟩

def permissionDenied : KvError := forbidden "Permission denied".toList

def internalError : KvError :=
  .http ⟨500, "Internal Server Error".toList, "internal_error".toList⟩

def missingKey : KvError := badRequest "Missing `key`".toList

/-- `Object.entries` of an argument that is an object. -/
def entriesOf : Json → Option (List (Text × Json))
  | .map fields => some fields
  | .list items => some (items.zipIdx.map fun item => (decimal item.2, item.1))
  | .null | .bool _ | .number _ | .text _ => none

namespace SystemKVStore

def systemNamespace : Text := "v1:".toList ++ systemActorUuid ++ ":os-global".toList

/-- `getNamespace` of the options' actor. -/
def getNamespace (opts : KVOpts) : Text :=
  let actor := opts.actor.getD systemActor
  if isSystemActor actor then systemNamespace
  else
    let appUuid := opts.namespaceAppUuid <|> actor.effectiveApp.map ActorApp.uid <|> opts.appUuid
    "v1:".toList ++ actor.accountUser.uuid ++ [':'] ++ appUuid.getD "os-global".toList

def givenItem (value expireAt : Option Json) (disableSharing : Bool) : Attributes :=
  (value.toList.map fun value => (valueName, value)) ++
    (expireAt.toList.map fun ttl => (ttlName, ttl)) ++
      if disableSharing then [(noShareName, .bool true)] else []

/-- `set` with an expiry of any value. -/
def setGiven (env : KvEnv) (crossApp : Bool) (key : Text) (value : Json) (expireAt : Option Json)
    (disableSharing : Bool) : KvRun Bool := do
  assertKey key
  assertValue env value
  assertNotPrivate crossApp key
  modify fun table : KvTable => table.put key (givenItem (some value) expireAt disableSharing)
  pure true

/-- An entry of a batch with a value and an expiry of any value. -/
structure GivenItem where
  key : Text
  value : Option Json
  expireAt : Option Json

def lastGiven : List GivenItem → List GivenItem
  | [] => []
  | item :: rest => if rest.any (·.key = item.key) then lastGiven rest else item :: lastGiven rest

/-- `batchPut` with values and expiries of any value. -/
def batchPutGiven (env : KvEnv) (crossApp : Bool) (items : List GivenItem) (disableSharing : Bool) :
    KvRun Bool := do
  forEach (fun item => do
    assertKey item.key
    assertValue env (item.value.getD .null)) items
  let byKey := lastGiven items
  assertNonePrivate crossApp (byKey.map GivenItem.key)
  forEach (fun item => modify fun table : KvTable =>
    table.put item.key (givenItem item.value item.expireAt disableSharing)) byKey
  pure true

theorem givenItem_number (value : Json) (expireAt : Option ℚ) (disableSharing : Bool) :
    givenItem (some value) (expireAt.map .number) disableSharing =
      wholeItem value expireAt disableSharing := by
  cases expireAt <;> rfl

theorem setGiven_number (env : KvEnv) (crossApp : Bool) (key : Text) (value : Json)
    (expireAt : Option ℚ) (disableSharing : Bool) :
    setGiven env crossApp key value (expireAt.map .number) disableSharing =
      set env crossApp key value expireAt disableSharing := by
  rw [setGiven, givenItem_number]
  rfl

def BatchItem.given (item : BatchItem) : GivenItem :=
  ⟨item.key, some item.value, item.expireAt.map .number⟩

theorem lastGiven_given (items : List BatchItem) :
    lastGiven (items.map BatchItem.given) = (lastByKey items).map BatchItem.given := by
  induction items with
  | nil => rfl
  | cons item rest ih =>
      simp only [List.map_cons, lastGiven, lastByKey, List.any_map, ih]
      change (if rest.any (·.key = item.key) then _ else _) = _
      split <;> rfl

theorem forEach_map {ε σ α β : Type} (step : β → EStateM ε σ Unit) (f : α → β) (items : List α) :
    forEach step (items.map f) = forEach (fun item => step (f item)) items := by
  induction items with
  | nil => rfl
  | cons item rest ih =>
      simp only [List.map_cons, forEach, ih]

theorem batchPutGiven_given (env : KvEnv) (crossApp : Bool) (items : List BatchItem)
    (disableSharing : Bool) :
    batchPutGiven env crossApp (items.map BatchItem.given) disableSharing =
      batchPut env crossApp items disableSharing := by
  simp only [batchPutGiven, batchPut, lastGiven_given, forEach_map, List.map_map]
  simp only [BatchItem.given, givenItem_number, Option.getD_some, Function.comp_def]

def flush (env : KvEnv) : KvRun Bool := do
  let table ← getThe KvTable
  let found := candidates table none none
  let seen := found.take (evaluatedCount env 0 found)
  modify fun table : KvTable => seen.foldl (fun table entry => table.erase entry.1) table
  pure true

/-- A value of an increment: a finite number, a number that cannot be stored, or no number. -/
inductive GivenAmount where
  | finite (n : ℚ)
  | special
  | notNumber

namespace GivenAmount

def ofJson : Json → GivenAmount
  | .number n => .finite n
  | _ => .notNumber

/-- What `-v` gives. -/
def negated : JsNumber → GivenAmount
  | .finite n => .finite (-n)
  | .nan | .infinite => .special

def amount? : GivenAmount → Option ℚ
  | .finite n => some n
  | _ => none

def isNumber : GivenAmount → Bool
  | .notNumber => false
  | _ => true

end GivenAmount

/-- `incr` with amounts of any value. The database client does not marshal a special number. -/
def incrGiven (env : KvEnv) (crossApp : Bool) (key : Text)
    (pathAndAmountMap : List (Text × GivenAmount)) : KvRun (Option Json) :=
  match pathAndAmountMap.mapM fun entry => entry.2.amount?.map (entry.1, ·) with
  | some amounts => incr env crossApp key amounts none
  | none => do
      assertKey key
      refuseIf (!pathAndAmountMap.all (·.2.isNumber))
        (badRequest "kv: all values in pathAndAmountMap must be numbers".toList)
      assertPaths (pathAndAmountMap.map Prod.fst)
      assertNotPrivate crossApp key
      throw internalError

/-- What `Number(ttl)` comes to in `update`: seconds, or how the call fails. -/
def ttlSeconds (numberOf : Json → Option JsNumber) (ttl : Json) : Except KvError ℚ :=
  match numberOf ttl with
  | some (.finite n) => .ok n
  | some .nan => .error (badRequest "kv: ttl must be a number".toList)
  | some .infinite | none => .error internalError

/-- `update` with an expiry of any value. One that is no number fails after the layers are written. -/
def updateGiven (env : KvEnv) (numberOf : Json → Option JsNumber) (crossApp : Bool) (key : Text)
    (pathAndValueMap : List (Text × Json)) (ttl : Option Json) : KvRun (Option Json) :=
  match ttl with
  | none => update env crossApp key pathAndValueMap none
  | some ttl =>
      match ttlSeconds numberOf ttl with
      | .ok seconds => update env crossApp key pathAndValueMap (some seconds)
      | .error error => do
          assertKey key
          refuseIf pathAndValueMap.isEmpty (badRequest "kv: update requires pathAndValueMap".toList)
          forEach (fun entry => assertValue env entry.2) pathAndValueMap
          let paths := pathAndValueMap.map Prod.fst
          assertPaths paths
          assertNotPrivate crossApp key
          createPaths env key paths
          throw error

/-- A path that a `remove` names. -/
def pathOf : Json → Option Text
  | .text valPath => some valPath
  | _ => none

/-- `assertPath` on any value. -/
def assertGivenPath (valPath : Json) : KvRun Unit :=
  match pathOf valPath with
  | some valPath => assertPath valPath
  | none => throw (badRequest "kv: path must be a string".toList)

/-- `remove` with paths of any value. -/
def removeGiven (env : KvEnv) (crossApp : Bool) (key : Text) (paths : List Json) :
    KvRun (Option Json) :=
  match paths.mapM pathOf with
  | some paths => remove env crossApp key paths
  | none => do
      assertKey key
      forEach assertGivenPath paths
      throw internalError

end SystemKVStore

namespace KVStoreDriver

def coerceKey (ctx : KvContext) : Option Json → Except KvError Text
  | none | some .null => .error missingKey
  | some (.text key) => if key = [] then .error missingKey else .ok key
  | some value =>
      match ctx.stringOf value with
      | none => .error internalError
      | some key => if key = [] then .error missingKey else .ok key

def orFail {α : Type} : Except KvError α → DriverRun α
  | .ok a => pure a
  | .error error => throw error

def assertCrossAppExpiry (ctx : KvContext) (targetAppUid : Text) : DriverRun Unit :=
  refuseIf (!ctx.check (appDataPermission targetAppUid deleteClass)) permissionDenied

def assertCrossAppKvAccess (ctx : KvContext) (targetAppUid : Text) (method : KvMethod)
    (args : KvCallArgs) : DriverRun Unit := do
  let op ← orThrow (forbidden "kv: `flush` is not available on another app's data".toList) method.op
  let metadata ← orThrow
    (.http ⟨404, "entity_not_found: app:".toList ++ targetAppUid, "subject_does_not_exist".toList⟩)
    (ctx.appByUid targetAppUid)
  refuseIf (!appDataSharingAllowed metadata)
    (forbidden "kv: this app does not share its data with other apps".toList)
  refuseIf (!ctx.check (appDataPermission targetAppUid op.name)) permissionDenied
  runIf (ttlParams.any fun param => present (args.arg param)) (assertCrossAppExpiry ctx targetAppUid)

def assertActorHasCredits (ctx : KvContext) : DriverRun Unit :=
  refuseIf (!ctx.hasCredits)
    (.http ⟨402, "No usage left for request.".toList, "insufficient_funds".toList⟩)

def crossAppTarget (ctx : KvContext) (args : KvCallArgs) : Option Text :=
  match ctx.actor.bind Actor.effectiveApp, args.appUuid with
  | some app, some appUuid =>
      if app.uid = [] ∨ appUuid = [] ∨ appUuid = app.uid then none else some appUuid
  | _, _ => none

/-- `#opts`: the options of the store, resolved from the actor and the arguments. -/
def opts (ctx : KvContext) (method : KvMethod) (args : KvCallArgs) : DriverRun KVOpts := do
  runIf (!method.creditUngated) (assertActorHasCredits ctx)
  match crossAppTarget ctx args with
  | some appUuid => do
      refuseIf args.disableSharing
        (badRequest "kv: `disableSharing` cannot be set on another app's data".toList)
      assertCrossAppKvAccess ctx appUuid method args
      pure ⟨ctx.actor, none, some appUuid⟩
  | none =>
      -- An app on its own data needs no override; a user or a token of one may name an app.
      let ownAppUid := (ctx.actor.bind Actor.effectiveApp).map ActorApp.uid
      pure ⟨ctx.actor, if (ownAppUid.getD []).isEmpty then args.appUuid else none, none⟩

def onStore {α : Type} (opts : KVOpts) (operation : Bool → KvRun α) : DriverRun α :=
  within (fun tables : KvTables => tables (SystemKVStore.getNamespace opts))
    (fun tables table => Function.update tables (SystemKVStore.getNamespace opts) table)
    (operation opts.namespaceAppUuid.isSome)

section Methods

variable (ctx : KvContext) (args : KvCallArgs)

def key : Option Json := args.arg "key".toList

def get : DriverRun KvResponse := do
  refuseIf (!present (key args)) missingKey
  let opts ← opts ctx .get args
  match key args with
  | some (.list []) => pure (.values [])
  | some (.list keys) => do
      let coerced ← orFail (keys.mapM fun key => coerceKey ctx (some key))
      let values ← onStore opts fun crossApp => SystemKVStore.get ctx.toKvEnv crossApp coerced
      pure (.values values)
  | key => do
      let coerced ← orFail (coerceKey ctx key)
      let values ← onStore opts fun crossApp => SystemKVStore.get ctx.toKvEnv crossApp [coerced]
      pure (.values values)

def set : DriverRun KvResponse := do
  let coerced ← orFail (coerceKey ctx (key args))
  let value ← orThrow (badRequest "Missing `value`".toList) (args.arg "value".toList)
  let opts ← opts ctx .set args
  let ok ← onStore opts fun crossApp =>
    SystemKVStore.setGiven ctx.toKvEnv crossApp coerced value (args.arg "expireAt".toList)
      args.disableSharing
  pure (.done ok)

/-- An item of the `items` argument. Nothing can be read of `null`; other values that are no object have
    no key. -/
def coerceItem : Json → Except KvError SystemKVStore.GivenItem
  | .null => .error internalError
  | .map fields => do
      let coerced ← coerceKey ctx (field "key".toList fields)
      pure ⟨coerced, field "value".toList fields, field "expireAt".toList fields⟩
  | _ => .error missingKey

/-- The `items` argument: a list that is not empty. -/
def items : Option (List Json) :=
  match args.arg "items".toList with
  | some (.list (item :: rest)) => some (item :: rest)
  | _ => none

def batchPut : DriverRun KvResponse := do
  let items ← orThrow (badRequest "Missing or empty `items`".toList) (items args)
  let coerced ← orFail (items.mapM (coerceItem ctx))
  let opts ← opts ctx .batchPut args
  -- Per-item expiry, which the scan of the arguments in `opts` cannot see.
  match opts.namespaceAppUuid with
  | some appUuid =>
      runIf (coerced.any fun item => present item.expireAt) (assertCrossAppExpiry ctx appUuid)
  | none => pure ()
  let ok ← onStore opts fun crossApp =>
    SystemKVStore.batchPutGiven ctx.toKvEnv crossApp coerced args.disableSharing
  pure (.done ok)

def del : DriverRun KvResponse := do
  let coerced ← orFail (coerceKey ctx (key args))
  let opts ← opts ctx .del args
  let ok ← onStore opts fun crossApp => SystemKVStore.del crossApp coerced
  pure (.done ok)

def listsKeys : Bool :=
  match args.arg "as".toList with
  | some (.text kind) => kind = "keys".toList
  | _ => false

def list : DriverRun KvResponse := do
  let opts ← opts ctx .list args
  runIf (!listsKeys args) (assertActorHasCredits ctx)
  let listOpts ← orFail (ctx.listOpts args)
  let result ← onStore opts fun crossApp => SystemKVStore.list ctx.toKvEnv crossApp listOpts
  pure (.listing result)

def flush : DriverRun KvResponse := do
  let opts ← opts ctx .flush args
  let ok ← onStore opts fun _ => SystemKVStore.flush ctx.toKvEnv
  pure (.done ok)

def mapArgument (name : Text) : DriverRun (List (Text × Json)) :=
  orThrow (badRequest ("Missing or invalid `".toList ++ name ++ ['`'])) ((args.arg name).bind entriesOf)

def amountsName : Text := "pathAndAmountMap".toList

def valuesName : Text := "pathAndValueMap".toList

def incr : DriverRun KvResponse := do
  let coerced ← orFail (coerceKey ctx (key args))
  let entries ← mapArgument args amountsName
  let opts ← opts ctx .incr args
  let value ← onStore opts fun crossApp =>
    SystemKVStore.incrGiven ctx.toKvEnv crossApp coerced
      (entries.map fun entry => (entry.1, SystemKVStore.GivenAmount.ofJson entry.2))
  pure (.value value)

def negate (entries : List (Text × Json)) :
    Except KvError (List (Text × SystemKVStore.GivenAmount)) :=
  entries.mapM fun entry =>
    match ctx.numberOf entry.2 with
    | some n => .ok (entry.1, SystemKVStore.GivenAmount.negated n)
    | none => .error internalError

def decr : DriverRun KvResponse := do
  let coerced ← orFail (coerceKey ctx (key args))
  let entries ← mapArgument args amountsName
  let opts ← opts ctx .decr args
  let negated ← orFail (negate ctx entries)
  let value ← onStore opts fun crossApp =>
    SystemKVStore.incrGiven ctx.toKvEnv crossApp coerced negated
  pure (.value value)

def numberArgument (name : Text) : Option ℚ :=
  match args.arg name with
  | some (.number n) => some n
  | _ => none

def expireAt : DriverRun KvResponse := do
  let coerced ← orFail (coerceKey ctx (key args))
  let timestamp ← orThrow (badRequest "`timestamp` must be a number".toList)
    (numberArgument args "timestamp".toList)
  let opts ← opts ctx .expireAt args
  onStore opts fun crossApp => SystemKVStore.expireAt ctx.toKvEnv crossApp coerced timestamp
  pure .nothing

def expire : DriverRun KvResponse := do
  let coerced ← orFail (coerceKey ctx (key args))
  let ttl ← orThrow (badRequest "`ttl` must be a number (seconds)".toList)
    (numberArgument args "ttl".toList)
  let opts ← opts ctx .expire args
  onStore opts fun crossApp => SystemKVStore.expire ctx.toKvEnv crossApp coerced ttl
  pure .nothing

def update : DriverRun KvResponse := do
  let coerced ← orFail (coerceKey ctx (key args))
  let entries ← mapArgument args valuesName
  let opts ← opts ctx .update args
  let value ← onStore opts fun crossApp =>
    SystemKVStore.updateGiven ctx.toKvEnv ctx.numberOf crossApp coerced entries (args.arg "ttl".toList)
  pure (.value value)

def add : DriverRun KvResponse := do
  let coerced ← orFail (coerceKey ctx (key args))
  let entries ← mapArgument args valuesName
  let opts ← opts ctx .add args
  let value ← onStore opts fun crossApp => SystemKVStore.add ctx.toKvEnv crossApp coerced entries
  pure (.value value)

/-- The `paths` argument: a list that is not empty. -/
def paths : Option (List Json) :=
  match args.arg "paths".toList with
  | some (.list (valPath :: rest)) => some (valPath :: rest)
  | _ => none

def remove : DriverRun KvResponse := do
  let coerced ← orFail (coerceKey ctx (key args))
  let paths ← orThrow (badRequest "Missing or invalid `paths`".toList) (paths args)
  let opts ← opts ctx .remove args
  let value ← onStore opts fun crossApp => SystemKVStore.removeGiven ctx.toKvEnv crossApp coerced paths
  pure (.value value)

def call : KvMethod → DriverRun KvResponse
  | .get => get ctx args
  | .set => set ctx args
  | .batchPut => batchPut ctx args
  | .del => del ctx args
  | .list => list ctx args
  | .flush => flush ctx args
  | .incr => incr ctx args
  | .decr => decr ctx args
  | .expireAt => expireAt ctx args
  | .expire => expire ctx args
  | .update => update ctx args
  | .add => add ctx args
  | .remove => remove ctx args

end Methods

end KVStoreDriver

end Puter

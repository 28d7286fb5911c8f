/-
Module: Puter.Auth.AccessTokens
Purpose: Minting of access tokens (createAccessToken of services/auth/AuthService.ts): the issuer is asked
  whether it holds a filtered and deduplicated copy of the permissions, and a grant is then stored for each
  element of the list itself. What is stored was granted exactly when the copy leaves nothing out but the
  full-access sentinel.
Trusted boundary: what jsonwebtoken signs and what the database takes for the permission column are
  parameters; the session row is stored without fail, and its expiry is not negative.
Main exports: PermissionSpec, carriesWithinIssuer_iff
-/
import Puter.Auth.AuthService
import Puter.Kv.SystemKVStore
import Puter.Permission.PermissionService

namespace Puter

open StateRun

def fullApiAccess : Text := "full-api-access".toList

/-- The `expiresIn` of jsonwebtoken: seconds, or a duration. -/
inductive ExpiresIn where
  | seconds (count : ℚ)
  | duration (text : Text)
deriving DecidableEq, Repr

def unitSeconds (unit : Char) : Option ℕ :=
  [('s', 1), ('m', 60), ('h', 60 * 60), ('d', 24 * 60 * 60), ('w', 7 * 24 * 60 * 60),
    ('y', 365 * 24 * 60 * 60)].lookup unit

def hardExpiryFromExpiresIn (now : ℕ) : Option ExpiresIn → Option ℕ
  | none => none
  | some (.seconds count) => some (now + ⌊count⌋ : ℤ).toNat
  | some (.duration text) =>
      let trimmed := PosixPath.trim text
      let digits := trimmed.takeWhile Char.isDigit
      let rest := (trimmed.dropWhile Char.isDigit).dropWhile PosixPath.isSpace
      let value := digits.foldl (fun acc digit => 10 * acc + (digit.toNat - '0'.toNat)) 0
      if digits = [] then none
      else
        match rest with
        | [] => some (now + value)
        | [unit] => (unitSeconds unit).map fun seconds => now + value * seconds
        | _ => none

/-- A row of `access_token_permissions`. The permission is the value bound for its column. -/
structure AccessTokenGrant where
  tokenUid : Text
  authorizerUserId : ℕ
  authorizerAppId : Option ℕ
  permission : Json
  extra : Json

/-- The claims a minted token carries. -/
structure MintedToken where
  tokenUid : Text
  userUid : Text
  sessionUid : Text
  authId : Text
  appUid : Option Text
  fullAccess : Bool
  expiresIn : Option ExpiresIn
deriving DecidableEq, Repr

/-- How a mint fails. -/
inductive MintError where
  | http (error : HttpError)
  | typeError
  | scan (error : ScanError)
  | sign
  | database
deriving DecidableEq, Repr

/-- What a mint reads and writes. A decision of the check cache is keyed by the actor, the permission and
    the generation. -/
structure MintState where
  permissions : PermissionWorld
  checkCache : Text × Text × Text → Option Bool
  sessions : List SessionRow
  grants : List AccessTokenGrant

abbrev MintRun := EStateM MintError MintState

def onPermissions {α : Type} (run : ServiceRun α) : MintRun α := fun s =>
  match run s.permissions with
  | .ok a world => .ok a { s with permissions := world }
  | .error error world => .error (.scan error) { s with permissions := world }

namespace PermissionSpec

/-- A spec as destructuring reads it: an array by its elements, a text by its characters, and nothing else
    is iterable. -/
def elements : Json → Option (List Json)
  | .list items => some items
  | .text t => some (t.map fun c => .text [c])
  | _ => none

/-- The `p` of `([p]) => ..`, which may be undefined. -/
def permission (spec : Json) : Option (Option Json) := (elements spec).map List.head?

/-- The `extra` of `[permission, extra]`. -/
def extra (spec : Json) : Option Json := (elements spec).bind fun items => items[1]?

def isFullAccess : Option Json → Bool
  | some (.text t) => t = fullApiAccess
  | _ => false

def requested : Option Json → Option Text
  | some (.text t) => if t = [] ∨ t = fullApiAccess then none else some t
  | _ => none

/-- `permissions.some(([p]) => p === FULL_API_ACCESS)`. -/
def wantsFullAccess : List Json → Except MintError Bool
  | [] => .ok false
  | spec :: rest =>
      match permission spec with
      | none => .error .typeError
      | some p => if isFullAccess p then .ok true else wantsFullAccess rest

end PermissionSpec

/-- `requestedPerms`, of the first elements of the specs. -/
def requestedPerms (firsts : List (Option Json)) : List Text :=
  (firsts.filterMap PermissionSpec.requested).eraseDups

/-- Who mints, with what. -/
structure MintRequest where
  actor : Actor
  session : Option ActorSession
  permissions : List Json
  expiresIn : Option ExpiresIn
  tokenUid : Text
  sessionUuid : Text

namespace MintError

def accessTokensMayNotCreate : MintError :=
  .http ⟨403, "Access tokens may not create access tokens".toList, "forbidden".toList⟩

def appsMayNotMintFullAccess : MintError :=
  .http ⟨403, "Apps may not mint full-access tokens".toList, "forbidden".toList⟩

def issuerLacks (missing : List Text) : MintError :=
  .http ⟨403, "Issuer lacks permission(s): ".toList ++ ", ".toList.intercalate missing,
    "forbidden".toList⟩

end MintError

namespace Actor

def app : Actor → Option ActorApp
  | .appUnderUser _ app => some app
  | _ => none

/-- `!!actor.accessToken`. -/
def isAccessToken : Actor → Bool
  | .accessToken .. => true
  | _ => false

end Actor

/-- What minting rests on. `signs` says which lifetimes jsonwebtoken takes, `columnTakes` which values the
    permission column takes. -/
structure AccessTokenService where
  permission : PermissionService
  fuel : ℕ
  now : ℕ
  signs : Option ExpiresIn → Bool
  columnTakes : Json → Bool

namespace AccessTokenService

variable (service : AccessTokenService)

/-- One miss of `checkMany`: a check that throws counts as not granted. -/
def checkOne (actor : Actor) (permission : Text) : ServiceRun Bool :=
  tryCatch (service.permission.runScan fun env => check env true service.fuel actor [permission])
    fun error => if error = .diverged then throw error else pure false

/-- `checkMany`, with the decisions in the order they are entered. -/
def checkMany (actor : Actor) (permissions : List Text) : MintRun (List (Text × Bool)) := do
  let dedup := (permissions.filter (!·.isEmpty)).eraseDups
  if isSystemActor actor then
    return dedup.map (·, true)
  else
    let s ← get
    let generation := (service.permission.env s.permissions).cacheGenerationTag actor
    let cached := fun permission => s.checkCache (actorUid actor, permission, generation)
    let missing := dedup.filter fun permission => (cached permission).isNone
    let checked ← onPermissions (missing.mapM (service.checkOne actor))
    modify fun s => { s with
      checkCache := fun key =>
        if key.1 = actorUid actor ∧ key.2.2 = generation then
          ((missing.zip checked).lookup key.2.1).or (s.checkCache key)
        else s.checkCache key }
    return dedup.filterMap (fun permission => (cached permission).map (permission, ·)) ++
      missing.zip checked

def tokenSession (request : MintRequest) : SessionRow where
  uuid := request.sessionUuid
  userId := request.actor.accountUser.id
  kind := .accessToken
  parentSessionId := if request.actor.app.isSome then request.session.map ActorSession.uid else none
  appUid := none
  workerName := none
  legacyTokenUid := none
  accessTokenUid := some request.tokenUid
  createdVia := none
  lastIp := none
  lastUserAgent := none
  expiresAt := hardExpiryFromExpiresIn service.now request.expiresIn
  revokedAt := none

def jwtPayload (request : MintRequest) (wantsFullAccess : Bool) : MintedToken where
  tokenUid := request.tokenUid
  userUid := request.actor.accountUser.uuid
  sessionUid := request.sessionUuid
  authId := AuthService.authIdFor request.actor.accountUser
  appUid := request.actor.app.map ActorApp.uid
  fullAccess := wantsFullAccess
  expiresIn := request.expiresIn

def grantRow (request : MintRequest) (permission : Json) (extra : Option Json) : AccessTokenGrant where
  tokenUid := request.tokenUid
  authorizerUserId := request.actor.accountUser.id
  authorizerAppId := request.actor.app.map ActorApp.id
  permission := permission
  extra := (extra.filter truthy).getD (.map [])

def grantRows (request : MintRequest) (specs : List Json) : List AccessTokenGrant :=
  specs.filterMap fun spec =>
    match PermissionSpec.permission spec with
    | some (some permission) =>
        if PermissionSpec.isFullAccess (some permission) then none
        else some (grantRow request permission (PermissionSpec.extra spec))
    | _ => none

def storeGrant (request : MintRequest) (spec : Json) : MintRun Unit :=
  match PermissionSpec.permission spec with
  | none => throw .typeError
  | some none => throw .database
  | some (some permission) =>
      if PermissionSpec.isFullAccess (some permission) then pure ()
      else if service.columnTakes permission then
        modify fun s =>
          { s with grants := s.grants ++ [grantRow request permission (PermissionSpec.extra spec)] }
      else throw .database

def requireHeld (actor : Actor) (requested : List Text) : MintRun Unit :=
  if requested = [] then pure ()
  else do
    let granted ← service.checkMany actor requested
    let missing := requested.filter fun permission => granted.lookup permission != some true
    refuseIf (!missing.isEmpty) (.issuerLacks missing)

def createAccessToken (request : MintRequest) : MintRun MintedToken := do
  refuseIf request.actor.isAccessToken .accessTokensMayNotCreate
  let wantsFullAccess ← MonadExcept.ofExcept (PermissionSpec.wantsFullAccess request.permissions)
  refuseIf (wantsFullAccess && request.actor.app.isSome) .appsMayNotMintFullAccess
  let firsts ← orThrow .typeError (request.permissions.mapM PermissionSpec.permission)
  service.requireHeld request.actor (requestedPerms firsts)
  modify fun s => { s with sessions := s.sessions ++ [service.tokenSession request] }
  refuseIf (!service.signs request.expiresIn) .sign
  forEach (service.storeGrant request) request.permissions
  return jwtPayload request wantsFullAccess

def requestedOf (specs : List Json) : List Text :=
  requestedPerms (specs.filterMap PermissionSpec.permission)

def asksFullAccess (specs : List Json) : Bool :=
  specs.any fun spec => (PermissionSpec.permission spec).any PermissionSpec.isFullAccess

def Holds (actor : Actor) (requested : List Text) (s : MintState) : Prop :=
  requested = [] ∨ ∃ granted between, service.checkMany actor requested s = .ok granted between ∧
    ∀ permission ∈ requested, granted.lookup permission = some true

def Stores (spec : Json) : Prop :=
  ∃ permission, PermissionSpec.permission spec = some (some permission) ∧
    (PermissionSpec.isFullAccess (some permission) ∨ service.columnTakes permission)

/-- No check refuses the call: it is not made by a token, full access is asked for by a user alone, the issuer
    holds what is asked for, and neither jsonwebtoken nor the database refuses a value. -/
structure Mints (request : MintRequest) (s : MintState) : Prop where
  issuer : request.actor.isAccessToken = false
  fullAccess : asksFullAccess request.permissions → request.actor.app = none
  held : service.Holds request.actor (requestedOf request.permissions) s
  signs : service.signs request.expiresIn
  stores : ∀ spec ∈ request.permissions, service.Stores spec

end AccessTokenService

def GrantsKept (s s' : MintState) : Prop := s'.grants = s.grants

instance : IsPreorder MintState GrantsKept where
  refl _ := rfl
  trans _ _ _ one two := Eq.trans two one

namespace AccessTokenService

variable {service : AccessTokenService} {request : MintRequest} {actor : Actor} {s s' : MintState}

theorem onPermissions_keeps {α : Type} (run : ServiceRun α) : Keeps GrantsKept (onPermissions run) := by
  intro s
  unfold onPermissions
  cases run s.permissions with
  | ok a world => rfl
  | error e world => rfl

theorem checkMany_keeps (service : AccessTokenService) (actor : Actor) (permissions : List Text) :
    Keeps GrantsKept (service.checkMany actor permissions) := by
  unfold checkMany
  dsimp only
  split
  · exact .pure _
  · refine .bind .get fun s => .bind (onPermissions_keeps _) fun checked => .bind ?_ fun _ => .pure _
    exact fun s => rfl

theorem checkMany_nonempty {permissions : List Text} {granted : List (Text × Bool)}
    (ran : service.checkMany actor permissions s = .ok granted s') {permission : Text} {decision : Bool}
    (decided : granted.lookup permission = some decision) : permission ≠ [] := by
  have named : ∀ pair ∈ granted, pair.1 ∈ permissions.filter (!·.isEmpty) := by
    unfold checkMany at ran
    dsimp only at ran
    split at ran
    · obtain ⟨rfl, -⟩ := pure_ok.mp ran
      intro pair member
      obtain ⟨permission, dedup, rfl⟩ := List.mem_map.mp member
      exact List.mem_eraseDups.mp dedup
    · obtain ⟨_, _, _, ran⟩ := bind_ok.mp ran
      obtain ⟨_, _, _, ran⟩ := bind_ok.mp ran
      obtain ⟨_, _, _, ran⟩ := bind_ok.mp ran
      obtain ⟨rfl, -⟩ := pure_ok.mp ran
      intro pair member
      rcases List.mem_append.mp member with cached | checked
      · obtain ⟨permission, dedup, entry⟩ := List.mem_filterMap.mp cached
        obtain ⟨_, _, rfl⟩ := Option.map_eq_some_iff.mp entry
        exact List.mem_eraseDups.mp dedup
      · have missing := (List.of_mem_zip checked).1
        exact List.mem_eraseDups.mp (List.mem_filter.mp missing).1
  obtain ⟨before, after, split, -⟩ := List.lookup_eq_some_iff.mp decided
  have nonempty := (List.mem_filter.mp (named (permission, decision) (by rw [split]; simp))).2
  simpa using nonempty

theorem requireHeld_keeps (service : AccessTokenService) (actor : Actor) (requested : List Text) :
    Keeps GrantsKept (service.requireHeld actor requested) := by
  unfold requireHeld
  split
  · exact .pure ()
  · exact .bind (checkMany_keeps service actor requested) fun _ => .refuseIf _ _

theorem requireHeld_ok {requested : List Text} :
    (∃ between, service.requireHeld actor requested s = .ok () between) ↔
      service.Holds actor requested s := by
  unfold requireHeld Holds
  by_cases nothing : requested = []
  · simp only [nothing, true_or, iff_true]
    exact ⟨s, rfl⟩
  · simp only [nothing, false_or]
    constructor
    · rintro ⟨between, ran⟩
      obtain ⟨granted, checked, asked, rest⟩ := bind_ok.mp ran
      obtain ⟨held, -⟩ := refuseIf_ok.mp rest
      exact ⟨granted, checked, asked, by simpa using held⟩
    · rintro ⟨granted, checked, asked, held⟩
      refine ⟨checked, bind_ok.mpr ⟨granted, checked, asked, refuseIf_ok.mpr ⟨?_, rfl⟩⟩⟩
      have nothingMissing : requested.filter (fun p => granted.lookup p != some true) = [] :=
        List.filter_eq_nil_iff.mpr fun permission member => by simp [held permission member]
      simp [nothingMissing]

theorem specs_read {specs : List Json} (iterable : ∀ spec ∈ specs, (PermissionSpec.permission spec).isSome) :
    specs.mapM PermissionSpec.permission = some (specs.filterMap PermissionSpec.permission) ∧
      PermissionSpec.wantsFullAccess specs = .ok (asksFullAccess specs) := by
  induction specs with
  | nil => exact ⟨rfl, rfl⟩
  | cons spec rest ih =>
      obtain ⟨first, read⟩ := Option.isSome_iff_exists.mp (iterable spec List.mem_cons_self)
      obtain ⟨firsts, full⟩ :=
        ih fun other member => iterable other (List.mem_cons_of_mem _ member)
      constructor
      · simp [read, firsts]
      · simp only [PermissionSpec.wantsFullAccess, read, asksFullAccess, List.any_cons, Option.any_some]
        split
        · rename_i sentinel
          simp [sentinel]
        · rename_i other
          rw [full, asksFullAccess]
          simp [other]

theorem iterable_of_mapM {specs : List Json} {firsts : List (Option Json)}
    (read : specs.mapM PermissionSpec.permission = some firsts) :
    ∀ spec ∈ specs, (PermissionSpec.permission spec).isSome := by
  induction specs generalizing firsts with
  | nil => exact fun spec member => absurd member List.not_mem_nil
  | cons spec rest ih =>
      rw [List.mapM_cons] at read
      obtain ⟨first, one, more⟩ := Option.bind_eq_some_iff.mp read
      obtain ⟨others, all, -⟩ := Option.bind_eq_some_iff.mp more
      intro other member
      rcases List.mem_cons.mp member with rfl | later
      · rw [one]
        rfl
      · exact ih all other later

theorem storeGrant_ok {spec : Json} {u : Unit} :
    service.storeGrant request spec s = .ok u s' ↔
      service.Stores spec ∧ { s with grants := s.grants ++ grantRows request [spec] } = s' := by
  unfold storeGrant Stores grantRows
  cases read : PermissionSpec.permission spec with
  | none => simp [throw_ok]
  | some first =>
      cases first with
      | none => simp [throw_ok]
      | some permission =>
          simp only [Option.some.injEq, exists_eq_left', List.filterMap_cons, read, List.filterMap_nil]
          by_cases sentinel : PermissionSpec.isFullAccess (some permission)
          · simp [sentinel, pure_ok]
          · by_cases taken : service.columnTakes permission
            · simp [sentinel, taken, modify_ok]
            · simp [sentinel, taken, throw_ok]

theorem storeGrant_error {spec : Json} {e : MintError}
    (failed : service.storeGrant request spec s = .error e s') : s' = s := by
  unfold storeGrant at failed
  cases read : PermissionSpec.permission spec with
  | none =>
      rw [read] at failed
      exact (throw_error.mp failed).2.symm
  | some first =>
      rw [read] at failed
      cases first with
      | none => exact (throw_error.mp failed).2.symm
      | some permission =>
          dsimp only at failed
          split at failed
          · exact absurd failed pure_error
          · split at failed
            · exact absurd failed modify_error
            · exact (throw_error.mp failed).2.symm

theorem grantRows_cons (request : MintRequest) (spec : Json) (rest : List Json) :
    grantRows request (spec :: rest) = grantRows request [spec] ++ grantRows request rest := by
  rw [grantRows, ← List.singleton_append, List.filterMap_append]
  rfl

theorem storeGrants_ok {specs : List Json} {u : Unit} :
    forEach (service.storeGrant request) specs s = .ok u s' ↔
      (∀ spec ∈ specs, service.Stores spec) ∧
        { s with grants := s.grants ++ grantRows request specs } = s' := by
  induction specs generalizing s with
  | nil => simp [forEach, pure_ok, grantRows]
  | cons spec rest ih =>
      rw [forEach, bind_ok]
      constructor
      · rintro ⟨_, between, first, others⟩
        obtain ⟨stores, rfl⟩ := storeGrant_ok.mp first
        obtain ⟨storesRest, rfl⟩ := ih.mp others
        refine ⟨List.forall_mem_cons.mpr ⟨stores, storesRest⟩, ?_⟩
        rw [grantRows_cons, List.append_assoc]
      · rintro ⟨stores, rfl⟩
        obtain ⟨first, others⟩ := List.forall_mem_cons.mp stores
        refine ⟨(), _, storeGrant_ok.mpr ⟨first, rfl⟩, ih.mpr ⟨others, ?_⟩⟩
        rw [grantRows_cons request spec rest, List.append_assoc]

theorem storeGrants_error {specs : List Json} {e : MintError}
    (failed : forEach (service.storeGrant request) specs s = .error e s') :
    ∃ stored, stored <+: specs ∧ s'.grants = s.grants ++ grantRows request stored := by
  induction specs generalizing s with
  | nil => exact absurd failed pure_error
  | cons spec rest ih =>
      rw [forEach, bind_error] at failed
      rcases failed with first | ⟨_, between, first, others⟩
      · refine ⟨[], List.nil_prefix, ?_⟩
        rw [storeGrant_error first]
        simp [grantRows]
      · obtain ⟨-, rfl⟩ := storeGrant_ok.mp first
        obtain ⟨stored, initial, grants⟩ := ih others
        refine ⟨spec :: stored, List.cons_prefix_cons.mpr ⟨rfl, initial⟩, ?_⟩
        rw [grants, grantRows_cons request spec stored, List.append_assoc]

theorem ofExcept_ok {α : Type} {result : Except MintError α} {a : α} :
    (MonadExcept.ofExcept result : MintRun α) s = .ok a s' ↔ result = .ok a ∧ s = s' := by
  cases result with
  | ok b => simp [MonadExcept.ofExcept, pure_ok]
  | error e => simp [MonadExcept.ofExcept, throw_ok]

theorem ofExcept_keeps {α : Type} (result : Except MintError α) :
    Keeps GrantsKept (MonadExcept.ofExcept result : MintRun α) := by
  cases result with
  | ok a => exact .pure a
  | error e => exact .throw e

theorem createAccessToken_ok {token : MintedToken}
    (ran : service.createAccessToken request s = .ok token s') :
    service.Mints request s ∧ token = jwtPayload request (asksFullAccess request.permissions) ∧
      s'.grants = s.grants ++ grantRows request request.permissions := by
  unfold createAccessToken at ran
  obtain ⟨_, _, guard, ran⟩ := bind_ok.mp ran
  obtain ⟨issuer, rfl⟩ := refuseIf_ok.mp guard
  obtain ⟨full, _, searched, ran⟩ := bind_ok.mp ran
  obtain ⟨asked, rfl⟩ := ofExcept_ok.mp searched
  obtain ⟨_, _, guard, ran⟩ := bind_ok.mp ran
  obtain ⟨noApp, rfl⟩ := refuseIf_ok.mp guard
  obtain ⟨firsts, _, found, ran⟩ := bind_ok.mp ran
  obtain ⟨read, rfl⟩ := orThrow_ok.mp found
  obtain ⟨_, checked, held, ran⟩ := bind_ok.mp ran
  obtain ⟨_, _, inserted, ran⟩ := bind_ok.mp ran
  obtain rfl := modify_ok.mp inserted
  obtain ⟨_, _, guard, ran⟩ := bind_ok.mp ran
  obtain ⟨signs, rfl⟩ := refuseIf_ok.mp guard
  obtain ⟨_, stored, looped, ran⟩ := bind_ok.mp ran
  obtain ⟨rfl, rfl⟩ := pure_ok.mp ran
  obtain ⟨stores, rfl⟩ := storeGrants_ok.mp looped
  obtain ⟨sameFirsts, sameFull⟩ := specs_read (iterable_of_mapM read)
  obtain rfl : firsts = _ := Option.some.inj (read.symm.trans sameFirsts)
  obtain rfl : full = _ := Except.ok.inj (asked.symm.trans sameFull)
  have kept : checked.grants = s.grants := (requireHeld_keeps service request.actor _).ok held
  refine ⟨⟨issuer, fun wants => ?_, requireHeld_ok.mp ⟨checked, held⟩, by simpa using signs, stores⟩, rfl, ?_⟩
  · rw [wants, Bool.true_and] at noApp
    simpa using noApp
  · exact congrArg (· ++ grantRows request request.permissions) kept

theorem createAccessToken_returns (mints : service.Mints request s) :
    ∃ token s', service.createAccessToken request s = .ok token s' := by
  have iterable : ∀ spec ∈ request.permissions, (PermissionSpec.permission spec).isSome := by
    intro spec member
    obtain ⟨permission, read, -⟩ := mints.stores spec member
    rw [read]
    rfl
  obtain ⟨sameFirsts, sameFull⟩ := specs_read iterable
  obtain ⟨checked, held⟩ := requireHeld_ok.mpr mints.held
  have noApp : (asksFullAccess request.permissions && request.actor.app.isSome) = false := by
    cases wants : asksFullAccess request.permissions with
    | false => rfl
    | true => simp [mints.fullAccess wants]
  have ran : service.createAccessToken request s =
      .ok (jwtPayload request (asksFullAccess request.permissions)) _ :=
    bind_ok.mpr ⟨(), s, refuseIf_ok.mpr ⟨mints.issuer, rfl⟩,
    bind_ok.mpr ⟨_, s, ofExcept_ok.mpr ⟨sameFull, rfl⟩,
    bind_ok.mpr ⟨(), s, refuseIf_ok.mpr ⟨noApp, rfl⟩,
    bind_ok.mpr ⟨_, s, orThrow_ok.mpr ⟨sameFirsts, rfl⟩,
    bind_ok.mpr ⟨(), checked, held,
    bind_ok.mpr ⟨(), _, modify_ok.mpr rfl,
    bind_ok.mpr ⟨(), _, refuseIf_ok.mpr ⟨by simp [mints.signs], rfl⟩,
    bind_ok.mpr ⟨(), _, storeGrants_ok.mpr ⟨mints.stores, rfl⟩, pure_ok.mpr ⟨rfl, rfl⟩⟩⟩⟩⟩⟩⟩⟩⟩
  exact ⟨_, _, ran⟩

theorem createAccessToken_error {e : MintError}
    (failed : service.createAccessToken request s = .error e s') :
    ∃ stored, stored <+: request.permissions ∧ s'.grants = s.grants ++ grantRows request stored := by
  have untouched : ∀ {between : MintState}, GrantsKept s between →
      ∃ stored, stored <+: request.permissions ∧
        between.grants = s.grants ++ grantRows request stored := by
    intro between kept
    exact ⟨[], List.nil_prefix, by rw [kept]; simp [grantRows]⟩
  unfold createAccessToken at failed
  rcases bind_error.mp failed with first | ⟨_, _, guard, failed⟩
  · exact untouched ((Keeps.refuseIf _ _).error first)
  obtain ⟨-, rfl⟩ := refuseIf_ok.mp guard
  rcases bind_error.mp failed with first | ⟨full, _, searched, failed⟩
  · exact untouched ((ofExcept_keeps _).error first)
  obtain ⟨-, rfl⟩ := ofExcept_ok.mp searched
  rcases bind_error.mp failed with first | ⟨_, _, guard, failed⟩
  · exact untouched ((Keeps.refuseIf _ _).error first)
  obtain ⟨-, rfl⟩ := refuseIf_ok.mp guard
  rcases bind_error.mp failed with first | ⟨firsts, _, found, failed⟩
  · exact untouched ((Keeps.orThrow _ _).error first)
  obtain ⟨-, rfl⟩ := orThrow_ok.mp found
  rcases bind_error.mp failed with first | ⟨_, checked, held, failed⟩
  · exact untouched ((requireHeld_keeps service request.actor _).error first)
  have kept : GrantsKept s checked := (requireHeld_keeps service request.actor _).ok held
  rcases bind_error.mp failed with first | ⟨_, _, inserted, failed⟩
  · exact absurd first modify_error
  obtain rfl := modify_ok.mp inserted
  rcases bind_error.mp failed with first | ⟨_, _, guard, failed⟩
  · obtain ⟨-, -, rfl⟩ := refuseIf_error.mp first
    exact untouched kept
  obtain ⟨-, rfl⟩ := refuseIf_ok.mp guard
  rcases bind_error.mp failed with first | ⟨_, _, -, failed⟩
  · obtain ⟨stored, initial, grants⟩ := storeGrants_error first
    exact ⟨stored, initial, grants.trans (congrArg (· ++ grantRows request stored) kept)⟩
  · exact absurd failed pure_error

/-- The first element of a spec is one that the subset check deals with: the sentinel, or a text that is not
    empty. -/
def ChecksFirst (spec : Json) : Prop :=
  ∀ permission, PermissionSpec.permission spec = some (some permission) →
    PermissionSpec.isFullAccess (some permission) ∨
      (PermissionSpec.requested (some permission)).isSome

theorem requested_eq_some {value : Json} {t : Text} :
    PermissionSpec.requested (some value) = some t ↔
      value = .text t ∧ t ≠ [] ∧ t ≠ fullApiAccess := by
  unfold PermissionSpec.requested
  split
  · rename_i text same
    cases same
    by_cases excluded : text = [] ∨ text = fullApiAccess
    · simp only [excluded, if_true, reduceCtorEq, false_iff]
      rintro ⟨same, nonempty, notSentinel⟩
      cases same
      exact excluded.elim nonempty notSentinel
    · simp only [excluded, if_false, Option.some.injEq, Document.text.injEq]
      constructor
      · rintro rfl
        exact ⟨rfl, not_or.mp excluded⟩
      · exact fun same => same.1
  · rename_i notText
    simp only [reduceCtorEq, false_iff]
    rintro ⟨rfl, -⟩
    exact notText t rfl

theorem mem_requestedOf {specs : List Json} {spec permission : Json} {t : Text} (member : spec ∈ specs)
    (read : PermissionSpec.permission spec = some (some permission))
    (asked : PermissionSpec.requested (some permission) = some t) : t ∈ requestedOf specs := by
  refine List.mem_eraseDups.mpr (List.mem_filterMap.mpr ⟨some permission, ?_, asked⟩)
  exact List.mem_filterMap.mpr ⟨spec, member, read⟩

theorem mem_grantRows {specs : List Json} {grant : AccessTokenGrant}
    (member : grant ∈ grantRows request specs) :
    grant.tokenUid = request.tokenUid ∧ ∃ spec ∈ specs,
      PermissionSpec.permission spec = some (some grant.permission) ∧
        ¬ PermissionSpec.isFullAccess (some grant.permission) := by
  obtain ⟨spec, place, made⟩ := List.mem_filterMap.mp member
  cases read : PermissionSpec.permission spec with
  | none => simp [read] at made
  | some first =>
      cases first with
      | none => simp [read] at made
      | some permission =>
          simp only [read] at made
          split at made
          · cases made
          · rename_i notSentinel
            cases made
            exact ⟨rfl, spec, place, read, notSentinel⟩

theorem exists_grantRow (request : MintRequest) {specs : List Json} {spec permission : Json} (member : spec ∈ specs)
    (read : PermissionSpec.permission spec = some (some permission))
    (notSentinel : ¬ PermissionSpec.isFullAccess (some permission)) :
    ∃ grant ∈ grantRows request specs, grant.permission = permission := by
  refine ⟨grantRow request permission (PermissionSpec.extra spec), ?_, rfl⟩
  refine List.mem_filterMap.mpr ⟨spec, member, ?_⟩
  simp [read, notSentinel]

end AccessTokenService

open AccessTokenService

/-- What a token carries its issuer was granted in the call, full access is claimed for a plain user alone,
    and a call that throws before it has stored a row leaves none for its token. -/
structure CarriesWithinIssuer (service : AccessTokenService) (request : MintRequest) (s : MintState) :
    Prop where
  granted : ∀ token s', service.createAccessToken request s = .ok token s' →
    ∀ grant ∈ s'.grants, grant.tokenUid = token.tokenUid →
      ∃ permission granted between, grant.permission = .text permission ∧
        service.checkMany request.actor (requestedOf request.permissions) s = .ok granted between ∧
        granted.lookup permission = some true
  fullAccess : ∀ token s', service.createAccessToken request s = .ok token s' →
    token.fullAccess = true → request.actor.isPlainUser = true
  unwritten : ∀ error s', service.createAccessToken request s = .error error s' →
    s'.grants.length = s.grants.length → ∀ grant ∈ s'.grants, grant.tokenUid ≠ request.tokenUid

/-- A mint stays within its issuer exactly when it is refused, or the first element of each spec is the
    sentinel or a text that is not empty. The drawn uid of the token is in no row yet. -/
theorem carriesWithinIssuer_iff {service : AccessTokenService} {request : MintRequest} {s : MintState}
    (fresh : ∀ grant ∈ s.grants, grant.tokenUid ≠ request.tokenUid) :
    CarriesWithinIssuer service request s ↔
      (service.Mints request s → ∀ spec ∈ request.permissions, ChecksFirst spec) := by
  constructor
  · intro carries mints spec member permission read
    rw [or_iff_not_imp_left]
    intro notSentinel
    obtain ⟨token, s', ran⟩ := createAccessToken_returns mints
    obtain ⟨-, rfl, grants⟩ := createAccessToken_ok ran
    obtain ⟨grant, place, rfl⟩ := exists_grantRow request member read notSentinel
    obtain ⟨t, granted, between, isText, checked, held⟩ := carries.granted _ s' ran grant
      (grants ▸ List.mem_append_right _ place) (mem_grantRows place).1
    have asked : PermissionSpec.requested (some grant.permission) = some t := by
      refine requested_eq_some.mpr ⟨isText, checkMany_nonempty checked held, ?_⟩
      rintro rfl
      exact notSentinel (by simp [isText, PermissionSpec.isFullAccess])
    rw [asked]
    rfl
  · intro checks
    refine ⟨?_, ?_, ?_⟩
    · intro token s' ran grant member own
      obtain ⟨mints, rfl, grants⟩ := createAccessToken_ok ran
      rw [grants] at member
      rcases List.mem_append.mp member with old | new
      · exact absurd own (fresh grant old)
      · obtain ⟨-, spec, place, read, notSentinel⟩ := mem_grantRows new
        have asked := (checks mints spec place grant.permission read).resolve_left notSentinel
        obtain ⟨t, requested⟩ := Option.isSome_iff_exists.mp asked
        have isAsked := mem_requestedOf place read requested
        rcases mints.held with nothing | ⟨granted, between, checked, held⟩
        · rw [nothing] at isAsked
          cases isAsked
        · exact ⟨t, granted, between, (requested_eq_some.mp requested).1, checked, held t isAsked⟩
    · intro token s' ran full
      obtain ⟨mints, rfl, -⟩ := createAccessToken_ok ran
      have noApp := mints.fullAccess full
      have noToken := mints.issuer
      cases actor : request.actor with
      | user account system => rfl
      | appUnderUser account app =>
          rw [actor] at noApp
          cases noApp
      | accessToken uid issuer fullAccess =>
          rw [actor] at noToken
          cases noToken
    · intro error s' failed unwritten grant member
      obtain ⟨stored, -, grants⟩ := createAccessToken_error failed
      have nothing : grantRows request stored = [] := by
        rw [grants, List.length_append] at unwritten
        exact List.length_eq_zero_iff.mp (by omega)
      rw [grants, nothing, List.append_nil] at member
      exact fresh grant member

def bareTokenService : AccessTokenService where
  permission := ⟨fun _ => none, fun _ => none, ⟨[], [], []⟩, 0⟩
  fuel := 0
  now := 0
  signs _ := true
  columnTakes _ := true

def mintOf (spec : Json) : MintRequest where
  actor := .ofUser ⟨1, "u-1".toList, "ada".toList, true⟩
  session := none
  permissions := [spec]
  expiresIn := none
  tokenUid := "t-1".toList
  sessionUuid := "s-1".toList

def grantingState : MintState where
  permissions := ⟨PermissionTables.empty, fun _ => 0, ScanLog.start false⟩
  checkCache _ := some true
  sessions := []
  grants := []

theorem mintOf_read_carries :
    (∃ token s', bareTokenService.createAccessToken (mintOf (.list [.text "fs:x:read".toList])) grantingState =
        .ok token s' ∧ s'.grants.map AccessTokenGrant.tokenUid = ["t-1".toList]) ∧
      CarriesWithinIssuer bareTokenService (mintOf (.list [.text "fs:x:read".toList])) grantingState := by
  refine ⟨⟨_, _, rfl, rfl⟩, (carriesWithinIssuer_iff (fun _ member => absurd member List.not_mem_nil)).mpr ?_⟩
  intro _ spec member permission read
  rw [List.mem_singleton.mp member] at read
  cases read
  exact .inr (by decide)

/-- An empty permission is left out of the check and stored all the same. -/
theorem mintOf_empty_escapes :
    ¬ CarriesWithinIssuer bareTokenService (mintOf (.list [.text []])) grantingState := by
  intro carries
  have mints : bareTokenService.Mints (mintOf (.list [.text []])) grantingState :=
    ⟨rfl, fun asks => absurd asks (by decide), .inl (by decide), rfl,
      List.forall_mem_singleton.mpr ⟨.text [], rfl, .inr rfl⟩⟩
  obtain ⟨token, s', ran⟩ := createAccessToken_returns mints
  obtain ⟨-, rfl, grants⟩ := createAccessToken_ok ran
  obtain ⟨t, granted, between, isText, checked, held⟩ := carries.granted _ s' ran
    (grantRow (mintOf (.list [.text []])) (.text []) none) (by rw [grants]; exact List.mem_singleton_self _) rfl
  cases isText
  exact checkMany_nonempty checked held rfl

end Puter

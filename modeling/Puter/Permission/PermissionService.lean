/-
Module: Puter.Permission.PermissionService
Purpose: Granting and revoking in services/permission/PermissionService.ts, run one after another: the
  checks that may refuse the call, then the writes in their order. A permission check on the way runs a
  scan; the flat entries it warms have landed before the next step.
Trusted boundary: the user table is a parameter; the audit log is left out
Main exports: PermissionService, revoke_rows
-/
import Puter.Library.StateRun
import Puter.Permission.PermissionScan

namespace Puter

open StateRun

/-- What stays fixed while the service runs: the user table, the registered rules and the clock. -/
structure PermissionService where
  getById : Nat → Option UserRow
  getByUsername : Text → Option UserRow
  rules : PermissionRules
  now : Nat

/-- What the service reads and writes: the permission tables, the cache-generation counters and the
    scan log. -/
structure PermissionWorld where
  tables : PermissionTables
  generations : Text → Nat
  log : ScanLog

abbrev ServiceRun := EStateM ScanError PermissionWorld

def PermissionTables.landWarms (tables : PermissionTables) (warms : List FlatWarm) :
    PermissionTables :=
  warms.foldl (fun acc warm =>
    acc.setFlatUserPerm warm.holderUserId warm.permission warm.value (some warm.expireAt)) tables

/-- The world after a scan that started in `world` and left the scan log `log`. -/
def PermissionWorld.afterScan (world : PermissionWorld) (log : ScanLog) : PermissionWorld :=
  { world with
    tables := world.tables.landWarms log.warms
    log := { log with warms := [] } }

def PermissionWorld.mapTables (world : PermissionWorld)
    (change : PermissionTables → PermissionTables) : PermissionWorld :=
  { world with tables := change world.tables }

/-- `#bumpUserCacheGeneration`, for a user with a uuid. -/
def bumpUserCacheGeneration (user : UserRow) : ServiceRun Unit :=
  modify fun world =>
    if user.uuid.isEmpty then world
    else
      let key := "user:".toList ++ user.uuid
      { world with
        generations := Function.update world.generations key (world.generations key + 1) }

namespace PermissionService

variable (service : PermissionService)

def env (world : PermissionWorld) : PermissionEnv where
  tables := world.tables
  generations := world.generations
  getById := service.getById
  rules := service.rules
  now := service.now

def runScan {α : Type} (scans : PermissionEnv → ScanRun α) : ServiceRun α := fun world =>
  match scans (service.env world) world.log with
  | .ok answer log => .ok answer (world.afterScan log)
  | .error error log => .error error (world.afterScan log)

def rewritePermission (permission : Text) : ServiceRun Text := fun world =>
  match (service.env world).rewritePermission permission with
  | .ok rewritten => .ok rewritten world
  | .error error => .error (.http error) world

def userDoesNotExist (username : Text) : HttpError :=
  ⟨404, "user_does_not_exist: ".toList ++ username, "subject_does_not_exist".toList⟩

def permissionDenied (permission : Text) : HttpError :=
  ⟨403, "permission_denied: ".toList ++ permission, "permission_denied".toList⟩

def actorMustBeUser : HttpError :=
  ⟨403, "actor must be a user".toList, "forbidden".toList⟩

def cannotGrantToYourself : HttpError :=
  ⟨400, "cannot grant permissions to yourself".toList, "bad_request".toList⟩

/-- `getByUsername`, refusing a name that no user has. -/
def requireUser (username : Text) : ServiceRun UserRow :=
  match service.getByUsername username with
  | some user => pure user
  | none => throw (.http (userDoesNotExist username))

def grantUserUserPermission (fuel : Nat) (actor : Actor) (username permission : Text) :
    ServiceRun Unit := do
  let permission ← service.rewritePermission permission
  let user ← service.requireUser username
  refuseIf (user.id == actor.accountUser.id) (.http cannotGrantToYourself)
  let canManage ← service.runScan fun env => canManagePermission env fuel actor permission
  refuseIf (!canManage) (.http (permissionDenied permission))
  refuseIf (actor.accountUser.id == 0) (.http actorMustBeUser)
  let issuerId := actor.accountUser.id
  modify (·.mapTables (·.upsertUserUserPerm user.id issuerId permission))
  modify (·.mapTables (·.setFlatUserPerm user.id permission
    ⟨some permission, some issuerId, false⟩ none))
  bumpUserCacheGeneration user

/-- Giving up access of one's own needs no authority over the permission; revoking that of another user
    needs `manage`. -/
def mayRevoke (fuel : Nat) (actor : Actor) (user : UserRow) (permission : Text) :
    ServiceRun Bool :=
  if user.id == actor.accountUser.id then pure true
  else service.runScan fun env => canManagePermission env fuel actor permission

/-- The writes of a revoke: delete one issuer's row, read the rows that remain, and clear the flat entry
    when there is none. Returns whether a row was deleted. -/
def removeGrant (holderId : Nat) (permission : Text) (issuerId : Nat) : ServiceRun Bool :=
  fun world =>
    let (revoked, tables) := world.tables.deleteUserUserPermByHolder holderId permission issuerId
    let remaining := tables.readLinkedUserUserPerms holderId [permission]
    .ok revoked (world.mapTables fun _ =>
      if remaining.isEmpty then tables.delFlatUserPerm holderId permission else tables)

/-- `revokeUserUserPermission`, with `opts.issuerUserId` when it is given. Returns whether a grant was
    removed. -/
def revokeUserUserPermission (fuel : Nat) (actor : Actor) (username permission : Text)
    (issuerUserId : Option Nat) : ServiceRun Bool := do
  let permission ← service.rewritePermission permission
  let user ← service.requireUser username
  refuseIf (actor.accountUser.id == 0) (.http actorMustBeUser)
  let issuerId := actor.accountUser.id
  let allowed ← service.mayRevoke fuel actor user permission
  refuseIf (!allowed) (.http (permissionDenied permission))
  let revoked ← removeGrant user.id permission (issuerUserId.getD issuerId)
  bumpUserCacheGeneration user
  return revoked

def queryIssuerHolderPermissionsByPrefix (world : PermissionWorld) (issuer holder : Actor)
    (start : Text) : List Text :=
  if issuer.accountUser.id = 0 ∨ holder.accountUser.id = 0 then []
  else world.tables.queryIssuerHolderPermsByPrefix issuer.accountUser.id holder.accountUser.id start

end PermissionService

@[simp] theorem PermissionTables.landWarms_userToUser (tables : PermissionTables)
    (warms : List FlatWarm) : (tables.landWarms warms).userToUser = tables.userToUser := by
  unfold PermissionTables.landWarms
  induction warms generalizing tables with
  | nil => rfl
  | cons warm warms ih =>
      rw [List.foldl_cons, ih]
      rfl

namespace PermissionService

variable {service : PermissionService} {world world' : PermissionWorld}

theorem runScan_rows {α : Type} {scans : PermissionEnv → ScanRun α} {answer : α}
    (ran : service.runScan scans world = .ok answer world') :
    world'.tables.userToUser = world.tables.userToUser := by
  unfold runScan at ran
  cases outcome : scans (service.env world) world.log with
  | ok found log =>
      rw [outcome] at ran
      cases ran
      simp [PermissionWorld.afterScan]
  | error error log =>
      rw [outcome] at ran
      cases ran

theorem rewritePermission_ok {permission rewritten : Text}
    (ran : service.rewritePermission permission world = .ok rewritten world') :
    (service.env world).rewritePermission permission = .ok rewritten ∧ world' = world := by
  unfold rewritePermission at ran
  cases outcome : (service.env world).rewritePermission permission with
  | ok found =>
      rw [outcome] at ran
      cases ran
      exact ⟨rfl, rfl⟩
  | error error =>
      rw [outcome] at ran
      cases ran

theorem requireUser_ok {username : Text} {user : UserRow}
    (ran : service.requireUser username world = .ok user world') :
    service.getByUsername username = some user ∧ world' = world := by
  unfold requireUser at ran
  cases found : service.getByUsername username with
  | some stored =>
      rw [found] at ran
      obtain ⟨rfl, rfl⟩ := pure_ok.mp ran
      exact ⟨rfl, rfl⟩
  | none =>
      rw [found] at ran
      exact absurd ran throw_ok

theorem bumpUserCacheGeneration_tables {user : UserRow} {u : Unit}
    (ran : bumpUserCacheGeneration user world = .ok u world') :
    world'.tables = world.tables := by
  have changed := modify_ok.mp ran
  subst changed
  by_cases noUuid : user.uuid.isEmpty
  · simp [noUuid]
  · simp [noUuid]

theorem grant_rows {fuel : Nat} {actor : Actor} {username permission : Text} {u : Unit}
    (ran : service.grantUserUserPermission fuel actor username permission world = .ok u world') :
    ∃ user rewritten, service.getByUsername username = some user ∧
      (service.env world).rewritePermission permission = .ok rewritten ∧
      actor.accountUser.id ≠ 0 ∧
      ∀ row, row ∈ world'.tables.userToUser ↔
        row ∈ world.tables.userToUser ∨ row = ⟨user.id, actor.accountUser.id, rewritten⟩ := by
  obtain ⟨rewritten, afterRewrite, rewrote, checks⟩ := bind_ok.mp ran
  obtain ⟨user, afterLookup, looked, selfCheck⟩ := bind_ok.mp checks
  obtain ⟨_, afterSelf, notSelf, manageCheck⟩ := bind_ok.mp selfCheck
  obtain ⟨canManage, afterScan, scan, denial⟩ := bind_ok.mp manageCheck
  obtain ⟨_, afterDenial, managed, actorCheck⟩ := bind_ok.mp denial
  obtain ⟨_, afterActor, identified, writes⟩ := bind_ok.mp actorCheck
  obtain ⟨_, afterRow, wroteRow, flatWrite⟩ := bind_ok.mp writes
  obtain ⟨_, afterFlat, wroteFlat, bumped⟩ := bind_ok.mp flatWrite
  obtain ⟨rewriting, rfl⟩ := rewritePermission_ok rewrote
  obtain ⟨found, rfl⟩ := requireUser_ok looked
  obtain ⟨_, rfl⟩ := refuseIf_ok.mp notSelf
  have rows := runScan_rows scan
  obtain ⟨_, rfl⟩ := refuseIf_ok.mp managed
  obtain ⟨isUser, rfl⟩ := refuseIf_ok.mp identified
  obtain rfl := modify_ok.mp wroteRow
  obtain rfl := modify_ok.mp wroteFlat
  refine ⟨user, rewritten, found, rewriting, by simpa using isUser, ?_⟩
  intro row
  rw [bumpUserCacheGeneration_tables bumped, ← rows]
  simp [PermissionWorld.mapTables]

theorem mayRevoke_rows {fuel : Nat} {actor : Actor} {user : UserRow} {permission : Text}
    {allowed : Bool} (ran : service.mayRevoke fuel actor user permission world = .ok allowed world') :
    world'.tables.userToUser = world.tables.userToUser := by
  unfold mayRevoke at ran
  by_cases self : (user.id == actor.accountUser.id) = true
  · rw [if_pos self] at ran
    obtain ⟨_, rfl⟩ := pure_ok.mp ran
    rfl
  · rw [if_neg self] at ran
    exact runScan_rows ran

theorem removeGrant_rows {holderId issuerId : Nat} {permission : Text} {revoked : Bool}
    (ran : removeGrant holderId permission issuerId world = .ok revoked world')
    {row : LinkedUserUserPermRow} :
    row ∈ world'.tables.userToUser ↔
      row ∈ world.tables.userToUser ∧ row ≠ ⟨holderId, issuerId, permission⟩ := by
  cases ran
  rw [← PermissionTables.mem_deleteUserUserPermByHolder]
  simp only [PermissionWorld.mapTables]
  split
  · rfl
  · rfl

theorem revoke_rows {fuel : Nat} {actor : Actor} {username permission : Text}
    {issuerUserId : Option Nat} {revoked : Bool}
    (ran : service.revokeUserUserPermission fuel actor username permission issuerUserId world =
      .ok revoked world') :
    ∃ user rewritten, service.getByUsername username = some user ∧
      (service.env world).rewritePermission permission = .ok rewritten ∧
      ∀ row, row ∈ world'.tables.userToUser ↔ row ∈ world.tables.userToUser ∧
        row ≠ ⟨user.id, issuerUserId.getD actor.accountUser.id, rewritten⟩ := by
  obtain ⟨rewritten, afterRewrite, rewrote, checks⟩ := bind_ok.mp ran
  obtain ⟨user, afterLookup, looked, actorCheck⟩ := bind_ok.mp checks
  obtain ⟨_, afterActor, identified, manageCheck⟩ := bind_ok.mp actorCheck
  obtain ⟨allowed, afterScan, scan, denial⟩ := bind_ok.mp manageCheck
  obtain ⟨_, afterDenial, managed, writes⟩ := bind_ok.mp denial
  obtain ⟨removed, afterWrite, wrote, bump⟩ := bind_ok.mp writes
  obtain ⟨_, afterBump, bumped, returned⟩ := bind_ok.mp bump
  obtain ⟨rewriting, rfl⟩ := rewritePermission_ok rewrote
  obtain ⟨stored, rfl⟩ := requireUser_ok looked
  obtain ⟨_, rfl⟩ := refuseIf_ok.mp identified
  have rows := mayRevoke_rows scan
  obtain ⟨_, rfl⟩ := refuseIf_ok.mp managed
  obtain ⟨_, rfl⟩ := pure_ok.mp returned
  refine ⟨user, rewritten, stored, rewriting, ?_⟩
  intro row
  rw [bumpUserCacheGeneration_tables bumped, removeGrant_rows wrote, rows]

end PermissionService

end Puter

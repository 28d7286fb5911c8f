/-
Module: Puter.Permission.FlatViewRaces
Purpose: grantUserUserPermission, revokeUserUserPermission and deleteUserUserPermsByPermissionPrefixes
  as concurrent calls: each is the sequence of its atomic SQL and key-value steps, and any number of
  them interleave. The question is whether a permanent flat entry can outlive the rows it was written
  for. The debt invariant says which calls in flight still owe the deletion of a flat entry; it is kept
  by every step except two, and a run without those two keeps every permanent entry backed by a row.
Trusted boundary: none
Main exports: GrantCall, forbidden_leaves_unowed
-/
import Puter.Library.Interleaving
import Puter.Permission.PermissionStore

namespace Puter

/-- A call in flight, named by the atomic step it performs next. The permission is the rewritten one,
    so every check that can refuse the call is behind it. -/
inductive GrantCall where
  | grantUpsert (holder issuer : Nat) (permission : Text)
  | grantSetFlat (holder issuer : Nat) (permission : Text)
  | revokeDelete (holder : Nat) (permission : Text) (issuer : Nat)
  | revokeReadRemaining (holder : Nat) (permission : Text)
  | revokeDelFlat (holder : Nat) (permission : Text)
  | prefixSelect (permissions : List Text)
  | prefixDelete (permissions : List Text) (rows : List LinkedUserUserPermRow)
  | prefixDelFlat (entries : List FlatPermRef)
  | warmSetFlat (holder : Nat) (value : FlatPermValue) (permission : Text) (expireAt : Nat)
deriving DecidableEq, Repr

namespace GrantCall

/-- Where a call starts. A grant has passed its self-grant and actor checks; a prefix delete of nothing
    returns at once. The warm of a permission check may run beside them. -/
inductive Starts : GrantCall → Prop where
  | grant {holder issuer : Nat} {permission : Text} :
      issuer ≠ 0 → holder ≠ issuer → Starts (.grantUpsert holder issuer permission)
  | revoke {holder issuer : Nat} {permission : Text} :
      Starts (.revokeDelete holder permission issuer)
  | prefixes {permissions : List Text} : permissions ≠ [] → Starts (.prefixSelect permissions)
  | warm {holder : Nat} {value : FlatPermValue} {permission : Text} {expireAt : Nat} :
      Starts (.warmSetFlat holder value permission expireAt)

end GrantCall

def flatRefs (rows : List LinkedUserUserPermRow) : List FlatPermRef :=
  rows.map fun row => ⟨row.holderUserId, row.permission⟩

/-- One atomic step of one call on the permission state, with the call's next step. The flat deletes of
    a prefix delete go out together, so any of them may be the next to land. -/
inductive AtomicStep : PermissionTables → GrantCall → PermissionTables → Option GrantCall → Prop where
  | grantUpsert {tables : PermissionTables} {holder issuer : Nat} {permission : Text} :
      AtomicStep tables (.grantUpsert holder issuer permission)
        (tables.upsertUserUserPerm holder issuer permission)
        (some (.grantSetFlat holder issuer permission))
  | grantSetFlat {tables : PermissionTables} {holder issuer : Nat} {permission : Text} :
      AtomicStep tables (.grantSetFlat holder issuer permission)
        (tables.setFlatUserPerm holder permission ⟨some permission, some issuer, false⟩ none) none
  | revokeDelete {tables : PermissionTables} {holder issuer : Nat} {permission : Text} :
      AtomicStep tables (.revokeDelete holder permission issuer)
        (tables.deleteUserUserPermByHolder holder permission issuer).2
        (some (.revokeReadRemaining holder permission))
  | revokeReadNone {tables : PermissionTables} {holder : Nat} {permission : Text} :
      tables.readLinkedUserUserPerms holder [permission] = [] →
      AtomicStep tables (.revokeReadRemaining holder permission) tables
        (some (.revokeDelFlat holder permission))
  | revokeReadSome {tables : PermissionTables} {holder : Nat} {permission : Text} :
      tables.readLinkedUserUserPerms holder [permission] ≠ [] →
      AtomicStep tables (.revokeReadRemaining holder permission) tables none
  | revokeDelFlat {tables : PermissionTables} {holder : Nat} {permission : Text} :
      AtomicStep tables (.revokeDelFlat holder permission)
        (tables.delFlatUserPerm holder permission) none
  | prefixSelectNone {tables : PermissionTables} {permissions : List Text} :
      tables.selectByPermissionPrefixes permissions = [] →
      AtomicStep tables (.prefixSelect permissions) tables none
  | prefixSelectSome {tables : PermissionTables} {permissions : List Text} :
      tables.selectByPermissionPrefixes permissions ≠ [] →
      AtomicStep tables (.prefixSelect permissions) tables
        (some (.prefixDelete permissions (tables.selectByPermissionPrefixes permissions)))
  | prefixDelete {tables : PermissionTables} {permissions : List Text}
      {rows : List LinkedUserUserPermRow} :
      AtomicStep tables (.prefixDelete permissions rows)
        (tables.deleteByPermissionPrefixes permissions) (some (.prefixDelFlat (flatRefs rows)))
  | prefixDelFlat {tables : PermissionTables} {landed waiting : List FlatPermRef}
      {entry : FlatPermRef} :
      AtomicStep tables (.prefixDelFlat (landed ++ entry :: waiting))
        (tables.delFlatUserPerm entry.holderUserId entry.permission)
        (if landed ++ waiting = [] then none else some (.prefixDelFlat (landed ++ waiting)))
  | warmSetFlat {tables : PermissionTables} {holder expireAt : Nat} {value : FlatPermValue}
      {permission : Text} :
      AtomicStep tables (.warmSetFlat holder value permission expireAt)
        (tables.setFlatUserPerm holder permission value (some expireAt)) none

def PermanentFlat (tables : PermissionTables) (holder : Nat) (permission : Text) : Prop :=
  ∃ entry, tables.flat (flatKey holder permission) = some entry ∧ entry.expireAt = none ∧
    entry.value.permission = some permission

def HasRow (tables : PermissionTables) (holder : Nat) (permission : Text) : Prop :=
  ∃ row ∈ tables.userToUser, row.holderUserId = holder ∧ row.permission = permission

def FlatBacked (tables : PermissionTables) : Prop :=
  ∀ holder permission, PermanentFlat tables holder permission → HasRow tables holder permission

def Unbacked (tables : PermissionTables) (entry : FlatPermRef) : Prop :=
  PermanentFlat tables entry.holderUserId entry.permission ∧
    ¬ HasRow tables entry.holderUserId entry.permission

/-- The flat entries a call in flight is still going to delete, or to leave only because it finds a
    row for them. -/
def OwesFlatDelete : GrantCall → FlatPermRef → Prop
  | .revokeReadRemaining holder permission, entry => entry = ⟨holder, permission⟩
  | .revokeDelFlat holder permission, entry => entry = ⟨holder, permission⟩
  | .prefixDelete _ rows, entry => entry ∈ flatRefs rows
  | .prefixDelFlat entries, entry => entry ∈ entries
  | _, _ => False

/-- The two steps that can leave an unbacked entry behind are taken only where they do not: a grant
    writes its flat entry while a row for it stands or another call still owes its deletion, and a
    prefix delete removes, beyond the rows it had selected, only rows that back no permanent entry or
    one whose deletion another call owes. -/
def Allowed (tables : PermissionTables) (others : List GrantCall) : GrantCall → Prop
  | .grantSetFlat holder _ permission =>
      HasRow tables holder permission ∨
        ∃ other ∈ others, OwesFlatDelete other ⟨holder, permission⟩
  | .prefixDelete permissions rows =>
      ∀ row ∈ tables.userToUser, matchesPermissionPrefixes permissions row = true →
        ⟨row.holderUserId, row.permission⟩ ∈ flatRefs rows ∨
        ¬ PermanentFlat tables row.holderUserId row.permission ∨
        ∃ other ∈ others, OwesFlatDelete other ⟨row.holderUserId, row.permission⟩
  | _ => True

def grantSystem : Interleaving.System PermissionTables GrantCall where
  issues := GrantCall.Starts
  atom := AtomicStep
  allow := Allowed

section StepLemmas

variable {tables : PermissionTables} {holder issuer : Nat} {permission : Text}
  {entry : FlatPermRef}

theorem Unbacked.of_rows {before after : PermissionTables} (sameFlat : after.flat = before.flat)
    (keeps : HasRow before entry.holderUserId entry.permission →
      HasRow after entry.holderUserId entry.permission)
    (unbacked : Unbacked after entry) : Unbacked before entry := by
  obtain ⟨⟨stored, found, permanent⟩, noRow⟩ := unbacked
  exact ⟨⟨stored, by rw [← sameFlat]; exact found, permanent⟩, fun row => noRow (keeps row)⟩

theorem hasRow_upsert {holder' : Nat} {permission' : Text}
    (row : HasRow tables holder' permission') :
    HasRow (tables.upsertUserUserPerm holder issuer permission) holder' permission' := by
  obtain ⟨stored, member, named⟩ := row
  exact ⟨stored, by simp [member], named⟩

theorem hasRow_delete_of_ne (other : entry ≠ ⟨holder, permission⟩)
    (row : HasRow tables entry.holderUserId entry.permission) :
    HasRow (tables.deleteUserUserPermByHolder holder permission issuer).2
      entry.holderUserId entry.permission := by
  obtain ⟨stored, member, sameHolder, samePermission⟩ := row
  refine ⟨stored, ?_, sameHolder, samePermission⟩
  rw [PermissionTables.mem_deleteUserUserPermByHolder]
  refine ⟨member, ?_⟩
  rintro rfl
  obtain ⟨entryHolder, entryPermission⟩ := entry
  simp only at sameHolder samePermission
  exact other (by rw [sameHolder, samePermission])

theorem permanentFlat_setFlat {issuerId : Option Nat} {deleted : Bool} :
    PermanentFlat (tables.setFlatUserPerm holder permission ⟨some permission, issuerId, deleted⟩ none)
      holder permission :=
  ⟨_, PermissionTables.setFlatUserPerm_flat.trans (if_pos rfl), rfl, rfl⟩

theorem Unbacked.of_delFlat
    (unbacked : Unbacked (tables.delFlatUserPerm holder permission) entry) :
    entry ≠ ⟨holder, permission⟩ ∧ Unbacked tables entry := by
  obtain ⟨⟨stored, found, permanent⟩, noRow⟩ := unbacked
  rw [PermissionTables.delFlatUserPerm_flat] at found
  by_cases sameKey : flatKey entry.holderUserId entry.permission = flatKey holder permission
  · simp [sameKey] at found
  · rw [if_neg sameKey] at found
    refine ⟨?_, ⟨stored, found, permanent⟩, noRow⟩
    rintro rfl
    exact sameKey rfl

theorem Unbacked.of_setFlat {value : FlatPermValue} {expireAt : Option Nat}
    (unbacked : Unbacked (tables.setFlatUserPerm holder permission value expireAt) entry) :
    (expireAt = none ∧ entry.holderUserId = holder ∧ value.permission = some entry.permission) ∨
      Unbacked tables entry := by
  obtain ⟨⟨stored, found, permanent, named⟩, noRow⟩ := unbacked
  rw [PermissionTables.setFlatUserPerm_flat] at found
  by_cases sameKey : flatKey entry.holderUserId entry.permission = flatKey holder permission
  · rw [if_pos sameKey] at found
    obtain rfl := Option.some.inj found
    exact .inl ⟨permanent, flatKey_holder_inj sameKey, named⟩
  · rw [if_neg sameKey] at found
    exact .inr ⟨⟨stored, found, permanent, named⟩, noRow⟩

end StepLemmas

theorem grantSystem_settles : Interleaving.Settles grantSystem Unbacked OwesFlatDelete := by
  intro tables others call tables' next allowed atom entry unbacked
  cases atom with
  | grantUpsert => exact .inr ⟨unbacked.of_rows (by simp) hasRow_upsert, id⟩
  | @grantSetFlat holder issuer permission =>
      rcases unbacked.of_setFlat with ⟨_, sameHolder, samePermission⟩ | unbackedBefore
      · have same : entry = ⟨holder, permission⟩ := by
          cases entry
          simp_all
        subst same
        rcases allowed with row | ⟨other, member, owes⟩
        · exact absurd row unbacked.2
        · exact .inl ⟨other, .inr member, owes⟩
      · exact .inr ⟨unbackedBefore, id⟩
  | @revokeDelete holder issuer permission =>
      by_cases same : entry = ⟨holder, permission⟩
      · exact .inl ⟨_, .inl rfl, same⟩
      · exact .inr ⟨unbacked.of_rows (by simp) (hasRow_delete_of_ne same), id⟩
  | @revokeReadNone holder permission _ =>
      by_cases same : entry = ⟨holder, permission⟩
      · exact .inl ⟨_, .inl rfl, same⟩
      · exact .inr ⟨unbacked, same⟩
  | revokeReadSome remaining =>
      refine .inr ⟨unbacked, ?_⟩
      rintro rfl
      -- The rows the call found are the rows the entry would lack.
      obtain ⟨row, member⟩ := List.exists_mem_of_ne_nil _ remaining
      simp only [PermissionTables.mem_readLinkedUserUserPerms, List.mem_singleton] at member
      exact unbacked.2 ⟨row, member⟩
  | revokeDelFlat =>
      obtain ⟨other, unbackedBefore⟩ := unbacked.of_delFlat
      exact .inr ⟨unbackedBefore, other⟩
  | prefixSelectNone _ => exact .inr ⟨unbacked, id⟩
  | prefixSelectSome _ => exact .inr ⟨unbacked, id⟩
  | @prefixDelete permissions rows =>
      by_cases selected : entry ∈ flatRefs rows
      · exact .inl ⟨_, .inl rfl, selected⟩
      · by_cases row : HasRow tables entry.holderUserId entry.permission
        · obtain ⟨stored, member, sameHolder, samePermission⟩ := row
          have deleted : matchesPermissionPrefixes permissions stored = true := by
            by_contra kept
            exact unbacked.2 ⟨stored, by simpa [member] using kept, sameHolder, samePermission⟩
          have same : entry = ⟨stored.holderUserId, stored.permission⟩ := by
            rw [sameHolder, samePermission]
          subst same
          rcases allowed stored member deleted with isSelected | notPermanent | ⟨other, isOther, owes⟩
          · exact absurd isSelected selected
          · exact absurd unbacked.1 notPermanent
          · exact .inl ⟨other, .inr isOther, owes⟩
        · exact .inr ⟨⟨unbacked.1, row⟩, selected⟩
  | @prefixDelFlat landed waiting deleted =>
      obtain ⟨other, unbackedBefore⟩ := unbacked.of_delFlat
      by_cases owed : entry ∈ landed ++ waiting
      · refine .inl ⟨.prefixDelFlat (landed ++ waiting), .inl ?_, owed⟩
        rw [if_neg (List.ne_nil_of_mem owed)]
      · refine .inr ⟨unbackedBefore, ?_⟩
        simp only [OwesFlatDelete, List.mem_append, List.mem_cons] at owed ⊢
        rintro (inLanded | same | inWaiting)
        · exact owed (.inl inLanded)
        · exact other same
        · exact owed (.inr inWaiting)
  | warmSetFlat =>
      rcases unbacked.of_setFlat with ⟨permanent, _⟩ | unbackedBefore
      · cases permanent
      · exact .inr ⟨unbackedBefore, id⟩

/-- The flat view never outlives its rows in a run of allowed steps: from a backed state with no call
    in flight, once every call has completed, each permanent flat entry has a row again. -/
theorem flatBacked_of_allowed_run {before after : PermissionTables} (backed : FlatBacked before)
    (run : Interleaving.Run grantSystem ⟨before, []⟩ ⟨after, []⟩) : FlatBacked after := by
  intro holder permission permanent
  by_contra noRow
  refine Interleaving.quiescent_of_run grantSystem_settles run ?_ rfl ⟨holder, permission⟩
    ⟨permanent, noRow⟩
  intro entry unbacked
  exact unbacked.2 (backed _ _ unbacked.1)

section Interrupted

def sharedRead : Text := "fs:n1:read".toList

/-- User 1 has written the row of a grant of `sharedRead` to user 2, and not yet its flat entry. -/
def rowWritten : PermissionTables := PermissionTables.empty.upsertUserUserPerm 2 1 sharedRead

/-- A revoke by the issuer `revoker` has then deleted its row, if it had one. -/
def rowRevoked (revoker : Nat) : PermissionTables :=
  (rowWritten.deleteUserUserPermByHolder 2 sharedRead revoker).2

def flatWritten (tables : PermissionTables) : PermissionTables :=
  tables.setFlatUserPerm 2 sharedRead ⟨some sharedRead, some 1, false⟩ none

theorem flatBacked_empty : FlatBacked PermissionTables.empty := by
  rintro holder permission ⟨entry, found, _⟩
  cases found

/-- One grant and one revoke are enough: user 1's revoke deletes the row and clears the flat view
    between the two writes of user 1's grant. Both calls complete, and the permanent entry that the
    grant then writes has no row. -/
theorem revoke_between_grant_writes_unbacked :
    ∃ after, FlatBacked PermissionTables.empty ∧
      Interleaving.Run grantSystem.unrestricted ⟨PermissionTables.empty, []⟩ ⟨after, []⟩ ∧
      ¬ FlatBacked after := by
  let step := Interleaving.Step grantSystem.unrestricted
  let grant := GrantCall.grantSetFlat 2 1 sharedRead
  let cleared := (rowRevoked 1).delFlatUserPerm 2 sharedRead
  have grantStarts : step ⟨.empty, []⟩ ⟨.empty, [.grantUpsert 2 1 sharedRead]⟩ :=
    .issue (.grant (by decide) (by decide))
  have upserts : step ⟨.empty, [.grantUpsert 2 1 sharedRead]⟩ ⟨rowWritten, [grant]⟩ :=
    .goesOn trivial AtomicStep.grantUpsert
  have revokeStarts : step ⟨rowWritten, [grant]⟩
      ⟨rowWritten, [.revokeDelete 2 sharedRead 1, grant]⟩ := .issue .revoke
  have deletes : step ⟨rowWritten, [.revokeDelete 2 sharedRead 1, grant]⟩
      ⟨rowRevoked 1, [.revokeReadRemaining 2 sharedRead, grant]⟩ :=
    .goesOn trivial AtomicStep.revokeDelete
  have reads : step ⟨rowRevoked 1, [.revokeReadRemaining 2 sharedRead, grant]⟩
      ⟨rowRevoked 1, [.revokeDelFlat 2 sharedRead, grant]⟩ :=
    .goesOn trivial (AtomicStep.revokeReadNone (by decide))
  have clears : step ⟨rowRevoked 1, [.revokeDelFlat 2 sharedRead, grant]⟩ ⟨cleared, [grant]⟩ :=
    .completes trivial AtomicStep.revokeDelFlat
  have writes : step ⟨cleared, [grant]⟩ ⟨flatWritten cleared, []⟩ :=
    .completes trivial AtomicStep.grantSetFlat
  refine ⟨flatWritten cleared, flatBacked_empty, ?_, ?_⟩
  · exact .head grantStarts (.head upserts (.head revokeStarts (.head deletes (.head reads
      (.head clears (.single writes))))))
  · intro backed
    obtain ⟨row, member, _⟩ := backed 2 sharedRead permanentFlat_setFlat
    have noRows : (flatWritten cleared).userToUser = [] := by decide
    rw [noRows] at member
    cases member

/-- Another issuer's revoke between the two writes is harmless: the grant's own row still stands when
    its flat entry is written. -/
theorem flatBacked_grant_beside_other_revoke : FlatBacked (flatWritten (rowRevoked 3)) := by
  let step := Interleaving.Step grantSystem
  let grant := GrantCall.grantSetFlat 2 1 sharedRead
  have grantStarts : step ⟨.empty, []⟩ ⟨.empty, [.grantUpsert 2 1 sharedRead]⟩ :=
    .issue (.grant (by decide) (by decide))
  have upserts : step ⟨.empty, [.grantUpsert 2 1 sharedRead]⟩ ⟨rowWritten, [grant]⟩ :=
    .goesOn trivial AtomicStep.grantUpsert
  have revokeStarts : step ⟨rowWritten, [grant]⟩
      ⟨rowWritten, [.revokeDelete 2 sharedRead 3, grant]⟩ := .issue .revoke
  have deletes : step ⟨rowWritten, [.revokeDelete 2 sharedRead 3, grant]⟩
      ⟨rowRevoked 3, [.revokeReadRemaining 2 sharedRead, grant]⟩ :=
    .goesOn trivial AtomicStep.revokeDelete
  have reads : step ⟨rowRevoked 3, [.revokeReadRemaining 2 sharedRead, grant]⟩
      ⟨rowRevoked 3, [grant]⟩ :=
    .completes trivial (AtomicStep.revokeReadSome (by decide))
  have writes : step ⟨rowRevoked 3, [grant]⟩ ⟨flatWritten (rowRevoked 3), []⟩ :=
    .completes (.inl ⟨⟨2, 1, sharedRead⟩, by decide, rfl, rfl⟩) AtomicStep.grantSetFlat
  exact flatBacked_of_allowed_run flatBacked_empty
    (.head grantStarts (.head upserts (.head revokeStarts (.head deletes (.head reads
      (.single writes))))))

end Interrupted

end Puter

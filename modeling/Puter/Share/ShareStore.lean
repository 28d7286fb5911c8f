/-
Module: Puter.Share.ShareStore
Purpose: The `share` table (stores/share/ShareStore.js) next to the user-to-user grants that it indexes: rows
  that have a holder, invites that are still to be claimed, and the statements that the sharing calls run on
  them. Grants and rows live in different tables, and no statement writes both.
Trusted boundary: none
Main exports: ShareKey, ShareRow, Consistent
-/
import Puter.Acl.ACLService

namespace Puter

/-- Who shares which entry with whom. -/
structure ShareKey where
  issuer : Nat
  holder : Nat
  entry : Nat
deriving DecidableEq, Repr

/-- A row of the `share` table. An invite has no holder yet; rows without an entry are not listed and are left
    out. -/
structure ShareRow where
  uid : Text
  issuer : Nat
  recipientEmail : Text
  holder : Option Nat
  entry : Nat
  mode : AclMode
deriving DecidableEq, Repr

def ShareRow.key (row : ShareRow) : Option ShareKey :=
  row.holder.map fun holder => ⟨row.issuer, holder, row.entry⟩

/-- The grants on entries and the rows that index them. -/
structure ShareTables where
  grants : List (ShareKey × AclMode)
  rows : List ShareRow

/-- How a claim of an invite ends. -/
inductive Applied where
  | applied (tables : ShareTables)
  /-- The invite is gone, or has been claimed. -/
  | nothing
  /-- The unique index has an active row for the key. -/
  | uniqueViolation

namespace ShareTables

variable (tables : ShareTables)

/-- `setUserUser`: the mode is granted and every other mode revoked, unless the mode stands already. -/
def setUserUser (key : ShareKey) (mode : AclMode) : ShareTables :=
  if (key, mode) ∈ tables.grants then tables
  else { tables with grants := tables.grants.filter (fun grant => grant.1 ≠ key) ++ [(key, mode)] }

/-- `revokeUserUserPermission`, of one mode. -/
def revoke (key : ShareKey) (mode : AclMode) : ShareTables :=
  { tables with grants := tables.grants.filter (· ≠ (key, mode)) }

/-- `listByFsentry`: the active rows of an entry. -/
def listByFsentry (entry : Nat) : List ShareRow :=
  tables.rows.filter fun row => row.entry = entry ∧ row.holder.isSome

/-- `listByFsentrySubtree`: the active rows of an entry and of what lies below it. -/
def listByFsentrySubtree (below : Nat → Nat → Bool) (entry : Nat) : List ShareRow :=
  tables.rows.filter fun row => (row.entry = entry ∨ below row.entry entry) ∧ row.holder.isSome

def listPendingByEmail (email : Text) : List ShareRow :=
  tables.rows.filter fun row => row.recipientEmail = email ∧ row.holder = none

/-- `readLinkedUserUserPerms` for the permissions of an entry: who grants the holder anything there. -/
def issuersGranting (entry holder : Nat) : List Nat :=
  ((tables.grants.filter fun grant => grant.1.entry = entry ∧ grant.1.holder = holder).map
    fun grant => grant.1.issuer).eraseDups

def upsertActive (uid email : Text) (key : ShareKey) (mode : AclMode) : ShareTables :=
  if tables.rows.any (fun row => row.key = some key) then
    { tables with rows := tables.rows.map fun row =>
        if row.key = some key then { row with mode := mode } else row }
  else
    { tables with rows := tables.rows ++
        [{ uid := uid, issuer := key.issuer, recipientEmail := email, holder := some key.holder
           entry := key.entry, mode := mode }] }

def deleteActive (key : ShareKey) : ShareTables :=
  { tables with rows := tables.rows.filter fun row => row.key ≠ some key }

def deleteByUid (uid : Text) : ShareTables :=
  { tables with rows := tables.rows.filter fun row => row.uid ≠ uid }

/-- The read of `upsertPending`: the invite that is there already. -/
def findPending (email : Text) (entry issuer : Nat) : Option Text :=
  (tables.rows.find? fun row =>
    row.recipientEmail = email ∧ row.entry = entry ∧ row.issuer = issuer ∧ row.holder = none).map
      ShareRow.uid

/-- The update of `upsertPending`: it names the row by its uid alone. -/
def updateMode (uid : Text) (mode : AclMode) : ShareTables :=
  { tables with rows := tables.rows.map fun row => if row.uid = uid then { row with mode := mode } else row }

/-- The insertion of `upsertPending`. -/
def insertPending (uid email : Text) (entry issuer : Nat) (mode : AclMode) : ShareTables :=
  { tables with rows := tables.rows ++
      [{ uid := uid, issuer := issuer, recipientEmail := email, holder := none, entry := entry
         mode := mode }] }

/-- `applyPending`: the invite gets its holder. -/
def applyPending (uid : Text) (holder : Nat) : Applied :=
  match tables.rows.find? fun row => row.uid = uid ∧ row.holder = none with
  | none => .nothing
  | some row =>
      if tables.rows.any fun other => other.key = some ⟨row.issuer, holder, row.entry⟩ then .uniqueViolation
      else .applied { tables with rows := tables.rows.map fun row =>
        if row.uid = uid ∧ row.holder = none then { row with holder := some holder } else row }

/-- The grants and the rows of a key agree: a grant has a row, and a row has the mode of a grant. -/
structure ConsistentAt (key : ShareKey) : Prop where
  listed : ∀ mode, (key, mode) ∈ tables.grants → ∃ row ∈ tables.rows, row.key = some key
  granted : ∀ row ∈ tables.rows, row.key = some key → (key, row.mode) ∈ tables.grants

/-- A uid names one row, every grant has an active row, and the mode of every active row is that of a grant
    that stands. -/
structure Consistent : Prop where
  unique : ∀ row ∈ tables.rows, ∀ other ∈ tables.rows, row.uid = other.uid → row = other
  agree : ∀ key, tables.ConsistentAt key

end ShareTables

end Puter

/-
Module: Puter.Share.HiddenGrants
Purpose: When the `share` table shows every grant. A call that shares, withdraws or claims writes a grant and a
  row in two statements; between them the two disagree, and a call that writes the same key in between can
  leave them so. Where no such call comes between, grants and rows agree once no call is in flight.
Trusted boundary: none
Main exports: SameAt, consistent_of_quiescent
-/
import Puter.Share.ShareService

namespace Puter

open Interleaving

section Tables

variable {tables tables' : ShareTables} {key other : ShareKey} {mode mode' : AclMode} {row : ShareRow}

/-- The grants and the active rows of the key are the same before and after. -/
structure SameAt (tables tables' : ShareTables) (key : ShareKey) : Prop where
  grants : ∀ mode, (key, mode) ∈ tables'.grants ↔ (key, mode) ∈ tables.grants
  rows : ∀ row : ShareRow, row.key = some key → (row ∈ tables'.rows ↔ row ∈ tables.rows)

theorem SameAt.refl (tables : ShareTables) (key : ShareKey) : SameAt tables tables key :=
  ⟨fun _ => Iff.rfl, fun _ _ => Iff.rfl⟩

theorem SameAt.consistentAt (same : SameAt tables tables' key) (consistent : tables.ConsistentAt key) :
    tables'.ConsistentAt key where
  listed mode granted := by
    obtain ⟨row, member, isKey⟩ := consistent.listed mode ((same.grants mode).mp granted)
    exact ⟨row, (same.rows row isKey).mpr member, isKey⟩
  granted row member isKey :=
    (same.grants row.mode).mpr (consistent.granted row ((same.rows row isKey).mp member) isKey)

def UniqueUids (rows : List ShareRow) : Prop :=
  ∀ row ∈ rows, ∀ other ∈ rows, row.uid = other.uid → row = other

theorem UniqueUids.filter {rows : List ShareRow} (unique : UniqueUids rows) (keep : ShareRow → Bool) :
    UniqueUids (rows.filter keep) := fun row member other otherMember same =>
  unique row (List.mem_of_mem_filter member) other (List.mem_of_mem_filter otherMember) same

theorem UniqueUids.map {rows : List ShareRow} (unique : UniqueUids rows) {change : ShareRow → ShareRow}
    (sameUid : ∀ row, (change row).uid = row.uid) : UniqueUids (rows.map change) := by
  intro row member other otherMember same
  obtain ⟨row, isRow, rfl⟩ := List.mem_map.mp member
  obtain ⟨other, isOther, rfl⟩ := List.mem_map.mp otherMember
  rw [sameUid, sameUid] at same
  rw [unique row isRow other isOther same]

theorem UniqueUids.concat {rows : List ShareRow} (unique : UniqueUids rows)
    (fresh : ∀ old ∈ rows, old.uid ≠ row.uid) : UniqueUids (rows ++ [row]) := by
  intro one member other otherMember same
  rcases List.mem_append.mp member with old | new
  · rcases List.mem_append.mp otherMember with otherOld | otherNew
    · exact unique one old other otherOld same
    · rw [List.mem_singleton] at otherNew
      exact absurd (otherNew ▸ same) (fresh one old)
  · rw [List.mem_singleton] at new
    rcases List.mem_append.mp otherMember with otherOld | otherNew
    · exact absurd (new ▸ same).symm (fresh other otherOld)
    · rw [List.mem_singleton] at otherNew
      rw [new, otherNew]

theorem sameAt_of_rows {rows : List ShareRow}
    (same : ∀ row : ShareRow, row.key ≠ none → (row ∈ rows ↔ row ∈ tables.rows)) (key : ShareKey) :
    SameAt tables { tables with rows := rows } key where
  grants _ := Iff.rfl
  rows row isKey := same row (by simp [isKey])

theorem setUserUser_rows : (tables.setUserUser key mode).rows = tables.rows := by
  unfold ShareTables.setUserUser
  split
  · rfl
  · rfl

theorem mem_setUserUser : (key, mode) ∈ (tables.setUserUser key mode).grants := by
  unfold ShareTables.setUserUser
  split
  · rename_i stands
    exact stands
  · simp

theorem mem_setUserUser_of_absent (absent : (key, mode) ∉ tables.grants) :
    (key, mode') ∈ (tables.setUserUser key mode).grants ↔ mode' = mode := by
  rw [ShareTables.setUserUser, if_neg absent]
  simp

theorem setUserUser_sameAt (differ : other ≠ key) : SameAt tables (tables.setUserUser key mode) other where
  grants mode' := by
    unfold ShareTables.setUserUser
    split
    · rfl
    · simp [differ]
  rows row _ := by rw [setUserUser_rows]

theorem mem_revoke : (other, mode') ∈ (tables.revoke key mode).grants ↔
    (other, mode') ∈ tables.grants ∧ ¬ (other = key ∧ mode' = mode) := by
  simp only [ShareTables.revoke, List.mem_filter, decide_eq_true_eq, ne_eq, Prod.mk.injEq]

theorem revoke_sameAt (differ : other ≠ key) : SameAt tables (tables.revoke key mode) other where
  grants mode' := by simp [mem_revoke, differ]
  rows _ _ := Iff.rfl

theorem deleteActive_sameAt (differ : other ≠ key) : SameAt tables (tables.deleteActive key) other where
  grants _ := Iff.rfl
  rows row isOther := by simp [ShareTables.deleteActive, isOther, differ]

theorem mem_upsertActive {uid email : Text} (isKey : row.key = some other) (differ : other ≠ key) :
    row ∈ (tables.upsertActive uid email key mode).rows ↔ row ∈ tables.rows := by
  have notKey : row.key ≠ some key := by
    rw [isKey]
    exact fun same => differ (Option.some.inj same)
  unfold ShareTables.upsertActive
  split
  · simp only [List.mem_map]
    constructor
    · rintro ⟨old, member, changed⟩
      split at changed
      · rename_i oldKey
        subst changed
        exact absurd oldKey notKey
      · exact changed ▸ member
    · exact fun member => ⟨row, member, if_neg notKey⟩
  · simp only [List.mem_append, List.mem_singleton, or_iff_left_iff_imp]
    rintro rfl
    exact absurd rfl notKey

theorem upsertActive_grants {uid email : Text} :
    (tables.upsertActive uid email key mode).grants = tables.grants := by
  unfold ShareTables.upsertActive
  split
  · rfl
  · rfl

theorem upsertActive_sameAt {uid email : Text} (differ : other ≠ key) :
    SameAt tables (tables.upsertActive uid email key mode) other where
  grants _ := by rw [upsertActive_grants]
  rows _ isKey := mem_upsertActive isKey differ

theorem upsertActive_consistentAt {uid email : Text} (stands : (key, mode) ∈ tables.grants) :
    (tables.upsertActive uid email key mode).ConsistentAt key := by
  unfold ShareTables.upsertActive
  split
  · rename_i found
    obtain ⟨old, member, isKey⟩ := List.any_eq_true.mp found
    rw [decide_eq_true_eq] at isKey
    refine ⟨fun _ _ => ⟨{ old with mode := mode }, List.mem_map.mpr ⟨old, member, if_pos isKey⟩, isKey⟩, ?_⟩
    intro row member isKey
    obtain ⟨old, _, rfl⟩ := List.mem_map.mp member
    split at isKey
    · rename_i oldKey
      rw [if_pos oldKey]
      exact stands
    · rename_i notKey
      exact absurd isKey notKey
  · rename_i absent
    refine ⟨fun _ _ => ⟨_, List.mem_append_right _ (List.mem_singleton.mpr rfl), rfl⟩, ?_⟩
    intro row member isKey
    rcases List.mem_append.mp member with old | new
    · exact absurd (List.any_eq_true.mpr ⟨row, old, decide_eq_true isKey⟩) absent
    · rw [List.mem_singleton] at new
      subst new
      exact stands

theorem upsertActive_unique {uid email : Text} (unique : UniqueUids tables.rows)
    (fresh : ∀ row ∈ tables.rows, row.uid ≠ uid) :
    UniqueUids (tables.upsertActive uid email key mode).rows := by
  unfold ShareTables.upsertActive
  split
  · refine unique.map fun row => ?_
    split
    · rfl
    · rfl
  · exact unique.concat fresh

theorem consistentAt_of_none (noGrants : ∀ mode, (key, mode) ∉ tables.grants)
    (noRows : ∀ row ∈ tables.rows, row.key ≠ some key) : tables.ConsistentAt key :=
  ⟨fun mode granted => absurd granted (noGrants mode), fun row member isKey =>
    absurd isKey (noRows row member)⟩

/-- An active row comes from an invite that was claimed; nothing of its key is granted yet. -/
structure Claimed (tables : ShareTables) (row : ShareRow) (key : ShareKey) : Prop where
  noGrants : ∀ mode, (key, mode) ∉ tables.grants
  there : ∃ active ∈ tables.rows, active.key = some key
  own : ∀ active ∈ tables.rows, active.key = some key → active.uid = row.uid ∧ active.mode = row.mode

theorem Claimed.sameAt (claimed : Claimed tables row key) (same : SameAt tables tables' key) :
    Claimed tables' row key where
  noGrants mode granted := claimed.noGrants mode ((same.grants mode).mp granted)
  there := by
    obtain ⟨active, member, isKey⟩ := claimed.there
    exact ⟨active, (same.rows active isKey).mpr member, isKey⟩
  own active member isKey := claimed.own active ((same.rows active isKey).mp member) isKey

theorem Claimed.grant (claimed : Claimed tables row key) :
    (tables.setUserUser key row.mode).ConsistentAt key where
  listed _ _ := by
    rw [setUserUser_rows]
    exact claimed.there
  granted active member isKey := by
    rw [setUserUser_rows] at member
    rw [(claimed.own active member isKey).2]
    exact mem_setUserUser

theorem Claimed.drop (claimed : Claimed tables row key) (unique : UniqueUids tables.rows) :
    (tables.deleteByUid row.uid).ConsistentAt key ∧
      ∀ other, other ≠ key → SameAt tables (tables.deleteByUid row.uid) other := by
  obtain ⟨active, activeIn, isActive⟩ := claimed.there
  have isUid := (claimed.own active activeIn isActive).1
  refine ⟨consistentAt_of_none claimed.noGrants fun old member isKey => ?_, fun other differ =>
    ⟨fun _ => Iff.rfl, fun old isOther => ?_⟩⟩
  · obtain ⟨oldIn, otherUid⟩ := List.mem_filter.mp member
    exact of_decide_eq_true otherUid (claimed.own old oldIn isKey).1
  · simp only [ShareTables.deleteByUid, List.mem_filter, decide_eq_true_eq, and_iff_left_iff_imp]
    intro oldIn sameUid
    have same := unique old oldIn active activeIn (sameUid.trans isUid.symm)
    rw [same, isActive] at isOther
    exact differ (Option.some.inj isOther).symm

theorem claimed_of_applied {holder : Nat} (applied : tables.applyPending row.uid holder = .applied tables')
    (asRead : ∀ pending ∈ tables.rows, pending.uid = row.uid → pending.holder = none → pending = row)
    (unique : UniqueUids tables.rows) (consistent : tables.ConsistentAt (row.claimKey holder)) :
    Claimed tables' row (row.claimKey holder) ∧ UniqueUids tables'.rows ∧
      ∀ other, other ≠ row.claimKey holder → SameAt tables tables' other := by
  unfold ShareTables.applyPending at applied
  split at applied
  · cases applied
  · rename_i found isFound
    have foundIn := List.mem_of_find?_eq_some isFound
    have isPending : found.uid = row.uid ∧ found.holder = none := by
      simpa using List.find?_some isFound
    obtain rfl := asRead found foundIn isPending.1 isPending.2
    split at applied
    · cases applied
    · rename_i noRow
      cases applied
      have noActive : ∀ active ∈ tables.rows, active.key ≠ some (found.claimKey holder) :=
        fun active member isKey => noRow (List.any_eq_true.mpr ⟨active, member, decide_eq_true isKey⟩)
      have noGrants : ∀ mode, (found.claimKey holder, mode) ∉ tables.grants := by
        intro mode granted
        obtain ⟨active, member, isKey⟩ := consistent.listed mode granted
        exact noActive active member isKey
      have isKey : ShareRow.key { found with holder := some holder } = some (found.claimKey holder) := rfl
      refine ⟨⟨noGrants, ⟨_, List.mem_map.mpr ⟨found, foundIn, if_pos isPending⟩, isKey⟩, ?_⟩, ?_, ?_⟩
      · intro active member activeKey
        obtain ⟨old, oldIn, rfl⟩ := List.mem_map.mp member
        split
        · rename_i oldPending
          rw [asRead old oldIn oldPending.1 oldPending.2]
          exact ⟨rfl, rfl⟩
        · rename_i notPending
          rw [if_neg notPending] at activeKey
          exact absurd activeKey (noActive old oldIn)
      · refine unique.map fun old => ?_
        split
        · rfl
        · rfl
      · refine fun other differ => ⟨fun _ => Iff.rfl, fun active isOther => ?_⟩
        simp only [List.mem_map]
        constructor
        · rintro ⟨old, oldIn, changed⟩
          split at changed
          · rename_i oldPending
            rw [asRead old oldIn oldPending.1 oldPending.2] at changed
            subst changed
            exact absurd (Option.some.inj (isKey.symm.trans isOther)).symm differ
          · exact changed ▸ oldIn
        · intro member
          refine ⟨active, member, if_neg fun pending => ?_⟩
          simp [ShareRow.key, pending.2] at isOther

end Tables

section Calls

variable {env : ShareEnv} {tables tables' : ShareTables} {call next : ShareCall} {others : List ShareCall}
  {key : ShareKey} {write : ShareWrite} {actor : Nat} {doing doing' : ShareDoing}

/-- What a call relies on between two writes: the mode it shares stands; what stands is still to be revoked;
    and what it claims is claimed. -/
def ShareDoing.Relies (tables : ShareTables) (actor : Nat) : ShareDoing → Prop
  | .nothing => True
  | .sharing key mode => (key, mode) ∈ tables.grants
  | .withdrawing key left => ∀ mode, (key, mode) ∈ tables.grants → mode ∈ left
  | .claiming row | .refused row => Claimed tables row (row.claimKey actor)

theorem ShareDoing.Relies.sameAt (relies : doing.Relies tables actor)
    (same : ∀ key write, doing.writes actor = some (key, write) → SameAt tables tables' key) :
    doing.Relies tables' actor := by
  cases doing with
  | nothing => trivial
  | sharing key mode => exact ((same key _ rfl).grants mode).mpr relies
  | withdrawing key left =>
      exact fun mode granted => relies mode (((same key _ rfl).grants mode).mp granted)
  | claiming row => exact Claimed.sameAt relies (same _ _ rfl)
  | refused row => exact Claimed.sameAt relies (same _ _ rfl)

theorem spares_others (undisturbed : Undisturbed others key write)
    (relies : ∀ q ∈ others, q.doing.Relies tables q.actor)
    (same : ∀ other, other ≠ key → SameAt tables tables' other)
    (alike : ∀ (doing : ShareDoing) (actor : Nat), doing.writes actor = some (key, write) → write ≠ .claim →
      doing.Relies tables actor → doing.Relies tables' actor) :
    ∀ q ∈ others, q.doing.Relies tables' q.actor := by
  intro q member
  cases written : q.doing.writes q.actor with
  | none =>
      refine (relies q member).sameAt fun key write isWritten => ?_
      rw [written] at isWritten
      cases isWritten
  | some pair =>
      obtain ⟨other, write'⟩ := pair
      by_cases isKey : other = key
      · subst isKey
        obtain ⟨rfl, notClaim⟩ := undisturbed q member write' written
        exact alike q.doing q.actor written notClaim (relies q member)
      · refine (relies q member).sameAt fun written' write' isWritten => ?_
        rw [written] at isWritten
        cases isWritten
        exact same other isKey

theorem share_alike {mode : AclMode} (stands : (key, mode) ∈ tables'.grants) (doing : ShareDoing) (actor : Nat)
    (written : doing.writes actor = some (key, .share mode)) : doing.Relies tables' actor := by
  cases doing with
  | nothing => cases written
  | sharing key mode =>
      cases written
      exact stands
  | withdrawing key left => cases written
  | claiming row => cases written
  | refused row => cases written

theorem withdraw_alike (fewer : ∀ mode, (key, mode) ∈ tables'.grants → (key, mode) ∈ tables.grants)
    (doing : ShareDoing) (actor : Nat) (written : doing.writes actor = some (key, .withdraw))
    (relies : doing.Relies tables actor) : doing.Relies tables' actor := by
  cases doing with
  | nothing => cases written
  | sharing key mode => cases written
  | withdrawing key left =>
      cases written
      exact fun mode granted => relies mode (fewer mode granted)
  | claiming row => cases written
  | refused row => cases written

/-- What a step leaves: unique uids, what every call relies on, and each key consistent or still being
    written. -/
structure Keeps (tables' : ShareTables) (actor : Nat) (doing' : ShareDoing) (others : List ShareCall) :
    Prop where
  unique : UniqueUids tables'.rows
  relies : doing'.Relies tables' actor
  spares : ∀ q ∈ others, q.doing.Relies tables' q.actor
  agrees : ∀ key, tables'.ConsistentAt key ∨ (∃ write, doing'.writes actor = some (key, write)) ∨
    ∃ q ∈ others, ∃ write, q.writes = some (key, write)

theorem keeps_of_same (finds : Keeps tables actor .nothing others) (unique : UniqueUids tables'.rows)
    (same : ∀ key, SameAt tables tables' key) : Keeps tables' actor .nothing others where
  unique := unique
  relies := trivial
  spares q member := (finds.spares q member).sameAt fun key _ _ => same key
  agrees key := by
    rcases finds.agrees key with consistent | ⟨_, none⟩ | owed
    · exact .inl ((same key).consistentAt consistent)
    · cases none
    · exact .inr (.inr owed)

theorem keeps_of_write (finds : Keeps tables actor doing others)
    (own : ∀ other write, doing.writes actor = some (other, write) → other = key)
    (undisturbed : Undisturbed others key write) (unique : UniqueUids tables'.rows)
    (same : ∀ other, other ≠ key → SameAt tables tables' other)
    (alike : ∀ (doing : ShareDoing) (actor : Nat), doing.writes actor = some (key, write) → write ≠ .claim →
      doing.Relies tables actor → doing.Relies tables' actor)
    (relies : doing'.Relies tables' actor)
    (settled : tables'.ConsistentAt key ∨ ∃ write, doing'.writes actor = some (key, write)) :
    Keeps tables' actor doing' others where
  unique := unique
  relies := relies
  spares := spares_others undisturbed finds.spares same alike
  agrees other := by
    by_cases isKey : other = key
    · subst isKey
      rcases settled with consistent | owed
      · exact .inl consistent
      · exact .inr (.inl owed)
    · rcases finds.agrees other with consistent | ⟨write, written⟩ | owed
      · exact .inl ((same other isKey).consistentAt consistent)
      · exact absurd (own other write written) isKey
      · exact .inr (.inr owed)

theorem finishes_keeps (step : Finishes tables actor doing tables' doing')
    (finds : Keeps tables actor doing others)
    (undisturbed : ∀ key write, doing.writes actor = some (key, write) → Undisturbed others key write) :
    Keeps tables' actor doing' others := by
  have relies := finds.relies
  cases step with
  | @upsert key mode uid email fresh =>
      have stands : (key, mode) ∈ (tables.upsertActive uid email key mode).grants := by
        rw [upsertActive_grants]
        exact relies
      exact keeps_of_write finds (fun other write written => by cases written; rfl)
        (undisturbed key _ rfl) (upsertActive_unique finds.unique fresh)
        (fun other differ => upsertActive_sameAt differ)
        (fun doing actor written _ _ => share_alike stands doing actor written) trivial
        (.inl (upsertActive_consistentAt relies))
  | @revoke key mode left =>
      refine keeps_of_write finds (fun other write written => by cases written; rfl)
        (undisturbed key _ rfl) finds.unique (fun other differ => revoke_sameAt differ)
        (fun doing actor written _ relies =>
          withdraw_alike (fun mode granted => (mem_revoke.mp granted).1) doing actor written relies)
        ?_ (.inr ⟨_, rfl⟩)
      intro other granted
      obtain ⟨old, notMode⟩ := mem_revoke.mp granted
      rcases List.mem_cons.mp (relies other old) with isMode | left
      · exact absurd ⟨rfl, isMode⟩ notMode
      · exact left
  | @delete key =>
      have fewer : ∀ mode, (key, mode) ∈ (tables.deleteActive key).grants → (key, mode) ∈ tables.grants :=
        fun _ granted => granted
      refine keeps_of_write finds (fun other write written => by cases written; rfl)
        (undisturbed key _ rfl) (finds.unique.filter _) (fun other differ => deleteActive_sameAt differ)
        (fun doing actor written _ relies => withdraw_alike fewer doing actor written relies)
        trivial (.inl (consistentAt_of_none (fun mode granted => ?_) fun row member => ?_))
      · cases relies mode granted
      · simpa using (List.mem_filter.mp member).2
  | @grant row =>
      have claimed : Claimed tables row (row.claimKey actor) := relies
      refine keeps_of_write finds (fun other write written => by cases written; rfl)
        (undisturbed (row.claimKey actor) _ rfl) (by rw [setUserUser_rows]; exact finds.unique)
        (fun other differ => setUserUser_sameAt differ) (fun _ _ _ notClaim => absurd rfl notClaim) trivial
        (.inl claimed.grant)
  | @refuse row =>
      exact keeps_of_write finds (fun other write written => by cases written; rfl)
        (undisturbed (row.claimKey actor) _ rfl) finds.unique (fun other _ => .refl tables other)
        (fun _ _ _ notClaim => absurd rfl notClaim) relies (.inr ⟨_, rfl⟩)
  | @drop row =>
      have claimed : Claimed tables row (row.claimKey actor) := relies
      obtain ⟨consistent, same⟩ := claimed.drop finds.unique
      exact keeps_of_write finds (fun other write written => by cases written; rfl)
        (undisturbed (row.claimKey actor) _ rfl) (finds.unique.filter _) same
        (fun _ _ _ notClaim => absurd rfl notClaim) trivial (.inl consistent)

theorem sameAt_updateMode {uid : Text} {mode : AclMode}
    (pending : ∀ row ∈ tables.rows, row.uid = uid → row.holder = none) (key : ShareKey) :
    SameAt tables (tables.updateMode uid mode) key := by
  refine sameAt_of_rows (fun row active => ?_) key
  simp only [List.mem_map]
  constructor
  · rintro ⟨old, member, changed⟩
    split at changed
    · rename_i isUid
      subst changed
      simp [ShareRow.key, pending old member isUid] at active
    · exact changed ▸ member
  · intro member
    refine ⟨row, member, if_neg fun isUid => ?_⟩
    simp [ShareRow.key, pending row member isUid] at active

theorem sameAt_deleteByUid {uid : Text} (pending : ∀ row ∈ tables.rows, row.uid = uid → row.holder = none)
    (key : ShareKey) : SameAt tables (tables.deleteByUid uid) key := by
  refine sameAt_of_rows (fun row active => ?_) key
  simp only [List.mem_filter, decide_eq_true_eq, and_iff_left_iff_imp]
  intro member isUid
  simp [ShareRow.key, pending row member isUid] at active

theorem sameAt_insertPending {uid email : Text} {entry issuer : Nat} {mode : AclMode} (key : ShareKey) :
    SameAt tables (tables.insertPending uid email entry issuer mode) key := by
  refine sameAt_of_rows (fun row active => ?_) key
  simp only [List.mem_append, List.mem_singleton, or_iff_left_iff_imp]
  rintro rfl
  exact absurd rfl active

theorem performs_keeps {seen seen' : List Nat} {task : ShareTask} {todo more : List ShareTask}
    (step : Performs env tables actor seen task tables' seen' doing' more)
    (finds : Keeps tables actor .nothing others)
    (allowed : shareAllowed tables others ⟨actor, seen, .nothing, task :: todo⟩) :
    Keeps tables' actor doing' others := by
  have own : ∀ (key other : ShareKey) write, ShareDoing.nothing.writes actor = some (other, write) → other = key :=
    fun _ _ _ written => by cases written
  have condition := allowed.2 rfl
  cases step with
  | @share key mode =>
      exact keeps_of_write finds (own key) condition (by rw [setUserUser_rows]; exact finds.unique)
        (fun other differ => setUserUser_sameAt differ)
        (fun doing actor written _ _ => share_alike mem_setUserUser doing actor written) mem_setUserUser
        (.inr ⟨_, rfl⟩)
  | @clear key modes =>
      exact keeps_of_write finds (own key) condition.1 finds.unique (fun other _ => .refl tables other)
        (fun _ _ _ _ relies => relies) condition.2 (.inr ⟨_, rfl⟩)
  | @claimApplied row _ notOwner notIssuer applied =>
      have undisturbed := condition.1 _ applied
      have consistent : tables.ConsistentAt (row.claimKey actor) := by
        rcases finds.agrees (row.claimKey actor) with consistent | ⟨_, none⟩ | ⟨q, member, write, written⟩
        · exact consistent
        · cases none
        · exact absurd rfl (undisturbed q member write written).2
      obtain ⟨claimed, unique, same⟩ := claimed_of_applied applied condition.2 finds.unique consistent
      exact keeps_of_write finds (own (row.claimKey actor)) undisturbed unique same
        (fun _ _ _ notClaim => absurd rfl notClaim) claimed (.inr ⟨_, rfl⟩)
  | @updateInvite uid mode =>
      refine keeps_of_same finds (finds.unique.map fun row => ?_) (sameAt_updateMode condition)
      split
      · rfl
      · rfl
  | @insertInvite email entry mode uid fresh =>
      exact keeps_of_same finds (finds.unique.concat fresh) sameAt_insertPending
  | @deleteByUid uid => exact keeps_of_same finds (finds.unique.filter _) (sameAt_deleteByUid condition)
  | inviteAgain | inviteNew | unshareRows | unshareNoRows | issuersGranting | seenBefore | revokeDownstream
  | revokeFor | unauthorized | holdsStill | holdsNoMore | cancelInvite | claimPendingShares | claimantUnknown
  | claimDropped | claimMissed | claimDuplicate | claimFailed =>
      exact finds

theorem shareStep_keeps {next : Option ShareCall} (step : ShareStep env tables call tables' next)
    (allowed : shareAllowed tables others call) (finds : Keeps tables call.actor call.doing others) :
    (∃ later, next = some later ∧ Keeps tables' later.actor later.doing others) ∨
      (next = none ∧ Keeps tables' call.actor .nothing others) := by
  cases step with
  | returns => exact .inr ⟨rfl, finds⟩
  | finishes step => exact .inl ⟨_, rfl, finishes_keeps step finds allowed.1⟩
  | performs step => exact .inl ⟨_, rfl, performs_keeps step finds allowed⟩

/-- From a consistent state, any calls that write each key undisturbed leave a consistent state once none of
    them is in flight. -/
theorem consistent_of_quiescent {c d : Config ShareTables ShareCall} (run : Run (shareSystem env) c d)
    (consistent : c.shared.Consistent) (starts : c.inFlight = []) (completed : d.inFlight = []) :
    d.shared.Consistent := by
  have supported : Supported (fun tables : ShareTables => UniqueUids tables.rows)
      (fun tables (call : ShareCall) => call.doing.Relies tables call.actor) c := by
    refine ⟨consistent.unique, fun call member => ?_⟩
    rw [starts] at member
    cases member
  have indebted : Indebted (fun (tables : ShareTables) key => ¬ tables.ConsistentAt key)
      (fun (call : ShareCall) key => ∃ write, call.writes = some (key, write)) c :=
    fun key bad => absurd (consistent.agree key) bad
  have kept := run_supported_indebted run supported indebted ?_ ?_
  · refine ⟨kept.1.holds, fun key => ?_⟩
    by_contra bad
    obtain ⟨call, member, _⟩ := kept.2 key bad
    rw [completed] at member
    cases member
  · intro tables call issued _
    cases issued with
    | share | invite | unshare | cancelInvite | claimPendingShares => trivial
  · intro tables others call tables' next allowed step unique relies othersRely owed
    have finds : Keeps tables call.actor call.doing others := by
      refine ⟨unique, relies, othersRely, fun key => ?_⟩
      by_cases agree : tables.ConsistentAt key
      · exact .inl agree
      · exact .inr (owed key agree)
    rcases shareStep_keeps step allowed finds with ⟨later, rfl, keeps⟩ | ⟨rfl, keeps⟩
    · refine ⟨keeps.unique, fun q isNext => ?_, keeps.spares, fun key bad => ?_⟩
      · cases isNext
        exact keeps.relies
      · rcases (keeps.agrees key).resolve_left bad with own | owed
        · exact .inl ⟨later, rfl, own⟩
        · exact .inr owed
    · refine ⟨keeps.unique, fun q isNext => (by cases isNext), keeps.spares, fun key bad => ?_⟩
      rcases (keeps.agrees key).resolve_left bad with ⟨_, none⟩ | owed
      · cases none
      · exact .inr owed

end Calls

section Example

def oneOwner : ShareEnv := ⟨fun _ => 1, fun _ _ => false⟩

def fileKey : ShareKey := ⟨1, 2, 9⟩

def fileRow : ShareRow := ⟨"s1".toList, 1, [], some 2, 9, .read⟩

def noShares : ShareTables := ⟨[], []⟩

def fileShared : ShareTables := ⟨[(fileKey, .read)], [fileRow]⟩

theorem noShares_consistent : noShares.Consistent where
  unique _ member := absurd member List.not_mem_nil
  agree _ := consistentAt_of_none (fun _ => List.not_mem_nil) fun _ member =>
    absurd member List.not_mem_nil

theorem fileShared_consistent : fileShared.Consistent where
  unique row member other otherMember _ :=
    (List.mem_singleton.mp member).trans (List.mem_singleton.mp otherMember).symm
  agree key := by
    refine ⟨fun mode granted => ?_, fun row member isKey => ?_⟩
    · obtain ⟨rfl, _⟩ := Prod.mk.inj (List.mem_singleton.mp granted)
      exact ⟨fileRow, List.mem_singleton.mpr rfl, rfl⟩
    · obtain rfl := List.mem_singleton.mp member
      obtain rfl := Option.some.inj isKey
      exact List.mem_singleton.mpr rfl

theorem undisturbed_alone (key : ShareKey) (write : ShareWrite) : Undisturbed [] key write :=
  fun _ member => absurd member List.not_mem_nil

theorem fileShare_starts : ShareStarts oneOwner ⟨1, [], .nothing, [.share fileKey .read]⟩ :=
  @ShareStarts.share oneOwner fileKey .read (by decide) (by decide)

/-- A call that shares the entry alone leaves a grant and its row. -/
theorem fileShare_consistent :
    ((noShares.setUserUser fileKey .read).upsertActive "s1".toList [] fileKey .read).Consistent := by
  have run : Run (shareSystem oneOwner) ⟨noShares, []⟩
      ⟨(noShares.setUserUser fileKey .read).upsertActive "s1".toList [] fileKey .read, []⟩ :=
    .head (.issue fileShare_starts) <|
    .head (.goesOn ⟨fun _ _ written => (by cases written), fun _ => undisturbed_alone _ _⟩
      (.performs .share)) <|
    .head (.goesOn ⟨fun key write _ => undisturbed_alone key write, fun nothing => (by cases nothing)⟩
      (.finishes (.upsert _ _ fun _ member => absurd member List.not_mem_nil))) <|
    .single (.completes ⟨fun _ _ written => (by cases written), fun _ => trivial⟩ .returns)
  exact consistent_of_quiescent run noShares_consistent rfl rfl

/-- The owner shares the entry again while another of its calls withdraws it, between the revokes and the
    deletion of the row: the grant stands, and no row shows it. -/
theorem reshare_leaves_hidden_grant :
    ∃ tables, Run (shareSystem oneOwner).unrestricted ⟨fileShared, []⟩ ⟨tables, []⟩ ∧
      fileShared.Consistent ∧ (fileKey, .read) ∈ tables.grants ∧ tables.rows = [] := by
  have run : Run (shareSystem oneOwner).unrestricted ⟨fileShared, []⟩ _ :=
    .head (.issue (.unshare (by decide) : ShareStarts oneOwner ⟨1, [], .nothing, [.unshare 2 9]⟩)) <|
    .head (.goesOn trivial (.performs (.unshareRows rfl (by decide)))) <|
    .head (.goesOn trivial (.performs (.revokeDownstream (by decide) (List.nil_sublist _)))) <|
    .head (.goesOn trivial (.performs (.revokeFor (fun _ => true) (fun _ _ => rfl) (by decide)))) <|
    .head (.goesOn trivial (.performs .clear)) <|
    .head (.goesOn trivial (.finishes .revoke)) <|
    .head (.goesOn trivial (.finishes .revoke)) <|
    .head (.goesOn trivial (.finishes .revoke)) <|
    .head (.goesOn trivial (.finishes .revoke)) <|
    .head (.goesOn trivial (.finishes .revoke)) <|
    .head (.issue fileShare_starts) <|
    .head (.goesOn trivial (.performs .share)) <|
    .head (.goesOn trivial (.finishes (.upsert "s2".toList [] (by decide)))) <|
    .head (.completes trivial .returns) <|
    .head (.goesOn trivial (.finishes .delete)) <|
    .single (.completes trivial .returns)
  exact ⟨_, run, fileShared_consistent, by decide, by decide⟩

end Example

end Puter

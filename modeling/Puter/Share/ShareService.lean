/-
Module: Puter.Share.ShareService
Purpose: The sharing calls of services/share/ShareService.ts (`share`, `unshare`, `claimPendingShares`, and the
  invites that `share` makes and `unshare` cancels) as sequences of atomic statements. What a call has read it
  carries along; what the permission layer or the user store answers in between may be anything. Calls that
  end with an error are left out.
Trusted boundary: none
Main exports: ShareEnv, ShareStarts, shareSystem
-/
import Puter.Share.ShareStore
import Puter.Library.Interleaving

namespace Puter

open Interleaving

/-- What the calls know of the entries. -/
structure ShareEnv where
  owner : Nat → Nat
  /-- The first entry lies below the second. -/
  below : Nat → Nat → Bool

/-- `entryPermissions`, as modes. -/
def entryModes : List AclMode := [.see, .list, .read, .write, .manage]

/-- What a call has still to do. -/
inductive ShareTask where
  /-- `share` with a known recipient. -/
  | share (key : ShareKey) (mode : AclMode)
  /-- `#invite`, up to the read of `upsertPending`. -/
  | invite (email : Text) (entry : Nat) (mode : AclMode)
  | updateInvite (uid : Text) (mode : AclMode)
  | insertInvite (email : Text) (entry : Nat) (mode : AclMode)
  /-- `unshare` with a known recipient. -/
  | unshare (holder entry : Nat)
  /-- `#issuersGranting`, where no row names an issuer. -/
  | issuersGranting (holder entry : Nat)
  | revokeDownstream (entry issuer : Nat)
  /-- `#revokeFor`, and the row after it. -/
  | revokeFor (key : ShareKey)
  /-- The loop of `#revokeFor`, over the modes that the actor may manage. -/
  | clear (key : ShareKey) (modes : List AclMode)
  /-- Whether the holder still manages the node of its row; if not, what it shared below the entry goes. -/
  | stillHolds (entry holder : Nat)
  | cancelInvite (entry : Nat) (email : Text)
  | claimPendingShares (email : Text)
  /-- The body of the loop of `claimPendingShares`. -/
  | claim (row : ShareRow)
  | deleteByUid (uid : Text)

/-- Where a call is between two writes that belong together. -/
inductive ShareDoing where
  | nothing
  /-- The mode is granted, the row not yet written. -/
  | sharing (key : ShareKey) (mode : AclMode)
  /-- The modes still to be revoked, and then the row. -/
  | withdrawing (key : ShareKey) (left : List AclMode)
  /-- The invite is claimed, its mode not yet granted. -/
  | claiming (row : ShareRow)
  /-- The mode of a claimed invite could not be granted. -/
  | refused (row : ShareRow)

/-- A call: who makes it, the issuers that `#revokeDownstream` has seen, and what is to be done. -/
structure ShareCall where
  actor : Nat
  seen : List Nat := []
  doing : ShareDoing := .nothing
  todo : List ShareTask

def ShareRow.claimKey (row : ShareRow) (holder : Nat) : ShareKey := ⟨row.issuer, holder, row.entry⟩

/-- What a call is writing. -/
inductive ShareWrite where
  | share (mode : AclMode)
  | withdraw
  | claim
deriving DecidableEq, Repr

def ShareDoing.writes (actor : Nat) : ShareDoing → Option (ShareKey × ShareWrite)
  | .nothing => none
  | .sharing key mode => some (key, .share mode)
  | .withdrawing key _ => some (key, .withdraw)
  | .claiming row | .refused row => some (row.claimKey actor, .claim)

def ShareCall.writes (call : ShareCall) : Option (ShareKey × ShareWrite) := call.doing.writes call.actor

/-- What `unshare` does once it knows the issuers: first what the holder shared on, then the grants of each
    issuer. -/
def unshareTasks (actor holder entry : Nat) (issuers : List Nat) : List ShareTask :=
  let issuers := if issuers = [] then [actor] else issuers
  .revokeDownstream entry holder :: issuers.map fun issuer => .revokeFor ⟨issuer, holder, entry⟩

/-- The rows that `unshare` clears: those of every issuer for the owner and for the holder, the actor's own
    otherwise. -/
def clearable (env : ShareEnv) (actor holder entry issuer : Nat) : Bool :=
  env.owner entry = actor || holder = actor || issuer = actor

/-- The second write of two that belong together, or the first of them undone. -/
inductive Finishes (tables : ShareTables) (actor : Nat) : ShareDoing → ShareTables → ShareDoing → Prop where
  | upsert {key mode} (uid email : Text) (fresh : ∀ row ∈ tables.rows, row.uid ≠ uid) :
      Finishes tables actor (.sharing key mode) (tables.upsertActive uid email key mode) .nothing
  | revoke {key mode left} :
      Finishes tables actor (.withdrawing key (mode :: left)) (tables.revoke key mode)
        (.withdrawing key left)
  | delete {key} : Finishes tables actor (.withdrawing key []) (tables.deleteActive key) .nothing
  | grant {row} :
      Finishes tables actor (.claiming row) (tables.setUserUser (row.claimKey actor) row.mode) .nothing
  | refuse {row} : Finishes tables actor (.claiming row) tables (.refused row)
  | drop {row} : Finishes tables actor (.refused row) (tables.deleteByUid row.uid) .nothing

/-- What a task leaves to be done: what the call is in the middle of, and further tasks. -/
inductive Performs (env : ShareEnv) (tables : ShareTables) (actor : Nat) (seen : List Nat) :
    ShareTask → ShareTables → List Nat → ShareDoing → List ShareTask → Prop where
  | share {key mode} :
      Performs env tables actor seen (.share key mode) (tables.setUserUser key mode) seen
        (.sharing key mode) []
  | inviteAgain {email entry mode uid} (found : tables.findPending email entry actor = some uid) :
      Performs env tables actor seen (.invite email entry mode) tables seen .nothing [.updateInvite uid mode]
  | inviteNew {email entry mode} (absent : tables.findPending email entry actor = none) :
      Performs env tables actor seen (.invite email entry mode) tables seen .nothing
        [.insertInvite email entry mode]
  | updateInvite {uid mode} :
      Performs env tables actor seen (.updateInvite uid mode) (tables.updateMode uid mode) seen .nothing []
  | insertInvite {email entry mode} (uid : Text) (fresh : ∀ row ∈ tables.rows, row.uid ≠ uid) :
      Performs env tables actor seen (.insertInvite email entry mode)
        (tables.insertPending uid email entry actor mode) seen .nothing []
  | unshareRows {holder entry issuers}
      (isIssuers : issuers = (((tables.listByFsentry entry).filter fun row =>
        row.holder = some holder ∧ clearable env actor holder entry row.issuer).map ShareRow.issuer).eraseDups)
      (given : issuers ≠ []) :
      Performs env tables actor seen (.unshare holder entry) tables seen .nothing
        (unshareTasks actor holder entry issuers)
  | unshareNoRows {holder entry}
      (none : ∀ row ∈ tables.listByFsentry entry,
        ¬ (row.holder = some holder ∧ clearable env actor holder entry row.issuer)) :
      Performs env tables actor seen (.unshare holder entry) tables seen .nothing
        [.issuersGranting holder entry]
  | issuersGranting {holder entry} :
      Performs env tables actor seen (.issuersGranting holder entry) tables seen .nothing
        (unshareTasks actor holder entry
          ((tables.issuersGranting entry holder).filter (clearable env actor holder entry)))
  | seenBefore {entry issuer} (isSeen : issuer ∈ seen) :
      Performs env tables actor seen (.revokeDownstream entry issuer) tables seen .nothing []
  /-- Rows whose entry or holder is gone are passed over. -/
  | revokeDownstream {entry issuer} {rows : List ShareRow} (notSeen : issuer ∉ seen)
      (listed : rows.Sublist ((tables.listByFsentrySubtree env.below entry).filter (·.issuer = issuer))) :
      Performs env tables actor seen (.revokeDownstream entry issuer) tables (issuer :: seen) .nothing
        (rows.flatMap fun row => row.key.toList.flatMap fun key =>
          [.revokeFor key, .stillHolds entry key.holder])
  | revokeFor {key} (manageable : AclMode → Bool) (self : key.holder = actor → ∀ mode, manageable mode)
      (some : entryModes.filter manageable ≠ []) :
      Performs env tables actor seen (.revokeFor key) tables seen .nothing
        [.clear key (entryModes.filter manageable)]
  | unauthorized {key} (other : key.holder ≠ actor) :
      Performs env tables actor seen (.revokeFor key) tables seen .nothing []
  | clear {key modes} :
      Performs env tables actor seen (.clear key modes) tables seen (.withdrawing key modes) []
  | holdsStill {entry holder} :
      Performs env tables actor seen (.stillHolds entry holder) tables seen .nothing []
  | holdsNoMore {entry holder} :
      Performs env tables actor seen (.stillHolds entry holder) tables seen .nothing
        [.revokeDownstream entry holder]
  | cancelInvite {entry email} :
      Performs env tables actor seen (.cancelInvite entry email) tables seen .nothing
        (((tables.listPendingByEmail email).filter fun row =>
          row.entry = entry ∧ (env.owner entry = actor ∨ row.issuer = actor)).map
            fun row => .deleteByUid row.uid)
  | claimPendingShares {email} :
      Performs env tables actor seen (.claimPendingShares email) tables seen .nothing
        ((tables.listPendingByEmail email).map .claim)
  /-- The claimant has no account. -/
  | claimantUnknown {email} :
      Performs env tables actor seen (.claimPendingShares email) tables seen .nothing []
  /-- The entry or the issuer is gone, the claimant is one of them or blocks the issuer, or the issuer may not
      share the entry any more. -/
  | claimDropped {row} :
      Performs env tables actor seen (.claim row) tables seen .nothing [.deleteByUid row.uid]
  | claimApplied {row tables'} (notOwner : env.owner row.entry ≠ actor) (notIssuer : row.issuer ≠ actor)
      (applied : tables.applyPending row.uid actor = .applied tables') :
      Performs env tables actor seen (.claim row) tables' seen (.claiming row) []
  | claimMissed {row} (nothing : tables.applyPending row.uid actor = .nothing) :
      Performs env tables actor seen (.claim row) tables seen .nothing []
  | claimDuplicate {row} (violation : tables.applyPending row.uid actor = .uniqueViolation) :
      Performs env tables actor seen (.claim row) tables seen .nothing [.deleteByUid row.uid]
  /-- What fails before the invite is applied is logged, and the loop goes on. -/
  | claimFailed {row} : Performs env tables actor seen (.claim row) tables seen .nothing []
  | deleteByUid {uid} :
      Performs env tables actor seen (.deleteByUid uid) (tables.deleteByUid uid) seen .nothing []

/-- One atomic step of a call. -/
inductive ShareStep (env : ShareEnv) : ShareTables → ShareCall → ShareTables → Option ShareCall → Prop where
  | returns {tables actor seen} : ShareStep env tables ⟨actor, seen, .nothing, []⟩ tables none
  | finishes {tables actor seen doing todo tables' doing'} (step : Finishes tables actor doing tables' doing') :
      ShareStep env tables ⟨actor, seen, doing, todo⟩ tables' (some ⟨actor, seen, doing', todo⟩)
  | performs {tables actor seen task todo tables' seen' doing more}
      (step : Performs env tables actor seen task tables' seen' doing more) :
      ShareStep env tables ⟨actor, seen, .nothing, task :: todo⟩ tables'
        (some ⟨actor, seen', doing, more ++ todo⟩)

/-- How a call starts: nobody shares with themselves or with the owner, or takes an owner's access. -/
inductive ShareStarts (env : ShareEnv) : ShareCall → Prop where
  | share {key mode} (notSelf : key.holder ≠ key.issuer) (notOwner : key.holder ≠ env.owner key.entry) :
      ShareStarts env ⟨key.issuer, [], .nothing, [.share key mode]⟩
  | invite {actor email entry mode} : ShareStarts env ⟨actor, [], .nothing, [.invite email entry mode]⟩
  | unshare {actor holder entry} (notOwner : holder ≠ env.owner entry) :
      ShareStarts env ⟨actor, [], .nothing, [.unshare holder entry]⟩
  | cancelInvite {actor entry email} : ShareStarts env ⟨actor, [], .nothing, [.cancelInvite entry email]⟩
  | claimPendingShares {holder email} :
      ShareStarts env ⟨holder, [], .nothing, [.claimPendingShares email]⟩

/-- Of the other calls, those in the middle of writing the key do the same thing to it, and no two of them
    claim it. -/
def Undisturbed (others : List ShareCall) (key : ShareKey) (write : ShareWrite) : Prop :=
  ∀ other ∈ others, ∀ write', other.writes = some (key, write') → write' = write ∧ write ≠ .claim

/-- A call writes a key undisturbed; it withdraws every mode that stands there; it changes and deletes by uid
    only what is still an invite; and it claims an invite as it has read it. -/
def shareAllowed (tables : ShareTables) (others : List ShareCall) (call : ShareCall) : Prop :=
  (∀ key write, call.writes = some (key, write) → Undisturbed others key write) ∧
  (call.doing = .nothing → match call.todo with
    | .share key mode :: _ => Undisturbed others key (.share mode)
    | .clear key modes :: _ =>
        Undisturbed others key .withdraw ∧ ∀ mode, (key, mode) ∈ tables.grants → mode ∈ modes
    | .claim row :: _ =>
        (∀ tables', tables.applyPending row.uid call.actor = .applied tables' →
          Undisturbed others (row.claimKey call.actor) .claim) ∧
        ∀ pending ∈ tables.rows, pending.uid = row.uid → pending.holder = none → pending = row
    | .updateInvite uid _ :: _ | .deleteByUid uid :: _ =>
        ∀ row ∈ tables.rows, row.uid = uid → row.holder = none
    | _ => True)

def shareSystem (env : ShareEnv) : System ShareTables ShareCall where
  issues := ShareStarts env
  atom := ShareStep env
  allow := shareAllowed

end Puter

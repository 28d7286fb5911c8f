/-
Module: Puter.Share.NodeGrants
Purpose: The grants of the sharing tables are the user-to-user rows of the permission tables: each mode of a key
  is the row of that holder, issuer and permission, and `setUserUser` and `revokeUserUserPermission` of the
  services do to the rows what the statements of the sharing tables do to the grants.
Trusted boundary: none
Main exports: EntryUuids, rows_follow_grants
-/
import Puter.Acl.SetUserUser
import Puter.Share.HiddenGrants

namespace Puter

open StateRun PermissionService

/-- The uuids of the entries: texts of letters, digits and dashes of which none begins another. -/
structure EntryUuids (uuidOf : Nat → Text) : Prop where
  uuid : ∀ entry, UuidText (uuidOf entry)
  apart : ∀ entry other, uuidOf entry <+: uuidOf other → entry = other

def grantRow (uuidOf : Nat → Text) (key : ShareKey) (mode : AclMode) : LinkedUserUserPermRow :=
  ⟨key.holder, key.issuer, permissionOfMode (uuidOf key.entry) mode⟩

/-- The rows on the entries are those of the grants. -/
structure Represents (uuidOf : Nat → Text) (tables : PermissionTables) (shares : ShareTables) : Prop where
  grants : ∀ key mode, (key, mode) ∈ shares.grants ↔ grantRow uuidOf key mode ∈ tables.userToUser
  modes : ∀ (key : ShareKey) permission,
    GrantOn tables key.issuer key.holder (uuidOf key.entry) permission →
      ∃ mode, permission = permissionOfMode (uuidOf key.entry) mode

theorem AclMode.text_injective {mode other : AclMode} (same : mode.text = other.text) : mode = other := by
  revert same
  cases mode <;> cases other <;> decide

theorem prefix_of_both_nodes {uid other permission : Text} (node : NodePermission uid permission)
    (otherNode : NodePermission other permission) : uid <+: other ∨ other <+: uid := by
  rcases node with fs | manage
  · rcases otherNode with otherFs | otherManage
    · rcases List.prefix_or_prefix_of_prefix fs otherFs with below | above
      · exact .inl ((List.prefix_append_right_inj _).mp below)
      · exact .inr ((List.prefix_append_right_inj _).mp above)
    · obtain ⟨more, rfl⟩ := fs
      obtain ⟨rest, same⟩ := otherManage
      cases (List.cons.inj same).1
  · rcases otherNode with otherFs | otherManage
    · obtain ⟨more, rfl⟩ := manage
      obtain ⟨rest, same⟩ := otherFs
      cases (List.cons.inj same).1
    · rcases List.prefix_or_prefix_of_prefix manage otherManage with below | above
      · exact .inl ((List.prefix_append_right_inj _).mp below)
      · exact .inr ((List.prefix_append_right_inj _).mp above)

section Spared

variable {service : PermissionService} {lookups : RuleLookups} {fuel : Nat} {world world' : PermissionWorld}

theorem revokes_spare {issuer holder : Actor} {resource : ResourceDescriptor} {target : ResourceAncestor}
    (call : NodeCall service lookups holder resource target) {permissions : List Text}
    (onNode : ∀ permission ∈ permissions, NodePermission target.uid permission)
    (ran : forEach (fun permission => do
      let _ ← service.revokeUserUserPermission fuel issuer holder.accountUser.username permission
        none
      return ()) permissions world = .ok () world') {row : LinkedUserUserPermRow}
    (elsewhere : ¬ (row.holderUserId = holder.accountUser.id ∧ row.issuerUserId = issuer.accountUser.id ∧
      NodePermission target.uid row.permission)) :
    row ∈ world'.tables.userToUser ↔ row ∈ world.tables.userToUser := by
  let Related (rest : List Text) (state : PermissionWorld) : Prop :=
    (∀ permission ∈ rest, NodePermission target.uid permission) ∧
      (row ∈ state.tables.userToUser ↔ row ∈ world.tables.userToUser)
  have finish : Related [] world' := by
    refine forEach_preserves ?_ (show Related permissions world from ⟨onNode, Iff.rfl⟩) ran
    intro permission rest state state' related stepped
    obtain ⟨revoked, between, revoke, done⟩ := bind_ok.mp stepped
    obtain ⟨_, rfl⟩ := pure_ok.mp done
    obtain ⟨restOnNode, same⟩ := related
    obtain ⟨user, rewritten, found, rewriting, rows⟩ := revoke_rows revoke
    have sameUser := call.holderStored user found
    have registered : (service.env state).rules.rewriters = registeredRewriters lookups := call.registered
    have node := restOnNode permission List.mem_cons_self
    obtain rfl : rewritten = permission :=
      Except.ok.inj (rewriting.symm.trans
        (rewritePermission_node registered call.uuid.uidText node))
    refine ⟨fun p member => restOnNode p (List.mem_cons_of_mem _ member), ?_⟩
    rw [rows, ← same, and_iff_left_iff_imp]
    rintro _ rfl
    exact elsewhere ⟨sameUser, rfl, node⟩
  exact finish.2

theorem setUserUser_leaves {issuer holder : Actor} {resource : ResourceDescriptor} {target : ResourceAncestor}
    {mode : AclMode} {returned : Bool} (call : NodeCall service lookups holder resource target)
    (issuerId : issuer.accountUser.id ≠ 0)
    (ran : setUserUser service fuel issuer holder resource mode false world = .ok returned world') :
    ((∃ permission, GrantOn world.tables issuer.accountUser.id holder.accountUser.id target.uid permission ∧
        modeOfPermission permission = some mode.text) ∧ world' = world) ∨
    ((∀ permission, GrantOn world.tables issuer.accountUser.id holder.accountUser.id target.uid permission →
        modeOfPermission permission ≠ some mode.text) ∧
      (∀ permission, GrantOn world'.tables issuer.accountUser.id holder.accountUser.id target.uid permission ↔
        permission = permissionOfMode target.uid mode) ∧
      ∀ row : LinkedUserUserPermRow, ¬ (row.holderUserId = holder.accountUser.id ∧
        row.issuerUserId = issuer.accountUser.id ∧ NodePermission target.uid row.permission) →
          (row ∈ world'.tables.userToUser ↔ row ∈ world.tables.userToUser)) := by
  have existing := fun permission =>
    @mem_statNode _ call.uuid world _ _ issuerId call.holderId permission
  rcases setUserUser_cases call ran with ⟨⟨permission, found, sameMode⟩, rfl⟩ |
      ⟨absent, between, grant, revokes⟩
  · exact .inl ⟨⟨permission, (existing permission).mp found, sameMode⟩, rfl⟩
  · obtain ⟨noneHasMode, oneMode⟩ := one_mode_of_absent call absent grant revokes
    refine .inr ⟨noneHasMode, oneMode, fun row apart => ?_⟩
    have node := permissionOfMode_node call.uuid mode
    rw [revokes_spare call (fun permission listed =>
      ((existing permission).mp (List.mem_filter.mp listed).1).2) revokes apart]
    obtain ⟨user, rewritten, found, rewriting, _, rows⟩ := grant_rows grant
    have sameUser := call.holderStored user found
    have registered : (service.env world).rules.rewriters = registeredRewriters lookups := call.registered
    obtain rfl : rewritten = permissionOfMode target.uid mode :=
      Except.ok.inj (rewriting.symm.trans (rewritePermission_node registered call.uuid.uidText node))
    rw [rows, or_iff_left_iff_imp]
    rintro rfl
    exact absurd ⟨sameUser, rfl, node⟩ apart

end Spared

section Rows

variable {uuidOf : Nat → Text} (uuids : EntryUuids uuidOf)

include uuids

theorem entry_of_both_nodes {entry other : Nat} {permission : Text}
    (node : NodePermission (uuidOf entry) permission) (otherNode : NodePermission (uuidOf other) permission) :
    entry = other := by
  rcases prefix_of_both_nodes node otherNode with below | above
  · exact uuids.apart entry other below
  · exact (uuids.apart other entry above).symm

theorem grantRow_injective {key other : ShareKey} {mode mode' : AclMode}
    (same : grantRow uuidOf key mode = grantRow uuidOf other mode') : key = other ∧ mode = mode' := by
  obtain ⟨holder, issuer, permission⟩ := LinkedUserUserPermRow.mk.inj same
  have node := permissionOfMode_node (uuids.uuid key.entry) mode
  have entry : key.entry = other.entry := by
    refine entry_of_both_nodes uuids node ?_
    rw [permission]
    exact permissionOfMode_node (uuids.uuid other.entry) mode'
  have modes := congrArg modeOfPermission permission
  rw [modeOfPermission_permissionOfMode (uuids.uuid key.entry),
    modeOfPermission_permissionOfMode (uuids.uuid other.entry)] at modes
  obtain ⟨keyIssuer, keyHolder, keyEntry⟩ := key
  obtain ⟨otherIssuer, otherHolder, otherEntry⟩ := other
  cases holder
  cases issuer
  cases entry
  exact ⟨rfl, AclMode.text_injective (Option.some.inj modes)⟩

variable {service : PermissionService} {lookups : RuleLookups} {fuel : Nat}
  {world world' : PermissionWorld} {shares : ShareTables}

theorem revoke_represents (represents : Represents uuidOf world.tables shares)
    (registered : service.rules.rewriters = registeredRewriters lookups) {actor : Actor}
    {username : Text} {key : ShareKey} {mode : AclMode} {revoked : Bool}
    (holderStored : ∀ user, service.getByUsername username = some user → user.id = key.holder)
    (ran : service.revokeUserUserPermission fuel actor username (permissionOfMode (uuidOf key.entry) mode)
      (some key.issuer) world = .ok revoked world') :
    Represents uuidOf world'.tables (shares.revoke key mode) := by
  obtain ⟨user, rewritten, found, rewriting, rows⟩ := revoke_rows ran
  have isHolder := holderStored user found
  have node := permissionOfMode_node (uuids.uuid key.entry) mode
  have envRegistered : (service.env world).rules.rewriters = registeredRewriters lookups := registered
  obtain rfl : rewritten = permissionOfMode (uuidOf key.entry) mode :=
    Except.ok.inj (rewriting.symm.trans
      (rewritePermission_node envRegistered (uuids.uuid key.entry).uidText node))
  have isRow : (⟨user.id, (some key.issuer).getD actor.accountUser.id,
      permissionOfMode (uuidOf key.entry) mode⟩ : LinkedUserUserPermRow) = grantRow uuidOf key mode := by
    rw [isHolder]
    rfl
  rw [isRow] at rows
  refine ⟨fun other mode' => ?_, fun other permission granted => ?_⟩
  · rw [mem_revoke, rows, ← represents.grants]
    refine and_congr_right fun _ => not_congr ⟨?_, fun same => ?_⟩
    · rintro ⟨rfl, rfl⟩
      rfl
    · exact grantRow_injective uuids same
  · exact represents.modes other permission ⟨((rows _).mp granted.1).1, granted.2⟩

/-- A call of `setUserUser` that completes grants the mode and takes the other modes of the key away, unless
    the mode stands. -/
theorem setUserUser_represents (represents : Represents uuidOf world.tables shares) {issuer holder : Actor}
    {resource : ResourceDescriptor} {target : ResourceAncestor} {mode : AclMode} {returned : Bool}
    {entry : Nat} (call : NodeCall service lookups holder resource target) (isTarget : target.uid = uuidOf entry)
    (issuerId : issuer.accountUser.id ≠ 0)
    (ran : setUserUser service fuel issuer holder resource mode false world = .ok returned world') :
    Represents uuidOf world'.tables
      (shares.setUserUser ⟨issuer.accountUser.id, holder.accountUser.id, entry⟩ mode) := by
  let key : ShareKey := ⟨issuer.accountUser.id, holder.accountUser.id, entry⟩
  have modeOf : ∀ other : AclMode, modeOfPermission (permissionOfMode (uuidOf entry) other) = some other.text :=
    modeOfPermission_permissionOfMode (uuids.uuid entry)
  have node : ∀ other : AclMode, NodePermission (uuidOf entry) (permissionOfMode (uuidOf entry) other) :=
    permissionOfMode_node (uuids.uuid entry)
  rcases setUserUser_leaves call issuerId ran with ⟨⟨permission, granted, sameMode⟩, rfl⟩ |
      ⟨absent, onlyMode, elsewhere⟩
  · -- The mode is found, so its grant stands.
    rw [isTarget] at granted
    obtain ⟨other, rfl⟩ := represents.modes key permission granted
    obtain rfl : other = mode := AclMode.text_injective (Option.some.inj ((modeOf other).symm.trans sameMode))
    have stands : (key, other) ∈ shares.grants := (represents.grants key other).mpr granted.1
    rw [ShareTables.setUserUser, if_pos stands]
    exact represents
  · rw [isTarget] at absent onlyMode elsewhere
    have notThere : (key, mode) ∉ shares.grants := fun stands =>
      absent _ ⟨(represents.grants key mode).mp stands, node mode⟩ (modeOf mode)
    have apart : ∀ other : ShareKey, other ≠ key → ∀ permission, NodePermission (uuidOf other.entry) permission →
        ¬ (other.holder = holder.accountUser.id ∧ other.issuer = issuer.accountUser.id ∧
          NodePermission (uuidOf entry) permission) := by
      rintro ⟨otherIssuer, otherHolder, otherEntry⟩ differ permission otherNode ⟨rfl, rfl, keyNode⟩
      obtain rfl := entry_of_both_nodes uuids otherNode keyNode
      exact differ rfl
    refine ⟨fun other mode' => ?_, fun other permission granted => ?_⟩
    · by_cases isKey : other = key
      · subst isKey
        have here := onlyMode (permissionOfMode (uuidOf entry) mode')
        rw [GrantOn, and_iff_left (node mode')] at here
        rw [mem_setUserUser_of_absent notThere]
        refine Iff.trans ⟨fun same => same ▸ rfl, fun same => ?_⟩ here.symm
        exact AclMode.text_injective (Option.some.inj
          ((modeOf mode').symm.trans ((congrArg modeOfPermission same).trans (modeOf mode))))
      · rw [(setUserUser_sameAt isKey).grants, represents.grants]
        exact (elsewhere _ (apart other isKey _
          (permissionOfMode_node (uuids.uuid other.entry) mode'))).symm
    · by_cases isKey : other = key
      · subst isKey
        exact ⟨mode, (onlyMode permission).mp granted⟩
      · exact represents.modes other permission
          ⟨(elsewhere _ (apart other isKey permission granted.2)).mp granted.1, granted.2⟩

end Rows

/-- The calls on the grants of an entry. -/
inductive GrantOp where
  | setUserUser (key : ShareKey) (mode : AclMode)
  | revoke (key : ShareKey) (mode : AclMode)

/-- What the statements of the sharing tables do. -/
def GrantOp.apply (shares : ShareTables) : GrantOp → ShareTables
  | .setUserUser key mode => shares.setUserUser key mode
  | .revoke key mode => shares.revoke key mode

/-- What the services do, where the call completes. -/
inductive GrantOp.Performs (service : PermissionService) (lookups : RuleLookups) (uuidOf : Nat → Text) :
    GrantOp → PermissionWorld → PermissionWorld → Prop where
  | setUserUser {fuel entry : Nat} {issuer holder : Actor} {resource : ResourceDescriptor} {target : ResourceAncestor}
      {mode : AclMode} {returned : Bool} {world world' : PermissionWorld}
      (call : NodeCall service lookups holder resource target) (isTarget : target.uid = uuidOf entry)
      (issuerId : issuer.accountUser.id ≠ 0)
      (ran : Puter.setUserUser service fuel issuer holder resource mode false world = .ok returned world') :
      Performs service lookups uuidOf (.setUserUser ⟨issuer.accountUser.id, holder.accountUser.id, entry⟩ mode) world
        world'
  | revoke {fuel : Nat} {actor : Actor} {username : Text} {key : ShareKey} {mode : AclMode} {revoked : Bool}
      {world world' : PermissionWorld} (registered : service.rules.rewriters = registeredRewriters lookups)
      (holderStored : ∀ user, service.getByUsername username = some user → user.id = key.holder)
      (ran : service.revokeUserUserPermission fuel actor username (permissionOfMode (uuidOf key.entry) mode)
        (some key.issuer) world = .ok revoked world') :
      Performs service lookups uuidOf (.revoke key mode) world world'

def PerformsAll (service : PermissionService) (lookups : RuleLookups) (uuidOf : Nat → Text) :
    List GrantOp → PermissionWorld → PermissionWorld → Prop
  | [], world, world' => world' = world
  | op :: ops, world, world' =>
      ∃ between, op.Performs service lookups uuidOf world between ∧ PerformsAll service lookups uuidOf ops between world'

/-- After every sequence of grants and revokes that complete, by any users, the permission rows are those of the
    sharing tables after the same sequence. -/
theorem rows_follow_grants {uuidOf : Nat → Text} (uuids : EntryUuids uuidOf) {service : PermissionService}
    {lookups : RuleLookups} {ops : List GrantOp} {world world' : PermissionWorld} {shares : ShareTables}
    (represents : Represents uuidOf world.tables shares) (run : PerformsAll service lookups uuidOf ops world world') :
    Represents uuidOf world'.tables (ops.foldl GrantOp.apply shares) := by
  induction ops generalizing world shares with
  | nil => exact run ▸ represents
  | cons op ops ih =>
      obtain ⟨between, performs, rest⟩ := run
      refine ih ?_ rest
      cases performs with
      | setUserUser call isTarget issuerId ran => exact setUserUser_represents uuids represents call isTarget issuerId ran
      | revoke registered holderStored ran => exact revoke_represents uuids represents registered holderStored ran

section Examples

def numberedUuid (entry : Nat) : Text := List.replicate entry 'm' ++ "n1".toList

theorem numberedUuid_uuids : EntryUuids numberedUuid where
  uuid entry := by
    refine ⟨by simp [numberedUuid], fun c member => ?_⟩
    rcases List.mem_append.mp member with repeated | last
    · rw [List.eq_of_mem_replicate repeated]
      exact .inl rfl
    · have alphanum : ∀ c ∈ "n1".toList, c.isAlphanum = true := by simp
      exact .inl (alphanum c last)
  apart entry other begins := by
    induction entry generalizing other with
    | zero =>
        cases other with
        | zero => rfl
        | succ other => cases (List.cons_prefix_cons.mp begins).1
    | succ entry ih =>
        cases other with
        | zero => cases (List.cons_prefix_cons.mp begins).1
        | succ other => rw [ih other (List.cons_prefix_cons.mp begins).2]

theorem rows_follow_grants_shared :
    ∃ world', setUserUser sharingService 1 (.ofUser owner) (.ofUser recipient) sharedFileResource .read false
        (grantsWorld []) = .ok true world' ∧
      Represents numberedUuid world'.tables
        ([GrantOp.setUserUser ⟨1, 2, 0⟩ .read].foldl GrantOp.apply ⟨[], []⟩) := by
  obtain ⟨returned, world', ran, outcome⟩ := exists_of_succeedsWith
    (show succeedsWith (fun returned (_ : PermissionWorld) => returned)
      (setUserUser sharingService 1 (.ofUser owner) (.ofUser recipient) sharedFileResource .read false
        (grantsWorld [])) = true by
      decide +kernel)
  obtain rfl : returned = true := outcome
  have empty : Represents numberedUuid (grantsWorld []).tables ⟨[], []⟩ :=
    ⟨fun _ _ => ⟨nofun, nofun⟩, fun _ _ granted => nomatch granted.1⟩
  have performs : GrantOp.Performs sharingService sharedFileLookups numberedUuid (.setUserUser ⟨1, 2, 0⟩ .read)
      (grantsWorld []) world' := .setUserUser sharingCall rfl (by decide) ran
  exact ⟨world', ran, rows_follow_grants numberedUuid_uuids empty ⟨world', performs, rfl⟩⟩

end Examples

end Puter

/-
Module: Puter.Acl.SetUserUser
Purpose: What setUserUser leaves on a node. It is meant to leave one mode for an issuer and a holder. It
  does when none of the grants it finds gives the mode asked for; when one of them does, the call
  returns at once and leaves every other grant where it was.
Trusted boundary: none
Main exports: UuidText, setUserUser_one_mode_iff
-/
import Puter.Acl.ACLService

namespace Puter

open StateRun PermissionService

def UuidText (uid : Text) : Prop := uid ≠ [] ∧ ∀ c ∈ uid, c.isAlphanum = true ∨ c = '-'

theorem UuidText.char_ne {uid : Text} (uuid : UuidText uid) {c : Char} (member : c ∈ uid)
    {d : Char} (special : d.isAlphanum = false) (notDash : d ≠ '-') : c ≠ d := by
  rintro rfl
  rcases uuid.2 c member with alphanum | dash
  · rw [special] at alphanum
    cases alphanum
  · exact notDash dash

theorem UuidText.noColon {uid : Text} (uuid : UuidText uid) : ':' ∉ uid := fun member =>
  uuid.char_ne member (by decide) (by decide) rfl

theorem UuidText.uidText {uid : Text} (uuid : UuidText uid) : UidText uid := by
  cases uid with
  | nil => exact absurd rfl uuid.1
  | cons c rest =>
      exact ⟨c, rest, rfl, uuid.char_ne List.mem_cons_self (by decide) (by decide)⟩

def GrantOn (tables : PermissionTables) (issuerId holderId : Nat) (uid permission : Text) : Prop :=
  ⟨holderId, issuerId, permission⟩ ∈ tables.userToUser ∧ NodePermission uid permission

section Texts

variable {uid : Text} (uuid : UuidText uid)

include uuid

theorem join_fs_uid : PermissionUtil.join ["fs".toList, uid] = "fs:".toList ++ uid := by
  rw [PermissionUtil.join_noColon (by simpa using uuid.noColon)]
  simp [List.intercalate, List.intersperse]

theorem join_manage_fs_uid :
    PermissionUtil.join [PermissionUtil.managePermPrefix, "fs".toList, uid] =
      "manage:fs:".toList ++ uid := by
  have noColon : ':' ∉ PermissionUtil.managePermPrefix := by decide
  have written : "manage:fs:".toList = PermissionUtil.managePermPrefix ++ ':' :: ("fs".toList ++ [':']) := by
    decide +kernel
  rw [PermissionUtil.join_noColon (by simpa [noColon] using uuid.noColon), written]
  simp [List.intercalate, List.intersperse]

theorem join_fs_uid_mode (mode : AclMode) :
    PermissionUtil.join ["fs".toList, uid, mode.text] =
      "fs:".toList ++ uid ++ ':' :: mode.text := by
  have modeNoColon : ':' ∉ mode.text := by
    cases mode <;> decide
  rw [PermissionUtil.join_noColon (by simpa using ⟨uuid.noColon, modeNoColon⟩)]
  simp [List.intercalate, List.intersperse]

theorem permissionOfMode_node (mode : AclMode) :
    NodePermission uid (permissionOfMode uid mode) := by
  by_cases manage : mode = .manage
  · rw [permissionOfMode, if_pos manage, join_manage_fs_uid uuid]
    exact .inr (List.prefix_refl _)
  · rw [permissionOfMode, if_neg manage, join_fs_uid_mode uuid]
    exact .inl (List.prefix_append _ _)

theorem modeOfPermission_permissionOfMode (mode : AclMode) :
    modeOfPermission (permissionOfMode uid mode) = some mode.text := by
  by_cases manage : mode = .manage
  · rw [permissionOfMode, if_pos manage, join_manage_fs_uid uuid, manage]
    rfl
  · have notManage : PermissionUtil.isManage (permissionOfMode uid mode) = false := by
      rw [permissionOfMode, if_neg manage, join_fs_uid_mode uuid]
      rfl
    have noBackslash : '\\' ∉ uid := fun member =>
      uuid.char_ne member (by decide) (by decide) rfl
    have modeNoBackslash : '\\' ∉ mode.text := by
      cases mode <;> decide
    rw [modeOfPermission, notManage, permissionOfMode, if_neg manage,
      PermissionUtil.split_join (by simp) (by simpa using ⟨noBackslash, modeNoBackslash⟩)]
    rfl

theorem nodePrefix_plain {start : Text} (startPlain : ∀ c ∈ start, c ≠ '\\' ∧ c ≠ '%' ∧ c ≠ '_') :
    ∀ c ∈ start ++ uid, c ≠ '\\' ∧ c ≠ '%' ∧ c ≠ '_' := by
  intro c member
  rcases List.mem_append.mp member with inStart | inUid
  · exact startPlain c inStart
  · exact ⟨uuid.char_ne inUid (by decide) (by decide), uuid.char_ne inUid (by decide) (by decide),
      uuid.char_ne inUid (by decide) (by decide)⟩

theorem mem_statNode {world : PermissionWorld} {issuer holder : Actor}
    (issuerId : issuer.accountUser.id ≠ 0) (holderId : holder.accountUser.id ≠ 0)
    {permission : Text} :
    permission ∈ statNode world issuer holder uid ↔
      GrantOn world.tables issuer.accountUser.id holder.accountUser.id uid permission := by
  have fsRows := @PermissionTables.mem_queryIssuerHolderPermsByPrefix world.tables
    holder.accountUser.id issuer.accountUser.id permission ("fs:".toList ++ uid)
    (nodePrefix_plain uuid (by simp))
  have manageRows := @PermissionTables.mem_queryIssuerHolderPermsByPrefix world.tables
    holder.accountUser.id issuer.accountUser.id permission ("manage:fs:".toList ++ uid)
    (nodePrefix_plain uuid (by simp))
  simp only [statNode, join_fs_uid uuid, join_manage_fs_uid uuid, List.flatMap_cons,
    List.flatMap_nil, List.append_nil, List.mem_append, queryIssuerHolderPermissionsByPrefix,
    issuerId, holderId, or_self, if_false, fsRows, manageRows]
  rw [GrantOn, NodePermission]
  exact and_or_left.symm

end Texts

/-- What a sharing call is given: the registered rewriters, a plain issuer, a holder that is the stored
    user of its name, and a resource whose chain starts with itself. -/
structure NodeCall (service : PermissionService) (lookups : RuleLookups) (holder : Actor)
    (resource : ResourceDescriptor) (target : ResourceAncestor) : Prop where
  registered : service.rules.rewriters = registeredRewriters lookups
  holderId : holder.accountUser.id ≠ 0
  holderStored : ∀ user, service.getByUsername holder.accountUser.username = some user →
    user.id = holder.accountUser.id
  uuid : UuidText target.uid
  startsAtSelf : ∃ above, resource.ancestors = target :: above ∧ target.path = resource.path ∧
    ∀ ancestor ∈ above, ancestor.path ≠ resource.path

section Calls

variable {service : PermissionService} {lookups : RuleLookups} {issuer holder : Actor}
  {resource : ResourceDescriptor} {target : ResourceAncestor} {fuel : Nat} {mode : AclMode}
  {world world' : PermissionWorld}

theorem statAt_self (call : NodeCall service lookups holder resource target) :
    statAt (statUserUser world issuer holder resource) resource.path =
      statNode world issuer holder target.uid := by
  obtain ⟨above, chain, selfPath, others⟩ := call.startsAtSelf
  have noOther : (((above.map fun ancestor =>
      (ancestor.path, statNode world issuer holder ancestor.uid)).filter
        fun stat => !stat.2.isEmpty).filter fun stat => stat.1 == resource.path) = [] := by
    rw [List.filter_eq_nil_iff]
    intro entry member
    obtain ⟨ancestor, isAbove, rfl⟩ := List.mem_map.mp (List.mem_filter.mp member).1
    simpa using others ancestor isAbove
  by_cases none : (statNode world issuer holder target.uid).isEmpty = true
  · simp only [statAt, statUserUser, chain, List.map_cons, none, Bool.not_true,
      Bool.false_eq_true, not_false_eq_true, List.filter_cons_of_neg, noOther, List.getLast?_nil]
    exact (List.isEmpty_iff.mp none).symm
  · simp [statAt, statUserUser, chain, none, selfPath, noOther]

theorem grant_on_node (call : NodeCall service lookups holder resource target) {permission : Text}
    (node : NodePermission target.uid permission) {u : Unit}
    (ran : service.grantUserUserPermission fuel issuer holder.accountUser.username permission world =
      .ok u world') :
    issuer.accountUser.id ≠ 0 ∧ ∀ other,
      GrantOn world'.tables issuer.accountUser.id holder.accountUser.id target.uid other ↔
        GrantOn world.tables issuer.accountUser.id holder.accountUser.id target.uid other ∨
          other = permission := by
  obtain ⟨user, rewritten, found, rewriting, isUser, rows⟩ := grant_rows ran
  have sameUser := call.holderStored user found
  have registered : (service.env world).rules.rewriters = registeredRewriters lookups :=
    call.registered
  have samePermission : rewritten = permission :=
    Except.ok.inj (rewriting.symm.trans
      (rewritePermission_node registered call.uuid.uidText node))
  subst samePermission
  refine ⟨isUser, fun other => ?_⟩
  simp only [GrantOn, rows, sameUser, LinkedUserUserPermRow.mk.injEq, true_and]
  constructor
  · rintro ⟨old | new, onNode⟩
    · exact .inl ⟨old, onNode⟩
    · exact .inr new
  · rintro (⟨old, onNode⟩ | rfl)
    · exact ⟨.inl old, onNode⟩
    · exact ⟨.inr rfl, node⟩

theorem revoke_on_node (call : NodeCall service lookups holder resource target) {permission : Text}
    (node : NodePermission target.uid permission) {revoked : Bool}
    (ran : service.revokeUserUserPermission fuel issuer holder.accountUser.username permission none
      world = .ok revoked world') (other : Text) :
    GrantOn world'.tables issuer.accountUser.id holder.accountUser.id target.uid other ↔
      GrantOn world.tables issuer.accountUser.id holder.accountUser.id target.uid other ∧
        other ≠ permission := by
  obtain ⟨user, rewritten, found, rewriting, rows⟩ := revoke_rows ran
  have sameUser := call.holderStored user found
  have registered : (service.env world).rules.rewriters = registeredRewriters lookups :=
    call.registered
  have samePermission : rewritten = permission :=
    Except.ok.inj (rewriting.symm.trans
      (rewritePermission_node registered call.uuid.uidText node))
  subst samePermission
  simp only [GrantOn, rows, sameUser, Option.getD_none, ne_eq, LinkedUserUserPermRow.mk.injEq,
    true_and]
  tauto

theorem revokes_on_node (call : NodeCall service lookups holder resource target)
    {kept : Text} {permissions : List Text}
    (onNode : ∀ permission ∈ permissions, NodePermission target.uid permission ∧ permission ≠ kept)
    (keptThere : GrantOn world.tables issuer.accountUser.id holder.accountUser.id target.uid kept)
    (listed : ∀ other,
      GrantOn world.tables issuer.accountUser.id holder.accountUser.id target.uid other →
        other = kept ∨ other ∈ permissions)
    (ran : forEach (fun permission => do
      let _ ← service.revokeUserUserPermission fuel issuer holder.accountUser.username permission
        none
      return ()) permissions world = .ok () world') (other : Text) :
    GrantOn world'.tables issuer.accountUser.id holder.accountUser.id target.uid other ↔
      other = kept := by
  let Related (rest : List Text) (state : PermissionWorld) : Prop :=
    (∀ permission ∈ rest, NodePermission target.uid permission ∧ permission ≠ kept) ∧
    GrantOn state.tables issuer.accountUser.id holder.accountUser.id target.uid kept ∧
    ∀ other, GrantOn state.tables issuer.accountUser.id holder.accountUser.id target.uid other →
      other = kept ∨ other ∈ rest
  have finish : Related [] world' := by
    refine forEach_preserves ?_ (show Related permissions world from ⟨onNode, keptThere, listed⟩) ran
    intro permission rest state state' related stepped
    obtain ⟨revoked, between, revoke, done⟩ := bind_ok.mp stepped
    obtain ⟨_, rfl⟩ := pure_ok.mp done
    obtain ⟨restOnNode, keptStays, restListed⟩ := related
    have ⟨node, differs⟩ := restOnNode permission List.mem_cons_self
    have after := revoke_on_node call node revoke
    refine ⟨fun p member => restOnNode p (List.mem_cons_of_mem _ member),
      (after kept).mpr ⟨keptStays, differs.symm⟩, ?_⟩
    intro other still
    have ⟨before, notRevoked⟩ := (after other).mp still
    rcases restListed other before with rfl | member
    · exact .inl rfl
    · exact .inr ((List.mem_cons.mp member).resolve_left notRevoked)
  constructor
  · intro granted
    rcases finish.2.2 other granted with same | member
    · exact same
    · cases member
  · rintro rfl
    exact finish.2.1

theorem setUserUser_cases (call : NodeCall service lookups holder resource target) {returned : Bool}
    (ran : setUserUser service fuel issuer holder resource mode false world =
      .ok returned world') :
    let existing := statNode world issuer holder target.uid
    ((∃ permission ∈ existing, modeOfPermission permission = some mode.text) ∧ world' = world) ∨
    ((∀ permission ∈ existing, modeOfPermission permission ≠ some mode.text) ∧
      ∃ between, service.grantUserUserPermission fuel issuer holder.accountUser.username
        (permissionOfMode target.uid mode) world = .ok () between ∧
      forEach (fun permission => do
        let _ ← service.revokeUserUserPermission fuel issuer holder.accountUser.username permission
          none
        return ()) (existing.filter fun permission => modeOfPermission permission != some mode.text)
        between = .ok () world') := by
  intro existing
  obtain ⟨above, chain, _⟩ := call.startsAtSelf
  have stat : statAt (statUserUser world issuer holder resource) resource.path = existing :=
    statAt_self call
  obtain ⟨_, afterIssuer, issuerCheck, holderChecks⟩ := bind_ok.mp ran
  obtain ⟨_, afterHolder, holderCheck, nameCheck⟩ := bind_ok.mp holderChecks
  obtain ⟨_, afterName, named, locked⟩ := bind_ok.mp nameCheck
  obtain ⟨_, rfl⟩ := refuseIf_ok.mp issuerCheck
  obtain ⟨_, rfl⟩ := refuseIf_ok.mp holderCheck
  obtain ⟨_, rfl⟩ := refuseIf_ok.mp named
  rw [chain] at locked
  obtain ⟨found, same, read, body⟩ := bind_ok.mp locked
  cases read
  simp only [stat, Bool.false_and, Bool.false_eq_true, if_false] at body
  by_cases present : (existing.map modeOfPermission).contains (some mode.text) = true
  · rw [if_pos present] at body
    obtain ⟨_, rfl⟩ := pure_ok.mp body
    left
    simpa using present
  · rw [if_neg present] at body
    obtain ⟨_, between, granted, rest⟩ := bind_ok.mp body
    obtain ⟨_, afterRevokes, revoked, done⟩ := bind_ok.mp rest
    obtain ⟨_, rfl⟩ := pure_ok.mp done
    exact .inr ⟨by simpa using present, between, granted, revoked⟩

theorem one_mode_of_absent (call : NodeCall service lookups holder resource target)
    {between : PermissionWorld}
    (absent : ∀ permission ∈ statNode world issuer holder target.uid,
      modeOfPermission permission ≠ some mode.text)
    (grant : service.grantUserUserPermission fuel issuer holder.accountUser.username
      (permissionOfMode target.uid mode) world = .ok () between)
    (revokes : forEach (fun permission => do
      let _ ← service.revokeUserUserPermission fuel issuer holder.accountUser.username permission
        none
      return ()) ((statNode world issuer holder target.uid).filter
        fun permission => modeOfPermission permission != some mode.text) between = .ok () world') :
    (∀ permission,
      GrantOn world.tables issuer.accountUser.id holder.accountUser.id target.uid permission →
        modeOfPermission permission ≠ some mode.text) ∧
    ∀ permission,
      GrantOn world'.tables issuer.accountUser.id holder.accountUser.id target.uid permission ↔
        permission = permissionOfMode target.uid mode := by
  have node := permissionOfMode_node call.uuid mode
  obtain ⟨issuerId, granted⟩ := grant_on_node call node grant
  have existing := fun other => @mem_statNode _ call.uuid world _ _ issuerId call.holderId other
  have noneHasMode : ∀ permission,
      GrantOn world.tables issuer.accountUser.id holder.accountUser.id target.uid permission →
        modeOfPermission permission ≠ some mode.text := fun permission there =>
    absent permission ((existing permission).mpr there)
  refine ⟨noneHasMode, revokes_on_node call ?_ ((granted _).mpr (.inr rfl)) ?_ revokes⟩
  · intro permission listed
    have ⟨found, otherMode⟩ := List.mem_filter.mp listed
    refine ⟨((existing permission).mp found).2, ?_⟩
    rintro rfl
    simp [modeOfPermission_permissionOfMode call.uuid] at otherMode
  · intro other there
    rcases (granted other).mp there with before | new
    · right
      rw [List.mem_filter]
      exact ⟨(existing other).mpr before, by simpa using noneHasMode other before⟩
    · exact .inl new

/-- A call that returns leaves exactly the one grant it was asked for if and only if none of the grants
    it found gives that mode, or the one it was asked for was the only one there. -/
theorem setUserUser_one_mode_iff (call : NodeCall service lookups holder resource target)
    {returned : Bool}
    (ran : setUserUser service fuel issuer holder resource mode false world =
      .ok returned world') :
    (∀ permission,
      GrantOn world'.tables issuer.accountUser.id holder.accountUser.id target.uid permission ↔
        permission = permissionOfMode target.uid mode) ↔
    (∀ permission,
      GrantOn world.tables issuer.accountUser.id holder.accountUser.id target.uid permission →
        modeOfPermission permission ≠ some mode.text) ∨
    (∀ permission,
      GrantOn world.tables issuer.accountUser.id holder.accountUser.id target.uid permission →
        permission = permissionOfMode target.uid mode) := by
  rcases setUserUser_cases call ran with ⟨⟨permission, found, sameMode⟩, rfl⟩ |
      ⟨absent, between, grant, revokes⟩
  · -- The early return: nothing changed, and a grant with the mode is there.
    have issuerId : issuer.accountUser.id ≠ 0 := by
      intro zero
      simp [statNode, queryIssuerHolderPermissionsByPrefix, zero] at found
    have present := (mem_statNode call.uuid issuerId call.holderId).mp found
    constructor
    · intro exactly
      exact .inr fun other granted => (exactly other).mp granted
    · rintro (without | only) other
      · exact absurd sameMode (without permission present)
      · constructor
        · exact only other
        · rintro rfl
          rw [← only permission present]
          exact present
  · obtain ⟨noneHasMode, oneMode⟩ := one_mode_of_absent call absent grant revokes
    exact ⟨fun _ => .inl noneHasMode, fun _ => oneMode⟩

end Calls

section Example

def owner : UserRow := ⟨1, "owner-uuid".toList, "owner".toList, true⟩

def recipient : UserRow := ⟨2, "recipient-uuid".toList, "recipient".toList, true⟩

def sharedFile : ResourceAncestor := ⟨"n1".toList, "/owner/file".toList⟩

def sharedFileResource : ResourceDescriptor :=
  ⟨"/owner/file".toList, [sharedFile, ⟨"n0".toList, "/owner".toList⟩]⟩

def sharedFileLookups : RuleLookups where
  getEntryByPath _ := none
  getEntryByUuid uid :=
    if uid = "n1".toList then some ⟨"n1".toList, 1, "/owner/file".toList⟩ else none
  getAncestorChain _ := []
  getAppUidByName _ := none
  getSiteUuidBySubdomain _ := none

def sharingService : PermissionService where
  getById _ := none
  getByUsername username := if username = "recipient".toList then some recipient else none
  rules := fsRules sharedFileLookups 0
  now := 0

def grantsWorld (permissions : List Text) : PermissionWorld where
  tables := { PermissionTables.empty with
    userToUser := permissions.map fun permission => ⟨2, 1, permission⟩ }
  generations _ := 0
  log := .start true

theorem sharingCall : NodeCall sharingService sharedFileLookups (.ofUser recipient)
    sharedFileResource sharedFile where
  registered := rfl
  holderId := by decide
  holderStored user found := by
    cases found
    rfl
  uuid := ⟨by decide, by simp [sharedFile]⟩
  startsAtSelf := ⟨[⟨"n0".toList, "/owner".toList⟩], rfl, rfl, by decide⟩

/-- Two modes left by an interrupted call, then a downgrade to the weaker of them: the call returns
    without a write, and the stronger grant stays. -/
theorem setUserUser_keeps_wider_mode :
    ∃ world', setUserUser sharingService 1 (.ofUser owner) (.ofUser recipient) sharedFileResource
        .read false (grantsWorld ["fs:n1:read".toList, "fs:n1:write".toList]) = .ok false world' ∧
      ¬ ∀ permission, GrantOn world'.tables 1 2 sharedFile.uid permission ↔
        permission = permissionOfMode sharedFile.uid .read := by
  obtain ⟨returned, world', ran, outcome⟩ := exists_of_succeedsWith
    (show succeedsWith (fun returned (world' : PermissionWorld) => !returned &&
        world'.tables.userToUser.contains ⟨2, 1, "fs:n1:write".toList⟩)
      (setUserUser sharingService 1 (.ofUser owner) (.ofUser recipient) sharedFileResource .read
        false (grantsWorld ["fs:n1:read".toList, "fs:n1:write".toList])) = true by
      decide +kernel)
  simp only [Bool.and_eq_true, Bool.not_eq_true', List.contains_iff_mem] at outcome
  obtain ⟨rfl, stays⟩ := outcome
  refine ⟨world', ran, ?_⟩
  intro exactly
  have write : GrantOn world'.tables 1 2 sharedFile.uid "fs:n1:write".toList :=
    ⟨stays, .inl (by decide)⟩
  exact absurd ((exactly _).mp write) (by decide)

/-- A downgrade from a single other mode leaves the new mode alone. -/
theorem setUserUser_downgrades :
    ∃ world', setUserUser sharingService 1 (.ofUser owner) (.ofUser recipient) sharedFileResource
        .read false (grantsWorld ["fs:n1:write".toList]) = .ok true world' ∧
      ∀ permission, GrantOn world'.tables 1 2 sharedFile.uid permission ↔
        permission = permissionOfMode sharedFile.uid .read := by
  obtain ⟨returned, world', ran, outcome⟩ := exists_of_succeedsWith
    (show succeedsWith (fun returned (_ : PermissionWorld) => returned)
      (setUserUser sharingService 1 (.ofUser owner) (.ofUser recipient) sharedFileResource .read
        false (grantsWorld ["fs:n1:write".toList])) = true by
      decide +kernel)
  obtain rfl : returned = true := outcome
  refine ⟨world', ran, (setUserUser_one_mode_iff sharingCall ran).mpr (.inl ?_)⟩
  intro permission granted
  have only : permission = "fs:n1:write".toList := by
    have stored := List.mem_singleton.mp granted.1
    injection stored
  rw [only]
  decide

end Example

end Puter

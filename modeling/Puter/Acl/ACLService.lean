/-
Module: Puter.Acl.ACLService
Purpose: Filesystem access control (services/acl/ACLService.ts): the check of an actor, a resource and a
  mode, which mixes answers from the path alone, the checks of the actors behind a derived actor, and
  the permission scan of each ancestor; and the sharing call setUserUser, which reads the grants on a
  node, grants one mode and revokes the others.
  The node lock of setUserUser is taken as held: its body runs alone.
Trusted boundary: a resource brings its own ancestor chain
Main exports: AclMode, permissionsFor, setUserUser
-/
import Puter.Permission.PermissionService
import Puter.Permission.PermissionRules

namespace Puter

inductive AclMode where
  | see
  | list
  | read
  | write
  | manage
deriving DecidableEq, Repr

namespace AclMode

def text : AclMode → Text
  | see => "see".toList
  | list => "list".toList
  | read => "read".toList
  | write => "write".toList
  | manage => PermissionUtil.managePermPrefix

def modesAbove : AclMode → List AclMode
  | see => [see, list, read, write]
  | list => [list, read, write]
  | read => [read, write]
  | write => [write]
  | manage => [manage]

def publicReadModes : List AclMode := [read, list, see]

end AclMode

/-- One element of an ancestor chain. -/
structure ResourceAncestor where
  uid : Text
  path : Text
deriving DecidableEq, Repr

/-- The view of a resource the access check works on: its path, and the chain from the resource itself
    up to the child of the root. -/
structure ResourceDescriptor where
  path : Text
  ancestors : List ResourceAncestor
deriving DecidableEq, Repr

/-- What an access check reads beyond the permission scan. -/
structure AclEnv where
  permission : PermissionEnv
  getByUsername : Text → Option UserRow
  enablePublicFolders : Bool

/-- `#permissionsFor`: the permissions on a node that satisfy a mode. -/
def permissionsFor (uid : Text) (mode : AclMode) : List Text :=
  let manage := PermissionUtil.join [PermissionUtil.managePermPrefix, "fs".toList, uid]
  if mode = .manage then [manage]
  else mode.modesAbove.map (fun above => PermissionUtil.join ["fs".toList, uid, above.text]) ++
    [manage]

/-- `path === root || path.startsWith(root + '/')`. -/
def isAtOrUnder (root path : Text) : Bool := path == root || startsWith (root ++ ['/']) path

/-- `resource.path.slice(1).split('/')`. -/
def pathComponents (path : Text) : List Text := (path.drop 1).splitOn '/'

def ownsHome (actor : Actor) (path : Text) : Bool :=
  match actor with
  | .user account _ =>
      !account.username.isEmpty && isAtOrUnder ('/' :: account.username) path
  | _ => false

def ownsAppData (actor : Actor) (path : Text) : Bool :=
  match actor with
  | .appUnderUser account app =>
      !account.username.isEmpty &&
        isAtOrUnder ('/' :: account.username ++ "/AppData/".toList ++ app.uid) path
  | _ => false

def AclEnv.isPublicFolder (env : AclEnv) (path : Text) (mode : AclMode) : Bool :=
  env.enablePublicFolders && AclMode.publicReadModes.contains mode &&
    match pathComponents path with
    | ownerUsername :: folder :: _ =>
        folder == "Public".toList &&
          match env.getByUsername ownerUsername with
          | some owner => owner.emailConfirmed || owner.username == "admin".toList
          | none => false
    | _ => false

def sharedAppData (account : UserRow) (app : ActorApp) (path : Text) : Bool :=
  match pathComponents path with
  | owner :: folder :: appUid :: _ =>
      owner != account.username && folder == "AppData".toList && appUid == app.uid
  | _ => false

def AclEnv.tokenHolds (env : AclEnv) (tokenUid : Text) (resource : ResourceDescriptor)
    (mode : AclMode) : Bool :=
  resource.ancestors.any fun ancestor =>
    (permissionsFor ancestor.uid mode).any (env.permission.tables.hasAccessTokenPerm tokenUid ·)

section Check

variable {m : Type → Type} [ScanMonad m] (env : AclEnv) (fuel : Nat)

def scanAncestors (actor : Actor) (mode : AclMode) : List ResourceAncestor → m Bool
  | [] => pure false
  | ancestor :: rest => do
      let held ← check env.permission false fuel actor (permissionsFor ancestor.uid mode)
      if held then return true else scanAncestors actor mode rest

def shortCircuits (actor : Actor) (path : Text) (mode : AclMode) : Option Bool :=
  if isSystemActor actor then some true
  else if path = ['/'] then some (AclMode.publicReadModes.contains mode)
  else if ownsHome actor path then some true
  else if ownsAppData actor path then some true
  else if env.isPublicFolder path mode then some true
  else none

/-- One check. `behind` is the check of the actor behind this one: the issuer of a token, the user of an
    app. -/
def aclCheckWith (behind : m Bool) (actor : Actor) (resource : ResourceDescriptor)
    (mode : AclMode) : m Bool :=
  match shortCircuits env actor resource.path mode with
  | some answer => pure answer
  | none =>
      match actor with
      | .accessToken uid _ fullAccess => do
          let authorized ← behind
          if !authorized then return false
          else return fullAccess || env.tokenHolds uid resource mode
      | .appUnderUser account app => do
          let userHolds ← behind
          if !userHolds then return false
          else if sharedAppData account app resource.path then return true
          else scanAncestors env fuel (.appUnderUser account app) mode resource.ancestors
      | .user account system =>
          scanAncestors env fuel (.user account system) mode resource.ancestors

/-- `check`. -/
def aclCheck (resource : ResourceDescriptor) (mode : AclMode) : Actor → m Bool
  | .user account system =>
      aclCheckWith env fuel (pure true) (.user account system) resource mode
  | .appUnderUser account app =>
      aclCheckWith env fuel
        (aclCheckWith env fuel (pure true) (.ofUser account) resource mode)
        (.appUnderUser account app) resource mode
  | .accessToken uid issuer fullAccess =>
      aclCheckWith env fuel (aclCheck resource mode issuer)
        (.accessToken uid issuer fullAccess) resource mode

end Check

section Sharing

open StateRun PermissionService

def issuerMustBeUser : HttpError :=
  ⟨403, "issuer must be a user actor".toList, "forbidden".toList⟩

def holderMustBeUser : HttpError :=
  ⟨403, "holder must be a user actor".toList, "forbidden".toList⟩

def holderMissingUsername : HttpError :=
  ⟨400, "holder is missing username".toList, "bad_request".toList⟩

def noAncestorChain : HttpError :=
  ⟨400, "resource has no ancestor chain (is it root?)".toList, "bad_request".toList⟩

/-- The permissions one prefix pair of `statUserUser` finds on a node. -/
def statNode (world : PermissionWorld) (issuer holder : Actor) (uid : Text) : List Text :=
  [PermissionUtil.join ["fs".toList, uid],
    PermissionUtil.join [PermissionUtil.managePermPrefix, "fs".toList, uid]].flatMap
      (queryIssuerHolderPermissionsByPrefix world issuer holder)

/-- The map `statUserUser` returns, in the order its keys are assigned. -/
def statUserUser (world : PermissionWorld) (issuer holder : Actor)
    (resource : ResourceDescriptor) : List (Text × List Text) :=
  (resource.ancestors.map fun ancestor =>
    (ancestor.path, statNode world issuer holder ancestor.uid)).filter
      fun (_, permissions) => !permissions.isEmpty

/-- `stat[path] ?? []`: the last assignment to the key. -/
def statAt (stat : List (Text × List Text)) (path : Text) : List Text :=
  match (stat.filter fun (key, _) => key == path).getLast? with
  | some (_, permissions) => permissions
  | none => []

def modeOfPermission (permission : Text) : Option Text :=
  if PermissionUtil.isManage permission then some PermissionUtil.managePermPrefix
  else (PermissionUtil.split permission).getLast?

def permissionOfMode (uid : Text) (mode : AclMode) : Text :=
  if mode = .manage then PermissionUtil.join [PermissionUtil.managePermPrefix, "fs".toList, uid]
  else PermissionUtil.join ["fs".toList, uid, mode.text]

/-- Whether one of the modes is above `mode`, or `manage`. -/
def anyHigher (mode : AclMode) (existingModes : List (Option Text)) : Bool :=
  existingModes.any fun
    | none => false
    | some existing =>
        existing == PermissionUtil.managePermPrefix ||
          (!existing.isEmpty && (mode.modesAbove.map AclMode.text).contains existing)

variable (service : PermissionService) (fuel : Nat)

def setUserUserLocked (issuer holder : Actor) (resource : ResourceDescriptor) (mode : AclMode)
    (uid username : Text) (onlyIfHigher : Bool) : ServiceRun Bool := do
  let world ← get
  let existing := statAt (statUserUser world issuer holder resource) resource.path
  let existingModes := existing.map modeOfPermission
  if existingModes.contains (some mode.text) then return false
  else if onlyIfHigher && anyHigher mode existingModes then return false
  else
    service.grantUserUserPermission fuel issuer username (permissionOfMode uid mode)
    forEach (fun permission => do
      let _ ← service.revokeUserUserPermission fuel issuer username permission none
      return ())
      (existing.filter fun permission => modeOfPermission permission != some mode.text)
    return true

def setUserUser (issuer holder : Actor) (resource : ResourceDescriptor) (mode : AclMode)
    (onlyIfHigher : Bool) : ServiceRun Bool := do
  refuseIf (!issuer.isPlainUser) (.http issuerMustBeUser)
  refuseIf (!holder.isPlainUser) (.http holderMustBeUser)
  refuseIf holder.accountUser.username.isEmpty (.http holderMissingUsername)
  match resource.ancestors with
  | [] => throw (.http noAncestorChain)
  | self :: _ =>
      setUserUserLocked service fuel issuer holder resource mode self.uid
        holder.accountUser.username onlyIfHigher

end Sharing

end Puter

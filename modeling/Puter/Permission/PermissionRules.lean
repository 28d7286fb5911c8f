/-
Module: Puter.Permission.PermissionRules
Purpose: The rules the services register with the permission service: the four rewriters (FSService,
  AppPermissionService, SubdomainPermissionService) and the filesystem rules of FSService. What they
  look up in other stores comes in as lookups.
Trusted boundary: the lookups stand for the stores of entries, apps and subdomains
Main exports: RuleLookups, rewritePermission_node
-/
import Puter.Permission.PermissionScan

namespace Puter

/-- What the filesystem rules read of an entry. -/
structure EntryOwnership where
  uuid : Text
  userId : Nat
  path : Text
deriving DecidableEq, Repr

/-- What the rules look up: entries by path and uuid, the chain of an entry's ancestors from itself up,
    and the uids behind the name of an app and of a site. -/
structure RuleLookups where
  getEntryByPath : Text → Option EntryOwnership
  getEntryByUuid : Text → Option EntryOwnership
  getAncestorChain : Text → List Text
  getAppUidByName : Text → Option Text
  getSiteUuidBySubdomain : Text → Option Text

/-- `text.split(separator)` for a separator of any length: `skip` counts the characters of a separator
    still to be dropped, `piece` holds the current piece in reverse. -/
def splitTextFrom (separator : Text) : Nat → Text → Text → List Text
  | _, piece, [] => [piece.reverse]
  | skip + 1, piece, _ :: rest => splitTextFrom separator skip piece rest
  | 0, piece, c :: rest =>
      if separator.isPrefixOf (c :: rest) then
        piece.reverse :: splitTextFrom separator (separator.length - 1) [] rest
      else splitTextFrom separator 0 (c :: piece) rest

def splitText (separator text : Text) : List Text := splitTextFrom separator 0 [] text

/-- `text.startsWith(start)`. -/
def startsWith (start text : Text) : Bool := start.isPrefixOf text

/-- `permission.replaceAll('manage:', '')`. -/
def stripManage (permission : Text) : Text :=
  (splitText (PermissionUtil.managePermPrefix ++ [':']) permission).flatten

/-- The rewriter `fs-path-to-uid`: a path in a filesystem permission becomes the uuid of its entry. -/
def fsPathToUid (lookups : RuleLookups) : PermissionRewriter where
  matchesPermission permission :=
    (startsWith "fs:".toList permission || startsWith "manage:fs:".toList permission) &&
      match splitText "fs:".toList permission with
      | _ :: ('/' :: _) :: _ => true
      | _ => false
  rewrite permission :=
    match splitText "fs:".toList permission with
    | manageOpt :: pathPerm :: _ =>
        match PermissionUtil.split pathPerm with
        | [] => .ok permission
        | [] :: _ => .ok permission
        | path :: rest =>
            match lookups.getEntryByPath path with
            | none => .error ⟨404, "Entry not found: path=".toList ++ path,
                "subject_does_not_exist".toList⟩
            | some entry =>
                let manage := manageOpt.erase ':'
                let joined := PermissionUtil.join ("fs".toList :: entry.uuid :: rest)
                .ok (if manage.isEmpty then joined else manage ++ [':'] ++ joined)
    | _ => .ok permission

def namesSpecifier (start permission : Text) : Bool :=
  startsWith start permission &&
    match PermissionUtil.split permission with
    | _ :: specifier :: _ => !specifier.isEmpty && !startsWith "uid#".toList specifier
    | _ => false

/-- The shape shared by the rewriters of app names and of site names: the name after the prefix becomes
    `uid#` and the uid it stands for, when there is one. -/
def nameToUid (start : Text) (lookup : Text → Option Text) : PermissionRewriter where
  matchesPermission := namesSpecifier start
  rewrite permission :=
    match PermissionUtil.split permission with
    | kind :: name :: rest =>
        match lookup name with
        | none => .ok permission
        | some uid => .ok (PermissionUtil.join (kind :: ("uid#".toList ++ uid) :: rest))
    | _ => .ok permission

/-- The rewriter `app-name-to-uid`. -/
def appNameToUid (lookups : RuleLookups) : PermissionRewriter :=
  nameToUid "app:".toList lookups.getAppUidByName

/-- The rewriter `site-name-to-uid`. -/
def siteNameToUid (lookups : RuleLookups) : PermissionRewriter :=
  nameToUid "site:".toList lookups.getSiteUuidBySubdomain

def permissionForNothingInParticular : Text := "permission-for-nothing-in-particular".toList

/-- The rewriter `app-root-dir-to-fs`, outside the writing of a user-app row. -/
def appRootDirToFs : PermissionRewriter where
  matchesPermission := startsWith "app-root-dir:".toList
  rewrite _ := .ok permissionForNothingInParticular

def registeredRewriters (lookups : RuleLookups) : List PermissionRewriter :=
  [appNameToUid lookups, appRootDirToFs, siteNameToUid lookups, fsPathToUid lookups]

def isFsPermission (permission : Text) : Bool :=
  startsWith "fs:".toList permission || startsWith "manage:fs:".toList permission ||
    startsWith "manage:manage:fs:".toList permission

/-- The entry a filesystem permission names: the component after `fs`. -/
def RuleLookups.namedEntry (lookups : RuleLookups) (permission : Text) : Option EntryOwnership :=
  match PermissionUtil.split (stripManage permission) with
  | _ :: uid :: _ => if uid.isEmpty then none else lookups.getEntryByUuid uid
  | _ => none

/-- The implicator `is-owner`: a user holds every permission on an entry of their own. -/
def isOwner (lookups : RuleLookups) : PermissionImplicator where
  id := "is-owner".toList
  shortcut := true
  matchesPermission := isFsPermission
  check _ actor permission :=
    actor.isPlainUser && actor.accountUser.id != 0 &&
      match lookups.namedEntry permission with
      | some entry => entry.userId == actor.accountUser.id
      | none => false

/-- The implicator `manage-inherits-from-ancestor`: to manage an entry it is enough that a grant to
    manage one of its proper ancestors is stored. -/
def manageInheritsFromAncestor (lookups : RuleLookups) (now : Nat) : PermissionImplicator where
  id := "manage-inherits-from-ancestor".toList
  shortcut := true
  matchesPermission := startsWith "manage:fs:".toList
  check tables actor permission :=
    actor.isPlainUser && actor.accountUser.id != 0 &&
      match lookups.namedEntry permission with
      | none => false
      | some entry =>
          entry.userId != actor.accountUser.id &&
            (let wanted := (lookups.getAncestorChain entry.path).tail.map fun uid =>
                PermissionUtil.join [PermissionUtil.managePermPrefix, "fs".toList, uid]
             !(tables.readLinkedUserUserPerms actor.accountUser.id wanted).isEmpty ||
               !(tables.readUserGroupPerms actor.accountUser.id wanted).isEmpty ||
               (tables.getFlatUserPerms now actor.accountUser.id wanted).any fun value =>
                 !value.deleted)

/-- The modes above a filesystem mode (`FS_MODE_RULES`). The lookup is a plain `object[mode]` read, and
    what it finds for a name from the prototype cannot be iterated. -/
def fsModeRules (mode : Text) : Except ScanError (Option (List Text)) :=
  if mode = "see".toList then .ok (some ["list".toList, "read".toList, "write".toList])
  else if mode = "list".toList then .ok (some ["read".toList, "write".toList])
  else if mode = "read".toList then .ok (some ["write".toList])
  else if mode = "write".toList then .ok (some [])
  else if objectPrototypeKeys.contains mode then .error .typeError
  else .ok none

/-- The exploder `fs-access-levels`. -/
def fsAccessLevels : PermissionExploder where
  matchesPermission permission :=
    startsWith "fs:".toList permission && decide (3 ≤ (PermissionUtil.split permission).length)
  explode permission :=
    match PermissionUtil.split permission with
    | fsPrefix :: fileId :: specifiedMode :: rest => do
        match ← fsModeRules specifiedMode with
        | some widerModes =>
            return permission ::
              (widerModes.map (fun mode =>
                PermissionUtil.join (fsPrefix :: fileId :: mode :: rest.tail)) ++
              [PermissionUtil.join [PermissionUtil.managePermPrefix, fsPrefix, fileId]])
        | none => return [permission]
    | _ => .ok [permission]

def fsRules (lookups : RuleLookups) (now : Nat) : PermissionRules where
  rewriters := registeredRewriters lookups
  implicators := [isOwner lookups, manageInheritsFromAncestor lookups now]
  exploders := [fsAccessLevels]

/-- The permissions on a node named by its uid: the text starts with `fs:` or `manage:fs:` and the
    uid. -/
def NodePermission (uid permission : Text) : Prop :=
  "fs:".toList ++ uid <+: permission ∨ "manage:fs:".toList ++ uid <+: permission

def UidText (uid : Text) : Prop := ∃ c rest, uid = c :: rest ∧ c ≠ '/'

theorem splitTextFrom_head {separator piece rest : Text} {c : Char} :
    ∃ first pieces, splitTextFrom separator 0 piece (c :: rest) = first :: pieces ∧
      (first = piece.reverse ∨ ∃ more, first = piece.reverse ++ c :: more) := by
  induction rest generalizing piece c with
  | nil =>
      by_cases cut : separator.isPrefixOf [c]
      · exact ⟨_, _, by rw [splitTextFrom, if_pos cut], .inl rfl⟩
      · exact ⟨_, [], by rw [splitTextFrom, if_neg cut, splitTextFrom], .inr ⟨[], by simp⟩⟩
  | cons d rest ih =>
      by_cases cut : separator.isPrefixOf (c :: d :: rest)
      · exact ⟨_, _, by rw [splitTextFrom, if_pos cut], .inl rfl⟩
      · obtain ⟨first, pieces, split, starts⟩ := @ih (c :: piece) d
        refine ⟨first, pieces, by rw [splitTextFrom, if_neg cut, split], .inr ?_⟩
        rcases starts with rfl | ⟨more, rfl⟩
        · exact ⟨[], by simp⟩
        · exact ⟨d :: more, by simp⟩

theorem fsPathToUid_node {lookups : RuleLookups} {uid permission : Text} (isUid : UidText uid)
    (node : NodePermission uid permission) :
    (fsPathToUid lookups).matchesPermission permission = false := by
  obtain ⟨c, rest, rfl, notSlash⟩ := isUid
  rcases node with ⟨more, rfl⟩ | ⟨more, rfl⟩
  · obtain ⟨first, pieces, cut, starts⟩ :=
      @splitTextFrom_head "fs:".toList [] (rest ++ more) c
    have split : splitText "fs:".toList ("fs:".toList ++ c :: rest ++ more) =
        [] :: first :: pieces := by
      rw [← cut]
      simp [splitText, splitTextFrom]
    simp only [fsPathToUid, split]
    rcases starts with rfl | ⟨tail, rfl⟩
    · simp
    · simp [notSlash]
  · obtain ⟨first, pieces, cut, starts⟩ :=
      @splitTextFrom_head "fs:".toList [] (rest ++ more) c
    have split : splitText "fs:".toList ("manage:fs:".toList ++ c :: rest ++ more) =
        "manage:".toList :: first :: pieces := by
      rw [← cut]
      simp [splitText, splitTextFrom]
    simp only [fsPathToUid, split]
    rcases starts with rfl | ⟨tail, rfl⟩
    · simp
    · simp [notSlash]

theorem rewritePermission_untouched {env : PermissionEnv} {permission : Text}
    (untouched : ∀ rewriter ∈ env.rules.rewriters,
      rewriter.matchesPermission permission = false) :
    env.rewritePermission permission = .ok permission := by
  unfold PermissionEnv.rewritePermission
  generalize env.rules.rewriters = rewriters at untouched
  induction rewriters with
  | nil => rfl
  | cons rewriter rewriters ih =>
      have first := untouched rewriter List.mem_cons_self
      have others := ih fun other member =>
        untouched other (List.mem_cons_of_mem _ member)
      rw [List.foldlM_cons, first]
      exact others

theorem rewritePermission_node {env : PermissionEnv} {lookups : RuleLookups}
    (registered : env.rules.rewriters = registeredRewriters lookups) {uid permission : Text}
    (isUid : UidText uid) (node : NodePermission uid permission) :
    env.rewritePermission permission = .ok permission := by
  have otherPrefix : startsWith "app:".toList permission = false ∧
      startsWith "app-root-dir:".toList permission = false ∧
      startsWith "site:".toList permission = false := by
    rcases node with ⟨more, rfl⟩ | ⟨more, rfl⟩
    · exact ⟨rfl, rfl, rfl⟩
    · exact ⟨rfl, rfl, rfl⟩
  apply rewritePermission_untouched
  intro rewriter member
  simp only [registered, registeredRewriters, List.mem_cons, List.not_mem_nil, or_false] at member
  rcases member with rfl | rfl | rfl | rfl
  · simp only [appNameToUid, nameToUid, namesSpecifier, otherPrefix.1, Bool.false_and]
  · exact otherPrefix.2.1
  · simp only [siteNameToUid, nameToUid, namesSpecifier, otherPrefix.2.2, Bool.false_and]
  · exact fsPathToUid_node isUid node

end Puter

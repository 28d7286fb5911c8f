/-
Module: Puter.Acl.Attenuation
Purpose: A derived actor never reaches further than the actors behind it: what the access check allows
  an app it allows the app's user, and what it allows a token it allows the token's issuer, and so, down
  the chain of issuers, the account they all act for.
Trusted boundary: none
Main exports: aclCheck_accountUser
-/
import Puter.Acl.ACLService

namespace Puter

open StateRun

def Allows (env : AclEnv) (fuel : Nat) (log : ScanLog) (resource : ResourceDescriptor)
    (mode : AclMode) (actor : Actor) : Prop :=
  ∃ log', aclCheck (m := ScanRun) env fuel resource mode actor log = .ok true log'

variable {env : AclEnv} {fuel : Nat} {log log' : ScanLog} {resource : ResourceDescriptor}
  {mode : AclMode}

theorem isAtOrUnder_of_longer {root more path : Text}
    (under : isAtOrUnder (root ++ '/' :: more) path = true) : isAtOrUnder root path = true := by
  simp only [isAtOrUnder, startsWith, Bool.or_eq_true, beq_iff_eq, List.isPrefixOf_iff_prefix]
    at under ⊢
  right
  rcases under with rfl | ⟨rest, rfl⟩
  · exact ⟨more, by simp⟩
  · exact ⟨more ++ '/' :: rest, by simp⟩

theorem ownsHome_of_ownsAppData {account : UserRow} {app : ActorApp} {path : Text}
    (owns : ownsAppData (.appUnderUser account app) path = true) :
    ownsHome (.ofUser account) path = true := by
  simp only [ownsAppData, Bool.and_eq_true] at owns
  simp only [ownsHome, Actor.ofUser, Bool.and_eq_true]
  refine ⟨owns.1, ?_⟩
  apply @isAtOrUnder_of_longer ('/' :: account.username) ("AppData/".toList ++ app.uid)
  simpa using owns.2

theorem shortCircuits_true_iff {actor : Actor} {path : Text} :
    shortCircuits env actor path mode = some true ↔
      isSystemActor actor = true ∨
        if path = ['/'] then AclMode.publicReadModes.contains mode = true
        else ownsHome actor path = true ∨ ownsAppData actor path = true ∨
          env.isPublicFolder path mode = true := by
  by_cases system : isSystemActor actor = true
  · simp [shortCircuits, system]
  · by_cases root : path = ['/']
    · simp [shortCircuits, system, root]
    · by_cases home : ownsHome actor path = true
      · simp [shortCircuits, system, root, home]
      · by_cases appData : ownsAppData actor path = true
        · simp [shortCircuits, system, root, home, appData]
        · by_cases publicFolder : env.isPublicFolder path mode = true
          · simp [shortCircuits, system, root, home, appData, publicFolder]
          · simp [shortCircuits, system, root, home, appData, publicFolder]

theorem shortCircuits_of_wider {actor wider : Actor} {path : Text}
    (system : isSystemActor actor = true → isSystemActor wider = true)
    (home : ownsHome actor path = true → ownsHome wider path = true)
    (appData : ownsAppData actor path = true → ownsHome wider path = true)
    (allowed : shortCircuits env actor path mode = some true) :
    shortCircuits env wider path mode = some true := by
  rw [shortCircuits_true_iff] at allowed ⊢
  rcases allowed with isSystem | byPath
  · exact .inl (system isSystem)
  · right
    by_cases root : path = ['/']
    · simpa [root] using byPath
    · rw [if_neg root] at byPath ⊢
      rcases byPath with owns | owns | isPublic
      · exact .inl (home owns)
      · exact .inl (appData owns)
      · exact .inr (.inr isPublic)

theorem shortCircuits_user_of_app {account : UserRow} {app : ActorApp} {path : Text}
    (allowed : shortCircuits env (.appUnderUser account app) path mode = some true) :
    shortCircuits env (.ofUser account) path mode = some true := by
  refine shortCircuits_of_wider ?_ ?_ ownsHome_of_ownsAppData allowed
  · intro system
    rw [isSystemActor_ofUser]
    exact system
  · intro owns
    simp [ownsHome] at owns

theorem isSystemActor_issuer {uid : Text} {issuer : Actor} {fullAccess : Bool}
    (system : isSystemActor (.accessToken uid issuer fullAccess) = true) :
    isSystemActor issuer = true := by
  cases issuer with
  | user account flagged =>
      simp only [isSystemActor, Actor.accountUser] at system
      simp [isSystemActor, system]
  | appUnderUser account app => exact system
  | accessToken uid' issuer' fullAccess' => exact system

theorem shortCircuits_issuer_of_token {uid : Text} {issuer : Actor} {fullAccess : Bool}
    {path : Text}
    (allowed : shortCircuits env (.accessToken uid issuer fullAccess) path mode = some true) :
    shortCircuits env issuer path mode = some true := by
  refine shortCircuits_of_wider isSystemActor_issuer ?_ ?_ allowed
  · intro owns
    simp [ownsHome] at owns
  · intro owns
    simp [ownsAppData] at owns

theorem aclCheckWith_of_shortCircuits {behind : ScanRun Bool} {actor : Actor}
    (allowed : shortCircuits env actor resource.path mode = some true) :
    aclCheckWith env fuel behind actor resource mode log = .ok true log := by
  unfold aclCheckWith
  rw [allowed]
  rfl

theorem allows_of_shortCircuits {actor : Actor}
    (allowed : shortCircuits env actor resource.path mode = some true) :
    Allows env fuel log resource mode actor := by
  refine ⟨log, ?_⟩
  cases actor with
  | user account system => exact aclCheckWith_of_shortCircuits allowed
  | appUnderUser account app => exact aclCheckWith_of_shortCircuits allowed
  | accessToken uid issuer fullAccess => exact aclCheckWith_of_shortCircuits allowed

theorem derived_allows_cases {behind : ScanRun Bool} {actor : Actor}
    (derived : actor.isPlainUser = false)
    (allowed : aclCheckWith env fuel behind actor resource mode log = .ok true log') :
    shortCircuits env actor resource.path mode = some true ∨
      ∃ between, behind log = .ok true between := by
  unfold aclCheckWith at allowed
  cases answered : shortCircuits env actor resource.path mode with
  | some answer =>
      rw [answered] at allowed
      obtain ⟨rfl, _⟩ := pure_ok.mp allowed
      exact .inl rfl
  | none =>
      rw [answered] at allowed
      right
      cases actor with
      | user account system => cases derived
      | appUnderUser account app =>
          obtain ⟨holds, between, asked, rest⟩ := bind_ok.mp allowed
          cases holds with
          | true => exact ⟨between, asked⟩
          | false => exact absurd (pure_ok.mp rest).1 Bool.false_ne_true
      | accessToken uid issuer fullAccess =>
          obtain ⟨holds, between, asked, rest⟩ := bind_ok.mp allowed
          cases holds with
          | true => exact ⟨between, asked⟩
          | false => exact absurd (pure_ok.mp rest).1 Bool.false_ne_true

theorem user_allows_of_app {account : UserRow} {app : ActorApp}
    (allowed : Allows env fuel log resource mode (.appUnderUser account app)) :
    Allows env fuel log resource mode (.ofUser account) := by
  obtain ⟨log', answer⟩ := allowed
  rcases derived_allows_cases rfl answer with short | asked
  · exact allows_of_shortCircuits (shortCircuits_user_of_app short)
  · exact asked

theorem issuer_allows_of_token {uid : Text} {issuer : Actor} {fullAccess : Bool}
    (allowed : Allows env fuel log resource mode (.accessToken uid issuer fullAccess)) :
    Allows env fuel log resource mode issuer := by
  obtain ⟨log', answer⟩ := allowed
  rcases derived_allows_cases rfl answer with short | asked
  · exact allows_of_shortCircuits (shortCircuits_issuer_of_token short)
  · exact asked

/-- Access attenuates: what the check allows an app it allows the app's user, and what it allows a
    token, scoped or full, it allows the token's issuer, be that a user, an app or another token. -/
theorem aclCheck_attenuates (env : AclEnv) (fuel : Nat) (log : ScanLog)
    (resource : ResourceDescriptor) (mode : AclMode) :
    (∀ account app, Allows env fuel log resource mode (.appUnderUser account app) →
      Allows env fuel log resource mode (.ofUser account)) ∧
    (∀ uid issuer fullAccess, Allows env fuel log resource mode (.accessToken uid issuer fullAccess) →
      Allows env fuel log resource mode issuer) :=
  ⟨fun _ _ => user_allows_of_app, fun _ _ _ => issuer_allows_of_token⟩

section Example

def alice : UserRow := ⟨1, "alice-uuid".toList, "alice".toList, true⟩

def editor : ActorApp := ⟨"app-editor".toList, 7⟩

def editorToken : Actor := .accessToken "token".toList (.appUnderUser alice editor) true

def editorFile : ResourceDescriptor :=
  ⟨"/alice/AppData/app-editor/notes.txt".toList, [⟨"file-uuid".toList,
    "/alice/AppData/app-editor/notes.txt".toList⟩]⟩

def grantlessEnv : AclEnv :=
  ⟨⟨PermissionTables.empty, fun _ => 0, fun _ => none, ⟨[], [], []⟩, 0⟩, fun _ => none, false⟩

/-- The token may write the file; so may the app that issued it, and the user of that app. -/
theorem editorToken_attenuates :
    Allows grantlessEnv 1 (.start true) editorFile .write editorToken ∧
      Allows grantlessEnv 1 (.start true) editorFile .write (.appUnderUser alice editor) ∧
      Allows grantlessEnv 1 (.start true) editorFile .write (.ofUser alice) := by
  have attenuates := aclCheck_attenuates grantlessEnv 1 (.start true) editorFile .write
  have token : Allows grantlessEnv 1 (.start true) editorFile .write editorToken := ⟨_, rfl⟩
  have app := attenuates.2 _ _ _ token
  exact ⟨token, app, attenuates.1 _ _ app⟩

end Example

end Puter

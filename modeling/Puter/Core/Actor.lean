/-
Module: Puter.Core.Actor
Purpose: Who acts (core/actor.ts): a user, an app under a user, or an access token that acts through its
  issuer, to any depth. The shapes are the ones AuthService builds: a token carries the user of its
  issuer and no app of its own, and no app carries a token.
Trusted boundary: none
Main exports: UserRow, isSystemActor, HttpError
-/
import Puter.Permission.PermissionUtil

namespace Puter

/-- An error answered to the client. -/
structure HttpError where
  statusCode : Nat
  message : Text
  legacyCode : Text
deriving DecidableEq, Repr

/-- The fields of a user row that decide access. An id of 0 and an empty text are the values the code
    treats as absent. -/
structure UserRow where
  id : Nat
  uuid : Text
  username : Text
  emailConfirmed : Bool
deriving DecidableEq, Repr

/-- An app, with its row id when it is registered (0 when it is not). -/
structure ActorApp where
  uid : Text
  id : Nat
deriving DecidableEq, Repr

/-- An actor. `system` is the flag of the built-in system actor, `fullAccess` the signed claim of a
    personal access token. -/
inductive Actor where
  | user (user : UserRow) (system : Bool)
  | appUnderUser (user : UserRow) (app : ActorApp)
  | accessToken (uid : Text) (issuer : Actor) (fullAccess : Bool)
deriving DecidableEq, Repr

def systemActorUuid : Text := "5d4adce0-a381-4982-9c02-6e2540026238".toList

def systemActor : Actor := .user ⟨0, systemActorUuid, "system".toList, false⟩ true

namespace Actor

/-- The user an actor acts for (`actor.user`); a token has the user of its issuer. -/
def accountUser : Actor → UserRow
  | .user account _ => account
  | .appUnderUser account _ => account
  | .accessToken _ issuer _ => issuer.accountUser

/-- A plain user actor, the shape a stored user becomes (`#userToActor`). -/
def ofUser (account : UserRow) : Actor := .user account false

def isPlainUser : Actor → Bool
  | .user _ _ => true
  | _ => false

end Actor

def isSystemActor : Actor → Bool
  | .user account system => system || account.uuid == systemActorUuid
  | actor => actor.accountUser.uuid == systemActorUuid

/-- `actorUid`, the stable identifier of an actor. AuthService issues tokens with no authorized actor,
    hence the `<none>`. -/
def actorUid : Actor → Text
  | .accessToken uid issuer _ =>
      "access-token:".toList ++ actorUid issuer ++ ":<none>:".toList ++ uid
  | .user account system =>
      if isSystemActor (.user account system) then "system".toList
      else "user:".toList ++ account.uuid
  | .appUnderUser account app =>
      if isSystemActor (.appUnderUser account app) then "system".toList
      else "app-under-user:".toList ++ account.uuid ++ [':'] ++ app.uid

/-- `userRelatedActor`: the user alone behind a derived actor. -/
def userRelatedActor : Actor → Actor
  | .user account system => .user account system
  | actor => .ofUser actor.accountUser

@[simp] theorem userRelatedActor_appUnderUser (account : UserRow) (app : ActorApp) :
    userRelatedActor (.appUnderUser account app) = .ofUser account := rfl

@[simp] theorem isSystemActor_ofUser (account : UserRow) :
    isSystemActor (.ofUser account) = (account.uuid == systemActorUuid) := by
  simp [isSystemActor, Actor.ofUser]

end Puter

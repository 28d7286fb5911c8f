/-
Module: Puter.Fs.SharePathMask
Purpose: How entries of other users are addressed (services/fs/sharePathMask.ts). A path is published as
  `/<owner>/<uuid>/<name>[/…]`, where the uuid stands for everything above the shared item, and such a path is
  turned back into the real one when it comes in. The calls run inside of a request, whose context keeps the
  masker. Rows number their uuids; `uuidText` gives the text that was drawn as the uuid of a number.
Trusted boundary: a lookup by uuid returns what the table of entries holds
Main exports: isUuid, resolveSharePath
-/
import Puter.Core.Actor
import Puter.Fs.FSEntryStore

namespace Puter

open PosixPath

namespace SharePathMask

def isHexDigit (c : Char) : Bool :=
  ('0' ≤ c && c ≤ '9') || ('a' ≤ c && c ≤ 'f') || ('A' ≤ c && c ≤ 'F')

/-- `UUID_PATTERN`: groups of 8, 4, 4, 4 and 12 digits. -/
def isUuid (text : Text) : Bool :=
  (text.splitOn '-').map List.length == [8, 4, 4, 4, 12] &&
    text.all fun c => c == '-' || isHexDigit c

/-- A masked path that was read; the tail is empty when the path is the root itself. -/
structure MaskedSharePath where
  ownerUsername : Text
  rootUuid : Text
  tail : Text
deriving DecidableEq, Repr

def parseMaskedSharePath (path : Text) : Option MaskedSharePath :=
  match path with
  | '/' :: below =>
      match below.splitOn '/' with
      | ownerUsername :: rootUuid :: rest =>
          if ownerUsername = [] ∨ rootUuid = [] ∨ isUuid rootUuid = false then none
          else some ⟨ownerUsername, rootUuid, ['/'].intercalate rest⟩
      | _ => none
  | _ => none

/-- The first segment of a path, as `path.split('/')[1]` gives it. -/
def ownerSegment (path : Text) : Text := (path.splitOn '/').getD 1 []

/-- `/<owner>/<uuid>/<name>`. -/
def maskedRoot (owner uuid name : Text) : Text := '/' :: owner ++ '/' :: uuid ++ '/' :: name

/-- `SharePathMasker`: the user it was built for, and the roots that were proved, by their real paths. -/
structure SharePathMasker where
  actorUserId : Option Nat
  roots : List (Text × Text) := []

namespace SharePathMasker

/-- `learn`: a root that is there already keeps its place. -/
def learn (masker : SharePathMasker) (realPrefix maskedPrefix : Text) : SharePathMasker :=
  if masker.roots.any (·.1 == realPrefix) then
    { masker with
        roots := masker.roots.map fun root =>
          if root.1 == realPrefix then (realPrefix, maskedPrefix) else root }
  else { masker with roots := masker.roots ++ [(realPrefix, maskedPrefix)] }

def longestLearnedRoot (masker : SharePathMasker) (path : Text) : Option Text :=
  masker.roots.foldl (fun bestReal root =>
    if path ≠ root.1 ∧ (root.1 ++ ['/']).isPrefixOf path = false then bestReal
    else if bestReal.all fun best => decide (best.length < root.1.length) then some root.1
    else bestReal) none

/-- A path below a learned root, as it is published. The root is a prefix of the path, so that it makes no difference
    what its length is counted in. -/
def belowRoot (masker : SharePathMasker) (bestReal path : Text) : Text :=
  (masker.roots.lookup bestReal).getD [] ++ path.drop bestReal.length

def mask (uuidText : Nat → Text) (masker : SharePathMasker) (entry : FSEntry) : Text :=
  if masker.actorUserId = none ∨ masker.actorUserId = some entry.userId then entry.path
  else
    match masker.longestLearnedRoot entry.path with
    | some bestReal => masker.belowRoot bestReal entry.path
    | none =>
        let owner := ownerSegment entry.path
        if owner = [] ∨ entry.name = [] then entry.path
        else maskedRoot owner (uuidText entry.uuid) entry.name

def maskPath (masker : SharePathMasker) (path : Text) : Text :=
  match masker.longestLearnedRoot path with
  | some bestReal => masker.belowRoot bestReal path
  | none => path

end SharePathMasker

/-- `actor?.user?.id`. -/
def actorUserId (actor : Option Actor) : Option Nat :=
  actor.bind fun actor => if actor.accountUser.id = 0 then none else some actor.accountUser.id

/-- `actor?.user?.username`. -/
def actorUsername (actor : Option Actor) : Option Text := actor.map (·.accountUser.username)

/-- `maskerFor`: the masker of the request, which is built on first use. One that knew no user adopts the first
    that turns up, and one of another user is replaced. -/
def maskerFor (context : Option SharePathMasker) (actor : Option Actor) : SharePathMasker :=
  match context with
  | none => { actorUserId := actorUserId actor }
  | some existing =>
      if actorUserId actor = none ∨ actorUserId actor = existing.actorUserId then existing
      else if existing.actorUserId = none then { actorUserId := actorUserId actor, roots := existing.roots }
      else { actorUserId := actorUserId actor }

def maskEntryPath (uuidText : Nat → Text) (context : Option SharePathMasker) (actor : Option Actor)
    (entry : FSEntry) : Text :=
  (maskerFor context actor).mask uuidText entry

def maskPathForRequest (context : Option SharePathMasker) (actor : Option Actor) (path : Text) : Text :=
  (maskerFor context actor).maskPath path

def learnShareRoots (uuidText : Nat → Text) (context : Option SharePathMasker) (actor : Option Actor)
    (roots : List FSEntry) : SharePathMasker :=
  roots.foldl (fun masker root =>
      if ownerSegment root.path = [] then masker
      else masker.learn root.path (maskedRoot (ownerSegment root.path) (uuidText root.uuid) root.name))
    (maskerFor context actor)

/-- `getEntryByUuid`, of a uuid in a path. -/
def getEntryByUuid (uuidText : Nat → Text) (entries : List FSEntry) (uuid : Text) : Option FSEntry :=
  entries.find? fun entry => uuidText entry.uuid == uuid

/-- What `resolveSharePath` makes of a path whose uuid names an entry: the real path, if the mask is right. -/
def realPath (root : FSEntry) (parsed : MaskedSharePath) : Option Text :=
  if ownerSegment root.path ≠ parsed.ownerUsername then none
  else
    match (parsed.tail.splitOn '/').filter (· ≠ []) with
    | [] => none
    | head :: rest =>
        if head ≠ root.name then none
        else
          let real := ['/'].intercalate (root.path :: rest)
          if normalize real ≠ real then none else some real

/-- `resolveSharePath`, with the masker that it leaves in the context. -/
def resolveSharePath (uuidText : Nat → Text) (entries : List FSEntry) (context : Option SharePathMasker)
    (actor : Option Actor) (path : Text) : Text × Option SharePathMasker :=
  match parseMaskedSharePath path with
  | none => (path, context)
  | some parsed =>
      if actorUsername actor = some parsed.ownerUsername then (path, context)
      else
        match getEntryByUuid uuidText entries parsed.rootUuid with
        | none => (path, context)
        | some root =>
            match realPath root parsed with
            | none => (path, context)
            | some real =>
                (real, some ((maskerFor context actor).learn root.path
                  (maskedRoot parsed.ownerUsername (uuidText root.uuid) root.name)))

end SharePathMask

end Puter

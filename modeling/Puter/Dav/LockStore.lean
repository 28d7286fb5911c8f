/-
Module: Puter.Dav.LockStore
Purpose: The WebDAV locks in Redis (controllers/webdav/locks.ts) as the requests of WebDAVController.ts use
  them: a key for each token, a map of tokens for each path, and LOCK, the refresh of a lock and UNLOCK as
  sequences of single commands. The state also records which locks are held: returned by LOCK, and since
  then neither unlocked nor lapsed.
Trusted boundary: Redis runs a command as one step, and removes a key after its time to live; a new uuid is
  one that was not drawn before
Main exports: LockScope, davSystem, hasWritePermission
-/
import Puter.Fs.PosixPath
import Puter.Library.ExpiringKeys
import Puter.Library.Interleaving

namespace Puter

open Interleaving

inductive LockScope where
  | exclusive
  | shared
deriving DecidableEq, Repr

/-- What is stored under a token. -/
structure LockMeta where
  path : Text
  lockScope : LockScope
deriving DecidableEq, Repr

abbrev LockMap := List (ℕ × LockScope)

/-- A lock that LOCK has returned. -/
structure DavLock where
  token : ℕ
  path : Text
  lockScope : LockScope
deriving DecidableEq, Repr

/-- The two key families and the clock in milliseconds; the metadata of the tokens drawn so far, the tokens for
    which an UNLOCK was accepted, the locks that are held, and the tokens of refreshes that have written their
    token and not their map yet. -/
structure DavState where
  clock : ℕ
  tokens : ExpiringKeys ℕ LockMeta
  maps : ExpiringKeys Text LockMap
  minted : List LockMeta
  unlocked : List ℕ
  held : List DavLock
  refreshing : List ℕ

/-- `DAV_LOCK_TTL_SECONDS`, in milliseconds. -/
def davLockTtl : ℕ := 30000

/-- `getPathLockMap` -/
def DavState.pathLockMap (s : DavState) (path : Text) : LockMap := (s.maps.get s.clock path).getD []

def DavState.getToken (s : DavState) (token : ℕ) : Option LockMeta := s.tokens.get s.clock token

/-- The walk of `getFileLocks`: a path and the directories above it. -/
def lockPathsFrom : ℕ → Text → List Text
  | 0, current => [current]
  | fuel + 1, current => current :: if current = ['/'] then [] else lockPathsFrom fuel (PosixPath.dirname current)

def lockPaths (path : Text) : List Text := lockPathsFrom path.length path

def Related (one other : Text) : Prop := one ∈ lockPaths other ∨ other ∈ lockPaths one

instance (one other : Text) : Decidable (Related one other) := inferInstanceAs (Decidable (_ ∨ _))

def lockConflicts (lockScope : LockScope) (existingLocks : LockMap) : Bool :=
  existingLocks.any fun lock => lockScope = .exclusive || lock.2 = .exclusive

/-- `hasWritePermission`, answered from one state. -/
def hasWritePermission (s : DavState) (filePath : Text) (headerLockToken : Option ℕ) : Bool :=
  let locks := (lockPaths filePath).flatMap s.pathLockMap
  if locks = [] then true
  else
    match headerLockToken with
    | none => false
    | some token =>
        match s.getToken token with
        | none => false
        | some myLock =>
            myLock.path.isPrefixOf filePath && locks.all fun lock => lock.1 = token || lock.2 ≠ .exclusive

/-- A program point of a request, or time that passes. -/
inductive DavCall where
  /-- LOCK reads the map of the next path, having found some locks. -/
  | lockReads (path : Text) (lockScope : LockScope) (rest : List Text) (found : LockMap)
  /-- `createLock` sets the key of a new token. -/
  | lockSetsToken (path : Text) (lockScope : LockScope)
  /-- `createLock` reads the map of the path. -/
  | lockReadsMap (path : Text) (lockScope : LockScope) (token : ℕ)
  /-- `createLock` sets the map of the path, and LOCK returns the token. -/
  | lockSetsMap (path : Text) (lockScope : LockScope) (token : ℕ) (existing : LockMap)
  /-- `getLockIfValid` of a LOCK with a token. -/
  | refresh (token : ℕ)
  /-- `refreshLock` reads the token. -/
  | refreshReads (token : ℕ)
  /-- `refreshLock` sets the token. -/
  | refreshSetsToken (token : ℕ) (info : LockMeta)
  /-- `refreshLock` reads the map of the path. -/
  | refreshReadsMap (token : ℕ) (info : LockMeta)
  /-- `refreshLock` sets the map of the path. -/
  | refreshSetsMap (token : ℕ) (info : LockMeta) (pathMap : LockMap)
  /-- `getLockIfValid` of UNLOCK. -/
  | unlock (davPath : Text) (token : ℕ)
  /-- `deleteLock` reads the token. -/
  | unlockReads (token : ℕ)
  /-- `deleteLock` reads the map of the path. -/
  | unlockReadsMap (token : ℕ) (info : LockMeta)
  /-- `deleteLock` sets or deletes the map of the path. -/
  | unlockSetsMap (token : ℕ) (info : LockMeta) (pathMap : LockMap)
  /-- `deleteLock` deletes the token. -/
  | unlockDeletes (token : ℕ)
  | elapse (ms : ℕ)

/-- The next command of a request. -/
def DavCall.perform (s : DavState) : DavCall → DavState × Option DavCall
  | .lockReads _ _ [] _ => (s, none)
  | .lockReads path lockScope (current :: rest) found =>
      let existingLocks := found ++ s.pathLockMap current
      if rest = [] then
        if lockConflicts lockScope existingLocks then (s, none) else (s, some (.lockSetsToken path lockScope))
      else (s, some (.lockReads path lockScope rest existingLocks))
  | .lockSetsToken path lockScope =>
      ({ s with tokens := s.tokens.put s.minted.length ⟨path, lockScope⟩ (s.clock + davLockTtl)
                minted := s.minted ++ [⟨path, lockScope⟩] },
        some (.lockReadsMap path lockScope s.minted.length))
  | .lockReadsMap path lockScope token =>
      (s, some (.lockSetsMap path lockScope token (s.pathLockMap path)))
  | .lockSetsMap path lockScope token existing =>
      ({ s with maps := s.maps.put path (existing ++ [(token, lockScope)]) (s.clock + davLockTtl)
                held := if (s.getToken token).isSome ∧ token ∉ s.unlocked then
                    ⟨token, path, lockScope⟩ :: s.held else s.held }, none)
  | .refresh token => (s, (s.getToken token).map fun _ => .refreshReads token)
  | .refreshReads token => (s, (s.getToken token).map (.refreshSetsToken token))
  | .refreshSetsToken token info =>
      ({ s with tokens := s.tokens.put token info (s.clock + davLockTtl)
                refreshing := token :: s.refreshing }, some (.refreshReadsMap token info))
  | .refreshReadsMap token info =>
      match s.maps.get s.clock info.path with
      | none => ({ s with refreshing := s.refreshing.erase token }, none)
      | some pathMap => (s, some (.refreshSetsMap token info pathMap))
  | .refreshSetsMap token info pathMap =>
      ({ s with maps := s.maps.put info.path pathMap (s.clock + davLockTtl)
                refreshing := s.refreshing.erase token }, none)
  | .unlock davPath token =>
      match s.getToken token with
      | none => (s, none)
      | some lock =>
          if lock.path ≠ davPath then (s, none)
          else
            ({ s with unlocked := token :: s.unlocked
                      held := s.held.filter (·.token ≠ token) }, some (.unlockReads token))
  | .unlockReads token =>
      match s.getToken token with
      | none => (s, some (.unlockDeletes token))
      | some info => (s, some (.unlockReadsMap token info))
  | .unlockReadsMap token info =>
      (s, some (.unlockSetsMap token info ((s.pathLockMap info.path).filter (·.1 ≠ token))))
  | .unlockSetsMap token info pathMap =>
      ({ s with maps := if pathMap = [] then s.maps.erase info.path
                  else s.maps.put info.path pathMap (s.clock + davLockTtl) }, some (.unlockDeletes token))
  | .unlockDeletes token => ({ s with tokens := s.tokens.erase token }, none)
  | .elapse ms =>
      ({ s with clock := s.clock + ms
                held := s.held.filter fun lock => (s.tokens.get (s.clock + ms) lock.token).isSome }, none)

def davSystem (allow : DavState → List DavCall → DavCall → Prop) : System DavState DavCall where
  issues
    | .lockReads path _ rest found => rest = lockPaths path ∧ found = []
    | .refresh _ | .unlock _ _ | .elapse _ => True
    | _ => False
  atom s call s' next := call.perform s = (s', next)
  allow := allow

def DavState.start (clock : ℕ) : DavState := ⟨clock, .empty, .empty, [], [], [], []⟩

theorem mem_lockPaths_self (path : Text) : path ∈ lockPaths path := by
  unfold lockPaths
  cases path.length with
  | zero => exact List.mem_singleton_self path
  | succ fuel => exact List.mem_cons_self

theorem Related.symm {one other : Text} (related : Related one other) : Related other one := Or.symm related

end Puter

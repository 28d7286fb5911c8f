/-
Module: Puter.Dav.ExclusiveLocks
Purpose: When an exclusive WebDAV lock excludes. LOCK looks for conflicts upwards only, and the map of a path
  is read, edited and written back as a whole. In runs where no LOCK takes a token above a conflicting lock,
  no LOCK writes its map while others rely on what they have read, and no map lapses in the middle of a
  refresh, a held exclusive lock has no other lock on its path, above it or below it, and stands in its map.
Trusted boundary: none
Main exports: OrderlyLocks, exclusive_lock_excludes
-/
import Puter.Dav.LockStore

namespace Puter

open Interleaving

def LockScope.Compatible (one other : LockScope) : Prop := one = .shared ∧ other = .shared

/-- A lock taken on the path spoils what this request has found out already. -/
def DavCall.Disturbed (path : Text) : DavCall → Prop
  | .lockReads other _ _ _ | .lockSetsToken other _ | .lockReadsMap other _ _ | .lockSetsMap other _ _ _ =>
      Related path other
  | .refreshSetsMap _ info _ | .unlockSetsMap _ info _ => info.path = path
  | _ => False

/-- The steps of orderly requests: no LOCK takes a token while a lock strictly below its path conflicts with it;
    when LOCK writes the map, no LOCK on a related path is under way, and no refresh or UNLOCK on the path
    holds the map that it has read; and the map of a held lock does not lapse while a refresh of the lock has
    set the token and not yet the map. -/
def OrderlyLocks (s : DavState) (others : List DavCall) : DavCall → Prop
  | .lockSetsToken path lockScope =>
      ∀ lock ∈ s.held, path ∈ lockPaths lock.path → lock.path ≠ path → lockScope.Compatible lock.lockScope
  | .lockSetsMap path _ _ _ => ∀ other ∈ others, ¬ other.Disturbed path
  | .elapse ms =>
      ∀ lock ∈ s.held, lock.token ∈ s.refreshing → (s.maps.get (s.clock + ms) lock.path).isSome = true
  | _ => True

/-- A lock is live in Redis: its token and its entry in the map of its path stand, and the map stands as long as
    the token, unless a refresh is about to see to that. -/
structure LiveLock (s : DavState) (lock : DavLock) : Prop where
  token : ∃ expiry, s.tokens.cell lock.token = some (⟨lock.path, lock.lockScope⟩, expiry) ∧ s.clock < expiry ∧
    ∃ pathMap expiry', s.maps.cell lock.path = some (pathMap, expiry') ∧ s.clock < expiry' ∧
      (lock.token, lock.lockScope) ∈ pathMap ∧ (expiry ≤ expiry' ∨ lock.token ∈ s.refreshing)

structure DavHolds (s : DavState) : Prop where
  bounded : ∀ token info expiry, s.tokens.cell token = some (info, expiry) →
    s.minted[token]? = some info ∧ expiry ≤ s.clock + davLockTtl
  live : ∀ lock ∈ s.held, LiveLock s lock
  notUnlocked : ∀ lock ∈ s.held, lock.token ∉ s.unlocked
  apart : ∀ lock ∈ s.held, ∀ other ∈ s.held, lock.token ≠ other.token → Related lock.path other.path →
    lock.lockScope.Compatible other.lockScope

def HasHeld (s : DavState) (path : Text) (pathMap : LockMap) : Prop :=
  ∀ lock ∈ s.held, lock.path = path → (lock.token, lock.lockScope) ∈ pathMap

def FreeFor (s : DavState) (path : Text) (lockScope : LockScope) : Prop :=
  ∀ lock ∈ s.held, Related path lock.path → lockScope.Compatible lock.lockScope

/-- What a request relies on. -/
def DavCall.Relies (s : DavState) : DavCall → Prop
  | .lockReads path _ rest found =>
      ∀ lock ∈ s.held, lock.path ∈ lockPaths path → lock.path ∈ rest ∨ (lock.token, lock.lockScope) ∈ found
  | .lockSetsToken path lockScope =>
      ∀ lock ∈ s.held, lock.path ∈ lockPaths path → lockScope.Compatible lock.lockScope
  | .lockReadsMap path lockScope token => s.minted[token]? = some ⟨path, lockScope⟩ ∧ FreeFor s path lockScope
  | .lockSetsMap path lockScope token existing =>
      s.minted[token]? = some ⟨path, lockScope⟩ ∧ FreeFor s path lockScope ∧ HasHeld s path existing
  | .refreshSetsToken token info | .refreshReadsMap token info => s.minted[token]? = some info
  | .refreshSetsMap token info pathMap => s.minted[token]? = some info ∧ HasHeld s info.path pathMap
  | .unlockReads token | .unlockReadsMap token _ | .unlockDeletes token => token ∈ s.unlocked
  | .unlockSetsMap token info pathMap => token ∈ s.unlocked ∧ HasHeld s info.path pathMap
  | .refresh _ | .refreshReads _ | .unlock _ _ | .elapse _ => True

section Frames

variable {s s' : DavState}

theorem DavCall.Relies.fewer {call : DavCall} (relies : call.Relies s) (held : s'.held ⊆ s.held)
    (minted : s.minted <+: s'.minted) (unlocked : s.unlocked ⊆ s'.unlocked) : call.Relies s' := by
  have stillMinted : ∀ {token : ℕ} {info : LockMeta}, s.minted[token]? = some info →
      s'.minted[token]? = some info := fun {token info} known => by
    obtain ⟨more, isMore⟩ := minted
    rw [← isMore, List.getElem?_append_left (List.getElem?_eq_some_iff.mp known).1]
    exact known
  cases call with
  | lockReads path lockScope rest found => exact fun lock member => relies lock (held member)
  | lockSetsToken path lockScope => exact fun lock member => relies lock (held member)
  | lockReadsMap path lockScope token =>
      exact ⟨stillMinted relies.1, fun lock member => relies.2 lock (held member)⟩
  | lockSetsMap path lockScope token existing =>
      exact ⟨stillMinted relies.1, fun lock member => relies.2.1 lock (held member),
        fun lock member => relies.2.2 lock (held member)⟩
  | refresh token => trivial
  | refreshReads token => trivial
  | refreshSetsToken token info => exact stillMinted relies
  | refreshReadsMap token info => exact stillMinted relies
  | refreshSetsMap token info pathMap =>
      exact ⟨stillMinted relies.1, fun lock member => relies.2 lock (held member)⟩
  | unlock davPath token => trivial
  | unlockReads token => exact unlocked relies
  | unlockReadsMap token info => exact unlocked relies
  | unlockSetsMap token info pathMap =>
      exact ⟨unlocked relies.1, fun lock member => relies.2 lock (held member)⟩
  | unlockDeletes token => exact unlocked relies
  | elapse ms => trivial

theorem DavCall.Relies.granted {call : DavCall} {lock : DavLock} (relies : call.Relies s)
    (held : ∀ other ∈ s'.held, other = lock ∨ other ∈ s.held) (minted : s'.minted = s.minted)
    (unlocked : s.unlocked ⊆ s'.unlocked) (spared : ¬ call.Disturbed lock.path) : call.Relies s' := by
  have covers : ∀ {path : Text} {pathMap : LockMap}, path ≠ lock.path → HasHeld s path pathMap →
      HasHeld s' path pathMap := fun differs covered other member isPath => by
    obtain rfl | old := held other member
    · exact absurd isPath.symm differs
    · exact covered other old isPath
  have free : ∀ {path : Text} {lockScope : LockScope}, ¬ Related lock.path path → FreeFor s path lockScope →
      FreeFor s' path lockScope := fun unrelated freed other member related => by
    obtain rfl | old := held other member
    · exact absurd related.symm unrelated
    · exact freed other old related
  cases call with
  | lockReads path lockScope rest found =>
      intro other member above
      obtain rfl | old := held other member
      · exact absurd (.inl above) spared
      · exact relies other old above
  | lockSetsToken path lockScope =>
      intro other member above
      obtain rfl | old := held other member
      · exact absurd (.inl above) spared
      · exact relies other old above
  | lockReadsMap path lockScope token => exact ⟨minted ▸ relies.1, free spared relies.2⟩
  | lockSetsMap path lockScope token existing =>
      have differs : path ≠ lock.path := fun same => spared (.inl (same ▸ mem_lockPaths_self path))
      exact ⟨minted ▸ relies.1, free spared relies.2.1, covers differs relies.2.2⟩
  | refresh token => trivial
  | refreshReads token => trivial
  | refreshSetsToken token info => exact (congrArg (·[token]?) minted).trans relies
  | refreshReadsMap token info => exact (congrArg (·[token]?) minted).trans relies
  | refreshSetsMap token info pathMap => exact ⟨minted ▸ relies.1, covers spared relies.2⟩
  | unlock davPath token => trivial
  | unlockReads token => exact unlocked relies
  | unlockReadsMap token info => exact unlocked relies
  | unlockSetsMap token info pathMap => exact ⟨unlocked relies.1, covers spared relies.2⟩
  | unlockDeletes token => exact unlocked relies
  | elapse ms => trivial

end Frames

section Steps

variable {s : DavState}

theorem DavHolds.start (clock : ℕ) : DavHolds (.start clock) where
  bounded := by simp [DavState.start, ExpiringKeys.empty]
  live := by simp [DavState.start]
  notUnlocked := by simp [DavState.start]
  apart := by simp [DavState.start]

theorem DavHolds.minted (holds : DavHolds s) {lock : DavLock} (member : lock ∈ s.held) :
    s.minted[lock.token]? = some ⟨lock.path, lock.lockScope⟩ := by
  obtain ⟨expiry, stored, _⟩ := (holds.live lock member).token
  exact (holds.bounded _ _ _ stored).1

theorem DavHolds.covers (holds : DavHolds s) (path : Text) : HasHeld s path (s.pathLockMap path) := by
  rintro lock member rfl
  obtain ⟨_, _, _, pathMap, expiry', stored, stands, inMap, _⟩ := (holds.live lock member).token
  have found : s.maps.get s.clock lock.path = some pathMap :=
    ExpiringKeys.get_eq_some_iff.mpr ⟨expiry', stored, stands⟩
  rw [DavState.pathLockMap, found]
  exact inMap

theorem DavHolds.setsToken (holds : DavHolds s) (info : LockMeta) :
    DavHolds { s with tokens := s.tokens.put s.minted.length info (s.clock + davLockTtl)
                      minted := s.minted ++ [info] } := by
  have older : ∀ {token : ℕ} {info' : LockMeta}, s.minted[token]? = some info' →
      token ≠ s.minted.length := fun known => ((List.getElem?_eq_some_iff.mp known).1).ne
  have grown : ∀ {token : ℕ} {info' : LockMeta}, s.minted[token]? = some info' →
      (s.minted ++ [info])[token]? = some info' := fun known => by
    rw [List.getElem?_append_left (List.getElem?_eq_some_iff.mp known).1]
    exact known
  refine ⟨fun token info' expiry stored => ?_, fun lock member => ?_, holds.notUnlocked, holds.apart⟩
  · change Function.update s.tokens.cell _ _ token = _ at stored
    by_cases isNew : token = s.minted.length
    · rw [isNew, Function.update_self] at stored
      cases stored
      rw [isNew]
      exact ⟨List.getElem?_concat_length, le_rfl⟩
    · rw [Function.update_of_ne isNew] at stored
      obtain ⟨known, bound⟩ := holds.bounded _ _ _ stored
      exact ⟨grown known, bound⟩
  · obtain ⟨expiry, stored, rest⟩ := (holds.live lock member).token
    refine ⟨expiry, ?_, rest⟩
    change Function.update s.tokens.cell _ _ lock.token = _
    rw [Function.update_of_ne (older (holds.minted member))]
    exact stored

theorem DavHolds.setsMap (holds : DavHolds s) {path : Text} {pathMap : LockMap} (covers : HasHeld s path pathMap)
    {refreshing : List ℕ}
    (still : ∀ lock ∈ s.held, lock.path ≠ path → lock.token ∈ s.refreshing → lock.token ∈ refreshing) :
    DavHolds { s with maps := s.maps.put path pathMap (s.clock + davLockTtl), refreshing := refreshing } := by
  refine ⟨holds.bounded, fun lock member => ?_, holds.notUnlocked, holds.apart⟩
  obtain ⟨expiry, stored, live, pathMap', expiry', mapStored, stands, inMap, longer⟩ :=
    (holds.live lock member).token
  have bound := (holds.bounded _ _ _ stored).2
  by_cases here : lock.path = path
  · refine ⟨expiry, stored, live, pathMap, s.clock + davLockTtl, ?_, ?_, covers lock member here, .inl bound⟩
    · change Function.update s.maps.cell _ _ lock.path = _
      rw [here, Function.update_self]
    · exact Nat.lt_add_of_pos_right (by decide)
  · refine ⟨expiry, stored, live, pathMap', expiry', ?_, stands, inMap,
      longer.imp_right (still lock member here)⟩
    change Function.update s.maps.cell _ _ lock.path = _
    rw [Function.update_of_ne here]
    exact mapStored

theorem DavHolds.grants (holds : DavHolds s) {path : Text} {lockScope : LockScope} {token : ℕ}
    {existing : LockMap} (minted : s.minted[token]? = some ⟨path, lockScope⟩) (free : FreeFor s path lockScope)
    (covers : HasHeld s path existing) :
    DavHolds (DavCall.perform s (.lockSetsMap path lockScope token existing)).1 := by
  have written := holds.setsMap (fun lock member here => List.mem_append_left [(token, lockScope)]
    (covers lock member here)) fun _ _ _ refreshing => refreshing
  simp only [DavCall.perform]
  split
  · next stands =>
      obtain ⟨info, found⟩ := Option.isSome_iff_exists.mp stands.1
      obtain ⟨expiry, stored, live⟩ := ExpiringKeys.get_eq_some_iff.mp found
      obtain ⟨known, bound⟩ := holds.bounded _ _ _ stored
      rw [minted, Option.some.injEq] at known
      subst known
      refine ⟨holds.bounded, fun lock member => ?_, fun lock member => ?_, ?_⟩
      · cases member with
        | head =>
            refine ⟨expiry, stored, live, existing ++ [(token, lockScope)], s.clock + davLockTtl, ?_, ?_,
              List.mem_append_right _ List.mem_cons_self, .inl bound⟩
            · exact Function.update_self _ _ _
            · exact Nat.lt_add_of_pos_right (by decide)
        | tail _ member => exact ⟨(written.live lock member).token⟩
      · cases member with
        | head => exact stands.2
        | tail _ member => exact holds.notUnlocked lock member
      · intro lock member other memberOther differs related
        cases member with
        | head =>
            cases memberOther with
            | head => exact absurd rfl differs
            | tail _ memberOther => exact free other memberOther related
        | tail _ member =>
            cases memberOther with
            | head => exact (free lock member related.symm).symm
            | tail _ memberOther => exact holds.apart lock member other memberOther differs related
  · exact written

theorem DavHolds.refreshSetsToken (holds : DavHolds s) {token : ℕ} {info : LockMeta}
    (minted : s.minted[token]? = some info) :
    DavHolds { s with tokens := s.tokens.put token info (s.clock + davLockTtl)
                      refreshing := token :: s.refreshing } := by
  refine ⟨fun token' info' expiry stored => ?_, fun lock member => ?_, holds.notUnlocked, holds.apart⟩
  · change Function.update s.tokens.cell _ _ token' = _ at stored
    by_cases same : token' = token
    · rw [same, Function.update_self] at stored
      cases stored
      rw [same]
      exact ⟨minted, le_rfl⟩
    · rw [Function.update_of_ne same] at stored
      exact holds.bounded _ _ _ stored
  · have known := holds.minted member
    obtain ⟨expiry, stored, live, pathMap, expiry', mapStored, stands, inMap, longer⟩ :=
      (holds.live lock member).token
    by_cases same : lock.token = token
    · rw [same, minted, Option.some.injEq] at known
      refine ⟨s.clock + davLockTtl, ?_, Nat.lt_add_of_pos_right (by decide), pathMap, expiry', mapStored, stands,
        inMap, .inr (same ▸ List.mem_cons_self)⟩
      change Function.update s.tokens.cell _ _ lock.token = _
      rw [same, Function.update_self, known]
    · refine ⟨expiry, ?_, live, pathMap, expiry', mapStored, stands, inMap,
        longer.imp_right (List.mem_cons_of_mem _)⟩
      change Function.update s.tokens.cell _ _ lock.token = _
      rw [Function.update_of_ne same]
      exact stored

theorem DavHolds.refreshFindsNone (holds : DavHolds s) {token : ℕ} {info : LockMeta}
    (minted : s.minted[token]? = some info) (gone : s.maps.get s.clock info.path = none) :
    DavHolds { s with refreshing := s.refreshing.erase token } := by
  refine ⟨holds.bounded, fun lock member => ?_, holds.notUnlocked, holds.apart⟩
  have known := holds.minted member
  obtain ⟨expiry, stored, live, pathMap, expiry', mapStored, stands, inMap, longer⟩ :=
    (holds.live lock member).token
  have differs : lock.token ≠ token := by
    intro same
    rw [same, minted, Option.some.injEq] at known
    have found := ExpiringKeys.get_eq_some_iff.mpr ⟨expiry', mapStored, stands⟩
    rw [known] at gone
    rw [gone] at found
    cases found
  exact ⟨expiry, stored, live, pathMap, expiry', mapStored, stands, inMap,
    longer.imp_right (List.mem_erase_of_ne differs).mpr⟩

theorem DavHolds.fewer (holds : DavHolds s) {held : List DavLock} {unlocked : List ℕ} (within : held ⊆ s.held)
    (kept : ∀ lock ∈ held, lock.token ∉ unlocked) :
    DavHolds { s with held := held, unlocked := unlocked } where
  bounded := holds.bounded
  live lock member := ⟨(holds.live lock (within member)).token⟩
  notUnlocked := kept
  apart lock member other memberOther := holds.apart lock (within member) other (within memberOther)

theorem DavHolds.unlockDeletes (holds : DavHolds s) {token : ℕ} (unlocked : token ∈ s.unlocked) :
    DavHolds { s with tokens := s.tokens.erase token } := by
  refine ⟨fun token' info expiry stored => ?_, fun lock member => ?_, holds.notUnlocked, holds.apart⟩
  · change Function.update s.tokens.cell token none token' = _ at stored
    by_cases same : token' = token
    · rw [same, Function.update_self] at stored
      cases stored
    · rw [Function.update_of_ne same] at stored
      exact holds.bounded _ _ _ stored
  · obtain ⟨expiry, stored, rest⟩ := (holds.live lock member).token
    have differs : lock.token ≠ token := fun same => holds.notUnlocked lock member (same ▸ unlocked)
    refine ⟨expiry, ?_, rest⟩
    change Function.update s.tokens.cell token none lock.token = _
    rw [Function.update_of_ne differs]
    exact stored

theorem DavHolds.erasesMap (holds : DavHolds s) {path : Text} (covers : HasHeld s path []) :
    DavHolds { s with maps := s.maps.erase path } := by
  refine ⟨holds.bounded, fun lock member => ?_, holds.notUnlocked, holds.apart⟩
  obtain ⟨expiry, stored, live, pathMap, expiry', mapStored, rest⟩ := (holds.live lock member).token
  have differs : lock.path ≠ path := fun here => nomatch covers lock member here
  refine ⟨expiry, stored, live, pathMap, expiry', ?_, rest⟩
  change Function.update s.maps.cell path none lock.path = _
  rw [Function.update_of_ne differs]
  exact mapStored

theorem DavHolds.elapses (holds : DavHolds s) {ms : ℕ}
    (stand : ∀ lock ∈ s.held, lock.token ∈ s.refreshing →
      (s.maps.get (s.clock + ms) lock.path).isSome = true) :
    DavHolds (DavCall.perform s (.elapse ms)).1 := by
  refine ⟨fun token info expiry stored => ?_, fun lock member => ?_, fun lock member => ?_, ?_⟩
  · obtain ⟨known, bound⟩ := holds.bounded _ _ _ stored
    exact ⟨known, bound.trans (Nat.add_le_add_right (Nat.le_add_right _ _) _)⟩
  · obtain ⟨old, lasts⟩ := List.mem_filter.mp member
    obtain ⟨expiry, stored, live, pathMap, expiry', mapStored, stands, inMap, longer⟩ :=
      (holds.live lock old).token
    obtain ⟨info, found⟩ := Option.isSome_iff_exists.mp lasts
    obtain ⟨expiryNow, storedNow, liveNow⟩ := ExpiringKeys.get_eq_some_iff.mp found
    rw [stored, Option.some.injEq, Prod.mk.injEq] at storedNow
    refine ⟨expiry, stored, storedNow.2 ▸ liveNow, pathMap, expiry', mapStored, ?_, inMap, longer⟩
    obtain later | refreshing := longer
    · exact (storedNow.2 ▸ liveNow : s.clock + ms < expiry).trans_le later
    · obtain ⟨_, mapFound⟩ := Option.isSome_iff_exists.mp (stand lock old refreshing)
      obtain ⟨_, mapNow, standsNow⟩ := ExpiringKeys.get_eq_some_iff.mp mapFound
      rw [mapStored, Option.some.injEq, Prod.mk.injEq] at mapNow
      exact mapNow.2 ▸ standsNow
  · exact holds.notUnlocked lock (List.mem_of_mem_filter member)
  · intro lock member other memberOther
    exact holds.apart lock (List.mem_of_mem_filter member) other (List.mem_of_mem_filter memberOther)

theorem compatible_of_found {lockScope : LockScope} {found : LockMap} (clear : lockConflicts lockScope found = false)
    {lock : DavLock} (member : (lock.token, lock.lockScope) ∈ found) :
    lockScope.Compatible lock.lockScope := by
  have passes := List.any_eq_false.mp clear _ member
  rw [Bool.or_eq_true, decide_eq_true_iff, decide_eq_true_iff, not_or] at passes
  constructor
  · cases lockScope with
    | exclusive => exact absurd rfl passes.1
    | shared => rfl
  · cases isScope : lock.lockScope with
    | exclusive => exact absurd isScope passes.2
    | shared => rfl

theorem DavHolds.reads (holds : DavHolds s) {path current : Text} {rest : List Text} {found : LockMap}
    (searched : ∀ lock ∈ s.held, lock.path ∈ lockPaths path →
      lock.path ∈ current :: rest ∨ (lock.token, lock.lockScope) ∈ found) :
    ∀ lock ∈ s.held, lock.path ∈ lockPaths path →
      lock.path ∈ rest ∨ (lock.token, lock.lockScope) ∈ found ++ s.pathLockMap current := by
  intro lock member above
  obtain unread | seen := searched lock member above
  · cases unread with
    | head => exact .inr (List.mem_append_right _ (holds.covers lock.path lock member rfl))
    | tail _ unread => exact .inl unread
  · exact .inr (List.mem_append_left _ seen)

theorem DavHolds.step {others : List DavCall} {call : DavCall} (holds : DavHolds s) (relies : call.Relies s)
    (allowed : OrderlyLocks s others call) :
    DavHolds (call.perform s).1 ∧ ∀ next, (call.perform s).2 = some next → next.Relies (call.perform s).1 := by
  cases call with
  | lockReads path lockScope rest found =>
      cases rest with
      | nil => exact ⟨holds, fun _ impossible => (by cases impossible)⟩
      | cons current rest =>
          have searched := holds.reads relies
          simp only [DavCall.perform]
          split
          · next last =>
              split
              · exact ⟨holds, fun _ impossible => (by cases impossible)⟩
              · next clear =>
                  refine ⟨holds, ?_⟩
                  rintro _ ⟨⟩ lock member above
                  obtain unread | seen := searched lock member above
                  · rw [last] at unread
                    cases unread
                  · exact compatible_of_found (Bool.eq_false_iff.mpr clear) seen
          · refine ⟨holds, ?_⟩
            rintro _ ⟨⟩
            exact searched
  | lockSetsToken path lockScope =>
      refine ⟨holds.setsToken _, ?_⟩
      rintro _ ⟨⟩
      refine ⟨List.getElem?_concat_length, ?_⟩
      rintro lock member (below | above)
      · by_cases same : lock.path = path
        · exact relies lock member (same ▸ mem_lockPaths_self path)
        · exact allowed lock member below same
      · exact relies lock member above
  | lockReadsMap path lockScope token =>
      refine ⟨holds, ?_⟩
      rintro _ ⟨⟩
      exact ⟨relies.1, relies.2, holds.covers path⟩
  | lockSetsMap path lockScope token existing =>
      exact ⟨holds.grants relies.1 relies.2.1 relies.2.2, fun _ impossible => (by cases impossible)⟩
  | refresh token =>
      refine ⟨holds, fun next continues => ?_⟩
      obtain ⟨_, _, rfl⟩ := Option.map_eq_some_iff.mp continues
      trivial
  | refreshReads token =>
      refine ⟨holds, fun next continues => ?_⟩
      obtain ⟨info, found, rfl⟩ := Option.map_eq_some_iff.mp continues
      obtain ⟨expiry, stored, _⟩ := ExpiringKeys.get_eq_some_iff.mp found
      exact (holds.bounded _ _ _ stored).1
  | refreshSetsToken token info =>
      refine ⟨holds.refreshSetsToken relies, ?_⟩
      rintro _ ⟨⟩
      exact relies
  | refreshReadsMap token info =>
      simp only [DavCall.perform]
      split
      · next gone => exact ⟨holds.refreshFindsNone relies gone, fun _ impossible => (by cases impossible)⟩
      · next pathMap found =>
          refine ⟨holds, ?_⟩
          rintro _ ⟨⟩
          refine ⟨relies, ?_⟩
          have covers := holds.covers info.path
          rwa [DavState.pathLockMap, found] at covers
  | refreshSetsMap token info pathMap =>
      refine ⟨holds.setsMap relies.2 fun lock member elsewhere refreshing => ?_,
        fun _ impossible => (by cases impossible)⟩
      have known := holds.minted member
      have differs : lock.token ≠ token := by
        intro same
        rw [same, relies.1, Option.some.injEq] at known
        exact elsewhere (by rw [known])
      exact (List.mem_erase_of_ne differs).mpr refreshing
  | unlock davPath token =>
      simp only [DavCall.perform]
      split
      · exact ⟨holds, fun _ impossible => (by cases impossible)⟩
      · split
        · exact ⟨holds, fun _ impossible => (by cases impossible)⟩
        · constructor
          · refine holds.fewer (List.filter_subset_self _) fun lock member => ?_
            obtain ⟨old, differs⟩ := List.mem_filter.mp member
            rw [List.mem_cons, not_or]
            exact ⟨of_decide_eq_true differs, holds.notUnlocked lock old⟩
          · rintro _ ⟨⟩
            exact List.mem_cons_self
  | unlockReads token =>
      simp only [DavCall.perform]
      split
      · refine ⟨holds, ?_⟩
        rintro _ ⟨⟩
        exact relies
      · refine ⟨holds, ?_⟩
        rintro _ ⟨⟩
        exact relies
  | unlockReadsMap token info =>
      refine ⟨holds, ?_⟩
      rintro _ ⟨⟩
      refine ⟨relies, fun lock member here => ?_⟩
      have differs : lock.token ≠ token := fun same => holds.notUnlocked lock member (same ▸ relies)
      exact List.mem_filter.mpr ⟨holds.covers info.path lock member here, by simpa using differs⟩
  | unlockSetsMap token info pathMap =>
      refine ⟨?_, ?_⟩
      · simp only [DavCall.perform]
        split
        · next empty => exact holds.erasesMap (empty ▸ relies.2)
        · exact holds.setsMap relies.2 fun _ _ _ refreshing => refreshing
      · rintro _ ⟨⟩
        exact relies.1
  | unlockDeletes token =>
      exact ⟨holds.unlockDeletes relies, fun _ impossible => (by cases impossible)⟩
  | elapse ms => exact ⟨holds.elapses allowed, fun _ impossible => (by cases impossible)⟩

theorem DavCall.perform_spares {others : List DavCall} {call : DavCall} (allowed : OrderlyLocks s others call)
    {other : DavCall} (member : other ∈ others) (relies : other.Relies s) :
    other.Relies (call.perform s).1 := by
  by_cases grant : ∃ path lockScope token existing, call = .lockSetsMap path lockScope token existing
  · obtain ⟨path, lockScope, token, existing, rfl⟩ := grant
    refine @DavCall.Relies.granted _ _ other ⟨token, path, lockScope⟩ relies (fun lock held => ?_) rfl (List.Subset.refl _)
      (allowed other member)
    simp only [DavCall.perform] at held
    split at held
    · exact List.mem_cons.mp held
    · exact .inr held
  · have frame : (call.perform s).1.held ⊆ s.held ∧ s.minted <+: (call.perform s).1.minted ∧
        s.unlocked ⊆ (call.perform s).1.unlocked := by
      cases call with
      | lockSetsMap path lockScope token existing => exact absurd ⟨path, lockScope, token, existing, rfl⟩ grant
      | lockReads path lockScope rest found =>
          cases rest with
          | nil => exact ⟨List.Subset.refl _, List.prefix_rfl, List.Subset.refl _⟩
          | cons current rest =>
              simp only [DavCall.perform]
              split
              · split <;> exact ⟨List.Subset.refl _, List.prefix_rfl, List.Subset.refl _⟩
              · exact ⟨List.Subset.refl _, List.prefix_rfl, List.Subset.refl _⟩
      | lockSetsToken path lockScope =>
          exact ⟨List.Subset.refl _, List.prefix_append _ _, List.Subset.refl _⟩
      | refreshReadsMap token info =>
          simp only [DavCall.perform]
          split <;> exact ⟨List.Subset.refl _, List.prefix_rfl, List.Subset.refl _⟩
      | unlock davPath token =>
          simp only [DavCall.perform]
          split
          · exact ⟨List.Subset.refl _, List.prefix_rfl, List.Subset.refl _⟩
          · split
            · exact ⟨List.Subset.refl _, List.prefix_rfl, List.Subset.refl _⟩
            · exact ⟨List.filter_subset_self _, List.prefix_rfl, List.subset_cons_self _ _⟩
      | unlockReads token =>
          simp only [DavCall.perform]
          split <;> exact ⟨List.Subset.refl _, List.prefix_rfl, List.Subset.refl _⟩
      | elapse ms => exact ⟨List.filter_subset_self _, List.prefix_rfl, List.Subset.refl _⟩
      | _ => exact ⟨List.Subset.refl _, List.prefix_rfl, List.Subset.refl _⟩
    exact relies.fewer frame.1 frame.2.1 frame.2.2

end Steps

section Runs

variable {c : Config DavState DavCall} {clock : ℕ}

theorem supported_of_run (run : Run (davSystem OrderlyLocks) ⟨.start clock, []⟩ c) :
    Supported DavHolds (fun s call => call.Relies s) c := by
  refine run_supported_others run ⟨DavHolds.start clock, fun _ member => nomatch member⟩ ?_ ?_
  · intro s call issues holds
    cases call with
    | lockReads path lockScope rest found =>
        obtain ⟨rfl, rfl⟩ := issues
        exact fun lock _ above => .inl above
    | refresh token => trivial
    | unlock davPath token => trivial
    | elapse ms => trivial
    | _ => exact absurd issues id
  · intro s others call s' next allowed atom holds relies
    obtain ⟨rfl, rfl⟩ : (call.perform s).1 = s' ∧ (call.perform s).2 = next := by
      rw [show call.perform s = (s', next) from atom]
      exact ⟨rfl, rfl⟩
    obtain ⟨holds', continues⟩ := holds.step relies allowed
    exact ⟨holds', continues, fun other member others => DavCall.perform_spares allowed member others⟩

theorem hasWritePermission_refuses {s : DavState} {path filePath : Text} {token : ℕ} {header : Option ℕ}
    (locked : (token, LockScope.exclusive) ∈ s.pathLockMap path) (above : path ∈ lockPaths filePath)
    (foreign : header ≠ some token) : hasWritePermission s filePath header = false := by
  have among : (token, LockScope.exclusive) ∈ (lockPaths filePath).flatMap s.pathLockMap :=
    List.mem_flatMap.mpr ⟨path, above, locked⟩
  unfold hasWritePermission
  dsimp only
  rw [if_neg (List.ne_nil_of_mem among)]
  cases header with
  | none => rfl
  | some other =>
      have differs : token ≠ other := fun same => foreign (same ▸ rfl)
      have blocked : (((lockPaths filePath).flatMap s.pathLockMap).all fun lock =>
          decide (lock.1 = other) || decide (lock.2 ≠ .exclusive)) = false := by
        rw [List.all_eq_false]
        exact ⟨_, among, by simp [differs]⟩
      dsimp only
      cases s.getToken other with
      | none => rfl
      | some myLock =>
          dsimp only
          rw [blocked, Bool.and_false]

/-- In every orderly run, a held exclusive lock has no other held lock on its path, above it or below it; its
    entry stands in the map of its path, so that no other token may write there or below. -/
theorem exclusive_lock_excludes (run : Run (davSystem OrderlyLocks) ⟨.start clock, []⟩ c) {lock : DavLock}
    (held : lock ∈ c.shared.held) (exclusive : lock.lockScope = .exclusive) :
    (∀ other ∈ c.shared.held, other.token ≠ lock.token → ¬ Related lock.path other.path) ∧
      (lock.token, .exclusive) ∈ c.shared.pathLockMap lock.path ∧
      ∀ filePath header, lock.path ∈ lockPaths filePath → header ≠ some lock.token →
        hasWritePermission c.shared filePath header = false := by
  have holds := (supported_of_run run).holds
  have inMap : (lock.token, LockScope.exclusive) ∈ c.shared.pathLockMap lock.path :=
    exclusive ▸ holds.covers lock.path lock held rfl
  refine ⟨fun other member differs related => ?_, inMap, fun filePath header above foreign =>
    hasWritePermission_refuses inMap above foreign⟩
  have compatible := (holds.apart lock held other member (Ne.symm differs) related).1
  rw [exclusive] at compatible
  cases compatible

end Runs

def lockRequest (path : Text) (lockScope : LockScope) : DavCall :=
  .lockReads path lockScope (lockPaths path) []

def DavCall.performAll : ℕ → DavState → DavCall → DavState × Option DavCall
  | 0, s, call => (s, some call)
  | commands + 1, s, call =>
      match call.perform s with
      | (s', none) => (s', none)
      | (s', some next) => performAll commands s' next

theorem run_performAll {allow : DavState → List DavCall → DavCall → Prop} {commands : ℕ} {s : DavState}
    {call : DavCall}
    (allowed : ∀ n < commands, ∀ s' next, call.performAll n s = (s', some next) → allow s' [] next) :
    Run (davSystem allow) ⟨s, [call]⟩
      ⟨(call.performAll commands s).1, (call.performAll commands s).2.toList⟩ := by
  induction commands generalizing s call with
  | zero => exact .refl
  | succ commands ih =>
      obtain ⟨s', next, performed⟩ : ∃ s' next, call.perform s = (s', next) := ⟨_, _, rfl⟩
      have step : Step (davSystem allow) ⟨s, [call]⟩ ⟨s', next.toList⟩ :=
        Step.alone (allowed 0 (Nat.succ_pos _) s call rfl) performed
      cases next with
      | none =>
          simp only [DavCall.performAll, performed]
          exact .single step
      | some next =>
          simp only [DavCall.performAll, performed]
          refine .head step (ih fun n less s'' later ran => ?_)
          refine allowed (n + 1) (Nat.succ_lt_succ less) s'' later ?_
          simp only [DavCall.performAll, performed, ran]

theorem run_request {allow : DavState → List DavCall → DavCall → Prop} {commands : ℕ} {s : DavState}
    {call : DavCall} (issues : (davSystem allow).issues call)
    (allowed : ∀ n < commands, ∀ s' next, call.performAll n s = (s', some next) → allow s' [] next)
    (ended : (call.performAll commands s).2 = none) :
    Run (davSystem allow) ⟨s, []⟩ ⟨(call.performAll commands s).1, []⟩ := by
  have alone := run_performAll allowed
  rw [ended] at alone
  have issued : Step (davSystem allow) ⟨s, []⟩ ⟨s, [call]⟩ := .issue issues
  exact .head issued alone

theorem orderly_alone {s : DavState} (noneHeld : s.held = []) (call : DavCall) : OrderlyLocks s [] call := by
  have vacuous : ∀ {motive : DavLock → Prop}, ∀ lock ∈ s.held, motive lock := fun lock member => by
    rw [noneHeld] at member
    cases member
  cases call with
  | lockSetsToken path lockScope => exact vacuous
  | lockSetsMap path lockScope token existing => exact fun _ member => nomatch member
  | elapse ms => exact vacuous
  | _ => trivial

theorem lockRequest_held : ∃ s : DavState, Run (davSystem OrderlyLocks) ⟨.start 0, []⟩ ⟨s, []⟩ ∧
    ⟨0, ['/', 'a'], .exclusive⟩ ∈ s.held := by
  have noneHeld : ∀ n < 5, (DavCall.performAll n (.start 0) (lockRequest ['/', 'a'] .exclusive)).1.held = [] := by
    decide +kernel
  refine ⟨(DavCall.performAll 5 (.start 0) (lockRequest ['/', 'a'] .exclusive)).1, ?_, by decide +kernel⟩
  refine run_request ⟨rfl, rfl⟩ (fun n less s' next ran => ?_) (by decide +kernel)
  exact orderly_alone (congrArg (·.1.held) ran ▸ noneHeld n less) next

/-- A folder that is locked may not be written below without the token. -/
theorem exclusive_lock_refuses : ∃ s : DavState, Run (davSystem OrderlyLocks) ⟨.start 0, []⟩ ⟨s, []⟩ ∧
    ⟨0, ['/', 'a'], .exclusive⟩ ∈ s.held ∧ hasWritePermission s ['/', 'a', '/', 'b'] none = false := by
  obtain ⟨s, run, held⟩ := lockRequest_held
  have below : ['/', 'a'] ∈ lockPaths ['/', 'a', '/', 'b'] := by decide +kernel
  exact ⟨s, run, held, (exclusive_lock_excludes run held rfl).2.2 _ none below (Option.some_ne_none _).symm⟩

/-- A file is locked, and then the folder above it: both locks are exclusive, and both are held. -/
theorem exclusive_locks_overlap :
    ∃ s : DavState, Run (davSystem fun _ _ _ => True) ⟨.start 0, []⟩ ⟨s, []⟩ ∧
      ∃ lock ∈ s.held, ∃ other ∈ s.held, lock.lockScope = .exclusive ∧ other.lockScope = .exclusive ∧
        lock.token ≠ other.token ∧ Related lock.path other.path := by
  have locksFile := @run_request (fun _ _ _ => True) 6 (.start 0) (lockRequest ['/', 'a', '/', 'b'] .exclusive)
    ⟨rfl, rfl⟩ (fun _ _ _ _ _ => trivial) (by decide +kernel)
  have locksFolder := @run_request (fun _ _ _ => True) 5
    (DavCall.performAll 6 (.start 0) (lockRequest ['/', 'a', '/', 'b'] .exclusive)).1
    (lockRequest ['/', 'a'] .exclusive) ⟨rfl, rfl⟩ (fun _ _ _ _ _ => trivial) (by decide +kernel)
  exact ⟨_, locksFile.trans locksFolder, ⟨1, ['/', 'a'], .exclusive⟩, by decide +kernel,
    ⟨0, ['/', 'a', '/', 'b'], .exclusive⟩, by decide +kernel, rfl, rfl, by decide, by decide +kernel⟩

end Puter

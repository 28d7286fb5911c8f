/-
Module: Puter.Dav.WriteGate
Purpose: When the WebDAV write gate answers for the locks that are live. `createLock`, `refreshLock` and `deleteLock`
of
  controllers/webdav/locks.ts run one after another, and beside the two key families stands which locks were granted
  and
  until when. The map of a path outlives a token that another lock of the path does not let lapse, and the path of the
  header's token is tested as a text.
Trusted boundary: none
Main exports: GrantedLock, write_gate_matches
-/
import Puter.Dav.ExclusiveLocks
import Puter.Fs.NormalPath

namespace Puter

open PosixPath

/-- `createLock`, alone. -/
def DavState.createLock (s : DavState) (path : Text) (lockScope : LockScope) : DavState :=
  (DavCall.performAll 3 s (.lockSetsToken path lockScope)).1

/-- `refreshLock`, alone. -/
def DavState.refreshLock (s : DavState) (token : ℕ) : DavState := (DavCall.performAll 4 s (.refreshReads token)).1

/-- `deleteLock`, alone. -/
def DavState.deleteLock (s : DavState) (token : ℕ) : DavState := (DavCall.performAll 4 s (.unlockReads token)).1

def DavState.later (s : DavState) (ms : ℕ) : DavState := (DavCall.perform s (.elapse ms)).1

/-- A lock that was granted and not deleted, with the end of the time to live since its creation or last refresh. -/
structure GrantedLock where
  token : ℕ
  path : Text
  lockScope : LockScope
  deadline : ℕ
deriving DecidableEq

/-- The store, and the locks that were granted. -/
structure GateState where
  store : DavState
  granted : List GrantedLock

def GateState.start (clock : ℕ) : GateState := ⟨.start clock, []⟩

def GateState.live (g : GateState) : List GrantedLock := g.granted.filter fun lock => g.store.clock < lock.deadline

/-- A call of the lock store, or time that passes. -/
inductive LockCall where
  | create (path : Text) (lockScope : LockScope)
  | refresh (token : ℕ)
  | delete (token : ℕ)
  | elapse (ms : ℕ)

def LockCall.perform (g : GateState) : LockCall → GateState
  | .create path lockScope =>
      ⟨g.store.createLock path lockScope,
        ⟨g.store.minted.length, path, lockScope, g.store.clock + davLockTtl⟩ :: g.granted⟩
  | .refresh token =>
      ⟨g.store.refreshLock token, g.granted.map fun lock =>
        if lock.token = token ∧ g.store.clock < lock.deadline then
          { lock with deadline := g.store.clock + davLockTtl }
        else lock⟩
  | .delete token => ⟨g.store.deleteLock token, g.granted.filter fun lock => lock.token ≠ token⟩
  | .elapse ms => ⟨g.store.later ms, g.granted⟩

def MapsCurrent (s : DavState) : Prop :=
  ∀ path, s.pathLockMap path ≠ [] → (∃ entry ∈ s.pathLockMap path, (s.getToken entry.1).isSome) ∧
    ∀ entry ∈ s.pathLockMap path, entry.2 = .exclusive → (s.getToken entry.1).isSome

/-- Time passes only so far that no map outlives all its tokens or one of its exclusive tokens, and a lock is deleted
    only where its map lists nothing else or another token that stands. -/
def LockCall.Timely (g : GateState) : LockCall → Prop
  | .elapse ms => MapsCurrent (g.store.later ms)
  | .delete token => ∀ info, g.store.getToken token = some info →
      (∃ entry ∈ g.store.pathLockMap info.path, entry.1 ≠ token) →
        ∃ entry ∈ g.store.pathLockMap info.path, entry.1 ≠ token ∧ (g.store.getToken entry.1).isSome
  | _ => True

/-- Calls one after another, each of them timely. -/
inductive GateRun (clock : ℕ) : GateState → Prop where
  | start : GateRun clock (.start clock)
  | step {g : GateState} (call : LockCall) (before : GateRun clock g) (timely : call.Timely g) :
      GateRun clock (call.perform g)

def LiesAbove (path filePath : Text) : Prop := path = filePath ∨ path = ['/'] ∨ path ≠ [] ∧ path ++ ['/'] <+: filePath

instance (path filePath : Text) : Decidable (LiesAbove path filePath) := inferInstanceAs (Decidable (_ ∨ _ ∨ _ ∧ _))

def NormalFile (filePath : Text) : Prop :=
  filePath = ['/'] ∨ ∃ names, names ≠ [] ∧ (∀ name ∈ names, Segment name) ∧ filePath = pathOf names

/-- No live lock sits on the path or above it, or the header's token is such a lock and all others there are
    shared. -/
def WriteAllowed (g : GateState) (filePath : Text) (header : Option ℕ) : Prop :=
  (∀ lock ∈ g.live, ¬ LiesAbove lock.path filePath) ∨
    ∃ lock ∈ g.live, header = some lock.token ∧ LiesAbove lock.path filePath ∧
      ∀ other ∈ g.live, LiesAbove other.path filePath → other.token ≠ lock.token → other.lockScope = .shared

instance (g : GateState) (filePath : Text) (header : Option ℕ) : Decidable (WriteAllowed g filePath header) :=
  inferInstanceAs (Decidable (_ ∨ _))

/-- The header's token is a live lock elsewhere, on a path that is a text in front of this one, and the locks on this
    one or above it are shared. -/
def Astray (g : GateState) (filePath : Text) (header : Option ℕ) : Prop :=
  ∃ lock ∈ g.live, header = some lock.token ∧ lock.path <+: filePath ∧ ¬ LiesAbove lock.path filePath ∧
    (∃ other ∈ g.live, LiesAbove other.path filePath) ∧
      ∀ other ∈ g.live, LiesAbove other.path filePath → other.lockScope = .shared

instance (g : GateState) (filePath : Text) (header : Option ℕ) : Decidable (Astray g filePath header) :=
  inferInstanceAs (Decidable (∃ lock ∈ g.live, _))

section Paths

variable {names front : List Text} {path filePath : Text}

theorem lockPathsFrom_root (fuel : ℕ) : lockPathsFrom fuel ['/'] = [['/']] := by
  cases fuel with
  | zero => rfl
  | succ fuel => simp [lockPathsFrom]

theorem pathOf_ne_root (nonempty : names ≠ []) (segments : ∀ name ∈ names, Segment name) : pathOf names ≠ ['/'] := by
  intro root
  cases names with
  | nil => exact nonempty rfl
  | cons name names =>
      have first := (segments name List.mem_cons_self).nonempty
      simp [pathOf] at root
      exact first root.1

theorem mem_lockPathsFrom {fuel : ℕ} (nonempty : names ≠ []) (segments : ∀ name ∈ names, Segment name)
    (enough : names.length ≤ fuel) :
    path ∈ lockPathsFrom fuel (pathOf names) ↔
        path = ['/'] ∨ ∃ front, front ≠ [] ∧ front <+: names ∧ path = pathOf front := by
  induction fuel generalizing names with
  | zero => exact absurd (List.eq_nil_of_length_eq_zero (Nat.le_zero.mp enough)) nonempty
  | succ fuel ih =>
      rw [lockPathsFrom, if_neg (pathOf_ne_root nonempty segments), List.mem_cons]
      rcases List.eq_nil_or_concat names with rfl | ⟨above, name, rfl⟩
      · exact absurd rfl nonempty
      rw [List.concat_eq_append] at *
      have aboveSegments : ∀ segment ∈ above, Segment segment :=
        fun segment member => segments segment (List.mem_append_left _ member)
      have last : Segment name := segments name (by simp)
      have parent : dirname (pathOf (above ++ [name])) = if above = [] then ['/'] else pathOf above := by
        rw [pathOf_concat]
        exact dirname_under aboveSegments last
      rw [parent]
      by_cases top : above = []
      · rw [if_pos top, lockPathsFrom_root, List.mem_singleton, top]
        constructor
        · rintro (here | root)
          · exact .inr ⟨[name], List.cons_ne_nil _ _, List.prefix_refl _, here⟩
          · exact .inl root
        · rintro (root | ⟨front, some_name, before, rfl⟩)
          · exact .inr root
          · left
            cases front with
            | nil => exact absurd rfl some_name
            | cons first front =>
                rcases List.cons_prefix_cons.mp before with ⟨rfl, rest⟩
                rw [List.prefix_nil.mp rest]
                rfl
      · have short : above.length ≤ fuel := by
          rw [List.length_append] at enough
          exact Nat.le_of_succ_le_succ enough
        rw [if_neg top, ih top aboveSegments short]
        constructor
        · rintro (here | root | ⟨front, some_name, before, same⟩)
          · exact .inr ⟨above ++ [name], nonempty, List.prefix_refl _, here⟩
          · exact .inl root
          · exact .inr ⟨front, some_name, before.trans (List.prefix_append _ _), same⟩
        · rintro (root | ⟨front, some_name, before, same⟩)
          · exact .inr (.inl root)
          · cases List.prefix_concat_iff.mp before with
            | inl whole =>
                left
                rw [same, whole]
            | inr within => exact .inr (.inr ⟨front, some_name, within, same⟩)

theorem length_le_pathOf : names.length ≤ (pathOf names).length := by
  induction names with
  | nil => exact Nat.zero_le _
  | cons name names ih =>
      have step : pathOf (name :: names) = '/' :: name ++ pathOf names := by simp [pathOf]
      rw [step, List.length_append, List.length_cons, List.length_cons]
      omega

theorem front_of_slash (noSlash : ∀ name ∈ names, '/' ∉ name) (nonempty : names ≠ []) (some_text : path ≠ [])
    (slash : path ++ ['/'] <+: pathOf names) : ∃ front, front ≠ [] ∧ front <+: names ∧ path = pathOf front := by
  rcases slash with ⟨rest, whole⟩
  rw [List.append_assoc, List.singleton_append] at whole
  have split := congrArg (List.splitOn '/') whole
  rw [List.splitOn_append_cons_self, splitOn_pathOf nonempty noSlash] at split
  rcases List.exists_cons_of_ne_nil (List.splitOn_ne_nil '/' path) with ⟨first, front, pathSplit⟩
  rw [pathSplit, List.cons_append, List.cons.injEq] at split
  have spelled : ['/'].intercalate (first :: front) = path := by
    rw [← pathSplit]
    exact List.intercalate_splitOn '/'
  rw [split.1] at spelled
  have some_name : front ≠ [] := by
    rintro rfl
    exact some_text spelled.symm
  exact ⟨front, some_name, ⟨_, split.2⟩, by rw [← spelled, (intercalate_nil_cons front some_name).1]⟩

theorem covers_front (some_name : front ≠ []) (before : front <+: names) :
    LiesAbove (pathOf front) (pathOf names) := by
  rcases before with ⟨rest, rfl⟩
  cases rest with
  | nil =>
      left
      rw [List.append_nil]
  | cons name rest =>
      right
      right
      constructor
      · cases front with
        | nil => exact absurd rfl some_name
        | cons first front => simp [pathOf]
      · exact ⟨name ++ pathOf rest, by simp [pathOf]⟩

theorem mem_lockPaths_iff (normal : NormalFile filePath) : path ∈ lockPaths filePath ↔ LiesAbove path filePath := by
  rcases normal with rfl | ⟨names, nonempty, segments, rfl⟩
  · rw [lockPaths, lockPathsFrom_root, List.mem_singleton, LiesAbove]
    constructor
    · exact .inl
    · rintro (same | root | ⟨some_text, slash⟩)
      · exact same
      · exact root
      · have short := slash.length_le
        rw [List.length_append] at short
        exact absurd (List.eq_nil_of_length_eq_zero (Nat.le_zero.mp (Nat.le_of_succ_le_succ short))) some_text
  · rw [lockPaths, mem_lockPathsFrom nonempty segments length_le_pathOf]
    constructor
    · rintro (root | ⟨front, some_name, before, rfl⟩)
      · exact .inr (.inl root)
      · exact covers_front some_name before
    · rintro (rfl | root | ⟨some_text, slash⟩)
      · exact .inr ⟨names, nonempty, List.prefix_refl _, rfl⟩
      · exact .inl root
      · exact .inr (front_of_slash (fun name member => (segments name member).noSlash) nonempty some_text slash)

theorem LiesAbove.isPrefix (normal : NormalFile filePath) (covers : LiesAbove path filePath) : path <+: filePath := by
  rcases covers with rfl | rfl | ⟨-, slash⟩
  · exact List.prefix_refl _
  · rcases normal with rfl | ⟨names, nonempty, -, rfl⟩
    · exact List.prefix_refl _
    · cases names with
      | nil => exact absurd rfl nonempty
      | cons name names => simp [pathOf]
  · exact (List.prefix_append _ _).trans slash

end Paths

section Commands

variable {s : DavState} {token : ℕ} {info : LockMeta}

theorem createLock_fields (path : Text) (lockScope : LockScope) :
    (s.createLock path lockScope).clock = s.clock ∧
      (s.createLock path lockScope).minted = s.minted ++ [⟨path, lockScope⟩] ∧
      (s.createLock path lockScope).tokens =
        s.tokens.put s.minted.length ⟨path, lockScope⟩ (s.clock + davLockTtl) ∧
      (s.createLock path lockScope).maps =
        s.maps.put path (s.pathLockMap path ++ [(s.minted.length, lockScope)]) (s.clock + davLockTtl) :=
  ⟨rfl, rfl, rfl, rfl⟩

theorem refreshLock_absent (absent : s.getToken token = none) : s.refreshLock token = s := by
  rw [DavState.refreshLock, DavCall.performAll, DavCall.perform, absent]
  rfl

theorem refreshLock_fields (stands : s.getToken token = some info) :
    (s.refreshLock token).clock = s.clock ∧ (s.refreshLock token).minted = s.minted ∧
      (s.refreshLock token).tokens = s.tokens.put token info (s.clock + davLockTtl) ∧
      (s.refreshLock token).maps = match s.maps.get s.clock info.path with
        | some pathMap => s.maps.put info.path pathMap (s.clock + davLockTtl)
        | none => s.maps := by
  rw [DavState.refreshLock, DavCall.performAll, DavCall.perform, stands]
  cases found : s.maps.get s.clock info.path with
  | none => simp [DavCall.performAll, DavCall.perform, found]
  | some pathMap => simp [DavCall.performAll, DavCall.perform, found]

theorem deleteLock_absent (absent : s.getToken token = none) :
    (s.deleteLock token).clock = s.clock ∧ (s.deleteLock token).minted = s.minted ∧
      (s.deleteLock token).tokens = s.tokens.erase token ∧ (s.deleteLock token).maps = s.maps := by
  rw [DavState.deleteLock, DavCall.performAll, DavCall.perform, absent]
  simp [DavCall.performAll, DavCall.perform]

def DavState.others (s : DavState) (path : Text) (token : ℕ) : LockMap :=
  (s.pathLockMap path).filter (·.1 ≠ token)

theorem deleteLock_fields (stands : s.getToken token = some info) :
    (s.deleteLock token).clock = s.clock ∧ (s.deleteLock token).minted = s.minted ∧
      (s.deleteLock token).tokens = s.tokens.erase token ∧
      (s.deleteLock token).maps = if s.others info.path token = [] then s.maps.erase info.path
        else s.maps.put info.path (s.others info.path token) (s.clock + davLockTtl) := by
  rw [DavState.deleteLock, DavCall.performAll, DavCall.perform, stands]
  exact ⟨rfl, rfl, rfl, rfl⟩

end Commands

/-- What the keys say of the locks that were granted. -/
structure GateHolds (g : GateState) : Prop where
  stored : ∀ lock ∈ g.granted, g.store.tokens.cell lock.token = some (⟨lock.path, lock.lockScope⟩, lock.deadline)
  granted : ∀ token info deadline, g.store.tokens.cell token = some (info, deadline) →
    ⟨token, info.path, info.lockScope, deadline⟩ ∈ g.granted
  drawn : ∀ lock ∈ g.granted, lock.token < g.store.minted.length
  listed : ∀ lock ∈ g.granted, g.store.clock < lock.deadline → ∃ pathMap expiry,
    g.store.maps.cell lock.path = some (pathMap, expiry) ∧ (lock.token, lock.lockScope) ∈ pathMap ∧
      lock.deadline ≤ expiry
  bounded : ∀ lock ∈ g.granted, lock.deadline ≤ g.store.clock + davLockTtl
  own : ∀ path, ∀ entry ∈ g.store.pathLockMap path, entry.1 < g.store.minted.length ∧
    ∀ lock ∈ g.granted, lock.token = entry.1 → lock.path = path ∧ lock.lockScope = entry.2
  current : MapsCurrent g.store

namespace GateHolds

variable {g : GateState} {path : Text} {lockScope : LockScope} {token : ℕ}

theorem start (clock : ℕ) : GateHolds (.start clock) where
  stored _ none := by cases none
  granted _ _ _ none := by cases none
  drawn _ none := by cases none
  listed _ none := by cases none
  bounded _ none := by cases none
  own _ _ none := by cases none
  current _ some_entry := absurd rfl some_entry

theorem getToken_iff (holds : GateHolds g) {info : LockMeta} : g.store.getToken token = some info ↔
    ∃ lock ∈ g.live, lock.token = token ∧ lock.path = info.path ∧ lock.lockScope = info.lockScope := by
  rw [DavState.getToken, ExpiringKeys.get_eq_some_iff]
  constructor
  · rintro ⟨deadline, cell, stands⟩
    exact ⟨_, List.mem_filter.mpr ⟨holds.granted token info deadline cell, decide_eq_true stands⟩, rfl, rfl, rfl⟩
  · rintro ⟨lock, member, rfl, samePath, sameScope⟩
    rcases List.mem_filter.mp member with ⟨isGranted, stands⟩
    refine ⟨lock.deadline, ?_, of_decide_eq_true stands⟩
    rw [holds.stored lock isGranted, samePath, sameScope]

theorem isSome_getToken (holds : GateHolds g) {lock : GrantedLock} (member : lock ∈ g.live) :
    (g.store.getToken lock.token).isSome := by
  have found : g.store.getToken lock.token = some ⟨lock.path, lock.lockScope⟩ :=
    holds.getToken_iff.mpr ⟨lock, member, rfl, rfl, rfl⟩
  rw [found]
  rfl

theorem mem_pathLockMap (holds : GateHolds g) {lock : GrantedLock} (member : lock ∈ g.live) :
    (lock.token, lock.lockScope) ∈ g.store.pathLockMap lock.path := by
  rcases List.mem_filter.mp member with ⟨isGranted, stands⟩
  rcases holds.listed lock isGranted (of_decide_eq_true stands) with ⟨pathMap, expiry, cell, isListed, within⟩
  have found : g.store.maps.get g.store.clock lock.path = some pathMap :=
    ExpiringKeys.get_eq_some_iff.mpr ⟨expiry, cell, (of_decide_eq_true stands).trans_le within⟩
  rw [DavState.pathLockMap, found]
  exact isListed

theorem live_of_listed (holds : GateHolds g) {entry : ℕ × LockScope} (isListed : entry ∈ g.store.pathLockMap path)
    (stands : (g.store.getToken entry.1).isSome) :
    ∃ lock ∈ g.live, lock.token = entry.1 ∧ lock.path = path ∧ lock.lockScope = entry.2 := by
  rcases Option.isSome_iff_exists.mp stands with ⟨info, found⟩
  rcases holds.getToken_iff.mp found with ⟨lock, member, same, -, -⟩
  exact ⟨lock, member, same, (holds.own path entry isListed).2 lock (List.mem_filter.mp member).1 same⟩

theorem elapse (holds : GateHolds g) (ms : ℕ) (current : MapsCurrent (g.store.later ms)) :
    GateHolds (LockCall.perform g (.elapse ms)) where
  stored := holds.stored
  granted := holds.granted
  drawn := holds.drawn
  listed lock member stands := holds.listed lock member ((Nat.le_add_right _ ms).trans_lt stands)
  bounded lock member :=
    (holds.bounded lock member).trans (Nat.add_le_add_right (Nat.le_add_right g.store.clock ms) _)
  own path entry isListed := by
    apply holds.own path entry
    rw [DavState.pathLockMap] at isListed ⊢
    cases found : (g.store.later ms).maps.get (g.store.later ms).clock path with
    | none =>
        have isListed' : entry ∈ ((g.store.later ms).maps.get (g.store.later ms).clock path).getD [] := isListed
        rw [found] at isListed'
        cases isListed'
    | some pathMap =>
        have before : g.store.maps.get g.store.clock path = some pathMap :=
          ExpiringKeys.get_later (Nat.le_add_right _ ms) found
        have isListed' : entry ∈ ((g.store.later ms).maps.get (g.store.later ms).clock path).getD [] := isListed
        rw [found] at isListed'
        rw [before]
        exact isListed'
  current := current

section Put

variable {s s' : DavState} {other : Text} {info : LockMeta} {pathMap : LockMap}

theorem live_ttl (now : ℕ) : now < now + davLockTtl := Nat.lt_add_of_pos_right (by decide)

theorem pathLockMap_put (clock : s'.clock = s.clock)
    (maps : s'.maps = s.maps.put path pathMap (s.clock + davLockTtl)) :
    s'.pathLockMap other = if other = path then pathMap else s.pathLockMap other := by
  rw [DavState.pathLockMap, maps, clock, ExpiringKeys.get_put, if_pos (live_ttl _)]
  split
  · rfl
  · rfl

theorem getToken_put {t : ℕ} (clock : s'.clock = s.clock)
    (tokens : s'.tokens = s.tokens.put token info (s.clock + davLockTtl)) :
    s'.getToken t = if t = token then some info else s.getToken t := by
  rw [DavState.getToken, tokens, clock, ExpiringKeys.get_put, if_pos (live_ttl _)]
  rfl

theorem isSome_getToken_put {t : ℕ} (clock : s'.clock = s.clock)
    (tokens : s'.tokens = s.tokens.put token info (s.clock + davLockTtl)) (stands : (s.getToken t).isSome) :
    (s'.getToken t).isSome := by
  rw [getToken_put clock tokens]
  split
  · rfl
  · exact stands

theorem isSome_getToken_erase {t : ℕ} (clock : s'.clock = s.clock) (tokens : s'.tokens = s.tokens.erase token)
    (stands : (s.getToken t).isSome) (apart : t ≠ token) : (s'.getToken t).isSome := by
  rw [DavState.getToken, tokens, clock, ExpiringKeys.get_erase, if_neg apart]
  exact stands

end Put

theorem path_eq (holds : GateHolds g) {one other : GrantedLock} (here : one ∈ g.live) (there : other ∈ g.live)
    (same : one.token = other.token) : one.path = other.path := by
  have cells := holds.stored one (List.mem_filter.mp here).1
  rw [same, holds.stored other (List.mem_filter.mp there).1] at cells
  exact (congrArg (·.path) (Prod.mk.inj (Option.some.inj cells)).1).symm

theorem create (holds : GateHolds g) : GateHolds (LockCall.perform g (.create path lockScope)) := by
  rcases createLock_fields (s := g.store) path lockScope with ⟨clock, minted, tokens, maps⟩
  have fresh : ∀ lock ∈ g.granted, lock.token ≠ g.store.minted.length :=
    fun lock member => Nat.ne_of_lt (holds.drawn lock member)
  have longer : (g.store.createLock path lockScope).minted.length = g.store.minted.length + 1 := by
    rw [minted, List.length_append]
    rfl
  have cells : ∀ token, (g.store.createLock path lockScope).tokens.cell token =
      if token = g.store.minted.length then some (⟨path, lockScope⟩, g.store.clock + davLockTtl)
      else g.store.tokens.cell token := by
    intro token
    rw [tokens, ExpiringKeys.cell_put]
  constructor
  case stored =>
    intro lock member
    cases List.mem_cons.mp member with
    | inl same => exact same ▸ (cells _).trans (if_pos rfl)
    | inr before => exact ((cells _).trans (if_neg (fresh lock before))).trans (holds.stored lock before)
  case granted =>
    intro token info deadline cell
    have cell' := (cells token).symm.trans cell
    split at cell'
    next same =>
      cases cell'
      exact same ▸ List.mem_cons_self
    · exact List.mem_cons_of_mem _ (holds.granted token info deadline cell')
  case drawn =>
    intro lock member
    have drawn : lock.token ≤ g.store.minted.length := by
      cases List.mem_cons.mp member with
      | inl same => rw [same]
      | inr before => exact (holds.drawn lock before).le
    exact (Nat.lt_succ_of_le drawn).trans_eq longer.symm
  case bounded =>
    intro lock member
    cases List.mem_cons.mp member with
    | inl same => exact same ▸ le_refl _
    | inr before => exact holds.bounded lock before
  case listed =>
    intro lock member stands
    have mapCells : (g.store.createLock path lockScope).maps.cell lock.path = if lock.path = path then
          some (g.store.pathLockMap path ++ [(g.store.minted.length, lockScope)], g.store.clock + davLockTtl)
        else g.store.maps.cell lock.path := by
      rw [maps, ExpiringKeys.cell_put]
    cases List.mem_cons.mp member with
    | inl same =>
        subst same
        exact ⟨_, _, mapCells.trans (if_pos rfl), List.mem_append_right _ (List.mem_singleton.mpr rfl), le_refl _⟩
    | inr before =>
        by_cases here : lock.path = path
        · have isLive : lock ∈ g.live := List.mem_filter.mpr ⟨before, decide_eq_true stands⟩
          have isListed := holds.mem_pathLockMap isLive
          rw [here] at isListed
          exact ⟨_, _, mapCells.trans (if_pos here), List.mem_append_left _ isListed, holds.bounded lock before⟩
        · rcases holds.listed lock before stands with ⟨pathMap, expiry, cell, isListed, within⟩
          exact ⟨pathMap, expiry, (mapCells.trans (if_neg here)).trans cell, isListed, within⟩
  case own =>
    intro other entry isListed
    have isListed' : entry ∈ if other = path then g.store.pathLockMap path ++ [(g.store.minted.length, lockScope)]
        else g.store.pathLockMap other := pathLockMap_put clock maps ▸ isListed
    have listedBefore : entry ∈ g.store.pathLockMap other ∨ other = path ∧ entry =
        (g.store.minted.length, lockScope) := by
      split at isListed'
      next here =>
        cases List.mem_append.mp isListed' with
        | inl before => exact .inl (here ▸ before)
        | inr new => exact .inr ⟨here, List.mem_singleton.mp new⟩
      · exact .inl isListed'
    cases listedBefore with
    | inl before =>
        have owned := holds.own other entry before
        refine ⟨(owned.1.trans (Nat.lt_succ_self _)).trans_eq longer.symm, fun lock member same => ?_⟩
        cases List.mem_cons.mp member with
        | inl new =>
            rw [new] at same
            exact absurd same.symm (Nat.ne_of_lt owned.1)
        | inr member => exact owned.2 lock member same
    | inr new =>
        rcases new with ⟨rfl, rfl⟩
        refine ⟨(Nat.lt_succ_self _).trans_eq longer.symm, fun lock member same => ?_⟩
        cases List.mem_cons.mp member with
        | inl new => exact new ▸ ⟨rfl, rfl⟩
        | inr before => exact absurd same (fresh lock before)
  case current =>
    intro other some_entry
    have maps' : (g.store.createLock path lockScope).pathLockMap other = if other = path then
          g.store.pathLockMap path ++ [(g.store.minted.length, lockScope)]
        else g.store.pathLockMap other := pathLockMap_put clock maps
    have stays : ∀ {t : ℕ}, (g.store.getToken t).isSome → ((g.store.createLock path lockScope).getToken t).isSome :=
      fun stands => isSome_getToken_put clock tokens stands
    have new : ((g.store.createLock path lockScope).getToken g.store.minted.length).isSome := by
      rw [getToken_put clock tokens, if_pos rfl]
      rfl
    have exclusives : ∀ {one : Text}, ∀ entry ∈ g.store.pathLockMap one, entry.2 = .exclusive →
        (g.store.getToken entry.1).isSome :=
      fun entry member => (holds.current _ (List.ne_nil_of_mem member)).2 entry member
    change (∃ entry ∈ (g.store.createLock path lockScope).pathLockMap other, _) ∧
      ∀ entry ∈ (g.store.createLock path lockScope).pathLockMap other, _
    change (g.store.createLock path lockScope).pathLockMap other ≠ [] at some_entry
    rw [maps'] at some_entry ⊢
    split
    next here =>
      refine ⟨⟨_, List.mem_append_right _ (List.mem_singleton.mpr rfl), new⟩, fun entry member exclusive => ?_⟩
      cases List.mem_append.mp member with
      | inl before => exact stays (exclusives entry before exclusive)
      | inr here => exact List.mem_singleton.mp here ▸ new
    next elsewhere =>
      rw [if_neg elsewhere] at some_entry
      rcases holds.current other some_entry with ⟨⟨entry, member, stands⟩, -⟩
      exact ⟨⟨entry, member, stays stands⟩, fun entry member exclusive => stays (exclusives entry member exclusive)⟩

def refreshed (g : GateState) (token : ℕ) (lock : GrantedLock) : GrantedLock :=
  if lock.token = token ∧ g.store.clock < lock.deadline then { lock with deadline := g.store.clock + davLockTtl }
  else lock

theorem refresh_absent (holds : GateHolds g) (absent : g.store.getToken token = none) :
    LockCall.perform g (.refresh token) = g := by
  have kept : g.granted.map (refreshed g token) = g.granted.map id := by
    apply List.map_congr_left
    intro lock member
    apply if_neg
    rintro ⟨same, stands⟩
    have isSome := holds.isSome_getToken (List.mem_filter.mpr ⟨member, decide_eq_true stands⟩)
    rw [same, absent] at isSome
    cases isSome
  have granted : (LockCall.perform g (.refresh token)).granted = g.granted := kept.trans (List.map_id _)
  have store : (LockCall.perform g (.refresh token)).store = g.store := refreshLock_absent absent
  cases g
  exact congr (congrArg GateState.mk store) granted

theorem refresh_stands (holds : GateHolds g) {info : LockMeta} (stands : g.store.getToken token = some info) :
    GateHolds (LockCall.perform g (.refresh token)) := by
  rcases holds.getToken_iff.mp stands with ⟨mine, isLive, rfl, samePath, sameScope⟩
  rcases List.mem_filter.mp isLive with ⟨isGranted, running⟩
  rcases refreshLock_fields stands with ⟨clock, minted, tokens, found⟩
  have infoEq : info = ⟨mine.path, mine.lockScope⟩ := by
    rw [samePath, sameScope]
  subst infoEq
  -- The map of a live lock stands, so it is set again.
  have maps : (g.store.refreshLock mine.token).maps =
      g.store.maps.put mine.path (g.store.pathLockMap mine.path) (g.store.clock + davLockTtl) := by
    have isListed := holds.mem_pathLockMap isLive
    rw [found]
    rw [DavState.pathLockMap] at isListed ⊢
    cases kept : g.store.maps.get g.store.clock mine.path with
    | none =>
        rw [kept] at isListed
        cases isListed
    | some pathMap => rfl
  have sameMaps : ∀ other, (g.store.refreshLock mine.token).pathLockMap other = g.store.pathLockMap other := by
    intro other
    rw [pathLockMap_put clock maps]
    split
    next here => rw [here]
    · rfl
  have cells : ∀ token, (g.store.refreshLock mine.token).tokens.cell token =
      if token = mine.token then some (⟨mine.path, mine.lockScope⟩, g.store.clock + davLockTtl)
      else g.store.tokens.cell token := by
    intro token
    rw [tokens, ExpiringKeys.cell_put]
  have mineRefreshed : refreshed g mine.token mine = { mine with deadline := g.store.clock + davLockTtl } :=
    if_pos ⟨rfl, of_decide_eq_true running⟩
  have othersKept : ∀ lock, lock.token ≠ mine.token → refreshed g mine.token lock = lock :=
    fun lock apart => if_neg fun both => apart both.1
  have alone : ∀ lock ∈ g.granted, lock.token = mine.token → lock = mine := by
    intro lock member same
    have cell := holds.stored lock member
    rw [same, holds.stored mine isGranted] at cell
    cases lock
    cases mine
    simp_all
  have split_granted : ∀ lock ∈ (LockCall.perform g (.refresh mine.token)).granted,
      lock = { mine with deadline := g.store.clock + davLockTtl } ∨ lock ∈ g.granted ∧ lock.token ≠ mine.token := by
    intro lock member
    rcases List.mem_map.mp member with ⟨before, there, becomes⟩
    by_cases same : before.token = mine.token
    · rw [alone before there same] at becomes
      exact .inl (becomes.symm.trans mineRefreshed)
    · have kept := othersKept before same
      exact .inr (becomes.symm.trans kept ▸ ⟨there, same⟩)
  constructor
  case stored =>
    intro lock member
    rcases split_granted lock member with rfl | ⟨before, apart⟩
    · exact (cells _).trans (if_pos rfl)
    · exact ((cells _).trans (if_neg apart)).trans (holds.stored lock before)
  case granted =>
    intro token info deadline cell
    have cell' := (cells token).symm.trans cell
    split at cell'
    next same =>
      subst same
      cases cell'
      exact List.mem_map.mpr ⟨mine, isGranted, mineRefreshed⟩
    next apart =>
      exact List.mem_map.mpr ⟨_, holds.granted token info deadline cell', othersKept _ apart⟩
  case drawn =>
    intro lock member
    have before : lock.token < g.store.minted.length := by
      rcases split_granted lock member with rfl | ⟨before, -⟩
      · exact holds.drawn mine isGranted
      · exact holds.drawn lock before
    exact before.trans_eq (congrArg List.length minted).symm
  case bounded =>
    intro lock member
    have within : lock.deadline ≤ g.store.clock + davLockTtl := by
      rcases split_granted lock member with rfl | ⟨before, -⟩
      · exact le_refl _
      · exact holds.bounded lock before
    exact within.trans_eq (congrArg (· + davLockTtl) clock).symm
  case listed =>
    intro lock member running
    have mapCells : (g.store.refreshLock mine.token).maps.cell lock.path = if lock.path = mine.path then
          some (g.store.pathLockMap mine.path, g.store.clock + davLockTtl)
        else g.store.maps.cell lock.path := by
      rw [maps, ExpiringKeys.cell_put]
    rcases split_granted lock member with rfl | ⟨before, apart⟩
    · exact ⟨_, _, mapCells.trans (if_pos rfl), holds.mem_pathLockMap isLive, le_refl _⟩
    · have runningBefore : g.store.clock < lock.deadline := clock ▸ running
      by_cases here : lock.path = mine.path
      · have isListed := holds.mem_pathLockMap (List.mem_filter.mpr ⟨before, decide_eq_true runningBefore⟩)
        exact ⟨_, _, mapCells.trans (if_pos here), here ▸ isListed, holds.bounded lock before⟩
      · rcases holds.listed lock before runningBefore with ⟨pathMap, expiry, cell, isListed, within⟩
        exact ⟨pathMap, expiry, (mapCells.trans (if_neg here)).trans cell, isListed, within⟩
  case own =>
    intro other entry isListed
    have owned := holds.own other entry (sameMaps other ▸ isListed)
    refine ⟨owned.1.trans_eq (congrArg List.length minted).symm, fun lock member same => ?_⟩
    rcases split_granted lock member with rfl | ⟨before, -⟩
    · exact owned.2 mine isGranted same
    · exact owned.2 lock before same
  case current =>
    intro other some_entry
    have stays : ∀ {t : ℕ}, (g.store.getToken t).isSome → ((g.store.refreshLock mine.token).getToken t).isSome :=
      fun stands => isSome_getToken_put clock tokens stands
    change (∃ entry ∈ (g.store.refreshLock mine.token).pathLockMap other, _) ∧
      ∀ entry ∈ (g.store.refreshLock mine.token).pathLockMap other, _
    change (g.store.refreshLock mine.token).pathLockMap other ≠ [] at some_entry
    rw [sameMaps] at some_entry ⊢
    rcases holds.current other some_entry with ⟨⟨entry, member, isSome⟩, exclusives⟩
    exact ⟨⟨entry, member, stays isSome⟩, fun entry member exclusive => stays (exclusives entry member exclusive)⟩

theorem delete (holds : GateHolds g) {after : DavState} (deleted : g.store.deleteLock token = after)
    (clock : after.clock = g.store.clock) (minted : after.minted = g.store.minted)
    (tokens : after.tokens = g.store.tokens.erase token)
    (listed : ∀ lock ∈ g.live, lock.token ≠ token →
    ∃ pathMap expiry, after.maps.cell lock.path = some (pathMap, expiry) ∧
      (lock.token, lock.lockScope) ∈ pathMap ∧ lock.deadline ≤ expiry)
    (fewer : ∀ path, after.pathLockMap path ⊆ g.store.pathLockMap path) (current : MapsCurrent after) :
    GateHolds (LockCall.perform g (.delete token)) := by
  subst deleted
  have cells : ∀ other, (g.store.deleteLock token).tokens.cell other =
      if other = token then none else g.store.tokens.cell other := by
    intro other
    rw [tokens, ExpiringKeys.cell_erase]
  have kept : ∀ lock ∈ (LockCall.perform g (.delete token)).granted, lock ∈ g.granted ∧ lock.token ≠ token := by
    intro lock member
    have both := List.mem_filter.mp member
    exact ⟨both.1, of_decide_eq_true both.2⟩
  constructor
  case stored =>
    intro lock member
    rcases kept lock member with ⟨before, apart⟩
    exact ((cells _).trans (if_neg apart)).trans (holds.stored lock before)
  case granted =>
    intro other info deadline cell
    have cell' := (cells other).symm.trans cell
    split at cell'
    · cases cell'
    next apart => exact List.mem_filter.mpr ⟨holds.granted other info deadline cell', decide_eq_true apart⟩
  case drawn =>
    intro lock member
    exact (holds.drawn lock (kept lock member).1).trans_eq (congrArg List.length minted).symm
  case bounded =>
    intro lock member
    exact (holds.bounded lock (kept lock member).1).trans_eq (congrArg (· + davLockTtl) clock).symm
  case listed =>
    intro lock member running
    rcases kept lock member with ⟨before, apart⟩
    have runningBefore : g.store.clock < lock.deadline := clock ▸ running
    exact listed lock (List.mem_filter.mpr ⟨before, decide_eq_true runningBefore⟩) apart
  case own =>
    intro other entry isListed
    have owned := holds.own other entry (fewer other isListed)
    refine ⟨owned.1.trans_eq (congrArg List.length minted).symm, fun lock member same => ?_⟩
    exact owned.2 lock (kept lock member).1 same
  case current => exact current

theorem delete_absent (holds : GateHolds g) (absent : g.store.getToken token = none) :
    GateHolds (LockCall.perform g (.delete token)) := by
  rcases deleteLock_absent absent with ⟨clock, minted, tokens, maps⟩
  have sameMaps : ∀ other, (g.store.deleteLock token).pathLockMap other = g.store.pathLockMap other := by
    intro other
    rw [DavState.pathLockMap, maps, clock]
    rfl
  have stays : ∀ {t : ℕ}, (g.store.getToken t).isSome → ((g.store.deleteLock token).getToken t).isSome := by
    intro t stands
    apply isSome_getToken_erase clock tokens stands
    rintro rfl
    rw [absent] at stands
    cases stands
  apply holds.delete rfl clock minted tokens
  · intro lock member _
    rw [maps]
    rcases List.mem_filter.mp member with ⟨isGranted, running⟩
    exact holds.listed lock isGranted (of_decide_eq_true running)
  · intro other entry isListed
    exact sameMaps other ▸ isListed
  · intro other some_entry
    rw [sameMaps] at some_entry ⊢
    rcases holds.current other some_entry with ⟨⟨entry, member, isSome⟩, exclusives⟩
    exact ⟨⟨entry, member, stays isSome⟩, fun entry member exclusive => stays (exclusives entry member exclusive)⟩

theorem delete_stands (holds : GateHolds g) {info : LockMeta} (stands : g.store.getToken token = some info)
    (timely : LockCall.Timely g (.delete token)) : GateHolds (LockCall.perform g (.delete token)) := by
  rcases deleteLock_fields stands with ⟨clock, minted, tokens, maps⟩
  have newMaps : ∀ other, (g.store.deleteLock token).pathLockMap other =
      if other = info.path then g.store.others info.path token else g.store.pathLockMap other := by
    intro other
    by_cases empty : g.store.others info.path token = []
    · rw [if_pos empty] at maps
      rw [empty, DavState.pathLockMap, maps, clock, ExpiringKeys.get_erase]
      split
      · rfl
      · rfl
    · rw [if_neg empty] at maps
      exact pathLockMap_put clock maps
  have stays : ∀ {t : ℕ}, (g.store.getToken t).isSome → t ≠ token → ((g.store.deleteLock token).getToken t).isSome :=
    fun isSome apart => isSome_getToken_erase clock tokens isSome apart
  apply holds.delete rfl clock minted tokens
  · intro lock member apart
    rcases List.mem_filter.mp member with ⟨isGranted, running⟩
    by_cases here : lock.path = info.path
    · have isListed := holds.mem_pathLockMap member
      rw [here] at isListed
      have among : (lock.token, lock.lockScope) ∈ g.store.others info.path token :=
        List.mem_filter.mpr ⟨isListed, decide_eq_true apart⟩
      rw [maps, if_neg (List.ne_nil_of_mem among), ExpiringKeys.cell_put, if_pos here]
      exact ⟨_, _, rfl, among, holds.bounded lock isGranted⟩
    · have kept : (g.store.deleteLock token).maps.cell lock.path = g.store.maps.cell lock.path := by
        rw [maps]
        split
        · rw [ExpiringKeys.cell_erase, if_neg here]
        · rw [ExpiringKeys.cell_put, if_neg here]
      rw [kept]
      exact holds.listed lock isGranted (of_decide_eq_true running)
  · intro other entry isListed
    rw [newMaps] at isListed
    split at isListed
    next here => exact here ▸ (List.mem_filter.mp isListed).1
    · exact isListed
  · intro other some_entry
    rw [newMaps] at some_entry ⊢
    split
    next here =>
      rw [if_pos here] at some_entry
      rcases List.exists_mem_of_ne_nil _ some_entry with ⟨one, isOther⟩
      have apart := fun entry (member : entry ∈ g.store.others info.path token) =>
        of_decide_eq_true (List.mem_filter.mp member).2
      have isListed := (List.mem_filter.mp isOther).1
      rcases timely info stands ⟨one, isListed, apart one isOther⟩ with ⟨entry, member, differs, isSome⟩
      refine ⟨⟨entry, List.mem_filter.mpr ⟨member, decide_eq_true differs⟩, stays isSome differs⟩, ?_⟩
      intro entry member exclusive
      have exclusives := (holds.current info.path (List.ne_nil_of_mem isListed)).2
      exact stays (exclusives entry (List.mem_filter.mp member).1 exclusive) (apart entry member)
    next elsewhere =>
      rw [if_neg elsewhere] at some_entry
      -- The token is listed on its own path only.
      have apart : ∀ entry ∈ g.store.pathLockMap other, entry.1 ≠ token := by
        intro entry member same
        rcases holds.getToken_iff.mp stands with ⟨mine, isLive, isToken, samePath, -⟩
        have owned := (holds.own other entry member).2 mine (List.mem_filter.mp isLive).1 (isToken.trans same.symm)
        exact elsewhere (owned.1.symm.trans samePath)
      rcases holds.current other some_entry with ⟨⟨entry, member, isSome⟩, exclusives⟩
      exact ⟨⟨entry, member, stays isSome (apart entry member)⟩, fun entry member exclusive =>
        stays (exclusives entry member exclusive) (apart entry member)⟩

theorem step (holds : GateHolds g) {call : LockCall} (timely : call.Timely g) : GateHolds (call.perform g) := by
  cases call with
  | create path lockScope => exact holds.create
  | refresh token =>
      cases stands : g.store.getToken token with
      | none => exact (holds.refresh_absent stands).symm ▸ holds
      | some info => exact holds.refresh_stands stands
  | delete token =>
      cases stands : g.store.getToken token with
      | none => exact holds.delete_absent stands
      | some info => exact holds.delete_stands stands timely
  | elapse ms => exact holds.elapse ms timely

theorem of_run {clock : ℕ} (run : GateRun clock g) : GateHolds g := by
  induction run with
  | start => exact .start clock
  | step call _ timely ih => exact ih.step timely

end GateHolds

section Answers

variable {g : GateState} {filePath : Text} {header : Option ℕ}

def DavState.fileLocks (s : DavState) (filePath : Text) : LockMap := (lockPaths filePath).flatMap s.pathLockMap

theorem hasWritePermission_iff (s : DavState) : hasWritePermission s filePath header = true ↔
    s.fileLocks filePath = [] ∨ ∃ token info, header = some token ∧ s.getToken token = some info ∧
      info.path <+: filePath ∧ ∀ entry ∈ s.fileLocks filePath, entry.1 = token ∨ entry.2 ≠ .exclusive := by
  have locks : (lockPaths filePath).flatMap s.pathLockMap = s.fileLocks filePath := rfl
  unfold hasWritePermission
  dsimp only
  rw [locks]
  by_cases free : s.fileLocks filePath = []
  · simp [free]
  · rw [if_neg free, or_iff_right free]
    cases header with
    | none => simp
    | some token =>
        cases stands : s.getToken token with
        | none => simp [stands]
        | some info => simp [stands, List.isPrefixOf_iff_prefix]

theorem GateHolds.found (holds : GateHolds g) (normal : NormalFile filePath)
    {lock : GrantedLock} (member : lock ∈ g.live)
    (covers : LiesAbove lock.path filePath) : (lock.token, lock.lockScope) ∈ g.store.fileLocks filePath :=
  List.mem_flatMap.mpr ⟨lock.path, (mem_lockPaths_iff normal).mpr covers, holds.mem_pathLockMap member⟩

theorem GateHolds.covered (holds : GateHolds g) (normal : NormalFile filePath)
    (some_lock : g.store.fileLocks filePath ≠ []) : ∃ lock ∈ g.live, LiesAbove lock.path filePath := by
  rcases List.exists_mem_of_ne_nil _ some_lock with ⟨entry, member⟩
  rcases List.mem_flatMap.mp member with ⟨path, above, isListed⟩
  rcases (holds.current path (List.ne_nil_of_mem isListed)).1 with ⟨standing, there, stands⟩
  rcases holds.live_of_listed there stands with ⟨lock, isLive, -, rfl, -⟩
  exact ⟨lock, isLive, (mem_lockPaths_iff normal).mp above⟩

theorem GateHolds.exclusive (holds : GateHolds g) (normal : NormalFile filePath) {entry : ℕ × LockScope}
    (member : entry ∈ g.store.fileLocks filePath) (isExclusive : entry.2 = .exclusive) :
    ∃ lock ∈ g.live, lock.token = entry.1 ∧ LiesAbove lock.path filePath ∧ lock.lockScope = .exclusive := by
  rcases List.mem_flatMap.mp member with ⟨path, above, isListed⟩
  have stands := (holds.current path (List.ne_nil_of_mem isListed)).2 entry isListed isExclusive
  rcases holds.live_of_listed isListed stands with ⟨lock, isLive, same, rfl, sameScope⟩
  exact ⟨lock, isLive, same, (mem_lockPaths_iff normal).mp above, sameScope.trans isExclusive⟩

theorem GateHolds.hasWritePermission_iff (holds : GateHolds g) (normal : NormalFile filePath) :
    hasWritePermission g.store filePath header = true ↔ (∀ lock ∈ g.live, ¬ LiesAbove lock.path filePath) ∨
      ∃ lock ∈ g.live, header = some lock.token ∧ lock.path <+: filePath ∧
        ∀ other ∈ g.live, LiesAbove other.path filePath → other.token ≠ lock.token → other.lockScope = .shared := by
  rw [Puter.hasWritePermission_iff]
  constructor
  · rintro (free | ⟨token, info, rfl, stands, before, others⟩)
    · left
      intro lock member covers
      have found := holds.found normal member covers
      rw [free] at found
      cases found
    · right
      rcases holds.getToken_iff.mp stands with ⟨lock, member, rfl, samePath, -⟩
      refine ⟨lock, member, rfl, samePath ▸ before, fun other otherLive covers apart => ?_⟩
      have notExclusive := (others _ (holds.found normal otherLive covers)).resolve_left apart
      cases scope : other.lockScope with
      | shared => rfl
      | exclusive => exact absurd scope notExclusive
  · rintro (free | ⟨lock, member, rfl, before, others⟩)
    · left
      by_contra some_lock
      rcases holds.covered normal some_lock with ⟨lock, member, covers⟩
      exact free lock member covers
    · right
      refine ⟨lock.token, ⟨lock.path, lock.lockScope⟩, rfl, ?_, before, fun entry found => ?_⟩
      · exact holds.getToken_iff.mpr ⟨lock, member, rfl, rfl, rfl⟩
      · rw [or_iff_not_imp_left]
        intro apart isExclusive
        rcases holds.exclusive normal found isExclusive with ⟨other, otherLive, same, covers, scope⟩
        have shared := others other otherLive covers (same ▸ apart)
        cases scope.symm.trans shared

/-- In every run of calls in which no map outlives what it lists, the gate answers for the live locks exactly where
    the
    header's token does not lead astray. -/
theorem write_gate_matches {clock : ℕ} (run : GateRun clock g) (normal : NormalFile filePath) (header : Option ℕ) :
    (hasWritePermission g.store filePath header = true ↔ WriteAllowed g filePath header) ↔
      ¬ Astray g filePath header := by
  have holds := GateHolds.of_run run
  rw [holds.hasWritePermission_iff normal]
  constructor
  · rintro same ⟨lock, member, isHeader, before, elsewhere, ⟨other, otherLive, covers⟩, shared⟩
    have allowed := same.mp
        (.inr ⟨lock, member, isHeader, before, fun other live covers _ => shared other live covers⟩)
    rcases allowed with free | ⟨mine, mineLive, isMine, mineCovers, -⟩
    · exact free other otherLive covers
    · have sameToken : mine.token = lock.token := Option.some.inj (isMine.symm.trans isHeader)
      exact elsewhere (holds.path_eq mineLive member sameToken ▸ mineCovers)
  · intro onCourse
    constructor
    · rintro (free | ⟨lock, member, isHeader, before, others⟩)
      · exact .inl free
      · by_cases covers : LiesAbove lock.path filePath
        · exact .inr ⟨lock, member, isHeader, covers, others⟩
        · left
          intro other otherLive otherCovers
          apply onCourse
          refine ⟨lock, member, isHeader, before, covers, ⟨other, otherLive, otherCovers⟩, fun third live above => ?_⟩
          apply others third live above
          intro sameToken
          exact covers (holds.path_eq live member sameToken ▸ above)
    · rintro (free | ⟨lock, member, isHeader, covers, others⟩)
      · exact .inl free
      · exact .inr ⟨lock, member, isHeader, covers.isPrefix normal, others⟩

end Answers

section Calls

def lockedFolder : Text := "/a".toList

theorem normalFile_lockedFolder : NormalFile lockedFolder :=
  .inr ⟨["a".toList], by decide, by simp only [List.forall_mem_singleton]; constructor <;> decide, by decide⟩

def folderCalls : GateState :=
  LockCall.perform (LockCall.perform (LockCall.perform (LockCall.perform (.start 0) (.create lockedFolder .shared))
    (.elapse 10000)) (.create lockedFolder .shared)) (.delete 1)

theorem folderCalls_run : GateRun 0 folderCalls := by
  have current : MapsCurrent ((LockCall.perform (.start 0) (.create lockedFolder .shared)).store.later 10000) := by
    intro path some_entry
    by_cases here : path = lockedFolder
    · subst here
      decide +kernel
    · exfalso
      have cell : ((DavState.start 0).createLock lockedFolder .shared).maps.cell path = none := by
        rw [(createLock_fields lockedFolder .shared).2.2.2, ExpiringKeys.cell_put, if_neg here]
        rfl
      apply some_entry
      change (ExpiringKeys.get ((DavState.start 0).createLock lockedFolder .shared).maps _ path).getD [] = []
      rw [ExpiringKeys.get, cell]
      rfl
  have deletes : LockCall.Timely (LockCall.perform (LockCall.perform (LockCall.perform (.start 0)
      (.create lockedFolder .shared)) (.elapse 10000)) (.create lockedFolder .shared)) (.delete 1) := by
    intro info stands _
    have found : (LockCall.perform (LockCall.perform (LockCall.perform (.start 0) (.create lockedFolder .shared))
        (.elapse 10000)) (.create lockedFolder .shared)).store.getToken 1 = some ⟨lockedFolder, .shared⟩ := by
      decide +kernel
    cases found.symm.trans stands
    decide +kernel
  exact .step _ (.step _ (.step _ (.step _ .start trivial) current) trivial) deletes

theorem folder_written_with_token : hasWritePermission folderCalls.store lockedFolder (some 0) = true ↔
    WriteAllowed folderCalls lockedFolder (some 0) :=
  (write_gate_matches folderCalls_run normalFile_lockedFolder (some 0)).mpr (by decide +kernel)

/-- An exclusive lock that has lapsed still blocks the shared one beside it, whose map it stands in; and the token of
    a
    locked file opens a sibling whose name starts like it, below a shared lock. -/
theorem gate_misses_live_locks :
    (hasWritePermission (LockCall.perform (LockCall.perform (LockCall.perform (LockCall.perform (.start 0)
        (.create lockedFolder .exclusive)) (.elapse 20000)) (.create lockedFolder .shared)) (.elapse 15000)).store
        lockedFolder (some 1) = false ∧
      WriteAllowed (LockCall.perform (LockCall.perform (LockCall.perform (LockCall.perform (.start 0)
        (.create lockedFolder .exclusive)) (.elapse 20000)) (.create lockedFolder .shared)) (.elapse 15000))
        lockedFolder (some 1)) ∧
    hasWritePermission (LockCall.perform (LockCall.perform (.start 0) (.create lockedFolder .exclusive))
        (.create ['/'] .shared)).store "/ab".toList (some 0) = true ∧
      ¬ WriteAllowed (LockCall.perform (LockCall.perform (.start 0) (.create lockedFolder .exclusive))
        (.create ['/'] .shared)) "/ab".toList (some 0) := by
  decide +kernel

end Calls

end Puter

/-
Module: Puter.RateLimit.RedisSlots
Purpose: The concurrency slots that the Redis backend keeps for one key. An acquire adds its slot in one
  block with the sweep and the count; a renewal is two commands, the new score and then the key's time to
  live; and an acquire that finds the string of the counter version drops the key and tries again. So the
  key can expire between the two commands of a renewal, and a drop can hit the slots of others. Where
  neither takes a slot in force, and the renewals of a slot land in order, no more slots are in force than
  the limit.
Trusted boundary: Redis runs a block as one step, and removes a key after its time to live
Main exports: ConcurrentState, acquireConcurrent_slots
-/
import Puter.Library.Interleaving
import Puter.Library.ScoredSet

namespace Puter

open Interleaving

def orphanSafetyTtlMs : ℕ := 60 * 60 * 1000

/-- What a block counted: its timestamp, and each slot with the time of its last renewal. -/
structure ConcurrentCount where
  now : ℕ
  slots : List (ℕ × ℕ)

/-- The key, and what has come of the slots. Slots are numbered by the draws of `randomUUID`. -/
structure ConcurrentState where
  clock : ℕ
  /-- The key holds the string of the counter version. -/
  legacy : Bool
  key : ScoredSet ℕ
  latest : ℕ
  nextUuid : ℕ
  /-- The slots of the handles that acquires returned. -/
  holders : List ℕ
  /-- The handles whose `released` flag is set. -/
  closed : List ℕ
  /-- The slots that were given back. -/
  released : List ℕ
  /-- The slots whose process has died. -/
  dead : List ℕ
  renewedAt : ℕ → ℕ
  /-- The slots that were removed: released, withdrawn, swept, expired with the key or dropped. -/
  removed : List ℕ
  counts : List ConcurrentCount

/-- A program point of `acquireRedisConcurrent` or of a handle of `acquireConcurrent`, the death of a
    process, or time that passes. -/
inductive ConcurrentCall where
  | acquire (retried : Bool)
  /-- The `MULTI` block. -/
  | block (retried : Bool) (now : ℕ)
  /-- `DEL`, after a `WRONGTYPE` error. -/
  | drop
  /-- `ZREM` of a slot over the limit. -/
  | withdraw (slot : ℕ)
  /-- `release` of the handle that `acquireConcurrent` returns. -/
  | release (slot : ℕ)
  /-- `release` of the handle that `acquireRedisConcurrent` returns. -/
  | releaseSlot (slot : ℕ)
  /-- `renew` of the handle that `acquireConcurrent` returns. -/
  | renew (slot : ℕ)
  /-- `renew` of the handle that `acquireRedisConcurrent` returns. -/
  | renewSlot (slot : ℕ)
  /-- `ZADD XX`. -/
  | rescore (slot now : ℕ)
  /-- `EXPIRE`. -/
  | refresh
  | die (slot : ℕ)
  | elapse (ms : ℕ)

def ConcurrentState.wrongType (s : ConcurrentState) : Bool := s.legacy && !s.key.gone s.clock

def ConcurrentState.slots (s : ConcurrentState) : List ℕ := (s.key.current s.clock).names

def ConcurrentState.inForce (s : ConcurrentState) (slot : ℕ) : Bool :=
  !s.released.contains slot && !s.dead.contains slot &&
    decide (s.clock < s.renewedAt slot + orphanSafetyTtlMs)

def ConcurrentState.held (s : ConcurrentState) : List ℕ := s.holders.filter s.inForce

/-- What `ZREM` of a slot does to the key. -/
def ConcurrentState.zrem (s : ConcurrentState) (slot : ℕ) : ConcurrentState :=
  if s.wrongType then s
  else { s with key := s.key.onKey s.clock fun key => key.zrem slot
                removed := slot :: s.removed }

def ConcurrentState.enter (s : ConcurrentState) (now : ℕ) : ConcurrentState :=
  let key := s.key.enter s.clock orphanSafetyTtlMs now s.nextUuid
  let renewedAt := Function.update s.renewedAt s.nextUuid now
  { s with
    legacy := false
    key := key
    latest := now
    nextUuid := s.nextUuid + 1
    renewedAt := renewedAt
    removed := s.key.names.filter (fun slot => slot ∉ key.names) ++ s.removed
    counts := ⟨now, key.names.map fun slot => (slot, renewedAt slot)⟩ :: s.counts }

def ConcurrentCall.perform (limit : ℕ) (s : ConcurrentState) :
    ConcurrentCall → ConcurrentState × Option ConcurrentCall
  | .acquire retried => (s, some (.block retried s.clock))
  | .block retried now =>
      if s.wrongType then
        -- The commands on sorted sets fail, and `EXPIRE` does not.
        let s' := { s with key := s.key.pexpire s.clock orphanSafetyTtlMs }
        if retried then (s', none) else (s', some .drop)
      else
        let s' := s.enter now
        if s'.key.zcard > limit then (s', some (.withdraw s.nextUuid))
        else ({ s' with holders := s.nextUuid :: s.holders }, none)
  | .drop =>
      ({ s with legacy := false, key := .empty, removed := s.key.names ++ s.removed },
        some (.acquire true))
  | .withdraw slot => (s.zrem slot, none)
  | .release slot =>
      if s.closed.contains slot then (s, none)
      else ({ s with closed := slot :: s.closed }, some (.releaseSlot slot))
  | .releaseSlot slot => (ConcurrentState.zrem { s with released := slot :: s.released } slot, none)
  | .renew slot => if s.closed.contains slot then (s, none) else (s, some (.renewSlot slot))
  | .renewSlot slot => (s, some (.rescore slot s.clock))
  | .rescore slot now =>
      if s.wrongType then (s, none)
      else if slot ∈ s.slots then
        ({ s with key := s.key.zaddXX now slot
                  renewedAt := Function.update s.renewedAt slot (max (s.renewedAt slot) now) },
          some .refresh)
      else (s, some .refresh)
  | .refresh => ({ s with key := s.key.onKey s.clock fun key => key.pexpire s.clock orphanSafetyTtlMs }, none)
  | .die slot => ({ s with dead := slot :: s.dead }, none)
  | .elapse ms => ({ s with clock := s.clock + ms }, none)

def ConcurrentCall.InTurn (s : ConcurrentState) : ConcurrentCall → Prop
  | .block _ now => s.latest ≤ now
  | .release slot | .releaseSlot slot | .renew slot | .renewSlot slot | .die slot => slot ∈ s.holders
  | _ => True

/-- The calls that start on their own. -/
inductive ConcurrentCall.Starts : ConcurrentCall → Prop where
  | acquire : Starts (.acquire false)
  | release (slot : ℕ) : Starts (.release slot)
  | releaseSlot (slot : ℕ) : Starts (.releaseSlot slot)
  | renew (slot : ℕ) : Starts (.renew slot)
  | renewSlot (slot : ℕ) : Starts (.renewSlot slot)
  | die (slot : ℕ) : Starts (.die slot)
  | elapse (ms : ℕ) : Starts (.elapse ms)

/-- Any number of acquires on one key with a fixed limit, releases and renewals of their handles, and
    deaths of their processes. -/
def concurrentSystem (limit : ℕ)
    (allow : ConcurrentState → List ConcurrentCall → ConcurrentCall → Prop) :
    System ConcurrentState ConcurrentCall where
  issues := ConcurrentCall.Starts
  atom s call s' next := call.InTurn s ∧ call.perform limit s = (s', next)
  allow := allow

def ConcurrentState.start (clock : ℕ) (legacy : Bool) (deadline : Option ℕ) : ConcurrentState where
  clock := clock
  legacy := legacy
  key := ⟨[], deadline⟩
  latest := 0
  nextUuid := 0
  holders := []
  closed := []
  released := []
  dead := []
  renewedAt _ := 0
  removed := []
  counts := []

def ConcurrentState.NoneRevived (s : ConcurrentState) : Prop := ∀ slot ∈ s.removed, slot ∉ s.slots

def ConcurrentCount.Recent (count : ConcurrentCount) : Prop :=
  ∀ entry ∈ count.slots, count.now < entry.2 + orphanSafetyTtlMs

/-- A block that finds the key gone, and a drop that does not hit the string of the counter version, find no
    slot in force; and a renewal is no older than the last one of its slot. -/
def KeepsSlots (s : ConcurrentState) (_ : List ConcurrentCall) : ConcurrentCall → Prop
  | .block _ _ => s.key.gone s.clock → s.held = []
  | .drop => s.wrongType = false → s.held = []
  | .rescore slot now => s.renewedAt slot ≤ now
  | _ => True

/-- What the state keeps. -/
structure Slotted (limit : ℕ) (s : ConcurrentState) : Prop where
  distinct : s.key.Distinct
  legacy : s.legacy = true → s.holders = [] ∧ s.key.names = []
  drawn : ∀ slot, slot ∈ s.holders ∨ slot ∈ s.removed ∨ slot ∈ s.key.names → slot < s.nextUuid
  apart : s.holders.Nodup
  scored : ∀ entry ∈ s.key.members, entry.2 = s.renewedAt entry.1
  kept : ∀ slot ∈ s.held, slot ∈ s.key.names
  within : (s.key.names.filter (· ∈ s.holders)).length ≤ limit
  gone : s.NoneRevived
  recent : ∀ count ∈ s.counts, count.Recent

def ConcurrentCall.Relies (s : ConcurrentState) : ConcurrentCall → Prop
  | .block _ now => now ≤ s.clock
  | .withdraw slot => slot < s.nextUuid ∧ slot ∉ s.holders
  | _ => True

section Kept

variable {limit : ℕ} {s : ConcurrentState}

theorem inForce_iff {slot : ℕ} : s.inForce slot = true ↔
    slot ∉ s.released ∧ slot ∉ s.dead ∧ s.clock < s.renewedAt slot + orphanSafetyTtlMs := by
  simp [ConcurrentState.inForce, and_assoc]

theorem Slotted.limited (slotted : Slotted limit s) : s.held.length ≤ limit := by
  have inside : s.held ⊆ s.key.names.filter (· ∈ s.holders) := by
    intro slot member
    exact List.mem_filter.mpr ⟨slotted.kept slot member, by simpa using List.mem_of_mem_filter member⟩
  exact ((slotted.apart.filter _).subperm inside).length_le.trans slotted.within

theorem Slotted.shrink (slotted : Slotted limit s) {key : ScoredSet ℕ} {legacy : Bool} {removed : List ℕ}
    (legacyStays : legacy = true → s.legacy = true)
    (sublist : key.members.Sublist s.key.members)
    (kept : ∀ slot ∈ s.held, slot ∈ key.names)
    (drawn : ∀ slot ∈ removed, slot ∈ s.removed ∨ slot < s.nextUuid)
    (gone : ∀ slot ∈ removed, slot ∉ (key.current s.clock).names) :
    Slotted limit { s with legacy := legacy, key := key, removed := removed } where
  distinct := slotted.distinct.sublist (sublist.map Prod.fst)
  legacy isLegacy := by
    obtain ⟨noHolders, noNames⟩ := slotted.legacy (legacyStays isLegacy)
    have names : key.names.Sublist s.key.names := sublist.map Prod.fst
    rw [noNames] at names
    exact ⟨noHolders, List.sublist_nil.mp names⟩
  drawn slot place := by
    rcases place with holder | isRemoved | there
    · exact slotted.drawn slot (.inl holder)
    · rcases drawn slot isRemoved with old | isDrawn
      · exact slotted.drawn slot (.inr (.inl old))
      · exact isDrawn
    · exact slotted.drawn slot (.inr (.inr ((sublist.map Prod.fst).subset there)))
  apart := slotted.apart
  scored entry found := slotted.scored entry (sublist.subset found)
  kept := kept
  within := ((sublist.map Prod.fst).filter _).length_le.trans slotted.within
  gone := gone
  recent := slotted.recent

theorem Slotted.zrem (slotted : Slotted limit s) {slot : ℕ} (isDrawn : slot < s.nextUuid)
    (notHeld : slot ∉ s.held) : Slotted limit (s.zrem slot) := by
  unfold ConcurrentState.zrem
  split
  · exact slotted
  · have drawn : ∀ other ∈ slot :: s.removed, other ∈ s.removed ∨ other < s.nextUuid := by
      intro other member
      rcases List.mem_cons.mp member with rfl | old
      · exact .inr isDrawn
      · exact .inl old
    cases absent : s.key.gone s.clock with
    | true =>
        rw [ScoredSet.onKey_of_gone absent]
        refine slotted.shrink id (List.Sublist.refl _) slotted.kept drawn fun other _ there => ?_
        rw [(ScoredSet.mem_names_current.mp there).1] at absent
        cases absent
    | false =>
        rw [ScoredSet.onKey_of_there absent]
        refine slotted.shrink id List.filter_sublist (fun other held => ?_) drawn fun other member there => ?_
        · refine ScoredSet.mem_names_zrem.mpr ⟨slotted.kept other held, ?_⟩
          rintro rfl
          exact notHeld held
        · obtain ⟨found, differs⟩ :=
            ScoredSet.mem_names_zrem.mp (ScoredSet.mem_names_current.mp there).2
          rcases List.mem_cons.mp member with same | old
          · exact differs same
          · exact slotted.gone other old (ScoredSet.mem_names_current.mpr ⟨absent, found⟩)

theorem Slotted.fewer (slotted : Slotted limit s) {clock : ℕ} {closed released dead : List ℕ}
    (later : s.clock ≤ clock) (moreReleased : s.released ⊆ released) (moreDead : s.dead ⊆ dead) :
    Slotted limit { s with clock := clock, closed := closed, released := released, dead := dead } :=
  { slotted with
    kept := by
      intro slot member
      obtain ⟨holder, inForce⟩ := List.mem_filter.mp member
      obtain ⟨notReleased, notDead, recent⟩ := inForce_iff.mp inForce
      refine slotted.kept slot (List.mem_filter.mpr ⟨holder, inForce_iff.mpr ⟨?_, ?_, ?_⟩⟩)
      · exact fun member => notReleased (moreReleased member)
      · exact fun member => notDead (moreDead member)
      · exact lt_of_le_of_lt later recent
    gone := by
      intro slot member there
      obtain ⟨ms, rfl⟩ := Nat.exists_eq_add_of_le later
      obtain ⟨entry, found, rfl⟩ := List.mem_map.mp there
      exact slotted.gone _ member (List.mem_map_of_mem (ScoredSet.mem_current_later found)) }

theorem mem_enter_key {now : ℕ} {entry : ℕ × ℕ} (found : entry ∈ (s.enter now).key.members) :
    entry = (s.nextUuid, now) ∨
      entry ∈ s.key.members ∧ s.key.gone s.clock = false ∧ now < entry.2 + orphanSafetyTtlMs := by
  have entered : entry ∈ (s.key.enter s.clock orphanSafetyTtlMs now s.nextUuid).members := found
  rcases ScoredSet.mem_enter.mp entered with isNew | ⟨⟨old, recent⟩, _⟩
  · exact .inl isNew
  · obtain ⟨there, stored⟩ := ScoredSet.mem_current.mp old
    exact .inr ⟨stored, there, recent⟩

theorem renewedAt_enter {now slot : ℕ} (differs : slot ≠ s.nextUuid) :
    (s.enter now).renewedAt slot = s.renewedAt slot := by
  simp [ConcurrentState.enter, differs]

theorem Slotted.scored_enter (slotted : Slotted limit s) {now : ℕ} {entry : ℕ × ℕ}
    (found : entry ∈ (s.enter now).key.members) : entry.2 = (s.enter now).renewedAt entry.1 := by
  rcases mem_enter_key found with rfl | ⟨stored, _⟩
  · exact (Function.update_self s.nextUuid now s.renewedAt).symm
  · have isDrawn := slotted.drawn entry.1 (.inr (.inr (List.mem_map_of_mem stored)))
    exact (slotted.scored entry stored).trans (renewedAt_enter isDrawn.ne).symm

theorem Slotted.kept_enter (slotted : Slotted limit s) {now : ℕ} (past : now ≤ s.clock)
    (keeps : s.key.gone s.clock → s.held = []) {slot : ℕ} (held : slot ∈ s.held) :
    slot ∈ (s.enter now).key.names := by
  have there : s.key.gone s.clock = false := by
    by_contra absent
    rw [keeps (by simpa using absent)] at held
    cases held
  obtain ⟨score, found⟩ := ScoredSet.mem_names.mp (slotted.kept slot held)
  obtain ⟨_, _, recent⟩ := inForce_iff.mp (List.mem_filter.mp held).2
  have isScore : score = s.renewedAt slot := slotted.scored _ found
  have isDrawn := slotted.drawn slot (.inl (List.mem_of_mem_filter held))
  refine ScoredSet.mem_names.mpr ⟨score, ScoredSet.mem_enter.mpr (.inr ⟨⟨?_, ?_⟩, isDrawn.ne⟩)⟩
  · exact ScoredSet.mem_current.mpr ⟨there, found⟩
  · simp only
    omega

theorem Slotted.enter (slotted : Slotted limit s) {now : ℕ} (past : now ≤ s.clock)
    (keeps : s.key.gone s.clock → s.held = []) {holders : List ℕ}
    (grants : holders = s.holders ∨ holders = s.nextUuid :: s.holders)
    (within : ((s.enter now).key.names.filter (· ∈ holders)).length ≤ limit) :
    Slotted limit { s.enter now with holders := holders } := by
  have holder : ∀ slot ∈ holders, slot = s.nextUuid ∨ slot ∈ s.holders := by
    intro slot member
    rcases grants with rfl | rfl
    · exact .inr member
    · exact List.mem_cons.mp member
  have name : ∀ slot ∈ (s.enter now).key.names, slot = s.nextUuid ∨
      slot ∈ s.key.names ∧ s.key.gone s.clock = false := by
    intro slot there
    obtain ⟨score, found⟩ := ScoredSet.mem_names.mp there
    rcases mem_enter_key found with isNew | ⟨stored, there, _⟩
    · exact .inl (congrArg Prod.fst isNew)
    · exact .inr ⟨ScoredSet.mem_names.mpr ⟨score, stored⟩, there⟩
  have fresh : s.nextUuid ∉ s.holders := fun member =>
    lt_irrefl _ (slotted.drawn _ (.inl member))
  exact {
    distinct := slotted.distinct.enter _ _ _ _
    legacy := fun isLegacy => by cases isLegacy
    drawn := by
      intro slot place
      refine Nat.lt_succ_of_le ?_
      rcases place with member | isRemoved | there
      · rcases holder slot member with rfl | old
        · exact le_refl _
        · exact (slotted.drawn slot (.inl old)).le
      · rcases List.mem_append.mp isRemoved with lost | old
        · exact (slotted.drawn slot (.inr (.inr (List.mem_of_mem_filter lost)))).le
        · exact (slotted.drawn slot (.inr (.inl old))).le
      · rcases name slot there with rfl | ⟨old, _⟩
        · exact le_refl _
        · exact (slotted.drawn slot (.inr (.inr old))).le
    apart := by
      rcases grants with rfl | rfl
      · exact slotted.apart
      · exact List.nodup_cons.mpr ⟨fresh, slotted.apart⟩
    scored := fun entry found => slotted.scored_enter found
    kept := by
      intro slot member
      obtain ⟨granted, inForce⟩ := List.mem_filter.mp member
      rcases holder slot granted with rfl | old
      · exact ScoredSet.mem_names.mpr ⟨now, ScoredSet.mem_enter.mpr (.inl rfl)⟩
      · have isDrawn := slotted.drawn slot (.inl old)
        refine slotted.kept_enter past keeps (List.mem_filter.mpr ⟨old, inForce_iff.mpr ?_⟩)
        rw [← renewedAt_enter isDrawn.ne]
        exact inForce_iff.mp inForce
    within := within
    gone := by
      intro slot isRemoved there
      have after := (ScoredSet.mem_names_current.mp there).2
      rcases List.mem_append.mp isRemoved with lost | old
      · exact of_decide_eq_true (List.mem_filter.mp lost).2 after
      · rcases name slot after with rfl | ⟨before, present⟩
        · exact lt_irrefl _ (slotted.drawn _ (.inr (.inl old)))
        · exact slotted.gone slot old (ScoredSet.mem_names_current.mpr ⟨present, before⟩)
    recent := by
      intro count member
      rcases List.mem_cons.mp member with rfl | old
      · intro entry counted
        obtain ⟨slot, there, rfl⟩ := List.mem_map.mp counted
        obtain ⟨score, found⟩ := ScoredSet.mem_names.mp there
        have isScore : score = (s.enter now).renewedAt slot := slotted.scored_enter found
        change now < (s.enter now).renewedAt slot + orphanSafetyTtlMs
        rcases mem_enter_key found with isNew | ⟨_, _, recent⟩
        · have isNow : score = now := congrArg Prod.snd isNew
          rw [← isScore, isNow]
          exact Nat.lt_add_of_pos_right (by decide)
        · rwa [← isScore]
      · exact slotted.recent count old }

theorem Slotted.block (slotted : Slotted limit s) {now : ℕ} (past : now ≤ s.clock)
    (keeps : s.key.gone s.clock → s.held = []) (retried : Bool) :
    Slotted limit (ConcurrentCall.perform limit s (.block retried now)).1 := by
  have fresh : s.nextUuid ∉ s.holders := fun member =>
    lt_irrefl _ (slotted.drawn _ (.inl member))
  simp only [ConcurrentCall.perform]
  split
  · rename_i wrongType
    -- The string lives on; there is no slot.
    have isLegacy : s.legacy = true := (Bool.and_eq_true _ _ ▸ wrongType).1
    obtain ⟨noHolders, noNames⟩ := slotted.legacy isLegacy
    have stays : Slotted limit { s with key := s.key.pexpire s.clock orphanSafetyTtlMs } := by
      refine slotted.shrink id (List.Sublist.refl _) slotted.kept (fun _ => .inl) fun slot _ there => ?_
      have found := (ScoredSet.mem_names_current.mp there).2
      rw [ScoredSet.names_pexpire, noNames] at found
      cases found
    cases retried with
    | true => exact stays
    | false => exact stays
  · split
    · refine slotted.enter past keeps (.inl rfl) ?_
      obtain ⟨rest, names, sublist⟩ :=
        ScoredSet.names_enter s.key s.clock orphanSafetyTtlMs now s.nextUuid
      have others : ((s.enter now).key.names.filter (· ∈ s.holders)) = rest.filter (· ∈ s.holders) := by
        rw [show (s.enter now).key.names = s.nextUuid :: rest from names, List.filter_cons_of_neg]
        simpa using fresh
      rw [others]
      exact (sublist.filter _).length_le.trans slotted.within
    · rename_i room
      refine slotted.enter past keeps (.inr rfl) ((List.length_filter_le _ _).trans ?_)
      rw [ScoredSet.names, List.length_map]
      exact Nat.le_of_not_lt room

theorem Slotted.rescore (slotted : Slotted limit s) {slot now : ℕ} (inOrder : s.renewedAt slot ≤ now) :
    Slotted limit (ConcurrentCall.perform limit s (.rescore slot now)).1 := by
  simp only [ConcurrentCall.perform]
  split
  · exact slotted
  · split
    · rename_i there
      obtain ⟨present, found⟩ := ScoredSet.mem_names_current.mp there
      exact {
        distinct := slotted.distinct.zaddXX now slot
        legacy := fun isLegacy => by simpa using slotted.legacy isLegacy
        drawn := by simpa using slotted.drawn
        apart := slotted.apart
        scored := by
          intro entry member
          rcases ScoredSet.mem_zaddXX.mp member with ⟨_, _, rfl⟩ | ⟨stored, other⟩
          · simp only [Function.update_self]
            exact (max_eq_right inOrder).symm
          · exact (slotted.scored entry stored).trans (Function.update_of_ne other _ _).symm
        kept := by
          intro other member
          obtain ⟨holder, inForce⟩ := List.mem_filter.mp member
          rw [ScoredSet.names_zaddXX]
          by_cases same : other = slot
          · exact same ▸ found
          · refine slotted.kept other (List.mem_filter.mpr ⟨holder, ?_⟩)
            simpa [inForce_iff, same] using inForce
        within := by simpa using slotted.within
        gone := by
          intro other isRemoved still
          have before := (ScoredSet.mem_names_current.mp still).2
          rw [ScoredSet.names_zaddXX] at before
          exact slotted.gone other isRemoved (ScoredSet.mem_names_current.mpr ⟨present, before⟩)
        recent := slotted.recent }
    · exact slotted

theorem Slotted.refresh (slotted : Slotted limit s) :
    Slotted limit (ConcurrentCall.perform limit s .refresh).1 := by
  simp only [ConcurrentCall.perform]
  cases absent : s.key.gone s.clock with
  | true => simpa only [ScoredSet.onKey_of_gone absent] using slotted
  | false =>
      rw [ScoredSet.onKey_of_there absent]
      refine slotted.shrink id (List.Sublist.refl _) slotted.kept (fun _ => .inl)
        fun slot isRemoved there => ?_
      have found := (ScoredSet.mem_names_current.mp there).2
      exact slotted.gone slot isRemoved (ScoredSet.mem_names_current.mpr ⟨absent, found⟩)

theorem Slotted.drop (slotted : Slotted limit s) (keeps : s.wrongType = false → s.held = []) :
    Slotted limit (ConcurrentCall.perform limit s .drop).1 := by
  have nothing : s.held = [] := by
    cases wrongType : s.wrongType with
    | false => exact keeps wrongType
    | true =>
        have isLegacy : s.legacy = true := (Bool.and_eq_true _ _ ▸ wrongType).1
        rw [ConcurrentState.held, (slotted.legacy isLegacy).1, List.filter_nil]
  refine slotted.shrink (fun isLegacy => by cases isLegacy) (List.nil_sublist _) ?_ ?_ ?_
  · intro slot held
    rw [nothing] at held
    cases held
  · intro slot isRemoved
    rcases List.mem_append.mp isRemoved with there | old
    · exact .inr (slotted.drawn slot (.inr (.inr there)))
    · exact .inl old
  · intro slot _ there
    exact absurd (ScoredSet.mem_names_current.mp there).2 (by simp)

end Kept

section Step

variable {limit : ℕ} {s : ConcurrentState} {others : List ConcurrentCall} {call : ConcurrentCall}

theorem perform_slotted (keeps : KeepsSlots s others call) (inTurn : call.InTurn s)
    (slotted : Slotted limit s) (relies : call.Relies s) : Slotted limit (call.perform limit s).1 := by
  cases call with
  | acquire retried => exact slotted
  | block retried now => exact slotted.block relies keeps retried
  | drop => exact slotted.drop keeps
  | withdraw slot =>
      exact slotted.zrem relies.1 fun held => relies.2 (List.mem_of_mem_filter held)
  | release slot =>
      simp only [ConcurrentCall.perform]
      split
      · exact slotted
      · exact slotted.fewer (le_refl _) (List.Subset.refl _) (List.Subset.refl _)
  | releaseSlot slot =>
      -- The slot is given back first, which takes it out of force, and then its entry is removed.
      have given : Slotted limit { s with released := slot :: s.released } :=
        slotted.fewer (le_refl _) (List.subset_cons_self _ _) (List.Subset.refl _)
      have notHeld : slot ∉ { s with released := slot :: s.released : ConcurrentState }.held := by
        intro held
        exact (inForce_iff.mp (List.mem_filter.mp held).2).1 List.mem_cons_self
      exact given.zrem (slotted.drawn slot (.inl inTurn)) notHeld
  | renew slot =>
      simp only [ConcurrentCall.perform]
      split
      · exact slotted
      · exact slotted
  | renewSlot slot => exact slotted
  | rescore slot now => exact slotted.rescore keeps
  | refresh => exact slotted.refresh
  | die slot => exact slotted.fewer (le_refl _) (List.Subset.refl _) (List.subset_cons_self _ _)
  | elapse ms => exact slotted.fewer (Nat.le_add_right _ _) (List.Subset.refl _) (List.Subset.refl _)

/-- What one step does to the clock, the draws and the granted slots. -/
structure MovesOn (s s' : ConcurrentState) : Prop where
  clock : s.clock ≤ s'.clock
  draws : s.nextUuid ≤ s'.nextUuid
  grants : ∀ slot ∈ s'.holders, slot ∈ s.holders ∨ s.nextUuid ≤ slot

theorem movesOn_of_same {s s' : ConcurrentState} (clock : s.clock ≤ s'.clock)
    (draws : s.nextUuid ≤ s'.nextUuid) (holders : s'.holders = s.holders) : MovesOn s s' :=
  ⟨clock, draws, fun _ member => .inl (holders ▸ member)⟩

theorem perform_movesOn (limit : ℕ) (s : ConcurrentState) (call : ConcurrentCall) :
    MovesOn s (call.perform limit s).1 := by
  have still : MovesOn s s := movesOn_of_same (le_refl _) (le_refl _) rfl
  have removes : ∀ slot released,
      MovesOn s (ConcurrentState.zrem { s with released := released } slot) := by
    intro slot released
    unfold ConcurrentState.zrem
    split
    · exact movesOn_of_same (le_refl _) (le_refl _) rfl
    · exact movesOn_of_same (le_refl _) (le_refl _) rfl
  cases call with
  | block retried now =>
      simp only [ConcurrentCall.perform]
      split
      · cases retried with
        | true => exact movesOn_of_same (le_refl _) (le_refl _) rfl
        | false => exact movesOn_of_same (le_refl _) (le_refl _) rfl
      · split
        · exact movesOn_of_same (le_refl _) (Nat.le_succ _) rfl
        · refine ⟨le_refl _, Nat.le_succ _, fun slot member => ?_⟩
          rcases List.mem_cons.mp member with rfl | old
          · exact .inr (le_refl _)
          · exact .inl old
  | withdraw slot => exact removes slot s.released
  | releaseSlot slot => exact removes slot (slot :: s.released)
  | release slot =>
      simp only [ConcurrentCall.perform]
      split
      · exact still
      · exact movesOn_of_same (le_refl _) (le_refl _) rfl
  | renew slot =>
      simp only [ConcurrentCall.perform]
      split
      · exact still
      · exact still
  | rescore slot now =>
      simp only [ConcurrentCall.perform]
      split
      · exact still
      · split
        · exact movesOn_of_same (le_refl _) (le_refl _) rfl
        · exact still
  | elapse ms => exact movesOn_of_same (Nat.le_add_right _ _) (le_refl _) rfl
  | _ => exact movesOn_of_same (le_refl _) (le_refl _) rfl

theorem MovesOn.relies {s s' : ConcurrentState} (movesOn : MovesOn s s') {other : ConcurrentCall}
    (relies : other.Relies s) : other.Relies s' := by
  cases other with
  | block retried now => exact le_trans relies movesOn.clock
  | withdraw slot =>
      obtain ⟨isDrawn, notGranted⟩ := relies
      refine ⟨isDrawn.trans_le movesOn.draws, fun member => ?_⟩
      rcases movesOn.grants slot member with old | new
      · exact notGranted old
      · exact absurd isDrawn new.not_gt
  | _ => trivial

theorem perform_relies (slotted : Slotted limit s) {next : ConcurrentCall}
    (continues : (call.perform limit s).2 = some next) : next.Relies (call.perform limit s).1 := by
  cases call with
  | acquire retried =>
      cases continues
      exact le_refl s.clock
  | block retried now =>
      simp only [ConcurrentCall.perform] at continues ⊢
      split at continues
      · cases retried with
        | true => cases continues
        | false =>
            cases continues
            trivial
      · split at continues
        · rename_i wrongType exceeds
          cases continues
          rw [if_neg wrongType, if_pos exceeds]
          exact ⟨Nat.lt_succ_self _, fun member => lt_irrefl _ (slotted.drawn _ (.inl member))⟩
        · cases continues
  | rescore slot now =>
      simp only [ConcurrentCall.perform] at continues
      split at continues
      · cases continues
      · split at continues
        · cases continues
          trivial
        · cases continues
          trivial
  | release slot =>
      simp only [ConcurrentCall.perform] at continues
      split at continues
      · cases continues
      · cases continues
        trivial
  | renew slot =>
      simp only [ConcurrentCall.perform] at continues
      split at continues
      · cases continues
      · cases continues
        trivial
  | _ =>
      cases continues
      try trivial

theorem slots_releaseSlot (s : ConcurrentState) {slot other : ℕ} (differs : other ≠ slot) :
    other ∈ (ConcurrentCall.perform limit s (.releaseSlot slot)).1.slots ↔ other ∈ s.slots := by
  simp only [ConcurrentCall.perform, ConcurrentState.zrem]
  split
  · exact Iff.rfl
  · cases absent : s.key.gone s.clock with
    | true => simp [ConcurrentState.slots, ScoredSet.onKey_of_gone absent]
    | false =>
        have present : (s.key.zrem slot).gone s.clock = false := absent
        simp [ConcurrentState.slots, ScoredSet.onKey_of_there absent, ScoredSet.mem_names_current, absent,
          present, ScoredSet.mem_names_zrem, differs]

end Step

theorem Slotted.start (limit clock : ℕ) (legacy : Bool) (deadline : Option ℕ) :
    Slotted limit (.start clock legacy deadline) where
  distinct := List.nodup_nil
  legacy _ := ⟨rfl, rfl⟩
  drawn _ place := by rcases place with member | member | member <;> cases member
  apart := List.nodup_nil
  scored _ found := by cases found
  kept _ held := by cases held
  within := Nat.zero_le _
  gone _ member := by cases member
  recent _ member := by cases member

/-- In any interleaving in which no block finds the key gone and no drop finds a sorted set while a slot is
    in force, and the renewals of a slot land in order: no more slots are in force than the limit, none that
    was removed is there again, giving one back leaves the others, and no acquire counted a slot that had
    not been renewed within the safety time before it. -/
theorem acquireConcurrent_slots {limit clock : ℕ} {legacy : Bool} {deadline : Option ℕ}
    {d : Config ConcurrentState ConcurrentCall}
    (run : Run (concurrentSystem limit KeepsSlots) ⟨.start clock legacy deadline, []⟩ d) :
    d.shared.held.length ≤ limit ∧ d.shared.NoneRevived ∧
      (∀ slot other, other ≠ slot →
        (other ∈ (ConcurrentCall.perform limit d.shared (.releaseSlot slot)).1.slots ↔
          other ∈ d.shared.slots)) ∧
      ∀ count ∈ d.shared.counts, count.Recent := by
  have supported : Supported (Slotted limit) (fun s call => call.Relies s) d := by
    refine run_supported run
      ⟨Slotted.start limit clock legacy deadline, fun _ member => by cases member⟩ ?_ ?_
    · intro s call starts _
      cases starts <;> trivial
    · rintro s others call s' next allowed ⟨inTurn, performed⟩ slotted relies
      have reached : (call.perform limit s).1 = s' := congrArg Prod.fst performed
      have goesOn : (call.perform limit s).2 = next := congrArg Prod.snd performed
      have permitted : KeepsSlots s others call := allowed
      subst reached
      exact ⟨perform_slotted permitted inTurn slotted relies,
        fun following isNext => perform_relies slotted (goesOn.trans isNext),
        fun other relied => (perform_movesOn limit s call).relies relied⟩
  have slotted := supported.holds
  exact ⟨slotted.limited, slotted.gone, fun slot other differs => slots_releaseSlot _ differs,
    slotted.recent⟩

/-- With a limit of one: a slot is acquired, renewed after half an hour and given back, and after an hour and
    a half the next acquire gets one. -/
theorem oneSlot_kept :
    ∃ d, Run (concurrentSystem 1 KeepsSlots) ⟨.start 0 false none, []⟩ d ∧ d.shared.held = [1] ∧
      d.shared.removed = [0] ∧ (d.shared.held.length ≤ 1 ∧ d.shared.NoneRevived ∧
        (∀ slot other, other ≠ slot →
          (other ∈ (ConcurrentCall.perform 1 d.shared (.releaseSlot slot)).1.slots ↔
            other ∈ d.shared.slots)) ∧
        ∀ count ∈ d.shared.counts, count.Recent) := by
  have run : Run (concurrentSystem 1 KeepsSlots) ⟨.start 0 false none, []⟩ _ :=
    .head (.issue .acquire) <|
    .head (.goesOn trivial ⟨trivial, rfl⟩) <|
    .head (.completes (fun absent => by cases absent) ⟨le_refl _, rfl⟩) <|
    .head (.issue (.elapse 1800000)) <|
    .head (.completes trivial ⟨trivial, rfl⟩) <|
    .head (.issue (.renew 0)) <|
    .head (.goesOn trivial ⟨List.mem_cons_self, rfl⟩) <|
    .head (.goesOn trivial ⟨List.mem_cons_self, rfl⟩) <|
    .head (.goesOn (Nat.zero_le _) ⟨trivial, rfl⟩) <|
    .head (.completes trivial ⟨trivial, rfl⟩) <|
    .head (.issue (.elapse 3600000)) <|
    .head (.completes trivial ⟨trivial, rfl⟩) <|
    .head (.issue (.release 0)) <|
    .head (.goesOn trivial ⟨List.mem_cons_self, rfl⟩) <|
    .head (.completes trivial ⟨List.mem_cons_self, rfl⟩) <|
    .head (.issue .acquire) <|
    .head (.goesOn trivial ⟨trivial, rfl⟩) <|
    .single (.completes (fun absent => absurd absent (by decide)) ⟨Nat.zero_le _, rfl⟩)
  exact ⟨_, run, by decide, by decide, acquireConcurrent_slots run⟩

/-- A slot is renewed a millisecond before its key expires, and the key expires before the second command of
    the renewal: the next acquire counts its own slot only, and two slots are in force with a limit of one. -/
theorem renewedSlot_expires_with_key :
    ∃ d, Run (concurrentSystem 1 fun _ _ _ => True) ⟨.start 0 false none, []⟩ d ∧
      d.shared.held = [1, 0] ∧ ¬ d.shared.held.length ≤ 1 := by
  have run : Run (concurrentSystem 1 fun _ _ _ => True) ⟨.start 0 false none, []⟩ _ :=
    .head (.issue .acquire) <|
    .head (.goesOn trivial ⟨trivial, rfl⟩) <|
    .head (.completes trivial ⟨le_refl _, rfl⟩) <|
    .head (.issue (.elapse 3599999)) <|
    .head (.completes trivial ⟨trivial, rfl⟩) <|
    .head (.issue (.renew 0)) <|
    .head (.goesOn trivial ⟨List.mem_cons_self, rfl⟩) <|
    .head (.goesOn trivial ⟨List.mem_cons_self, rfl⟩) <|
    .head (.goesOn trivial ⟨trivial, rfl⟩) <|
    -- The key expires between the two commands.
    .head (.issue (.elapse 2)) <|
    .head (.completes trivial ⟨trivial, rfl⟩) <|
    .head (.completes trivial ⟨trivial, rfl⟩) <|
    .head (.issue .acquire) <|
    .head (.goesOn trivial ⟨trivial, rfl⟩) <|
    .single (.completes trivial ⟨Nat.zero_le _, rfl⟩)
  exact ⟨_, run, by decide, by decide⟩

end Puter

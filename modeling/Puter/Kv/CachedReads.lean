/-
Module: Puter.Kv.CachedReads
Purpose: Gets and mutations of one key as concurrent calls over the store, the cache slot and a common
  clock. A get looks in the cache, reads the store, populates the slot unless its read took too long and
  answers; a mutation writes the store and then the block marker. The invariant follows the newest
  mutation whose marker was written: what the slot caches is never older, and a reader that holds an
  older value is too late or finds the marker standing.
Trusted boundary: none
Main exports: KvCall, get_answers_recent
-/
import Puter.Library.Interleaving
import Puter.Kv.ReadCache

namespace Puter

/-- Capacity units split by operation kind. -/
structure KVUsage where
  read : ℚ
  write : ℚ
  cachedRead : ℚ
deriving DecidableEq, Repr

/-- The deployment: the cache settings, whether reads in this namespace may be served from the cache,
    the size of an envelope's text and the capacity a store read consumes. -/
structure KvCacheEnv (α : Type) where
  settings : KvCacheSettings
  cacheable : Bool
  payloadBytes : KvCacheEnvelope α → ℕ
  capacityUnits : Option (KvCachedItem α) → ℚ

/-- A get that has answered: the newest mutation that had returned when it started, when it answered
    and what. -/
structure KvAnswer (α : Type) where
  opts : GetOpts
  since : ℕ
  answeredAt : ℕ
  res : Option α
  usage : KVUsage

/-- The shared state of one key. `contents` is what the store held after each mutation, so the store
    holds `contents version`; `returned` is the newest mutation that has returned to its caller. -/
structure KvState (α : Type) where
  clock : ℕ
  version : ℕ
  contents : ℕ → Option (KvCachedItem α)
  slot : CacheSlot α
  returned : ℕ
  answers : List (KvAnswer α)

/-- A call in flight, named by the atomic step it performs next. A mutation is any change of the stored
    item: a set, a delete, an increment, a change of the expiry. -/
inductive KvCall (α : Type) where
  | get (opts : GetOpts)
  | lookup (opts : GetOpts) (since : ℕ)
  | fetch (opts : GetOpts) (since : ℕ)
  | read (opts : GetOpts) (since startedAt : ℕ)
  | populate (opts : GetOpts) (since startedAt : ℕ) (fetched : Option (KvCachedItem α))
  | answer (opts : GetOpts) (since : ℕ) (entry : Option (KvCachedItem α)) (usage : KVUsage)
  | mutate (change : Option (KvCachedItem α) → Option (KvCachedItem α))
  | invalidate (version : ℕ)
  | returns (version : ℕ)
  | remoteInvalidation

variable {α : Type}

/-- The clock in seconds, as `Date.now() / 1000`. -/
def seconds (clock : ℕ) : ℚ := clock / 1000

def KvCacheSettings.blockMs (settings : KvCacheSettings) : ℕ := settings.blockSeconds * 1000

namespace KvCacheEnv

def useCache (env : KvCacheEnv α) (opts : GetOpts) : Bool := !opts.consistentRead && env.cacheable

/-- Look the key up in the cache: the cached entry, or the cached absence, and the units to replay. A
    cached entry that lapsed since it was written counts as nothing cached. -/
def cacheRead (slot : CacheSlot α) (clock : ℕ) : Option (Option (KvCachedItem α) × ℚ) :=
  match decodeCachedRead (slot.get clock) with
  | .hit item readUnits => if item.expired (seconds clock) then none else some (some item, readUnits)
  | .miss readUnits => some (none, readUnits)
  | .blocked => none
  | .absent => none

def payload (env : KvCacheEnv α) (fetched : Option (KvCachedItem α)) : KvCacheEnvelope α :=
  match fetched with
  | some item => encodeCachedHit item (env.capacityUnits fetched)
  | none => encodeCachedMiss (env.capacityUnits fetched)

def populateTtl (env : KvCacheEnv α) (fetched : Option (KvCachedItem α)) (clock : ℕ) : Option ℕ :=
  match fetched with
  | some item => cacheTtlSecondsFor env.settings item.ttl (seconds clock)
  | none => some env.settings.missTtlSeconds

def cachePopulate (env : KvCacheEnv α) (slot : CacheSlot α) (fetched : Option (KvCachedItem α))
    (startedAt clock : ℕ) : CacheSlot α :=
  if clock - startedAt > env.settings.blockMs then slot
  else
    match env.populateTtl fetched clock with
    | none => slot
    | some ttl =>
        if env.payloadBytes (env.payload fetched) > env.settings.maxEntryBytes then slot
        else slot.setNX (env.payload fetched) ttl clock

def invalidate (env : KvCacheEnv α) (slot : CacheSlot α) (clock : ℕ) : CacheSlot α :=
  if env.cacheable then .set blockMarker (max 1 env.settings.blockSeconds) clock else slot

end KvCacheEnv

def KvCall.perform (env : KvCacheEnv α) (state : KvState α) :
    KvCall α → KvState α × Option (KvCall α)
  | .get opts => (state, some (.lookup opts state.returned))
  | .lookup opts since =>
      if env.useCache opts then
        match KvCacheEnv.cacheRead state.slot state.clock with
        | some (entry, units) => (state, some (.answer opts since entry ⟨0, 0, units⟩))
        | none => (state, some (.fetch opts since))
      else (state, some (.fetch opts since))
  | .fetch opts since => (state, some (.read opts since state.clock))
  | .read opts since startedAt =>
      (state, some (.populate opts since startedAt (state.contents state.version)))
  | .populate opts since startedAt fetched =>
      let slot := if env.useCache opts then
          env.cachePopulate state.slot fetched startedAt state.clock
        else state.slot
      ({ state with slot := slot },
        some (.answer opts since fetched ⟨env.capacityUnits fetched, 0, 0⟩))
  | .answer opts since entry usage =>
      let res := answerOf opts entry (seconds state.clock)
      ({ state with answers := ⟨opts, since, state.clock, res, usage⟩ :: state.answers }, none)
  | .mutate change =>
      let version := state.version + 1
      let stored := change (state.contents state.version)
      ({ state with version := version, contents := Function.update state.contents version stored },
        some (.invalidate version))
  | .invalidate version =>
      ({ state with slot := env.invalidate state.slot state.clock }, some (.returns version))
  | .returns version => ({ state with returned := max state.returned version }, none)
  | .remoteInvalidation => ({ state with slot := env.invalidate state.slot state.clock }, none)

namespace KvCall

/-- Where a call starts. -/
inductive Starts : KvCall α → Prop where
  | get {opts : GetOpts} : Starts (.get opts)
  | mutate {change : Option (KvCachedItem α) → Option (KvCachedItem α)} : Starts (.mutate change)
  | remoteInvalidation : Starts .remoteInvalidation

end KvCall

def kvSystem (env : KvCacheEnv α) : Interleaving.System (KvState α) (KvCall α) where
  issues := KvCall.Starts
  atom state call state' next :=
    ∃ now, state.clock ≤ now ∧ call.perform env { state with clock := now } = (state', next)
  allow _ _ _ := True

/-- The state before any call: the store holds `stored` and nothing is cached. -/
def KvState.cold (stored : Option (KvCachedItem α)) (clock : ℕ) : KvState α :=
  ⟨clock, 0, fun _ => stored, ⟨none⟩, 0, []⟩

/-- The answer is what a mutation left, one no older than the newest that had returned when the get
    started. -/
def Recent (state : KvState α) (answer : KvAnswer α) : Prop :=
  ∃ version, answer.since ≤ version ∧ version ≤ state.version ∧
    answer.res = answerOf answer.opts (state.contents version) (seconds answer.answeredAt)

def Blocks (slot : CacheSlot α) (moment : ℕ) : Prop :=
  ∃ deadline, slot.held = some (blockMarker, deadline) ∧ moment ≤ deadline

def Caches (payload : KvCacheEnvelope α) (entry : Option (KvCachedItem α)) : Prop :=
  ∃ units, payload = match entry with
    | some item => encodeCachedHit item units
    | none => encodeCachedMiss units

/-- What the state keeps, `marked` being the newest mutation whose marker was written. -/
structure Coherent (env : KvCacheEnv α) (marked : ℕ) (state : KvState α) : Prop where
  marked_le : marked ≤ state.version
  returned_le : state.returned ≤ marked
  idle : env.cacheable = false → state.slot.held = none
  slot : ∀ payload deadline, state.slot.held = some (payload, deadline) → payload = blockMarker ∨
    ∃ version, marked ≤ version ∧ version ≤ state.version ∧ Caches payload (state.contents version)
  answers : ∀ answer ∈ state.answers, Recent state answer

/-- The item is what the store held after some mutation that is no older than `since`. -/
def Held (state : KvState α) (since : ℕ) (entry : Option (KvCachedItem α)) : Prop :=
  ∃ version, since ≤ version ∧ version ≤ state.version ∧ entry = state.contents version

/-- A reader that fetched what mutation `version` left cannot cache it any more once a later mutation
    has written its marker: its read is too old, or the marker stands for as long as it is not. -/
def Excluded (env : KvCacheEnv α) (marked : ℕ) (state : KvState α) (startedAt version : ℕ) : Prop :=
  marked ≤ version ∨ env.cacheable = false ∨ startedAt + env.settings.blockMs < state.clock ∨
    Blocks state.slot (startedAt + env.settings.blockMs)

/-- What each call in flight may rely on. -/
def Fair (env : KvCacheEnv α) (marked : ℕ) (state : KvState α) : KvCall α → Prop
  | .lookup _ since => since ≤ marked
  | .fetch _ since => since ≤ marked
  | .read _ since startedAt => since ≤ marked ∧ startedAt ≤ state.clock
  | .populate _ since startedAt fetched => startedAt ≤ state.clock ∧
      ∃ version, since ≤ version ∧ version ≤ state.version ∧
        fetched = state.contents version ∧ Excluded env marked state startedAt version
  | .answer _ since entry _ => Held state since entry
  | .invalidate version => version ≤ state.version
  | .returns version => version ≤ marked
  | _ => True

/-- What one step may do to the state, as the other calls see it: time and versions go on, what a
    mutation left stays known, and the slot keeps every marker that still stands or has a fresh one. -/
structure Advances (env : KvCacheEnv α) (marked : ℕ) (state : KvState α) (marked' : ℕ)
    (state' : KvState α) : Prop where
  clock : state.clock ≤ state'.clock
  version : state.version ≤ state'.version
  contents : ∀ version, version ≤ state.version → state'.contents version = state.contents version
  grows : marked ≤ marked'
  slot : env.cacheable = false ∨ Blocks state'.slot (state'.clock + env.settings.blockMs) ∨
    marked' = marked ∧
      ∀ moment, state'.clock ≤ moment → Blocks state.slot moment → Blocks state'.slot moment

section Advance

variable {env : KvCacheEnv α} {marked marked' : ℕ} {state state' : KvState α}

theorem Blocks.earlier {slot : CacheSlot α} {moment earlier : ℕ} (blocks : Blocks slot moment)
    (le : earlier ≤ moment) : Blocks slot earlier := by
  obtain ⟨deadline, held, stands⟩ := blocks
  exact ⟨deadline, held, le.trans stands⟩

theorem Advances.held (advances : Advances env marked state marked' state') {since : ℕ}
    {entry : Option (KvCachedItem α)} (held : Held state since entry) : Held state' since entry := by
  obtain ⟨version, recent, stored, same⟩ := held
  exact ⟨version, recent, stored.trans advances.version,
    same.trans (advances.contents version stored).symm⟩

theorem Advances.recent (advances : Advances env marked state marked' state') {answer : KvAnswer α}
    (recent : Recent state answer) : Recent state' answer := by
  obtain ⟨version, since, stored, same⟩ := recent
  refine ⟨version, since, stored.trans advances.version, ?_⟩
  rw [advances.contents version stored, same]

theorem Advances.excluded (advances : Advances env marked state marked' state') {startedAt version : ℕ}
    (started : startedAt ≤ state.clock) (excluded : Excluded env marked state startedAt version) :
    Excluded env marked' state' startedAt version := by
  have clock := advances.clock
  rcases advances.slot with off | fresh | ⟨rfl, keeps⟩
  · exact .inr (.inl off)
  · exact .inr (.inr (.inr (fresh.earlier (by omega))))
  · rcases excluded with recent | off | late | blocks
    · exact .inl recent
    · exact .inr (.inl off)
    · exact .inr (.inr (.inl (by omega)))
    · by_cases young : state'.clock ≤ startedAt + env.settings.blockMs
      · exact .inr (.inr (.inr (keeps _ young blocks)))
      · exact .inr (.inr (.inl (by omega)))

theorem Advances.fair (advances : Advances env marked state marked' state') {call : KvCall α}
    (fair : Fair env marked state call) : Fair env marked' state' call := by
  have markedGrows := advances.grows
  have clockGrows := advances.clock
  cases call with
  | lookup _ since | fetch _ since => exact le_trans fair markedGrows
  | read _ since startedAt => exact ⟨fair.1.trans markedGrows, fair.2.trans clockGrows⟩
  | populate _ since startedAt fetched =>
      obtain ⟨started, version, recent, stored, same, excluded⟩ := fair
      exact ⟨started.trans clockGrows, version, recent, stored.trans advances.version,
        same.trans (advances.contents version stored).symm, advances.excluded started excluded⟩
  | answer _ since entry _ => exact advances.held fair
  | invalidate version => exact le_trans fair advances.version
  | returns version => exact le_trans fair markedGrows
  | get _ | mutate _ | remoteInvalidation => trivial

theorem Advances.ofSameSlot (clock : state.clock ≤ state'.clock) (version : state.version ≤ state'.version)
    (contents : ∀ version, version ≤ state.version → state'.contents version = state.contents version)
    (slot : state'.slot = state.slot) : Advances env marked state marked state' :=
  ⟨clock, version, contents, le_rfl, .inr (.inr ⟨rfl, fun _ _ blocks => by rwa [slot]⟩)⟩

theorem caches_payload (fetched : Option (KvCachedItem α)) : Caches (env.payload fetched) fetched := by
  cases fetched with
  | none => exact ⟨_, rfl⟩
  | some item => exact ⟨_, rfl⟩

theorem cacheRead_eq_some {slot : CacheSlot α} {clock : ℕ} {entry : Option (KvCachedItem α)} {units : ℚ}
    (found : KvCacheEnv.cacheRead slot clock = some (entry, units)) :
    ∃ payload deadline, slot.held = some (payload, deadline) ∧ payload ≠ blockMarker ∧
      ∀ cached, Caches payload cached → cached = entry := by
  unfold KvCacheEnv.cacheRead at found
  rcases live : slot.get clock with _ | payload
  · simp [live] at found
  · obtain ⟨deadline, held, -⟩ := CacheSlot.get_eq_some live
    rw [live] at found
    refine ⟨payload, deadline, held, ?_, ?_⟩
    · rintro rfl
      simp at found
    · rintro cached ⟨readUnits, rfl⟩
      cases cached with
      | none => simp_all
      | some item =>
          simp only [decodeCachedRead_hit] at found
          split at found
          · cases found
          · simp_all

theorem cachePopulate_cases (env : KvCacheEnv α) (slot : CacheSlot α) (fetched : Option (KvCachedItem α))
    (startedAt clock : ℕ) :
    env.cachePopulate slot fetched startedAt clock = slot ∨
      clock - startedAt ≤ env.settings.blockMs ∧ ∃ ttl,
        env.cachePopulate slot fetched startedAt clock =
          slot.setNX (env.payload fetched) ttl clock := by
  unfold KvCacheEnv.cachePopulate
  split
  · exact .inl rfl
  · next young =>
      split
      · exact .inl rfl
      · next ttl _ =>
          split
          · exact .inl rfl
          · exact .inr ⟨by omega, ttl, rfl⟩

theorem Blocks.cachePopulate {slot : CacheSlot α} {fetched : Option (KvCachedItem α)}
    {startedAt clock moment : ℕ} (live : clock ≤ moment) (blocks : Blocks slot moment) :
    Blocks (env.cachePopulate slot fetched startedAt clock) moment := by
  obtain ⟨deadline, held, stands⟩ := blocks
  rcases cachePopulate_cases env slot fetched startedAt clock with same | ⟨-, ttl, written⟩
  · rw [same]
    exact ⟨deadline, held, stands⟩
  · rw [written, CacheSlot.setNX_of_live held (live.trans stands)]
    exact ⟨deadline, held, stands⟩

theorem blocks_invalidate (cacheable : env.cacheable = true) (slot : CacheSlot α) (clock : ℕ) :
    Blocks (env.invalidate slot clock) (clock + env.settings.blockMs) := by
  refine ⟨clock + max 1 env.settings.blockSeconds * 1000, ?_, ?_⟩
  · simp [KvCacheEnv.invalidate, cacheable, CacheSlot.set]
  · have window : env.settings.blockSeconds ≤ max 1 env.settings.blockSeconds := le_max_right _ _
    simp only [KvCacheSettings.blockMs]
    omega

/-- One step of one call keeps the state coherent, for the newest marker written by then, and hands its
    call on with what it may rely on. -/
structure Carries (env : KvCacheEnv α) (marked : ℕ) (state : KvState α)
    (after : KvState α × Option (KvCall α)) (marked' : ℕ) : Prop where
  advances : Advances env marked state marked' after.1
  coherent : Coherent env marked' after.1
  fair : ∀ call ∈ after.2, Fair env marked' after.1 call

theorem Carries.unchanged (coherent : Coherent env marked state) {call : KvCall α}
    (fair : Fair env marked state call) : Carries env marked state (state, some call) marked where
  advances := .ofSameSlot le_rfl le_rfl (fun _ _ => rfl) rfl
  coherent := coherent
  fair := by simpa using fair

theorem Carries.invalidated (coherent : Coherent env marked state) {index : ℕ}
    (index_le : index ≤ state.version) {next : Option (KvCall α)}
    (fair : ∀ call ∈ next, ∀ slot, Fair env (max marked index) { state with slot := slot } call) :
    Carries env marked state ({ state with slot := env.invalidate state.slot state.clock }, next)
      (max marked index) where
  advances :=
    { clock := le_rfl
      version := le_rfl
      contents := fun _ _ => rfl
      grows := le_max_left _ _
      slot := by
        rcases cacheable : env.cacheable with _ | _
        · exact .inl rfl
        · exact .inr (.inl (blocks_invalidate cacheable _ _)) }
  coherent :=
    { marked_le := max_le coherent.marked_le index_le
      returned_le := coherent.returned_le.trans (le_max_left _ _)
      idle := fun off => by simpa [KvCacheEnv.invalidate, off] using coherent.idle off
      slot := by
        intro payload deadline held
        rcases cacheable : env.cacheable with _ | _
        · simp [KvCacheEnv.invalidate, cacheable, coherent.idle cacheable] at held
        · simp only [KvCacheEnv.invalidate, cacheable, if_true, CacheSlot.set, Option.some.injEq,
            Prod.mk.injEq] at held
          exact .inl held.1.symm
      answers := coherent.answers }
  fair := fun call member => fair call member _

theorem Carries.populated (coherent : Coherent env marked state) {opts : GetOpts}
    (cacheable : env.cacheable = true) {since startedAt : ℕ} {fetched : Option (KvCachedItem α)}
    (fair : Fair env marked state (.populate opts since startedAt fetched)) {usage : KVUsage} :
    Carries env marked state
      ({ state with slot := env.cachePopulate state.slot fetched startedAt state.clock },
        some (.answer opts since fetched usage)) marked where
  advances :=
    { clock := le_rfl
      version := le_rfl
      contents := fun _ _ => rfl
      grows := le_rfl
      slot := .inr (.inr ⟨rfl, fun _ live blocks => blocks.cachePopulate live⟩) }
  coherent :=
    { marked_le := coherent.marked_le
      returned_le := coherent.returned_le
      idle := fun off => by simp [cacheable] at off
      slot := by
        intro payload deadline held
        obtain ⟨started, version, recent, stored, same, excluded⟩ := fair
        rcases cachePopulate_cases env state.slot fetched startedAt state.clock with
          kept | ⟨young, ttl, written⟩
        · exact coherent.slot payload deadline (by rwa [kept] at held)
        rcases CacheSlot.setNX_cases state.slot (env.payload fetched) ttl state.clock with
          kept | put
        · exact coherent.slot payload deadline (by rwa [written, kept] at held)
        rcases excluded with current | off | late | ⟨stands, marker, live⟩
        · rw [written, put] at held
          obtain ⟨rfl, -⟩ : env.payload fetched = payload ∧ _ := by
            simpa [CacheSlot.set] using held
          exact .inr ⟨version, current, stored, same ▸ caches_payload fetched⟩
        · simp [cacheable] at off
        · omega
        · -- The marker stands, so the write does not land.
          rw [written, CacheSlot.setNX_of_live marker (by omega)] at held
          exact coherent.slot payload deadline held
      answers := coherent.answers }
  fair := by
    obtain ⟨-, version, recent, stored, same, -⟩ := fair
    rintro call ⟨⟩
    exact ⟨version, recent, stored, same⟩

theorem perform_keeps (coherent : Coherent env marked state) {call : KvCall α}
    (fair : Fair env marked state call) :
    ∃ marked', Carries env marked state (call.perform env state) marked' := by
  cases call with
  | get opts => exact ⟨marked, .unchanged coherent coherent.returned_le⟩
  | lookup opts since =>
      simp only [KvCall.perform]
      split
      · split
        · next entry units found =>
            obtain ⟨payload, deadline, held, notMarker, cached⟩ := cacheRead_eq_some found
            rcases coherent.slot payload deadline held with marker | ⟨version, recent, stored, caches⟩
            · exact absurd marker notMarker
            · exact ⟨marked, .unchanged coherent
                ⟨version, le_trans fair recent, stored, (cached _ caches).symm⟩⟩
        · exact ⟨marked, .unchanged coherent fair⟩
      · exact ⟨marked, .unchanged coherent fair⟩
  | fetch opts since => exact ⟨marked, .unchanged coherent ⟨fair, le_rfl⟩⟩
  | read opts since startedAt =>
      exact ⟨marked, .unchanged coherent ⟨fair.2, state.version, fair.1.trans coherent.marked_le,
        le_rfl, rfl, .inl coherent.marked_le⟩⟩
  | populate opts since startedAt fetched =>
      simp only [KvCall.perform]
      split
      · next uses =>
          have cacheable : env.cacheable = true := by
            simp only [KvCacheEnv.useCache, Bool.and_eq_true] at uses
            exact uses.2
          exact ⟨marked, .populated coherent cacheable fair⟩
      · obtain ⟨-, version, recent, stored, same, -⟩ := fair
        exact ⟨marked, .unchanged coherent ⟨version, recent, stored, same⟩⟩
  | answer opts since entry usage =>
      refine ⟨marked, .ofSameSlot le_rfl le_rfl (fun _ _ => rfl) rfl, ?_, by simp [KvCall.perform]⟩
      refine ⟨coherent.marked_le, coherent.returned_le, coherent.idle, coherent.slot, ?_⟩
      intro answer member
      rcases List.mem_cons.mp member with rfl | before
      · obtain ⟨version, recent, stored, same⟩ := fair
        exact ⟨version, recent, stored, by rw [same]; rfl⟩
      · exact coherent.answers answer before
  | mutate change =>
      have advances : Advances env marked state marked
          (KvCall.perform env state (.mutate change)).1 := by
        refine .ofSameSlot le_rfl (Nat.le_succ _) (fun version stored => ?_) rfl
        exact Function.update_of_ne (by omega) _ _
      refine ⟨marked, advances, ?_, ?_⟩
      · refine ⟨coherent.marked_le.trans (Nat.le_succ _), coherent.returned_le, coherent.idle, ?_, ?_⟩
        · intro payload deadline held
          rcases coherent.slot payload deadline held with marker | ⟨version, recent, stored, caches⟩
          · exact .inl marker
          · refine .inr ⟨version, recent, stored.trans (Nat.le_succ _), ?_⟩
            rw [advances.contents version stored]
            exact caches
        · intro answer member
          exact advances.recent (coherent.answers answer member)
      · rintro call ⟨⟩
        exact le_rfl
  | invalidate index =>
      refine ⟨max marked index, .invalidated coherent fair ?_⟩
      rintro call ⟨⟩ slot
      exact le_max_right _ _
  | returns index =>
      refine ⟨marked, .ofSameSlot le_rfl le_rfl (fun _ _ => rfl) rfl, ?_, by simp [KvCall.perform]⟩
      exact ⟨coherent.marked_le, max_le coherent.returned_le fair, coherent.idle, coherent.slot,
        coherent.answers⟩
  | remoteInvalidation =>
      refine ⟨max marked 0, .invalidated coherent (Nat.zero_le _) ?_⟩
      rintro call ⟨⟩

theorem Coherent.later (coherent : Coherent env marked state) (now : ℕ) :
    Coherent env marked { state with clock := now } :=
  ⟨coherent.marked_le, coherent.returned_le, coherent.idle, coherent.slot, coherent.answers⟩

end Advance

/-- The invariant of runs: for the newest marker written, the state is coherent and every call in flight
    may go on. -/
def Safe (env : KvCacheEnv α) (config : Interleaving.Config (KvState α) (KvCall α)) : Prop :=
  ∃ marked, Coherent env marked config.shared ∧ ∀ call ∈ config.inFlight, Fair env marked config.shared call

theorem safe_step {env : KvCacheEnv α} {before after : Interleaving.Config (KvState α) (KvCall α)}
    (safe : Safe env before) (step : Interleaving.Step (kvSystem env) before after) :
    Safe env after := by
  obtain ⟨marked, coherent, fair⟩ := safe
  cases step with
  | @issue _ call starts =>
      refine ⟨marked, coherent, ?_⟩
      intro other member
      rcases List.mem_cons.mp member with rfl | inFlight
      · cases starts <;> trivial
      · exact fair other inFlight
  | @advance state state' earlier later call next _ atom =>
      obtain ⟨now, passes, ran⟩ := atom
      have waited : Advances env marked state marked { state with clock := now } :=
        .ofSameSlot passes le_rfl (fun _ _ => rfl) rfl
      obtain ⟨marked', keeps⟩ := perform_keeps (coherent.later now)
        (waited.fair (fair call (List.mem_append_right _ List.mem_cons_self)))
      rw [ran] at keeps
      refine ⟨marked', keeps.coherent, ?_⟩
      intro other member
      have others : other ∈ next ∨ other ∈ earlier ∨ other ∈ later := by
        simp only [List.mem_append, Option.mem_toList] at member
        tauto
      rcases others with continues | inEarlier | inLater
      · exact keeps.fair other continues
      · exact keeps.advances.fair (waited.fair (fair other (List.mem_append_left _ inEarlier)))
      · exact keeps.advances.fair (waited.fair
          (fair other (List.mem_append_right _ (List.mem_cons_of_mem _ inLater))))

/-- A get that starts after a mutation returned answers with what that mutation left or with what a later
    one did, in every interleaving of gets and mutations. -/
theorem get_answers_recent {env : KvCacheEnv α} {stored : Option (KvCachedItem α)} {clock : ℕ}
    {config : Interleaving.Config (KvState α) (KvCall α)}
    (run : Interleaving.Run (kvSystem env) ⟨.cold stored clock, []⟩ config) :
    ∀ answer ∈ config.shared.answers, Recent config.shared answer := by
  have cold : Safe env ⟨.cold stored clock, []⟩ := by
    refine ⟨0, ⟨le_rfl, le_rfl, fun _ => rfl, ?_, ?_⟩, ?_⟩
    · rintro payload deadline ⟨⟩
    · rintro answer ⟨⟩
    · rintro call ⟨⟩
  obtain ⟨marked, coherent, -⟩ := Interleaving.run_preserves run cold fun _ _ => safe_step
  exact coherent.answers

section SlowReader

def slowReaderEnv : KvCacheEnv ℕ := ⟨⟨60, 10, 5, 32768⟩, true, fun _ => 0, fun _ => 1⟩

def plainItem (value : ℕ) : Option (KvCachedItem ℕ) := some ⟨some value, none, false⟩

/-- A reader fetches 1, a set of 2 runs from start to end, the reader then tries to cache its 1 and
    answers. A get after that finds the marker, reads through and answers 2. -/
theorem slowReader_is_kept_out :
    ∃ config, Interleaving.Run (kvSystem slowReaderEnv) ⟨.cold (plainItem 1) 0, []⟩ config ∧
      config.shared.answers.map KvAnswer.res = [some 2, some 1] ∧
      ∀ answer ∈ config.shared.answers, Recent config.shared answer := by
  have gets : (kvSystem slowReaderEnv).issues (.get ⟨false, false⟩) := KvCall.Starts.get
  have sets : (kvSystem slowReaderEnv).issues (.mutate fun _ => plainItem 2) := KvCall.Starts.mutate
  have run : Interleaving.Run (kvSystem slowReaderEnv) ⟨.cold (plainItem 1) 0, []⟩ _ :=
    -- The slow reader, up to its store read.
    .head (.issue gets) <|
    .head (.goesOn trivial ⟨1, by decide, rfl⟩) <|
    .head (.goesOn trivial ⟨2, by decide, rfl⟩) <|
    .head (.goesOn trivial ⟨3, by decide, rfl⟩) <|
    .head (.goesOn trivial ⟨4, by decide, rfl⟩) <|
    -- The set.
    .head (.issue sets) <|
    .head (.goesOn trivial ⟨5, by decide, rfl⟩) <|
    .head (.goesOn trivial ⟨6, by decide, rfl⟩) <|
    .head (.completes trivial ⟨7, by decide, rfl⟩) <|
    -- The slow reader goes on.
    .head (.goesOn trivial ⟨8, by decide, rfl⟩) <|
    .head (.completes trivial ⟨9, by decide, rfl⟩) <|
    -- The get after the set.
    .head (.issue gets) <|
    .head (.goesOn trivial ⟨10, by decide, rfl⟩) <|
    .head (.goesOn trivial ⟨11, by decide, rfl⟩) <|
    .head (.goesOn trivial ⟨12, by decide, rfl⟩) <|
    .head (.goesOn trivial ⟨13, by decide, rfl⟩) <|
    .head (.goesOn trivial ⟨14, by decide, rfl⟩) <|
    .single (.completes trivial ⟨15, by decide, rfl⟩)
  exact ⟨_, run, rfl, get_answers_recent run⟩

end SlowReader

end Puter

/-
Module: Puter.Metering.BufferConservation
Purpose: No usage is lost in the metering buffer: over every run, what the KV store, the deltas and the live
  claims hold is at least what was counted, and as long as nothing was overtaken it is exactly that, once
  a batch that is written and still on its claim is counted once. Every counter with a delta can be found
  by a flush, and no claim is ever recorded as lost.
Trusted boundary: none
Main exports: claimed, buffer_conserves
-/
import Puter.Metering.MeteringBuffer

namespace Puter

open Interleaving MeteringBufferStore

namespace BufferState

def liveOn (s : BufferState) (key : String) (nonce : ℕ) : Prop :=
  (s.cache.pending nonce).isSome ∧ ∃ entry, s.cache.pendingIndex nonce = some entry ∧ entry.key = key

instance (s : BufferState) (key : String) (nonce : ℕ) : Decidable (s.liveOn key nonce) :=
  decidable_of_iff ((s.cache.pending nonce).isSome ∧
    (s.cache.pendingIndex nonce).any (fun entry => entry.key = key)) (by
      unfold liveOn
      cases s.cache.pendingIndex nonce with
      | none => simp
      | some entry => simp)

def carried (s : BufferState) (nonce : ℕ) (path : String) : ℚ :=
  ((s.cache.pending nonce).map fun claim => claim.amounts.amount path).getD 0

def claimed (s : BufferState) (key path : String) : ℚ :=
  ∑ nonce ∈ Finset.range s.nextNonce, if s.liveOn key nonce then s.carried nonce path else 0

def untrimmed (s : BufferState) (key path : String) : ℚ :=
  ∑ nonce ∈ Finset.range s.nextNonce,
    if s.liveOn key nonce then (s.trace.untrimmed nonce).amount path else 0

def due (s : BufferState) (key path : String) (nonce : ℕ) : ℚ :=
  if s.liveOn key nonce then s.carried nonce path - (s.trace.untrimmed nonce).amount path else 0

def surplus (s : BufferState) (key path : String) : ℚ :=
  (s.kv key).amount path + (s.cache.delta key).amount path +
    (∑ nonce ∈ Finset.range s.nextNonce, s.due key path nonce) - s.trace.made key path

theorem sum_due (s : BufferState) (key path : String) :
    ∑ nonce ∈ Finset.range s.nextNonce, s.due key path nonce =
      s.claimed key path - s.untrimmed key path := by
  unfold claimed untrimmed
  rw [← Finset.sum_sub_distrib]
  refine Finset.sum_congr rfl fun nonce _ => ?_
  unfold due
  split
  · rfl
  · exact (sub_zero 0).symm

end BufferState

/-- A counter with a delta is tracked, and on the dirty set or in flight. Its amounts are not negative. -/
structure Found (c : MeterCache) : Prop where
  working : ∀ key, (c.delta key).keys ≠ ∅ → key ∈ c.dirty ∨ key ∈ c.inflight
  tracked : ∀ key, (c.delta key).keys ≠ ∅ → key ∈ c.tracked
  nonneg : ∀ key path, 0 ≤ (c.delta key).amount path

/-- The pointers of the cache lead to the amounts: to those of a delta, and to a claim just when it is
    there. Nothing is known of nonces that are not drawn, and no claim was recorded as lost. -/
structure Pointed (s : BufferState) : Prop where
  found : Found s.cache
  entry : ∀ nonce, (s.cache.pending nonce).isSome = (s.cache.pendingIndex nonce).isSome
  undrawn : ∀ nonce, s.nextNonce ≤ nonce →
    s.cache.pending nonce = none ∧ ∀ path, (s.trace.untrimmed nonce).amount path = 0
  claims : ∀ nonce claim, s.cache.pending nonce = some claim → ∀ path, 0 ≤ claim.amounts.amount path
  batches : ∀ nonce path, 0 ≤ (s.trace.untrimmed nonce).amount path
  noneLost : s.trace.lostClaims = []

/-- Nothing is lost, and nothing on a counter counts twice unless a claim on it was overtaken. -/
structure Conserved (s : BufferState) : Prop where
  bounded : ∀ key path, 0 ≤ s.surplus key path
  exact : ∀ key, s.InTurn key → ∀ path, s.surplus key path = 0

namespace BufferCall

def held : BufferCall → Multiset ℕ
  | settling _ nonce _ _ _ => {nonce}
  | trimming _ nonce _ _ _ _ => {nonce}
  | _ => 0

def takenOver : BufferCall → Multiset ℕ
  | settleOrphan _ nonce => {nonce}
  | _ => 0

end BufferCall

/-- A claim is on a counter, as long as there is an entry for it. -/
structure Keyed (s : BufferState) (key : String) (nonce : ℕ) : Prop where
  drawn : nonce < s.nextNonce
  keyed : ∀ entry, s.cache.pendingIndex nonce = some entry → entry.key = key

/-- A claim that is being settled holds, while it is live, the amounts of the paths that are left, of which
    those of a batch are written. -/
structure Holding (s : BufferState) (key : String) (nonce : ℕ) (amounts : FlatAmounts)
    (left batch : List String) : Prop extends Keyed s key nonce where
  nonneg : ∀ path, 0 ≤ amounts.amount path
  nodup : left.Nodup
  carries : ∀ claim, s.cache.pending nonce = some claim →
    ∀ path, claim.amounts.amount path = if path ∈ left then amounts.amount path else 0
  written : ∀ path, (s.trace.untrimmed nonce).amount path = (amounts.pick batch).amount path

namespace BufferCall

/-- What a call relies on. -/
def Fits (s : BufferState) : BufferCall → Prop
  | incr _ amounts => ∀ path, 0 ≤ amounts.amount path
  | incrementing _ _ amounts => ∀ path, 0 ≤ amounts.amount path
  | fetching _ _ amounts _ => ∀ path, 0 ≤ amounts.amount path
  | seeding _ _ amounts _ _ => ∀ path, 0 ≤ amounts.amount path
  | answered _ _ amounts _ => ∀ path, 0 ≤ amounts.amount path
  | settleOrphan key nonce => Keyed s key nonce
  | settling key nonce amounts batches _ => Holding s key nonce amounts batches.flatten []
  | trimming key nonce amounts batch batches _ =>
      Holding s key nonce amounts (batch ++ batches.flatten) batch
  | _ => True

end BufferCall

/-- How far a step leaves the claims that are drawn alone: no entry changes but to go, and those that it
    does not touch are as they were, but for those taken over, which are gone. -/
structure Aside (touched taken : Multiset ℕ) (s s' : BufferState) : Prop where
  drawn : s.nextNonce ≤ s'.nextNonce
  index : ∀ nonce, nonce < s.nextNonce →
    s'.cache.pendingIndex nonce = s.cache.pendingIndex nonce ∨ s'.cache.pendingIndex nonce = none
  pending : ∀ nonce, nonce < s.nextNonce → nonce ∉ touched →
    s'.cache.pending nonce = s.cache.pending nonce ∨
      nonce ∈ taken ∧ s'.cache.pending nonce = none
  untrimmed : ∀ nonce, nonce < s.nextNonce → nonce ∉ touched →
    s'.trace.untrimmed nonce = s.trace.untrimmed nonce

section Frame

variable {s s' : BufferState} {key : String} {nonce : ℕ} {amounts : FlatAmounts}
  {left batch : List String} {touched taken : Multiset ℕ}

theorem Keyed.aside (keyed : Keyed s key nonce) (aside : Aside touched taken s s') : Keyed s' key nonce := by
  refine ⟨keyed.drawn.trans_le aside.drawn, fun entry isEntry => ?_⟩
  rcases aside.index nonce keyed.drawn with same | gone
  · exact keyed.keyed entry (same ▸ isEntry)
  · rw [gone] at isEntry
    cases isEntry

theorem Holding.aside (holding : Holding s key nonce amounts left batch) (aside : Aside touched taken s s')
    (untouched : nonce ∉ touched) : Holding s' key nonce amounts left batch := by
  refine ⟨holding.toKeyed.aside aside, holding.nonneg, holding.nodup, fun claim isClaim => ?_, ?_⟩
  · rcases aside.pending nonce holding.drawn untouched with same | ⟨-, gone⟩
    · exact holding.carries claim (same ▸ isClaim)
    · rw [gone] at isClaim
      cases isClaim
  · rw [aside.untrimmed nonce holding.drawn untouched]
    exact holding.written

theorem BufferCall.Fits.aside {call : BufferCall} (fits : call.Fits s) (aside : Aside touched taken s s')
    (untouched : ∀ nonce ∈ call.held, nonce ∉ touched) : call.Fits s' := by
  cases call with
  | settleOrphan key nonce => exact Keyed.aside fits aside
  | settling key nonce amounts batches settled =>
      exact Holding.aside fits aside (untouched nonce (Multiset.mem_singleton_self nonce))
  | trimming key nonce amounts batch batches settled =>
      exact Holding.aside fits aside (untouched nonce (Multiset.mem_singleton_self nonce))
  | incr key amounts => exact fits
  | incrementing floor key amounts => exact fits
  | fetching watch key amounts delta => exact fits
  | seeding watch key amounts delta persisted => exact fits
  | answered watch key amounts res => exact fits
  | _ => trivial

end Frame

section Found

variable {c : MeterCache} {key : String}

theorem Found.incr (found : Found c) {amounts : FlatAmounts} (nonneg : ∀ path, 0 ≤ amounts.amount path) :
    Found (c.incr key amounts) := by
  refine ⟨fun other filled => ?_, fun other filled => ?_, fun other path => ?_⟩
  · by_cases same : other = key
    · exact .inl (same ▸ Finset.mem_insert_self key c.dirty)
    · simp only [MeterCache.incr, Function.update_of_ne same] at filled
      exact (found.working other filled).imp_left Finset.mem_insert_of_mem
  · by_cases same : other = key
    · exact same ▸ Finset.mem_insert_self key c.tracked
    · simp only [MeterCache.incr, Function.update_of_ne same] at filled
      exact Finset.mem_insert_of_mem (found.tracked other filled)
  · by_cases same : other = key
    · simp only [MeterCache.incr, same, Function.update_self, Tally.amount_merge]
      exact add_nonneg (found.nonneg key path) (nonneg path)
    · simp only [MeterCache.incr, Function.update_of_ne same]
      exact found.nonneg other path

theorem Found.putBack (found : Found c) (env : BufferEnv) (tag cutoff : ℕ) :
    Found (c.putBack env tag cutoff) := by
  refine ⟨fun other filled => ?_, found.tracked, found.nonneg⟩
  simp only [MeterCache.putBack, Finset.mem_union, Finset.mem_sdiff]
  rcases found.working other filled with dirty | inflight
  · exact .inl (.inl dirty)
  · by_cases abandoned : other ∈ c.inflight.filter fun key =>
        env.bucketTag key = tag ∧ c.takenAt key ≤ cutoff
    · exact .inl (.inr abandoned)
    · exact .inr ⟨inflight, abandoned⟩

theorem Found.take (found : Found c) (taken : Finset String) (now : ℕ) : Found (c.take taken now) := by
  refine ⟨fun other filled => ?_, found.tracked, found.nonneg⟩
  simp only [MeterCache.take, Finset.mem_union, Finset.mem_sdiff]
  by_cases isTaken : other ∈ taken
  · exact .inr (.inr isTaken)
  · exact (found.working other filled).imp (fun dirty => ⟨dirty, isTaken⟩) .inl

theorem Found.claim (found : Found c) {pending : ℕ → Option PendingClaim}
    {pendingIndex : ℕ → Option PendingEntry} :
    Found { c with
      inflight := c.inflight.erase key
      delta := Function.update c.delta key .empty
      pending := pending
      pendingIndex := pendingIndex } := by
  refine ⟨fun other filled => ?_, fun other filled => ?_, fun other path => ?_⟩
  · by_cases same : other = key
    · simp [same] at filled
    · simp only [Function.update_of_ne same] at filled
      exact (found.working other filled).imp_right (Finset.mem_erase_of_ne_of_mem same)
  · by_cases same : other = key
    · simp [same] at filled
    · simp only [Function.update_of_ne same] at filled
      exact found.tracked other filled
  · by_cases same : other = key
    · simp [same]
    · simp only [Function.update_of_ne same]
      exact found.nonneg other path

theorem Found.land (found : Found c) (none : (c.delta key).keys = ∅) :
    Found { c with inflight := c.inflight.erase key } := by
  refine ⟨fun other filled => ?_, found.tracked, found.nonneg⟩
  have different : other ≠ key := fun same => filled (same ▸ none)
  exact (found.working other filled).imp_right (Finset.mem_erase_of_ne_of_mem different)

theorem Found.retire (found : Found c) (nonce : ℕ) : Found (c.retire key nonce) := by
  refine ⟨found.working, fun other filled => ?_, found.nonneg⟩
  have isTracked := found.tracked other filled
  unfold MeterCache.retire
  dsimp only
  split
  next none =>
    have different : other ≠ key := fun same => filled (same ▸ none)
    exact Finset.mem_erase_of_ne_of_mem different isTracked
  · exact isTracked

theorem Found.reconcile (found : Found c) (env : BufferEnv) (tag : ℕ) : Found (c.reconcile env tag) := by
  refine ⟨fun other filled => ?_, fun other filled => ?_, found.nonneg⟩
  · exact (found.working other filled).imp_left (Finset.mem_union_left _)
  · refine Finset.mem_sdiff.mpr ⟨found.tracked other filled, fun forgotten => ?_⟩
    exact filled (Finset.mem_filter.mp forgotten).2

end Found

theorem Pointed.retire {s : BufferState} (pointed : Pointed s) {key : String} {nonce : ℕ} :
    Pointed { s with cache := s.cache.retire key nonce } := by
  refine ⟨pointed.found.retire nonce, fun n => ?_, fun n later => ?_, fun n other isOther => ?_,
    pointed.batches, pointed.noneLost⟩
  · rw [s.cache.retire_pending, s.cache.retire_pendingIndex]
    split
    · rfl
    · exact pointed.entry n
  · refine ⟨?_, (pointed.undrawn n later).2⟩
    rw [s.cache.retire_pending]
    split
    · rfl
    · exact (pointed.undrawn n later).1
  · rw [s.cache.retire_pending] at isOther
    split at isOther
    · cases isOther
    · exact pointed.claims n other isOther

section Steps

variable {env : BufferEnv} {s s' : BufferState} {call : BufferCall} {next : Option BufferCall}

theorem bufferStep_aside (step : BufferStep env s call s' next) : Aside call.held call.takenOver s s' := by
  have old : ∀ {n : ℕ}, n < s.nextNonce → n ≠ s.nextNonce := fun drawn => Nat.ne_of_lt drawn
  cases step with
  | claim filled _ _ =>
      refine ⟨Nat.le_succ _, fun n drawn => .inl ?_, fun n drawn _ => .inl ?_, fun _ _ _ => rfl⟩
      · rw [BufferState.claim_pendingIndex filled, if_neg (old drawn)]
      · rw [BufferState.claim_pending filled, if_neg (old drawn)]
  | claimNothing none =>
      refine ⟨Nat.le_succ _, fun n _ => .inl ?_, fun n _ _ => .inl ?_, fun _ _ _ => rfl⟩
      · rw [BufferState.claim_cache_none none]
      · rw [BufferState.claim_cache_none none]
  | @reclaim key nonce now claim paths isClaim _ _ =>
      refine ⟨Nat.le_succ _, fun n drawn => ?_, fun n drawn _ => ?_, fun _ _ _ => rfl⟩
      · rw [BufferState.reclaim_pendingIndex isClaim, if_neg (old drawn)]
        exact (ite_eq_or_eq _ _ _).symm
      · rw [BufferState.reclaim_pending isClaim, if_neg (old drawn)]
        split
        next same => exact .inr ⟨Multiset.mem_singleton.mpr same, rfl⟩
        · exact .inl rfl
  | @reclaimNothing key nonce now none =>
      refine ⟨Nat.le_succ _, fun n _ => ?_, fun n _ _ => .inl ?_, fun _ _ _ => rfl⟩
      · simp only [BufferState.reclaim, MeterCache.reclaim, none, Function.update_apply]
        exact (ite_eq_or_eq _ _ _).symm
      · simp [BufferState.reclaim, MeterCache.reclaim, none]
  | @write key nonce amounts batch batches settled =>
      refine ⟨le_refl _, fun _ _ => .inl rfl, fun _ _ _ => .inl rfl, fun n _ untouched => ?_⟩
      rw [BufferState.write_untrimmed, if_neg (mt Multiset.mem_singleton.mpr untouched)]
  | @trim key nonce amounts settled batch batches =>
      refine ⟨le_refl _, fun _ _ => .inl rfl, fun n _ untouched => .inl ?_, fun n _ untouched => ?_⟩
      · rw [BufferState.trim_pending, if_neg (mt Multiset.mem_singleton.mpr untouched)]
      · rw [BufferState.trim_untrimmed, if_neg (mt Multiset.mem_singleton.mpr untouched)]
  | @settle key nonce amounts settled =>
      refine ⟨le_refl _, fun n _ => ?_, fun n _ untouched => .inl ?_, fun _ _ _ => rfl⟩
      · exact (s.cache.retire_pendingIndex key nonce n).symm ▸ (ite_eq_or_eq _ _ _).symm
      · exact (s.cache.retire_pending key nonce n).trans
          (if_neg (mt Multiset.mem_singleton.mpr untouched))
  | @retire key nonce amounts =>
      refine ⟨le_refl _, fun n _ => ?_, fun n _ untouched => .inl ?_, fun _ _ _ => rfl⟩
      · exact (s.cache.retire_pendingIndex key nonce n).symm ▸ (ite_eq_or_eq _ _ _).symm
      · exact (s.cache.retire_pending key nonce n).trans
          (if_neg (mt Multiset.mem_singleton.mpr untouched))
  | @seed watch key amounts delta persisted =>
      rw [s.cache.seed_claims key persisted]
      exact ⟨le_refl _, fun _ _ => .inl rfl, fun _ _ _ => .inl rfl, fun _ _ _ => rfl⟩
  | _ => exact ⟨le_refl _, fun _ _ => .inl rfl, fun _ _ _ => .inl rfl, fun _ _ _ => rfl⟩

theorem Holding.start {amounts : FlatAmounts} {key : String} {nonce : ℕ} {paths : List String}
    (keyed : Keyed s key nonce) (nonneg : ∀ path, 0 ≤ amounts.amount path) (nodup : paths.Nodup)
    (whole : paths.toFinset = amounts.keys)
    (carries : ∀ claim, s.cache.pending nonce = some claim → claim.amounts = amounts)
    (written : ∀ path, (s.trace.untrimmed nonce).amount path = 0) :
    (BufferCall.settle env key nonce amounts paths).Fits s := by
  have left : (chunkPathsForIncr env paths).flatten = paths := chunkPathsForIncr_flatten env paths
  refine ⟨keyed, nonneg, left.symm ▸ nodup, fun claim isClaim path => ?_, fun path => ?_⟩
  · rw [carries claim isClaim, left]
    split
    · rfl
    next absent =>
      exact amounts.amount_outside path fun present =>
        absent (List.mem_toFinset.mp (whole.symm ▸ present))
  · rw [written]
    rfl

theorem bufferStep_fits (step : BufferStep env s call s' next) (pointed : Pointed s)
    (fits : call.Fits s) : ∀ call', next = some call' → call'.Fits s' := by
  intro call' isNext
  cases step with
  | startIncr =>
      cases isNext
      exact fits
  | @listOrphan tag now nonce entry isEntry _ _ =>
      cases isNext
      refine ⟨?_, fun other isOther => ?_⟩
      · by_contra undrawn
        have gone := (pointed.undrawn nonce (not_lt.mp undrawn)).1
        have here := pointed.entry nonce
        rw [gone, isEntry] at here
        cases here
      · rw [isEntry] at isOther
        cases isOther
        rfl
  | @reclaim key nonce now claim paths isClaim nodup whole =>
      cases isNext
      refine Holding.start ⟨Nat.lt_succ_self _, fun entry isEntry => ?_⟩ (pointed.claims nonce claim isClaim)
        nodup whole (fun other isOther => ?_) (pointed.undrawn _ (le_refl _)).2
      · rw [BufferState.reclaim_pendingIndex isClaim, if_pos rfl] at isEntry
        cases isEntry
        rfl
      · rw [BufferState.reclaim_pending isClaim, if_pos rfl] at isOther
        cases isOther
        rfl
  | @claim key now paths filled nodup whole =>
      cases isNext
      refine Holding.start ⟨Nat.lt_succ_self _, fun entry isEntry => ?_⟩ (pointed.found.nonneg key) nodup whole
        (fun other isOther => ?_) (pointed.undrawn _ (le_refl _)).2
      · rw [BufferState.claim_pendingIndex filled, if_pos rfl] at isEntry
        cases isEntry
        rfl
      · rw [BufferState.claim_pending filled, if_pos rfl] at isOther
        cases isOther
        rfl
  | @write key nonce amounts batch batches settled =>
      cases isNext
      obtain ⟨keyed, nonneg, nodup, carries, -⟩ := fits
      refine ⟨⟨keyed.drawn, keyed.keyed⟩, nonneg, nodup, carries, fun path => ?_⟩
      rw [BufferState.write_untrimmed, if_pos rfl]
  | @trim key nonce amounts settled batch batches =>
      cases isNext
      obtain ⟨keyed, nonneg, nodup, carries, -⟩ := fits
      obtain ⟨-, nodup', apart⟩ := List.nodup_append.mp nodup
      refine ⟨⟨keyed.drawn, keyed.keyed⟩, nonneg, nodup', fun claim isClaim path => ?_, fun path => ?_⟩
      · rw [BufferState.trim_pending, if_pos rfl, Option.map_eq_some_iff] at isClaim
        obtain ⟨before, isBefore, rfl⟩ := isClaim
        simp only [Tally.amount_drop, carries before isBefore, List.mem_append]
        by_cases inBatch : path ∈ batch
        · have notLater : path ∉ batches.flatten := fun later => apart path inBatch path later rfl
          rw [if_pos inBatch, if_neg notLater]
        · simp [inBatch]
      · rw [BufferState.trim_untrimmed, if_pos rfl]
        simp [Tally.amount_pick]
  | incr => cases isNext; exact fits
  | incrUnseeded => cases isNext; exact fits
  | fetch => cases isNext; exact fits
  | seed => cases isNext; exact fits
  | startGet => cases isNext; trivial
  | read => cases isNext; exact fun _ => le_refl 0
  | readUnseeded => cases isNext; trivial
  | readThrough => cases isNext; exact fun _ => le_refl 0
  | _ => cases isNext

theorem bufferStep_pointed (step : BufferStep env s call s' next) (pointed : Pointed s)
    (fits : call.Fits s) : Pointed s' := by
  obtain ⟨found, entry, undrawn, claims, batches, noneLost⟩ := pointed
  cases step with
  | incr _ => exact ⟨found.incr fits, entry, undrawn, claims, batches, noneLost⟩
  | incrUnseeded _ => exact ⟨found.incr fits, entry, undrawn, claims, batches, noneLost⟩
  | @seed watch key amounts delta persisted =>
      rw [s.cache.seed_claims key persisted]
      exact ⟨⟨found.working, found.tracked, found.nonneg⟩, entry, undrawn, claims, batches, noneLost⟩
  | drain _ _ => exact ⟨(found.putBack _ _ _).take _ _, entry, undrawn, claims, batches, noneLost⟩
  | @reclaim key nonce now claim paths isClaim nodup whole =>
      have drawn : nonce < s.nextNonce := fits.drawn
      refine ⟨?_, fun n => ?_, fun n later => ⟨?_, fun path => ?_⟩, fun n other isOther => ?_, batches, ?_⟩
      · rw [BufferState.reclaim_cache isClaim]
        exact ⟨found.working, found.tracked, found.nonneg⟩
      · rw [BufferState.reclaim_pending isClaim, BufferState.reclaim_pendingIndex isClaim]
        split
        · rfl
        · split
          · rfl
          · exact entry n
      · have above : s.nextNonce < n := later
        rw [BufferState.reclaim_pending isClaim, if_neg (Nat.ne_of_gt above),
          if_neg (Nat.ne_of_gt (drawn.trans above))]
        exact (undrawn n above.le).1
      · exact (undrawn n (Nat.le_of_succ_le later)).2 path
      · rw [BufferState.reclaim_pending isClaim] at isOther
        split at isOther
        · cases isOther
          exact claims nonce claim isClaim
        · split at isOther
          · cases isOther
          · exact claims n other isOther
      · simp [BufferState.reclaim, isClaim, noneLost]
  | @reclaimNothing key nonce now none =>
      have gone : s.cache.pendingIndex nonce = Option.none := by
        have here := entry nonce
        rw [none] at here
        exact Option.not_isSome_iff_eq_none.mp (by simp [← here])
      have same : Function.update s.cache.pendingIndex nonce Option.none = s.cache.pendingIndex :=
        Function.update_eq_self_iff.mpr gone.symm
      have cache : (s.reclaim nonce key now).cache = s.cache := by
        simp [BufferState.reclaim, MeterCache.reclaim, none, same]
      refine ⟨cache ▸ found, cache ▸ entry, fun n later => ?_, cache ▸ claims, batches, ?_⟩
      · rw [cache]
        exact undrawn n (Nat.le_of_succ_le later)
      · simp [BufferState.reclaim, gone, noneLost]
  | @claim key now paths filled nodup whole =>
      refine ⟨?_, fun n => ?_, fun n later => ⟨?_, fun path => ?_⟩, fun n other isOther => ?_, batches,
        noneLost⟩
      · rw [BufferState.claim_cache filled]
        exact found.claim
      · rw [BufferState.claim_pending filled, BufferState.claim_pendingIndex filled]
        split
        · rfl
        · exact entry n
      · have above : s.nextNonce < n := later
        rw [BufferState.claim_pending filled, if_neg (Nat.ne_of_gt above)]
        exact (undrawn n above.le).1
      · exact (undrawn n (Nat.le_of_succ_le later)).2 path
      · rw [BufferState.claim_pending filled] at isOther
        split at isOther
        · cases isOther
          exact found.nonneg key
        · exact claims n other isOther
  | @claimNothing key now none =>
      have cache := @BufferState.claim_cache_none s key now none
      refine ⟨?_, ?_, fun n later => ?_, ?_, batches, noneLost⟩
      · exact cache ▸ found.land none
      · exact cache ▸ entry
      · exact cache ▸ undrawn n (Nat.le_of_succ_le later)
      · exact cache ▸ claims
  | @write key nonce amounts batch batches' settled =>
      have drawn : nonce < s.nextNonce := fits.drawn
      refine ⟨found, entry, fun n later => ⟨(undrawn n later).1, fun path => ?_⟩, claims,
        fun n path => ?_, noneLost⟩
      · rw [BufferState.write_untrimmed, if_neg (Nat.ne_of_gt (drawn.trans_le later))]
        exact (undrawn n later).2 path
      · rw [BufferState.write_untrimmed]
        split
        · rw [Tally.amount_pick]
          split
          · exact fits.nonneg path
          · exact le_refl 0
        · exact batches n path
  | @trim key nonce amounts settled batch batches' =>
      have drawn : nonce < s.nextNonce := fits.drawn
      refine ⟨⟨found.working, found.tracked, found.nonneg⟩, fun n => ?_, fun n later => ?_,
        fun n other isOther path => ?_, fun n path => ?_, noneLost⟩
      · rw [BufferState.trim_pending]
        split
        next same => rw [same, Option.isSome_map, entry nonce]; rfl
        · exact entry n
      · have old : n ≠ nonce := Nat.ne_of_gt (drawn.trans_le later)
        rw [BufferState.trim_pending, BufferState.trim_untrimmed, if_neg old, if_neg old]
        exact undrawn n later
      · rw [BufferState.trim_pending] at isOther
        split at isOther
        · rw [Option.map_eq_some_iff] at isOther
          obtain ⟨before, isBefore, rfl⟩ := isOther
          rw [Tally.amount_drop]
          split
          · exact le_refl 0
          · exact claims nonce before isBefore path
        · exact claims n other isOther path
      · rw [BufferState.trim_untrimmed]
        split
        · exact le_refl 0
        · exact batches n path
  | @settle key nonce amounts settled =>
      have retired : Pointed { s with cache := s.cache.retire key nonce } :=
        Pointed.retire ⟨found, entry, undrawn, claims, batches, noneLost⟩
      exact ⟨⟨retired.found.working, retired.found.tracked, retired.found.nonneg⟩, retired.entry,
        retired.undrawn, retired.claims, retired.batches, retired.noneLost⟩
  | @retire key nonce amounts =>
      exact Pointed.retire ⟨found, entry, undrawn, claims, batches, noneLost⟩
  | reconcile =>
      exact ⟨found.reconcile _ _, entry, undrawn, claims, batches, noneLost⟩
  | _ => exact ⟨found, entry, undrawn, claims, batches, noneLost⟩

end Steps

theorem sum_range_changed {f g : ℕ → ℚ} {bound changed : ℕ} (inside : changed < bound)
    (same : ∀ n, n ≠ changed → g n = f n) :
    ∑ n ∈ Finset.range bound, g n = ∑ n ∈ Finset.range bound, f n + (g changed - f changed) := by
  have difference : ∑ n ∈ Finset.range bound, (g n - f n) = g changed - f changed := by
    refine Finset.sum_eq_single_of_mem changed (Finset.mem_range.mpr inside) fun n _ different => ?_
    rw [same n different, sub_self]
  rw [Finset.sum_sub_distrib] at difference
  linarith

section Surplus

variable {s s' : BufferState} {key path : String} {nonce : ℕ}

theorem BufferState.due_of_gone (gone : s.cache.pending nonce = none) : s.due key path nonce = 0 := by
  refine if_neg fun live => ?_
  have here := live.1
  rw [gone] at here
  cases here

theorem Keyed.due {holder : String} (keyed : Keyed s holder nonce)
    (here : (s.cache.pending nonce).isSome = (s.cache.pendingIndex nonce).isSome)
    {claim : PendingClaim} (isClaim : s.cache.pending nonce = some claim) :
    s.due key path nonce =
      if holder = key then claim.amounts.amount path - (s.trace.untrimmed nonce).amount path else 0 := by
  rw [isClaim, Option.isSome_some] at here
  obtain ⟨entry, isEntry⟩ := Option.isSome_iff_exists.mp here.symm
  have isKey := keyed.keyed entry isEntry
  by_cases same : holder = key
  · have live : s.liveOn key nonce := ⟨by rw [isClaim]; rfl, entry, isEntry, isKey.trans same⟩
    rw [BufferState.due, if_pos live, if_pos same, BufferState.carried, isClaim]
    rfl
  · have notLive : ¬ s.liveOn key nonce := by
      rintro ⟨-, other, isOther, onKey⟩
      rw [isEntry] at isOther
      cases isOther
      exact same (isKey.symm.trans onKey)
    rw [BufferState.due, if_neg notLive, if_neg same]

theorem BufferState.due_congr (pending : s'.cache.pending nonce = s.cache.pending nonce)
    (index : s'.cache.pendingIndex nonce = s.cache.pendingIndex nonce)
    (written : s'.trace.untrimmed nonce = s.trace.untrimmed nonce) :
    s'.due key path nonce = s.due key path nonce := by
  have same : s'.liveOn key nonce ↔ s.liveOn key nonce := by
    unfold BufferState.liveOn
    rw [pending, index]
  unfold BufferState.due BufferState.carried
  simp only [same, pending, written]

theorem Conserved.mono (conserved : Conserved s)
    (more : ∀ key path, s.surplus key path ≤ s'.surplus key path)
    (exact : ∀ key, s'.InTurn key →
      s.InTurn key ∧ ∀ path, s'.surplus key path = s.surplus key path) : Conserved s' := by
  refine ⟨fun key path => (conserved.bounded key path).trans (more key path),
    fun key inTurn path => ?_⟩
  obtain ⟨inTurnBefore, same⟩ := exact key inTurn
  rw [same path, conserved.exact key inTurnBefore path]

theorem Conserved.same (conserved : Conserved s)
    (same : ∀ key path, s'.surplus key path = s.surplus key path)
    (overtakings : s'.trace.overtakings = s.trace.overtakings) : Conserved s' :=
  conserved.mono (fun key path => (same key path).ge)
    fun key inTurn => ⟨fun event earlier => inTurn event (overtakings ▸ earlier), same key⟩

theorem surplus_incr (holder : String) (amounts : FlatAmounts) :
    (s.incr holder amounts).surplus key path = s.surplus key path := by
  have due : ∀ n, (s.incr holder amounts).due key path n = s.due key path n :=
    fun n => BufferState.due_congr rfl rfl rfl
  unfold BufferState.surplus
  simp only [due]
  by_cases same : key = holder
  · simp only [BufferState.incr, MeterCache.incr, BufferState.addTo, same, Function.update_self,
      Tally.amount_merge]
    ring
  · simp only [BufferState.incr, MeterCache.incr, BufferState.addTo, Function.update_of_ne same]

theorem surplus_claim (pointed : Pointed s) {holder : String} {now : ℕ}
    (filled : (s.cache.delta holder).keys ≠ ∅) :
    (s.claim holder now).surplus key path = s.surplus key path := by
  have pending := @BufferState.claim_pending s holder now filled
  have index := @BufferState.claim_pendingIndex s holder now filled
  have others : ∀ n ∈ Finset.range s.nextNonce,
      (s.claim holder now).due key path n = s.due key path n := by
    intro n inside
    have old : n ≠ s.nextNonce := Nat.ne_of_lt (Finset.mem_range.mp inside)
    exact BufferState.due_congr (by rw [pending, if_neg old]) (by rw [index, if_neg old]) rfl
  have keyed : Keyed (s.claim holder now) holder s.nextNonce := by
    refine ⟨Nat.lt_succ_self _, fun entry isEntry => ?_⟩
    rw [index, if_pos rfl] at isEntry
    cases isEntry
    rfl
  have fresh : (s.claim holder now).due key path s.nextNonce =
      if holder = key then (s.cache.delta holder).amount path else 0 := by
    have isClaim := pending s.nextNonce
    rw [if_pos rfl] at isClaim
    have untrimmed : ((s.claim holder now).trace.untrimmed s.nextNonce).amount path = 0 :=
      (pointed.undrawn _ (le_refl _)).2 path
    rw [keyed.due (by rw [pending, index, if_pos rfl, if_pos rfl]; rfl) isClaim, untrimmed, sub_zero]
  have total : (s.claim holder now).nextNonce = s.nextNonce + 1 := rfl
  unfold BufferState.surplus
  rw [total, Finset.sum_range_succ, Finset.sum_congr rfl others, fresh, BufferState.claim_cache filled]
  by_cases same : holder = key
  · simp only [BufferState.claim, same, Function.update_self, Tally.amount_empty, if_true]
    ring
  · simp only [BufferState.claim, Function.update_of_ne (Ne.symm same), if_neg same]
    ring

theorem surplus_claimNothing (pointed : Pointed s) {holder : String} {now : ℕ}
    (none : (s.cache.delta holder).keys = ∅) :
    (s.claim holder now).surplus key path = s.surplus key path := by
  have cache := @BufferState.claim_cache_none s holder now none
  have due : ∀ n, (s.claim holder now).due key path n = s.due key path n :=
    fun n => BufferState.due_congr (by rw [cache]) (by rw [cache]) rfl
  have total : (s.claim holder now).nextNonce = s.nextNonce + 1 := rfl
  unfold BufferState.surplus
  simp only [due]
  rw [total, Finset.sum_range_succ, BufferState.due_of_gone (pointed.undrawn _ (le_refl _)).1, add_zero,
    cache]
  rfl

theorem surplus_reclaim (pointed : Pointed s) {holder : String} {now : ℕ}
    (keyed : Keyed s holder nonce) {claim : PendingClaim}
    (isClaim : s.cache.pending nonce = some claim) :
    (s.reclaim nonce holder now).surplus key path =
      s.surplus key path + if holder = key then (s.trace.untrimmed nonce).amount path else 0 := by
  have pending := @BufferState.reclaim_pending s holder nonce now claim isClaim
  have index := @BufferState.reclaim_pendingIndex s holder nonce now claim isClaim
  have drawn := keyed.drawn
  have gone : (s.reclaim nonce holder now).due key path nonce = 0 := by
    refine BufferState.due_of_gone ?_
    rw [pending, if_neg (Nat.ne_of_lt drawn), if_pos rfl]
  have others : ∑ n ∈ Finset.range s.nextNonce, (s.reclaim nonce holder now).due key path n =
      ∑ n ∈ Finset.range s.nextNonce, s.due key path n - s.due key path nonce := by
    have before := @sum_range_changed (s.due key path)
      (fun n => if n = nonce then 0 else s.due key path n) s.nextNonce nonce drawn
      fun n different => if_neg different
    rw [if_pos rfl, zero_sub, ← sub_eq_add_neg] at before
    rw [← before]
    refine Finset.sum_congr rfl fun n inside => ?_
    split
    next same => rw [same, gone]
    next different =>
      have old : n ≠ s.nextNonce := Nat.ne_of_lt (Finset.mem_range.mp inside)
      exact BufferState.due_congr (by rw [pending, if_neg old, if_neg different])
        (by rw [index, if_neg old, if_neg different]) rfl
  have keyed' : Keyed (s.reclaim nonce holder now) holder s.nextNonce := by
    refine ⟨Nat.lt_succ_self _, fun entry isEntry => ?_⟩
    rw [index, if_pos rfl] at isEntry
    cases isEntry
    rfl
  have fresh : (s.reclaim nonce holder now).due key path s.nextNonce =
      if holder = key then claim.amounts.amount path else 0 := by
    have isFresh := pending s.nextNonce
    rw [if_pos rfl] at isFresh
    have untrimmed : ((s.reclaim nonce holder now).trace.untrimmed s.nextNonce).amount path = 0 :=
      (pointed.undrawn _ (le_refl _)).2 path
    rw [keyed'.due (by rw [pending, index, if_pos rfl, if_pos rfl]; rfl) isFresh, untrimmed, sub_zero]
  have total : (s.reclaim nonce holder now).nextNonce = s.nextNonce + 1 := rfl
  unfold BufferState.surplus
  rw [total, Finset.sum_range_succ, others, fresh, keyed.due (pointed.entry nonce) isClaim,
    BufferState.reclaim_cache isClaim]
  by_cases same : holder = key
  · simp only [BufferState.reclaim, same, if_true]
    ring
  · simp only [BufferState.reclaim, if_neg same]
    ring

theorem surplus_reclaimNothing (pointed : Pointed s) {holder : String} {now : ℕ}
    (none : s.cache.pending nonce = none) :
    (s.reclaim nonce holder now).surplus key path = s.surplus key path := by
  have pending : (s.reclaim nonce holder now).cache.pending = s.cache.pending := by
    simp [BufferState.reclaim, MeterCache.reclaim, none]
  have delta : (s.reclaim nonce holder now).cache.delta = s.cache.delta := by
    simp [BufferState.reclaim, MeterCache.reclaim, none]
  have due : ∀ n, (s.reclaim nonce holder now).due key path n = s.due key path n := by
    intro n
    by_cases same : n = nonce
    · rw [same, BufferState.due_of_gone none, BufferState.due_of_gone (by rw [pending, none])]
    · refine BufferState.due_congr (by rw [pending]) ?_ rfl
      simp [BufferState.reclaim, MeterCache.reclaim, none, same]
  have total : (s.reclaim nonce holder now).nextNonce = s.nextNonce + 1 := rfl
  unfold BufferState.surplus
  simp only [due]
  rw [total, Finset.sum_range_succ, BufferState.due_of_gone (pointed.undrawn _ (le_refl _)).1, add_zero,
    delta]
  rfl

theorem surplus_changed (drawn : nonce < s.nextNonce) (total : s'.nextNonce = s.nextNonce)
    (delta : s'.cache.delta = s.cache.delta) (made : s'.trace.made = s.trace.made)
    (others : ∀ n, n ≠ nonce → s'.due key path n = s.due key path n) :
    s'.surplus key path = s.surplus key path + ((s'.kv key).amount path - (s.kv key).amount path) +
      (s'.due key path nonce - s.due key path nonce) := by
  unfold BufferState.surplus
  rw [total, delta, made, sum_range_changed drawn others]
  ring

theorem surplus_write (pointed : Pointed s) {holder : String} (keyed : Keyed s holder nonce)
    (untrimmed : (s.trace.untrimmed nonce).amount path = 0) (batch : FlatAmounts) :
    (s.write holder nonce batch).surplus key path =
      s.surplus key path +
        if s.cache.pending nonce = none ∧ holder = key then batch.amount path else 0 := by
  have changed := @surplus_changed s (s.write holder nonce batch) key path nonce keyed.drawn rfl rfl rfl
    fun n different => BufferState.due_congr rfl rfl
      (by rw [BufferState.write_untrimmed, if_neg different])
  have stored : ((s.write holder nonce batch).kv key).amount path - (s.kv key).amount path =
      if holder = key then batch.amount path else 0 := by
    by_cases same : holder = key
    · simp [BufferState.write, same]
    · simp [BufferState.write, same, Function.update_of_ne (Ne.symm same)]
  rw [changed, stored]
  cases isClaim : s.cache.pending nonce with
  | none =>
      have gone : (s.write holder nonce batch).cache.pending nonce = none := isClaim
      rw [BufferState.due_of_gone gone, BufferState.due_of_gone isClaim]
      simp
  | some claim =>
      have keyed' : Keyed (s.write holder nonce batch) holder nonce := ⟨keyed.drawn, keyed.keyed⟩
      rw [keyed.due (pointed.entry nonce) isClaim, keyed'.due (pointed.entry nonce) isClaim,
        BufferState.write_untrimmed, if_pos rfl, untrimmed]
      by_cases same : holder = key
      · simp [same]
      · simp [same]

theorem surplus_trim (pointed : Pointed s) {holder : String} {amounts : FlatAmounts}
    {batch rest : List String} (holding : Holding s holder nonce amounts (batch ++ rest) batch) :
    (s.trim nonce batch).surplus key path = s.surplus key path := by
  have changed := @surplus_changed s (s.trim nonce batch) key path nonce holding.drawn rfl rfl rfl
    fun n different => BufferState.due_congr (by rw [BufferState.trim_pending, if_neg different]) rfl
      (by rw [BufferState.trim_untrimmed, if_neg different])
  have stored : ((s.trim nonce batch).kv key).amount path = (s.kv key).amount path := rfl
  rw [changed, stored, sub_self, add_zero]
  cases isClaim : s.cache.pending nonce with
  | none =>
      have gone : (s.trim nonce batch).cache.pending nonce = none := by
        rw [BufferState.trim_pending, if_pos rfl, isClaim]
        rfl
      rw [BufferState.due_of_gone gone, BufferState.due_of_gone isClaim, sub_self, add_zero]
  | some claim =>
      have isTrimmed : (s.trim nonce batch).cache.pending nonce =
          some { claim with amounts := claim.amounts.drop batch } := by
        rw [BufferState.trim_pending, if_pos rfl, isClaim]
        rfl
      have keyed' : Keyed (s.trim nonce batch) holder nonce := ⟨holding.drawn, holding.keyed⟩
      have here : ((s.trim nonce batch).cache.pending nonce).isSome =
          ((s.trim nonce batch).cache.pendingIndex nonce).isSome := by
        rw [isTrimmed]
        have before := pointed.entry nonce
        rw [isClaim] at before
        exact before
      have split := claim.amounts.pick_add_drop batch path
      have picked : (claim.amounts.pick batch).amount path = (amounts.pick batch).amount path := by
        rw [Tally.amount_pick, Tally.amount_pick, holding.carries claim isClaim]
        by_cases inBatch : path ∈ batch
        · simp [inBatch]
        · simp [inBatch]
      rw [holding.toKeyed.due (pointed.entry nonce) isClaim, keyed'.due here isTrimmed,
        BufferState.trim_untrimmed, if_pos rfl, holding.written, Tally.amount_empty]
      by_cases same : holder = key
      · simp only [if_pos same]
        rw [← picked]
        linarith
      · simp [same]

theorem surplus_retire (pointed : Pointed s) {holder : String} {amounts : FlatAmounts}
    (holding : Holding s holder nonce amounts [] []) :
    BufferState.surplus { s with cache := s.cache.retire holder nonce } key path =
      s.surplus key path := by
  have changed := @surplus_changed s { s with cache := s.cache.retire holder nonce } key path nonce
    holding.drawn rfl rfl rfl fun n different => BufferState.due_congr
      (by rw [MeterCache.retire_pending, if_neg different])
      (by rw [MeterCache.retire_pendingIndex, if_neg different]) rfl
  have gone : BufferState.due { s with cache := s.cache.retire holder nonce } key path nonce = 0 :=
    BufferState.due_of_gone (by rw [MeterCache.retire_pending, if_pos rfl])
  have nothing : s.due key path nonce = 0 := by
    cases isClaim : s.cache.pending nonce with
    | none => exact BufferState.due_of_gone isClaim
    | some claim =>
        rw [holding.toKeyed.due (pointed.entry nonce) isClaim, holding.carries claim isClaim,
          holding.written]
        simp [Tally.amount_pick]
  rw [changed, gone, nothing, sub_self, sub_self, add_zero, add_zero]

end Surplus

theorem bufferStep_conserved {env : BufferEnv} {s s' : BufferState} {call : BufferCall}
    {next : Option BufferCall} (step : BufferStep env s call s' next) (pointed : Pointed s)
    (fits : call.Fits s) (conserved : Conserved s) : Conserved s' := by
  cases step with
  | incr _ => exact conserved.same (fun _ _ => surplus_incr _ _) rfl
  | incrUnseeded _ => exact conserved.same (fun _ _ => surplus_incr _ _) rfl
  | @seed watch key amounts delta persisted =>
      rw [s.cache.seed_claims key persisted]
      exact ⟨conserved.bounded, conserved.exact⟩
  | answer => exact ⟨conserved.bounded, conserved.exact⟩
  | drain _ _ => exact ⟨conserved.bounded, conserved.exact⟩
  | reconcile => exact ⟨conserved.bounded, conserved.exact⟩
  | claim filled _ _ => exact conserved.same (fun _ _ => surplus_claim pointed filled) rfl
  | claimNothing none => exact conserved.same (fun _ _ => surplus_claimNothing pointed none) rfl
  | @reclaim holder nonce now claim paths isClaim _ _ =>
      have written := fun path => pointed.batches nonce path
      refine conserved.mono (fun key path => ?_) fun key inTurn => ⟨fun event earlier => ?_, fun path => ?_⟩
      · rw [surplus_reclaim pointed fits isClaim]
        split
        · exact le_add_of_nonneg_right (written path)
        · exact (add_zero _).ge
      · refine inTurn event ?_
        simp only [BufferState.reclaim]
        split
        · exact List.mem_cons_of_mem _ earlier
        · exact earlier
      · rw [surplus_reclaim pointed fits isClaim]
        split
        next same =>
          have trimmed : (s.trace.untrimmed nonce).keys = ∅ := by
            by_contra filled
            refine inTurn (.reclaimedUntrimmed holder nonce) ?_ same
            have overtakes : (s.cache.pending nonce).isSome ∧ (s.trace.untrimmed nonce).keys ≠ ∅ :=
              ⟨by rw [isClaim]; rfl, filled⟩
            simp only [BufferState.reclaim, if_pos overtakes]
            exact List.mem_cons_self
          rw [Tally.amount_of_keys_empty trimmed, add_zero]
        · exact add_zero _
  | reclaimNothing none =>
      refine conserved.same (fun _ _ => surplus_reclaimNothing pointed none) ?_
      simp [BufferState.reclaim, none]
  | @write holder nonce amounts batch batches settled =>
      have untrimmed : ∀ path, (s.trace.untrimmed nonce).amount path = 0 := by
        intro path
        rw [fits.written]
        simp [Tally.amount_pick]
      refine conserved.mono (fun key path => ?_) fun key inTurn => ⟨fun event earlier => ?_, fun path => ?_⟩
      · rw [surplus_write pointed fits.toKeyed (untrimmed path)]
        split
        · refine le_add_of_nonneg_right ?_
          rw [Tally.amount_pick]
          split
          · exact fits.nonneg path
          · exact le_refl 0
        · exact (add_zero _).ge
      · refine inTurn event ?_
        simp only [BufferState.write]
        split
        · exact List.mem_cons_of_mem _ earlier
        · exact earlier
      · have here : ¬ (s.cache.pending nonce = Option.none ∧ holder = key) := by
          rintro ⟨gone, same⟩
          refine inTurn (.writtenAfterReclaim holder nonce) ?_ same
          simp only [BufferState.write, gone, Option.isNone_none, if_true]
          exact List.mem_cons_self
        rw [surplus_write pointed fits.toKeyed (untrimmed path), if_neg here, add_zero]
  | trim => exact conserved.same (fun _ _ => surplus_trim pointed fits) rfl
  | settle => exact conserved.same (fun _ _ => surplus_retire pointed fits) rfl
  | retire => exact conserved.same (fun _ _ => surplus_retire pointed fits) rfl
  | _ => exact conserved

section Runs

variable {env : BufferEnv} {s s' : BufferState} {call : BufferCall} {next : Option BufferCall}

theorem mem_weight_held {calls : List BufferCall} {nonce : ℕ} :
    nonce ∈ weight BufferCall.held calls ↔ ∃ call ∈ calls, nonce ∈ call.held := by
  induction calls with
  | nil => simp
  | cons call calls ih =>
      rw [weight_cons, Multiset.mem_add, ih]
      simp

theorem BufferCall.Fits.drawn (fits : call.Fits s) {nonce : ℕ} (isHeld : nonce ∈ call.held) :
    nonce < s.nextNonce := by
  cases call with
  | settling key other amounts batches settled =>
      rw [Multiset.mem_singleton.mp isHeld]
      exact Keyed.drawn (Holding.toKeyed fits)
  | trimming key other amounts batch batches settled =>
      rw [Multiset.mem_singleton.mp isHeld]
      exact Keyed.drawn (Holding.toKeyed fits)
  | _ => exact absurd isHeld (Multiset.notMem_zero nonce)

theorem bufferStep_held (step : BufferStep env s call s' next) :
    weight BufferCall.held next.toList ≤ call.held ∨
      weight BufferCall.held next.toList = {s.nextNonce} := by
  cases step with
  | claim _ _ _ => exact .inr rfl
  | reclaim _ _ _ => exact .inr rfl
  | write => exact .inl (le_refl _)
  | trim => exact .inl (le_refl _)
  | _ => exact .inl (Multiset.zero_le _)

/-- Each claim is held by one call, the pointers lead to the amounts, and what was counted is there. -/
structure Sound (s : BufferState) (held : Multiset ℕ) : Prop where
  apart : held.Nodup
  pointed : Pointed s
  conserved : Conserved s

theorem bufferStep_sound {others : List BufferCall} (step : BufferStep env s call s' next)
    (fitOthers : ∀ other ∈ others, other.Fits s) (fits : call.Fits s)
    (sound : Sound s (call.held + weight BufferCall.held others)) :
    (∀ other ∈ others, other.Fits s') ∧ (∀ call', next = some call' → call'.Fits s') ∧
      Sound s' (weight BufferCall.held next.toList + weight BufferCall.held others) := by
  obtain ⟨apart, pointed, conserved⟩ := sound
  obtain ⟨nodup, nodupOthers, disjoint⟩ := Multiset.nodup_add.mp apart
  refine ⟨fun other member => ?_, bufferStep_fits step pointed fits, ?_,
    bufferStep_pointed step pointed fits, bufferStep_conserved step pointed fits conserved⟩
  · refine (fitOthers other member).aside (bufferStep_aside step) fun nonce isHeld isMine => ?_
    exact Multiset.disjoint_left.mp disjoint isMine (mem_weight_held.mpr ⟨other, member, isHeld⟩)
  · rcases bufferStep_held step with mine | fresh
    · exact Multiset.nodup_of_le (add_le_add_left mine _) apart
    · rw [fresh, Multiset.singleton_add, Multiset.nodup_cons]
      refine ⟨fun isOther => ?_, nodupOthers⟩
      obtain ⟨other, member, isHeld⟩ := mem_weight_held.mp isOther
      exact lt_irrefl _ ((fitOthers other member).drawn isHeld)

theorem start_sound (kv : String → FlatAmounts) : Sound (.start kv) 0 := by
  refine ⟨Multiset.nodup_zero, ⟨⟨fun key filled => ?_, fun key filled => ?_, fun _ _ => le_refl 0⟩,
    fun _ => rfl, fun _ _ => ⟨rfl, fun _ => rfl⟩, fun nonce claim isClaim => ?_, fun _ _ => le_refl 0,
    rfl⟩, fun key path => ?_, fun key _ path => ?_⟩
  · exact absurd rfl filled
  · exact absurd rfl filled
  · cases isClaim
  · simp [BufferState.surplus, BufferState.start]
  · simp [BufferState.surplus, BufferState.start]

theorem starts_sound {held : Multiset ℕ} (starts : call.Starts) (sound : Sound s held) :
    call.Fits s ∧ Sound s (call.held + held) := by
  cases starts with
  | incr nonneg => exact ⟨nonneg, (zero_add held).symm ▸ sound⟩
  | _ => exact ⟨trivial, (zero_add held).symm ▸ sound⟩

/-- Over every run of any number of deployments, nothing that was counted is lost, and as long as no claim
    on a counter was overtaken its amounts are exactly those counted, where a batch that is written and
    not yet taken off its claim counts once; every counter with a delta is on the dirty set or in flight, and no
    claim is recorded as lost. -/
theorem buffer_conserves (env : BufferEnv) (kv : String → FlatAmounts) (s : BufferState)
    (calls : List BufferCall)
    (run : Run (meteringBuffer env fun _ _ _ => True) ⟨.start kv, []⟩ ⟨s, calls⟩) :
    (∀ key path, s.trace.made key path ≤
      (s.kv key).amount path + (s.cache.delta key).amount path + s.claimed key path) ∧
    (∀ key, s.InTurn key → ∀ path,
      (s.kv key).amount path + (s.cache.delta key).amount path + s.claimed key path =
        s.trace.made key path + s.untrimmed key path) ∧
    (∀ key, (s.cache.delta key).keys ≠ ∅ → key ∈ s.cache.dirty ∨ key ∈ s.cache.inflight) ∧
    s.trace.lostClaims = [] := by
  have weighed : Weighed BufferCall.Fits BufferCall.held Sound ⟨s, calls⟩ := by
    refine run_weighed run ⟨(fun call member => by cases member), start_sound kv⟩ ?_ ?_
    · intro s call held starts sound
      exact starts_sound starts sound
    · intro s others call s' next _ step fitOthers fits sound
      exact bufferStep_sound step fitOthers fits sound
  obtain ⟨-, pointed, conserved⟩ := weighed.holds
  have written : ∀ key path, 0 ≤ s.untrimmed key path := by
    intro key path
    refine Finset.sum_nonneg fun nonce _ => ?_
    split
    · exact pointed.batches nonce path
    · exact le_refl 0
  refine ⟨fun key path => ?_, fun key inTurn path => ?_, pointed.found.working, pointed.noneLost⟩
  · have bounded : 0 ≤ s.surplus key path := conserved.bounded key path
    rw [BufferState.surplus, BufferState.sum_due] at bounded
    linarith [written key path]
  · have exact : s.surplus key path = 0 := conserved.exact key inTurn path
    rw [BufferState.surplus, BufferState.sum_due] at exact
    linarith

end Runs

section SlowClaim

def oneBucket : BufferEnv := ⟨fun _ => 0, fun _ => 0⟩

def tenUnits : FlatAmounts := .single "total" 10

def counted : BufferState := (BufferState.start fun _ => .empty).incr "m" tenUnits

def buffered : BufferState :=
  BufferState.complete { counted with cache := counted.cache.seed "m" (counted.kv "m") } "m" tenUnits

variable {allow : BufferState → List BufferCall → BufferCall → Prop}

theorem tenUnits_starts : (BufferCall.incr "m" tenUnits).Starts := by
  refine .incr fun path => ?_
  unfold tenUnits Tally.single
  dsimp only
  split <;> decide +kernel

theorem buffered_run (allowed : ∀ s others call, allow s others call) :
    Run (meteringBuffer oneBucket allow) ⟨.start fun _ => .empty, []⟩ ⟨buffered, []⟩ := by
  refine .head (.issue tenUnits_starts) ?_
  refine .head (.goesOn (allowed _ _ _) .startIncr) ?_
  refine .head (.goesOn (allowed _ _ _) (.incrUnseeded (by decide +kernel))) ?_
  refine .head (.goesOn (allowed _ _ _) .fetch) ?_
  refine .head (.goesOn (allowed _ _ _) .seed) ?_
  exact .single (.completes (allowed _ _ _) .answer)

def settledTotal (s : BufferState) (nonce : ℕ) (amounts : FlatAmounts) : BufferState :=
  let written := s.write "m" nonce (amounts.pick ["total"])
  let trimmed := written.trim nonce ["total"]
  { trimmed with cache := trimmed.cache.settle "m" nonce (written.kv "m") }

theorem settling_run (allowed : ∀ s others call, allow s others call) (s : BufferState) (nonce : ℕ)
    (amounts : FlatAmounts) (later : List BufferCall) :
    Run (meteringBuffer oneBucket allow)
      ⟨s, .settling "m" nonce amounts [["total"]] none :: later⟩
      ⟨settledTotal s nonce amounts, later⟩ := by
  refine .head (.goesOn (allowed _ _ _) .write) ?_
  refine .head (.goesOn (allowed _ _ _) .trim) ?_
  exact .single (.completes (allowed _ _ _) .settle)

/-- A call that holds a claim for so long that the claim is taken over, and then writes it, counts it
    twice, though no claim was taken over between its writing and its taking off. -/
theorem slow_claim_counts_twice : ∃ s : BufferState,
    Run (meteringBuffer oneBucket fun _ _ _ => True) ⟨.start fun _ => .empty, []⟩ ⟨s, []⟩ ∧
      (∀ key nonce, Overtaking.reclaimedUntrimmed key nonce ∉ s.trace.overtakings) ∧
      s.untrimmed "m" "total" = 0 ∧
      s.trace.made "m" "total" <
        (s.kv "m").amount "total" + (s.cache.delta "m").amount "total" + s.claimed "m" "total" := by
  let taken := (buffered.claim "m" 0).reclaim 0 "m" 60000
  refine ⟨settledTotal (settledTotal taken 1 (buffered.cache.delta "m")) 0 (buffered.cache.delta "m"),
    ?_, ?_, ?_, ?_⟩
  · refine (buffered_run fun _ _ _ => trivial).trans ?_
    refine .head (.issue (@BufferCall.Starts.flushOne "m")) ?_
    refine .head (.goesOn trivial (@BufferStep.claim _ _ _ 0 ["total"] (by decide +kernel)
      (by decide +kernel) (by decide +kernel))) ?_
    refine .head (.issue (@BufferCall.Starts.listOrphans 0)) ?_
    refine .head (.goesOn trivial (@BufferStep.listOrphan _ _ 0 60000 0 ⟨0, "m"⟩ (by decide +kernel)
      (by decide +kernel) (by decide +kernel))) ?_
    refine .head (.goesOn trivial (@BufferStep.reclaim _ _ _ _ 60000
      ⟨0, buffered.cache.delta "m"⟩ ["total"] rfl (by decide +kernel) (by decide +kernel))) ?_
    refine (settling_run (fun _ _ _ => trivial) _ 1 _ _).trans ?_
    exact settling_run (fun _ _ _ => trivial) _ 0 _ _
  · intro key nonce overtook
    have only : (settledTotal (settledTotal taken 1 (buffered.cache.delta "m")) 0
        (buffered.cache.delta "m")).trace.overtakings = [.writtenAfterReclaim "m" 0] := by decide +kernel
    rw [only] at overtook
    simp at overtook
  · decide +kernel
  · decide +kernel

/-- A claim that is live holds what was counted. -/
theorem claimed_tenUnits :
    let s := buffered.claim "m" 0
    (s.kv "m").amount "total" + (s.cache.delta "m").amount "total" + s.claimed "m" "total" =
      s.trace.made "m" "total" + s.untrimmed "m" "total" := by
  refine (buffer_conserves oneBucket (fun _ => .empty) (buffered.claim "m" 0)
    [.settling "m" 0 (buffered.cache.delta "m") [["total"]] none] ?_).2.1 "m" (fun _ event => by cases event) "total"
  refine (buffered_run fun _ _ _ => trivial).trans ?_
  refine .head (.issue (@BufferCall.Starts.flushOne "m")) ?_
  exact .single (.goesOn trivial (@BufferStep.claim _ _ _ 0 ["total"] (by decide +kernel)
    (by decide +kernel) (by decide +kernel)))

end SlowClaim

end Puter

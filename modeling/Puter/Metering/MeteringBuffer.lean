/-
Module: Puter.Metering.MeteringBuffer
Purpose: The cache buffer of the metering counters (stores/metering/MeteringBufferStore.ts): the scripts,
  each one atomic, and the calls of any number of deployments over one cache and one KV store. A flush
  cycle appears as its parts, which may be taken at any time and in any order: the draining of a bucket,
  the listing of its abandoned claims, the flush of a counter and the settling of an abandoned claim.
Trusted boundary: a KV increment adds each amount under its own path, or fails and changes nothing;
  the fields of a cache hash come back in any order
Main exports: FlatAmounts, BufferState, meteringBuffer
-/
import Puter.Library.Interleaving
import Puter.Library.Tally

namespace Puter

open Interleaving

abbrev FlatAmounts := Tally String ℚ

/-- A claim on the amounts of a counter, as its pending key holds it. -/
structure PendingClaim where
  claimedAt : ℕ
  amounts : FlatAmounts

/-- An entry of the pending index. -/
structure PendingEntry where
  claimedAt : ℕ
  key : String
deriving DecidableEq, Repr

/-- The keys of the cache, of all buckets. Nonces are numbered as they are drawn, and no key expires. -/
structure MeterCache where
  delta : String → FlatAmounts
  base : String → FlatAmounts
  dirty : Finset String
  inflight : Finset String
  takenAt : String → ℕ
  tracked : Finset String
  pending : ℕ → Option PendingClaim
  pendingIndex : ℕ → Option PendingEntry

/-- What the store is set up with: the bucket of a counter, and the bytes of the expression that
    increments some paths. -/
structure BufferEnv where
  bucketTag : String → ℕ
  incrExpressionBytes : List String → ℕ

namespace MeteringBufferStore

def claimsPerBucket : ℕ := 100

def orphanAgeMs : ℕ := 30000

def incrExpressionBudgetBytes : ℕ := 3584

/-- The loop of `chunkPathsForIncr`, with the batch that is being filled. -/
def chunkLoop (env : BufferEnv) (batch : List String) : List String → List (List String)
  | [] => if batch = [] then [] else [batch]
  | path :: paths =>
      if batch ≠ [] ∧ incrExpressionBudgetBytes < env.incrExpressionBytes (batch ++ [path]) then
        batch :: chunkLoop env [path] paths
      else chunkLoop env (batch ++ [path]) paths

def chunkPathsForIncr (env : BufferEnv) (paths : List String) : List (List String) :=
  chunkLoop env [] paths

theorem chunkLoop_flatten (env : BufferEnv) (batch paths : List String) :
    (chunkLoop env batch paths).flatten = batch ++ paths := by
  induction paths generalizing batch with
  | nil =>
      unfold chunkLoop
      split
      next none => simp [none]
      · simp
  | cons path paths ih =>
      unfold chunkLoop
      split
      · rw [List.flatten_cons, ih, List.singleton_append]
      · rw [ih, List.append_assoc, List.singleton_append]

theorem chunkPathsForIncr_flatten (env : BufferEnv) (paths : List String) :
    (chunkPathsForIncr env paths).flatten = paths := chunkLoop_flatten env [] paths

end MeteringBufferStore

open MeteringBufferStore

namespace MeterCache

/-- `INCR_SCRIPT` -/
def incr (c : MeterCache) (key : String) (amounts : FlatAmounts) : MeterCache :=
  { c with
    delta := Function.update c.delta key ((c.delta key).merge amounts)
    dirty := insert key c.dirty
    tracked := insert key c.tracked }

/-- The first half of `DRAIN_SCRIPT`: what was taken too long ago goes back on the dirty set. -/
def putBack (c : MeterCache) (env : BufferEnv) (tag cutoff : ℕ) : MeterCache :=
  let abandoned := c.inflight.filter fun key => env.bucketTag key = tag ∧ c.takenAt key ≤ cutoff
  { c with dirty := c.dirty ∪ abandoned, inflight := c.inflight \ abandoned }

def available (c : MeterCache) (env : BufferEnv) (tag : ℕ) : Finset String :=
  c.dirty.filter fun key => env.bucketTag key = tag

/-- The second half of `DRAIN_SCRIPT`: some counters are taken off the dirty set. -/
def take (c : MeterCache) (taken : Finset String) (now : ℕ) : MeterCache :=
  { c with
    dirty := c.dirty \ taken
    inflight := c.inflight ∪ taken
    takenAt := fun key => if key ∈ taken then now else c.takenAt key }

/-- `CLAIM_SCRIPT`. It answers the amounts, if there are any. -/
def claim (c : MeterCache) (key : String) (nonce now : ℕ) : MeterCache × Option FlatAmounts :=
  let landed := { c with inflight := c.inflight.erase key }
  if (c.delta key).keys = ∅ then (landed, none)
  else
    ({ landed with
        delta := Function.update c.delta key .empty
        pending := Function.update c.pending nonce (some ⟨now, c.delta key⟩)
        pendingIndex := Function.update c.pendingIndex nonce (some ⟨now, key⟩) },
      some (c.delta key))

/-- `RECLAIM_SCRIPT`. It answers the amounts, or whether there was an entry of a claim that is gone. -/
def reclaim (c : MeterCache) (nonce fresh : ℕ) (key : String) (now : ℕ) :
    MeterCache × (Bool ⊕ FlatAmounts) :=
  match c.pending nonce with
  | none =>
      ({ c with pendingIndex := Function.update c.pendingIndex nonce none },
        .inl (c.pendingIndex nonce).isSome)
  | some claim =>
      ({ c with
          pending := Function.update (Function.update c.pending nonce none) fresh
            (some ⟨now, claim.amounts⟩)
          pendingIndex := Function.update (Function.update c.pendingIndex nonce none) fresh
            (some ⟨now, key⟩) },
        .inr claim.amounts)

/-- Take some paths off a claim that is there (`hdel`). -/
def dropFromClaim (c : MeterCache) (nonce : ℕ) (paths : List String) : MeterCache :=
  { c with
    pending := Function.update c.pending nonce
      ((c.pending nonce).map fun claim => { claim with amounts := claim.amounts.drop paths }) }

/-- `RETIRE_SCRIPT` -/
def retire (c : MeterCache) (key : String) (nonce : ℕ) : MeterCache :=
  { c with
    pending := Function.update c.pending nonce none
    pendingIndex := Function.update c.pendingIndex nonce none
    tracked := if (c.delta key).keys = ∅ then c.tracked.erase key else c.tracked }

def replaces (base settled : FlatAmounts) : Bool :=
  !("total" ∈ settled.keys && "total" ∈ base.keys &&
    decide (settled.amount "total" < base.amount "total"))

/-- `SETTLE_SCRIPT` -/
def settle (c : MeterCache) (key : String) (nonce : ℕ) (settled : FlatAmounts) : MeterCache :=
  { c.retire key nonce with
    base := if replaces (c.base key) settled then Function.update c.base key settled else c.base }

/-- `RECONCILE_SCRIPT` -/
def reconcile (c : MeterCache) (env : BufferEnv) (tag : ℕ) : MeterCache :=
  let unpointed := c.tracked.filter fun key =>
    env.bucketTag key = tag ∧ key ∉ c.dirty ∧ key ∉ c.inflight
  { c with
    dirty := c.dirty ∪ unpointed.filter fun key => (c.delta key).keys ≠ ∅
    tracked := c.tracked \ unpointed.filter fun key => (c.delta key).keys = ∅ }

/-- `SEED_SCRIPT`; it answers the base. -/
def seed (c : MeterCache) (key : String) (persisted : FlatAmounts) : MeterCache :=
  if (c.base key).keys = ∅ then { c with base := Function.update c.base key persisted } else c

end MeterCache

/-- The orders of events that write the amounts of a claim on a counter twice. -/
inductive Overtaking where
  | reclaimedUntrimmed (key : String) (nonce : ℕ)
  | writtenAfterReclaim (key : String) (nonce : ℕ)
deriving DecidableEq, Repr

def Overtaking.key : Overtaking → String
  | reclaimedUntrimmed key _ => key
  | writtenAfterReclaim key _ => key

/-- What has happened: the increments made, and those whose calls have completed, by counter and path; the
    batch of each claim that is written and not yet taken off it; what overtook what; and the counters
    whose claims were recorded as lost. -/
structure BufferTrace where
  made : String → String → ℚ
  completed : String → String → ℚ
  untrimmed : ℕ → FlatAmounts
  overtakings : List Overtaking
  lostClaims : List String

/-- The KV store, the cache, the number of nonces drawn, and what has happened. -/
structure BufferState where
  kv : String → FlatAmounts
  cache : MeterCache
  nextNonce : ℕ
  trace : BufferTrace

namespace BufferState

def InTurn (s : BufferState) (key : String) : Prop := ∀ event ∈ s.trace.overtakings, event.key ≠ key

def addTo (sums : String → String → ℚ) (key : String) (amounts : FlatAmounts) : String → String → ℚ :=
  Function.update sums key fun path => sums key path + amounts.amount path

def incr (s : BufferState) (key : String) (amounts : FlatAmounts) : BufferState :=
  { s with
    cache := s.cache.incr key amounts
    trace := { s.trace with made := addTo s.trace.made key amounts } }

def complete (s : BufferState) (key : String) (amounts : FlatAmounts) : BufferState :=
  { s with trace := { s.trace with completed := addTo s.trace.completed key amounts } }

def drain (s : BufferState) (env : BufferEnv) (tag now : ℕ) (taken : Finset String) : BufferState :=
  { s with cache := (s.cache.putBack env tag (now - orphanAgeMs)).take taken now }

def claim (s : BufferState) (key : String) (now : ℕ) : BufferState :=
  { s with cache := (s.cache.claim key s.nextNonce now).1, nextNonce := s.nextNonce + 1 }

def reclaim (s : BufferState) (nonce : ℕ) (key : String) (now : ℕ) : BufferState :=
  { s with
    cache := (s.cache.reclaim nonce s.nextNonce key now).1
    nextNonce := s.nextNonce + 1
    trace := { s.trace with
      overtakings :=
        if (s.cache.pending nonce).isSome ∧ (s.trace.untrimmed nonce).keys ≠ ∅ then
          .reclaimedUntrimmed key nonce :: s.trace.overtakings
        else s.trace.overtakings
      lostClaims :=
        if s.cache.pending nonce = none ∧ (s.cache.pendingIndex nonce).isSome then
          key :: s.trace.lostClaims
        else s.trace.lostClaims } }

def write (s : BufferState) (key : String) (nonce : ℕ) (batch : FlatAmounts) : BufferState :=
  { s with
    kv := Function.update s.kv key ((s.kv key).merge batch)
    trace := { s.trace with
      untrimmed := Function.update s.trace.untrimmed nonce batch
      overtakings :=
        if (s.cache.pending nonce).isNone then
          .writtenAfterReclaim key nonce :: s.trace.overtakings
        else s.trace.overtakings } }

def trim (s : BufferState) (nonce : ℕ) (paths : List String) : BufferState :=
  { s with
    cache := s.cache.dropFromClaim nonce paths
    trace := { s.trace with untrimmed := Function.update s.trace.untrimmed nonce .empty } }

section Claims

variable {s : BufferState} {key : String} {nonce now : ℕ}

theorem claim_cache (filled : (s.cache.delta key).keys ≠ ∅) :
    (s.claim key now).cache =
      ⟨Function.update s.cache.delta key .empty, s.cache.base, s.cache.dirty, s.cache.inflight.erase key,
        s.cache.takenAt, s.cache.tracked,
        Function.update s.cache.pending s.nextNonce (some ⟨now, s.cache.delta key⟩),
        Function.update s.cache.pendingIndex s.nextNonce (some ⟨now, key⟩)⟩ := by
  simp [claim, MeterCache.claim, filled]

theorem claim_pending (filled : (s.cache.delta key).keys ≠ ∅) (n : ℕ) :
    (s.claim key now).cache.pending n =
      if n = s.nextNonce then some ⟨now, s.cache.delta key⟩ else s.cache.pending n := by
  rw [claim_cache filled]
  exact Function.update_apply _ _ _ _

theorem claim_pendingIndex (filled : (s.cache.delta key).keys ≠ ∅) (n : ℕ) :
    (s.claim key now).cache.pendingIndex n =
      if n = s.nextNonce then some ⟨now, key⟩ else s.cache.pendingIndex n := by
  rw [claim_cache filled]
  exact Function.update_apply _ _ _ _

theorem claim_cache_none (none : (s.cache.delta key).keys = ∅) :
    (s.claim key now).cache =
      ⟨s.cache.delta, s.cache.base, s.cache.dirty, s.cache.inflight.erase key, s.cache.takenAt,
        s.cache.tracked, s.cache.pending, s.cache.pendingIndex⟩ := by
  simp [claim, MeterCache.claim, none]

theorem reclaim_cache {taken : PendingClaim} (isClaim : s.cache.pending nonce = some taken) :
    (s.reclaim nonce key now).cache =
      ⟨s.cache.delta, s.cache.base, s.cache.dirty, s.cache.inflight, s.cache.takenAt, s.cache.tracked,
        Function.update (Function.update s.cache.pending nonce none) s.nextNonce
          (some ⟨now, taken.amounts⟩),
        Function.update (Function.update s.cache.pendingIndex nonce none) s.nextNonce
          (some ⟨now, key⟩)⟩ := by
  simp [reclaim, MeterCache.reclaim, isClaim]

theorem reclaim_pending {taken : PendingClaim} (isClaim : s.cache.pending nonce = some taken) (n : ℕ) :
    (s.reclaim nonce key now).cache.pending n =
      if n = s.nextNonce then some ⟨now, taken.amounts⟩
      else if n = nonce then none else s.cache.pending n := by
  rw [reclaim_cache isClaim]
  simp only [Function.update_apply]

theorem reclaim_pendingIndex {taken : PendingClaim} (isClaim : s.cache.pending nonce = some taken)
    (n : ℕ) : (s.reclaim nonce key now).cache.pendingIndex n =
      if n = s.nextNonce then some ⟨now, key⟩
      else if n = nonce then none else s.cache.pendingIndex n := by
  rw [reclaim_cache isClaim]
  simp only [Function.update_apply]

theorem trim_pending (paths : List String) (n : ℕ) :
    (s.trim nonce paths).cache.pending n =
      if n = nonce then
        (s.cache.pending nonce).map fun claim => { claim with amounts := claim.amounts.drop paths }
      else s.cache.pending n := Function.update_apply _ _ _ _

theorem trim_untrimmed (paths : List String) (n : ℕ) :
    (s.trim nonce paths).trace.untrimmed n =
      if n = nonce then .empty else s.trace.untrimmed n := Function.update_apply _ _ _ _

theorem write_untrimmed (batch : FlatAmounts) (n : ℕ) :
    (s.write key nonce batch).trace.untrimmed n =
      if n = nonce then batch else s.trace.untrimmed n := Function.update_apply _ _ _ _

end Claims

end BufferState

theorem MeterCache.retire_pending (c : MeterCache) (key : String) (nonce n : ℕ) :
    (c.retire key nonce).pending n = if n = nonce then none else c.pending n :=
  Function.update_apply _ _ _ _

theorem MeterCache.retire_pendingIndex (c : MeterCache) (key : String) (nonce n : ℕ) :
    (c.retire key nonce).pendingIndex n = if n = nonce then none else c.pendingIndex n :=
  Function.update_apply _ _ _ _

theorem MeterCache.seed_claims (c : MeterCache) (key : String) (persisted : FlatAmounts) :
    c.seed key persisted = { c with base := (c.seed key persisted).base } := by
  unfold seed
  split <;> rfl

/-- What a call is compared with: the completed increments of its counter when it started, and those made
    when it read the delta. -/
structure Watch where
  floor : String → ℚ
  seen : String → ℚ

/-- Where a call stands. An increment or a read goes through to the KV store where there is no base. The
    paths of a claim are written in batches, and each one is taken off the claim before the next. -/
inductive BufferCall where
  | incr (key : String) (amounts : FlatAmounts)
  | incrementing (floor : String → ℚ) (key : String) (amounts : FlatAmounts)
  | fetching (watch : Watch) (key : String) (amounts delta : FlatAmounts)
  | seeding (watch : Watch) (key : String) (amounts delta persisted : FlatAmounts)
  | get (key : String)
  | reading (floor : String → ℚ) (key : String)
  | readingThrough (watch : Watch) (key : String) (delta : FlatAmounts)
  | answered (watch : Watch) (key : String) (amounts res : FlatAmounts)
  | drainBucket (tag : ℕ)
  | listOrphans (tag : ℕ)
  | settleOrphan (key : String) (nonce : ℕ)
  | flushOne (key : String)
  | settling (key : String) (nonce : ℕ) (amounts : FlatAmounts) (batches : List (List String))
      (settled : Option FlatAmounts)
  | trimming (key : String) (nonce : ℕ) (amounts : FlatAmounts) (batch : List String)
      (batches : List (List String)) (settled : FlatAmounts)
  | reconcile (tag : ℕ)

/-- Where `#settle` starts with the amounts of a claim, in some order of their paths. -/
def BufferCall.settle (env : BufferEnv) (key : String) (nonce : ℕ) (amounts : FlatAmounts)
    (paths : List String) : BufferCall :=
  settling key nonce amounts (chunkPathsForIncr env paths) none

/-- The atomic steps. Clocks are left open. -/
inductive BufferStep (env : BufferEnv) :
    BufferState → BufferCall → BufferState → Option BufferCall → Prop where
  | startIncr {s : BufferState} {key : String} {amounts : FlatAmounts} :
      BufferStep env s (.incr key amounts) s
        (some (.incrementing (s.trace.completed key) key amounts))
  | incr {s : BufferState} {floor : String → ℚ} {key : String} {amounts : FlatAmounts} :
      (s.cache.base key).keys ≠ ∅ →
      BufferStep env s (.incrementing floor key amounts) (s.incr key amounts)
        (some (.answered ⟨floor, (s.incr key amounts).trace.made key⟩ key amounts
          ((s.cache.base key).merge ((s.incr key amounts).cache.delta key))))
  | incrUnseeded {s : BufferState} {floor : String → ℚ} {key : String} {amounts : FlatAmounts} :
      (s.cache.base key).keys = ∅ →
      BufferStep env s (.incrementing floor key amounts) (s.incr key amounts)
        (some (.fetching ⟨floor, (s.incr key amounts).trace.made key⟩ key amounts
          ((s.incr key amounts).cache.delta key)))
  | fetch {s : BufferState} {watch : Watch} {key : String} {amounts delta : FlatAmounts} :
      BufferStep env s (.fetching watch key amounts delta) s
        (some (.seeding watch key amounts delta (s.kv key)))
  | seed {s : BufferState} {watch : Watch} {key : String} {amounts delta persisted : FlatAmounts} :
      BufferStep env s (.seeding watch key amounts delta persisted)
        { s with cache := s.cache.seed key persisted }
        (some (.answered watch key amounts (((s.cache.seed key persisted).base key).merge delta)))
  | startGet {s : BufferState} {key : String} :
      BufferStep env s (.get key) s (some (.reading (s.trace.completed key) key))
  | read {s : BufferState} {floor : String → ℚ} {key : String} : (s.cache.base key).keys ≠ ∅ →
      BufferStep env s (.reading floor key) s
        (some (.answered ⟨floor, s.trace.made key⟩ key .empty
          ((s.cache.base key).merge (s.cache.delta key))))
  | readUnseeded {s : BufferState} {floor : String → ℚ} {key : String} :
      (s.cache.base key).keys = ∅ →
      BufferStep env s (.reading floor key) s
        (some (.readingThrough ⟨floor, s.trace.made key⟩ key (s.cache.delta key)))
  | readThrough {s : BufferState} {watch : Watch} {key : String} {delta : FlatAmounts} :
      BufferStep env s (.readingThrough watch key delta) s
        (some (.answered watch key .empty ((s.kv key).merge delta)))
  | answer {s : BufferState} {watch : Watch} {key : String} {amounts res : FlatAmounts} :
      BufferStep env s (.answered watch key amounts res) (s.complete key amounts) none
  | drain {s : BufferState} {tag now : ℕ} {taken : Finset String} :
      taken ⊆ (s.cache.putBack env tag (now - orphanAgeMs)).available env tag →
      taken.card = min claimsPerBucket
        ((s.cache.putBack env tag (now - orphanAgeMs)).available env tag).card →
      BufferStep env s (.drainBucket tag) (s.drain env tag now taken) none
  | listOrphan {s : BufferState} {tag now nonce : ℕ} {entry : PendingEntry} :
      s.cache.pendingIndex nonce = some entry → env.bucketTag entry.key = tag →
      entry.claimedAt + orphanAgeMs ≤ now →
      BufferStep env s (.listOrphans tag) s (some (.settleOrphan entry.key nonce))
  | reclaim {s : BufferState} {key : String} {nonce now : ℕ} {claim : PendingClaim}
      {paths : List String} : s.cache.pending nonce = some claim → paths.Nodup →
      paths.toFinset = claim.amounts.keys →
      BufferStep env s (.settleOrphan key nonce) (s.reclaim nonce key now)
        (some (.settle env key s.nextNonce claim.amounts paths))
  | reclaimNothing {s : BufferState} {key : String} {nonce now : ℕ} : s.cache.pending nonce = none →
      BufferStep env s (.settleOrphan key nonce) (s.reclaim nonce key now) none
  | claim {s : BufferState} {key : String} {now : ℕ} {paths : List String} :
      (s.cache.delta key).keys ≠ ∅ → paths.Nodup → paths.toFinset = (s.cache.delta key).keys →
      BufferStep env s (.flushOne key) (s.claim key now)
        (some (.settle env key s.nextNonce (s.cache.delta key) paths))
  | claimNothing {s : BufferState} {key : String} {now : ℕ} : (s.cache.delta key).keys = ∅ →
      BufferStep env s (.flushOne key) (s.claim key now) none
  | write {s : BufferState} {key : String} {nonce : ℕ} {amounts : FlatAmounts} {batch : List String}
      {batches : List (List String)} {settled : Option FlatAmounts} :
      BufferStep env s (.settling key nonce amounts (batch :: batches) settled)
        (s.write key nonce (amounts.pick batch))
        (some (.trimming key nonce amounts batch batches
          ((s.write key nonce (amounts.pick batch)).kv key)))
  | writeFails {s : BufferState} {key : String} {nonce : ℕ} {amounts : FlatAmounts}
      {batch : List String} {batches : List (List String)} {settled : Option FlatAmounts} :
      BufferStep env s (.settling key nonce amounts (batch :: batches) settled) s none
  | trim {s : BufferState} {key : String} {nonce : ℕ} {amounts settled : FlatAmounts}
      {batch : List String} {batches : List (List String)} :
      BufferStep env s (.trimming key nonce amounts batch batches settled) (s.trim nonce batch)
        (some (.settling key nonce amounts batches (some settled)))
  | settle {s : BufferState} {key : String} {nonce : ℕ} {amounts settled : FlatAmounts} :
      BufferStep env s (.settling key nonce amounts [] (some settled))
        { s with cache := s.cache.settle key nonce settled } none
  | retire {s : BufferState} {key : String} {nonce : ℕ} {amounts : FlatAmounts} :
      BufferStep env s (.settling key nonce amounts [] none)
        { s with cache := s.cache.retire key nonce } none
  | reconcile {s : BufferState} {tag : ℕ} :
      BufferStep env s (.reconcile tag) { s with cache := s.cache.reconcile env tag } none

/-- The calls that can be made: increments by amounts that are not negative, reads, flushes of a counter
    (of a cycle, or for an exact read), and the other parts of a cycle. -/
inductive BufferCall.Starts : BufferCall → Prop where
  | incr {key : String} {amounts : FlatAmounts} : (∀ path, 0 ≤ amounts.amount path) →
      Starts (.incr key amounts)
  | get {key : String} : Starts (.get key)
  | drainBucket {tag : ℕ} : Starts (.drainBucket tag)
  | listOrphans {tag : ℕ} : Starts (.listOrphans tag)
  | flushOne {key : String} : Starts (.flushOne key)
  | reconcile {tag : ℕ} : Starts (.reconcile tag)

def meteringBuffer (env : BufferEnv)
    (allow : BufferState → List BufferCall → BufferCall → Prop) : System BufferState BufferCall where
  issues := BufferCall.Starts
  atom := BufferStep env
  allow := allow

def BufferState.start (kv : String → FlatAmounts) : BufferState where
  kv := kv
  cache := ⟨fun _ => .empty, fun _ => .empty, ∅, ∅, fun _ => 0, ∅, fun _ => none, fun _ => none⟩
  nextNonce := 0
  trace := ⟨fun key path => (kv key).amount path, fun key path => (kv key).amount path,
    fun _ => .empty, [], []⟩

end Puter

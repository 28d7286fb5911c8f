/-
Module: Puter.Kv.ReadCache
Purpose: The point-read cache of the KV store: the envelope an entry is cached in, the block marker that
  a mutation leaves in its place, and the cache slot of one key with its expiry. The JSON text of an
  envelope is left out, the slot holds what it parses to. With them what a get makes of an entry.
Trusted boundary: none
Main exports: KvCachedItem, blockMarker, CacheSlot
-/
import Mathlib

namespace Puter

/-- An item as the KV store hands it back. A value that is undefined or null is none. -/
structure KvCachedItem (α : Type) where
  value : Option α
  ttl : Option ℚ
  noShare : Bool
deriving DecidableEq, Repr

def KvCachedItem.expired {α : Type} (item : KvCachedItem α) (now : ℚ) : Bool :=
  match item.ttl with
  | some ttl => ttl ≠ 0 ∧ ttl ≤ now
  | none => false

/-- What a get is asked for. -/
structure GetOpts where
  consistentRead : Bool
  crossApp : Bool
deriving DecidableEq, Repr

def answerOf {α : Type} (opts : GetOpts) (entry : Option (KvCachedItem α)) (now : ℚ) : Option α :=
  match entry with
  | none => none
  | some item =>
      if item.expired now then none else if opts.crossApp && item.noShare then none else item.value

/-- What a cache lookup resolved to. -/
inductive KvCachedRead (α : Type) where
  | hit (item : KvCachedItem α) (readUnits : ℚ)
  | miss (readUnits : ℚ)
  | blocked
  | absent
deriving DecidableEq, Repr

/-- The wire envelope: present (1) or known-absent (0), the stored value, the entry's own expiry,
    private to the app that wrote it, the read units to replay, a write block marker. -/
structure KvCacheEnvelope (α : Type) where
  h : Option ℕ
  v : Option α
  t : Option ℚ
  p : Option ℕ
  u : Option ℚ
  b : Option ℕ
deriving DecidableEq, Repr

def blockMarker {α : Type} : KvCacheEnvelope α := ⟨none, none, none, none, none, some 1⟩

structure KvCacheSettings where
  ttlSeconds : ℕ
  missTtlSeconds : ℕ
  blockSeconds : ℕ
  maxEntryBytes : ℕ
deriving DecidableEq, Repr

variable {α : Type}

def encodeCachedHit (item : KvCachedItem α) (readUnits : ℚ) : KvCacheEnvelope α :=
  { h := some 1
    v := item.value
    t := item.ttl
    p := if item.noShare then some 1 else none
    u := some readUnits
    b := none }

def encodeCachedMiss (readUnits : ℚ) : KvCacheEnvelope α :=
  ⟨some 0, none, none, none, some readUnits, none⟩

def decodeCachedRead (raw : Option (KvCacheEnvelope α)) : KvCachedRead α :=
  match raw with
  | none => .absent
  | some envelope =>
      if envelope.b = some 1 then .blocked
      else
        let readUnits := envelope.u.getD 0
        if envelope.h = some 0 then .miss readUnits
        else if envelope.h ≠ some 1 then .absent
        else .hit ⟨envelope.v, envelope.t, envelope.p == some 1⟩ readUnits

@[simp] theorem decodeCachedRead_none : decodeCachedRead (none : Option (KvCacheEnvelope α)) = .absent :=
  rfl

@[simp] theorem decodeCachedRead_blockMarker :
    decodeCachedRead (some (blockMarker : KvCacheEnvelope α)) = .blocked := rfl

@[simp] theorem decodeCachedRead_hit (item : KvCachedItem α) (readUnits : ℚ) :
    decodeCachedRead (some (encodeCachedHit item readUnits)) = .hit item readUnits := by
  obtain ⟨value, ttl, noShare⟩ := item
  cases noShare <;> simp [decodeCachedRead, encodeCachedHit]

@[simp] theorem decodeCachedRead_miss (readUnits : ℚ) :
    decodeCachedRead (some (encodeCachedMiss readUnits : KvCacheEnvelope α)) = .miss readUnits := by
  simp [decodeCachedRead, encodeCachedMiss]

/-- Seconds to cache an entry for, or none when it should not be cached at all: an entry with an
    expiry of its own never outlives it in the cache. -/
def cacheTtlSecondsFor (settings : KvCacheSettings) (entryExpiresAt : Option ℚ) (nowSeconds : ℚ) :
    Option ℕ :=
  match entryExpiresAt with
  | none => some settings.ttlSeconds
  | some expiresAt =>
      let remaining := ⌊expiresAt - nowSeconds⌋
      if remaining ≤ 0 then none else some (min settings.ttlSeconds remaining.toNat)

/-- What the cache holds for one key. Redis drops the key once the clock, in milliseconds, has passed
    its deadline. -/
structure CacheSlot (α : Type) where
  held : Option (KvCacheEnvelope α × ℕ)

namespace CacheSlot

def get (slot : CacheSlot α) (clock : ℕ) : Option (KvCacheEnvelope α) :=
  (slot.held.filter fun entry => clock ≤ entry.2).map Prod.fst

def set (payload : KvCacheEnvelope α) (ttlSeconds clock : ℕ) : CacheSlot α :=
  ⟨some (payload, clock + ttlSeconds * 1000)⟩

def setNX (slot : CacheSlot α) (payload : KvCacheEnvelope α) (ttlSeconds clock : ℕ) : CacheSlot α :=
  if (slot.get clock).isSome then slot else set payload ttlSeconds clock

theorem get_eq_some {slot : CacheSlot α} {clock : ℕ} {payload : KvCacheEnvelope α}
    (found : slot.get clock = some payload) :
    ∃ deadline, slot.held = some (payload, deadline) ∧ clock ≤ deadline := by
  unfold get at found
  rcases entry : slot.held with _ | ⟨envelope, deadline⟩
  · simp [entry] at found
  · rw [entry] at found
    simp only [Option.filter] at found
    split at found
    · next live => exact ⟨deadline, by simpa using found, by simpa using live⟩
    · cases found

theorem setNX_of_live {slot : CacheSlot α} {clock deadline ttlSeconds : ℕ}
    {held payload : KvCacheEnvelope α} (stands : slot.held = some (held, deadline))
    (live : clock ≤ deadline) : slot.setNX payload ttlSeconds clock = slot := by
  simp [setNX, get, stands, Option.filter, live]

theorem setNX_cases (slot : CacheSlot α) (payload : KvCacheEnvelope α) (ttlSeconds clock : ℕ) :
    slot.setNX payload ttlSeconds clock = slot ∨
      slot.setNX payload ttlSeconds clock = set payload ttlSeconds clock := by
  unfold setNX
  split
  · exact .inl rfl
  · exact .inr rfl

end CacheSlot

end Puter

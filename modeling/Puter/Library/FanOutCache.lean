/-
Module: Puter.Library.FanOutCache
Purpose: A cache in which one value stands under several keys, in front of a store that changes. It is faithful if
  each key holds a current value that may stand under it; a value that is replaced keeps it faithful if the
  keys of the old one are dropped or taken by the new one.
Trusted boundary: none
Main exports: Cache, Cache.Faithful.replace
-/
import Mathlib

namespace FanOutCache

abbrev Cache (κ β : Type) := κ → Option β

variable {κ β : Type} [DecidableEq κ]

namespace Cache

def put (cache : Cache κ β) (keys : List κ) (value : β) : Cache κ β :=
  fun key => if key ∈ keys then some value else cache key

def drop (cache : Cache κ β) (keys : List κ) : Cache κ β :=
  fun key => if key ∈ keys then none else cache key

theorem put_of_mem {cache : Cache κ β} {keys : List κ} {key : κ} (member : key ∈ keys) (value : β) :
    cache.put keys value key = some value := if_pos member

theorem put_of_notMem {cache : Cache κ β} {keys : List κ} {key : κ} (outside : key ∉ keys) (value : β) :
    cache.put keys value key = cache key := if_neg outside

theorem drop_some {cache : Cache κ β} {keys : List κ} {key : κ} {value : β} :
    cache.drop keys key = some value ↔ key ∉ keys ∧ cache key = some value := by
  rw [drop]
  split
  · next member => simp [member]
  · next outside => simp [outside]

/-- Each key holds a current value, and one that may stand under it. -/
def Faithful (keysOf : β → List κ) (current : β → Prop) (cache : Cache κ β) : Prop :=
  ∀ key value, cache key = some value → current value ∧ key ∈ keysOf value

variable {keysOf : β → List κ} {current current' : β → Prop} {cache : Cache κ β}

omit [DecidableEq κ] in
theorem Faithful.empty : Faithful keysOf current fun _ => none := fun _ _ held => nomatch held

theorem Faithful.put (faithful : Faithful keysOf current cache) {value : β} (isCurrent : current value) :
    Faithful keysOf current (cache.put (keysOf value) value) := by
  intro key other held
  by_cases member : key ∈ keysOf value
  · rw [put_of_mem member] at held
    cases held
    exact ⟨isCurrent, member⟩
  · rw [put_of_notMem member] at held
    exact faithful key other held

theorem Faithful.drop (faithful : Faithful keysOf current cache) {keys : List κ}
    (stays : ∀ value, current value → (∃ key ∈ keysOf value, key ∉ keys) → current' value) :
    Faithful keysOf current' (cache.drop keys) := by
  intro key value held
  obtain ⟨outside, held⟩ := drop_some.mp held
  obtain ⟨isCurrent, member⟩ := faithful key value held
  exact ⟨stays value isCurrent ⟨key, member, outside⟩, member⟩

theorem Faithful.drop_same (faithful : Faithful keysOf current cache) (keys : List κ) :
    Faithful keysOf current (cache.drop keys) :=
  faithful.drop fun _ isCurrent _ => isCurrent

theorem Faithful.replace (faithful : Faithful keysOf current cache) {old new : β} {gone : List κ}
    (isNew : current' new) (stays : ∀ value, current value → value ≠ old → current' value)
    (covered : ∀ key ∈ keysOf old, key ∈ gone ∨ key ∈ keysOf new) :
    Faithful keysOf current' ((cache.drop gone).put (keysOf new) new) := by
  intro key value held
  by_cases member : key ∈ keysOf new
  · rw [put_of_mem member] at held
    cases held
    exact ⟨isNew, member⟩
  · rw [put_of_notMem member] at held
    obtain ⟨outside, held⟩ := drop_some.mp held
    obtain ⟨isCurrent, isKey⟩ := faithful key value held
    refine ⟨stays value isCurrent fun same => ?_, isKey⟩
    obtain dropped | taken := covered key (same ▸ isKey)
    · exact outside dropped
    · exact member taken

theorem put_put (cache : Cache κ β) (keys : List κ) (value : β) :
    (cache.put keys value).put keys value = cache.put keys value := by
  funext key
  by_cases member : key ∈ keys
  · rw [put_of_mem member, put_of_mem member]
  · rw [put_of_notMem member]

@[simp] theorem drop_nil (cache : Cache κ β) : cache.drop [] = cache := by
  funext key
  exact if_neg List.not_mem_nil

theorem put_drop_put (cache : Cache κ β) (keys gone : List κ) (value : β) :
    ((cache.put keys value).drop gone).put keys value = (cache.drop gone).put keys value := by
  funext key
  by_cases member : key ∈ keys
  · rw [put_of_mem member, put_of_mem member]
  · rw [put_of_notMem member, put_of_notMem member, Cache.drop, Cache.drop, put_of_notMem member]

theorem drop_put (cache : Cache κ β) (keys : List κ) (value : β) :
    (cache.put keys value).drop keys = cache.drop keys := by
  funext key
  by_cases member : key ∈ keys
  · rw [Cache.drop, Cache.drop, if_pos member, if_pos member]
  · rw [Cache.drop, Cache.drop, if_neg member, if_neg member, put_of_notMem member]

end Cache

end FanOutCache

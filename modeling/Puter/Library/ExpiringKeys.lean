/-
Module: Puter.Library.ExpiringKeys
Purpose: Keys that hold a value for a time to live. A key is gone from the moment its time is up; a value
  may also be put only where no key stands.
Trusted boundary: none
Main exports: ExpiringKeys, get_put, get_putNew
-/
import Mathlib

/-- What each key was last given, and the time at which that goes. -/
structure ExpiringKeys (κ β : Type) where
  cell : κ → Option (β × ℕ)

namespace ExpiringKeys

variable {κ β : Type}

def empty : ExpiringKeys κ β := ⟨fun _ => none⟩

def get (keys : ExpiringKeys κ β) (now : ℕ) (key : κ) : Option β :=
  ((keys.cell key).filter fun kept => now < kept.2).map Prod.fst

theorem get_eq_some_iff {keys : ExpiringKeys κ β} {now : ℕ} {key : κ} {value : β} :
    keys.get now key = some value ↔ ∃ expiry, keys.cell key = some (value, expiry) ∧ now < expiry := by
  unfold get
  cases keys.cell key with
  | none => simp
  | some kept =>
      obtain ⟨stored, expiry⟩ := kept
      by_cases live : now < expiry
      · simp [Option.filter, live]
      · simp [Option.filter, live]

theorem get_later {keys : ExpiringKeys κ β} {now later : ℕ} (passes : now ≤ later) {key : κ} {value : β}
    (stands : keys.get later key = some value) : keys.get now key = some value := by
  obtain ⟨expiry, stored, live⟩ := get_eq_some_iff.mp stands
  exact get_eq_some_iff.mpr ⟨expiry, stored, passes.trans_lt live⟩

variable [DecidableEq κ]

def put (keys : ExpiringKeys κ β) (key : κ) (value : β) (expiry : ℕ) : ExpiringKeys κ β :=
  ⟨Function.update keys.cell key (some (value, expiry))⟩

def erase (keys : ExpiringKeys κ β) (key : κ) : ExpiringKeys κ β :=
  ⟨Function.update keys.cell key none⟩

def putNew (keys : ExpiringKeys κ β) (now : ℕ) (key : κ) (value : β) (expiry : ℕ) :
    Bool × ExpiringKeys κ β :=
  if (keys.get now key).isSome then (false, keys) else (true, keys.put key value expiry)

theorem cell_put (keys : ExpiringKeys κ β) (key other : κ) (value : β) (expiry : ℕ) :
    (keys.put key value expiry).cell other = if other = key then some (value, expiry) else keys.cell other :=
  Function.update_apply ..

theorem cell_erase (keys : ExpiringKeys κ β) (key other : κ) :
    (keys.erase key).cell other = if other = key then none else keys.cell other := Function.update_apply ..

theorem get_put (keys : ExpiringKeys κ β) (now : ℕ) (key other : κ) (value : β) (expiry : ℕ) :
    (keys.put key value expiry).get now other =
      if other = key then (if now < expiry then some value else none) else keys.get now other := by
  by_cases same : other = key
  · subst same
    by_cases live : now < expiry
    · simp [get, put, Option.filter, live]
    · simp [get, put, Option.filter, live]
  · simp [get, put, same]

theorem get_erase (keys : ExpiringKeys κ β) (now : ℕ) (key other : κ) :
    (keys.erase key).get now other = if other = key then none else keys.get now other := by
  by_cases same : other = key
  · simp [get, erase, same]
  · simp [get, erase, same]

theorem cell_putNew {keys : ExpiringKeys κ β} {now : ℕ} {key other : κ} {value kept : β} {expiry : ℕ}
    (stands : keys.get now other = some kept) :
    (keys.putNew now key value expiry).2.cell other = keys.cell other := by
  unfold putNew
  split
  · rfl
  · rename_i free
    have differs : other ≠ key := by
      rintro rfl
      exact free (by rw [stands]; rfl)
    exact Function.update_of_ne differs _ _

end ExpiringKeys

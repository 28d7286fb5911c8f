/-
Module: Puter.Library.OwnEntries
Purpose: The own entries of a plain object in the order in which its keys were set: setting a key that is there keeps
  its place, and the last value set for a key is the one read.
Trusted boundary: none
Main exports: keys, lookup_setOwn, lookup_setAll_iff
-/
import Mathlib

namespace OwnEntries

variable {κ ν : Type} [DecidableEq κ]

def keys (entries : List (κ × ν)) : List κ := entries.map Prod.fst

def setOwn (target : List (κ × ν)) (key : κ) (value : ν) : List (κ × ν) :=
  if key ∈ keys target then target.map fun entry => if entry.1 = key then (key, value) else entry
  else target ++ [(key, value)]

def setAll (target entries : List (κ × ν)) : List (κ × ν) :=
  entries.foldl (fun out entry => setOwn out entry.1 entry.2) target

variable {target entries : List (κ × ν)} {key other : κ} {value : ν}

@[simp] theorem setAll_nil : setAll target [] = target := rfl

theorem setAll_cons (entry : κ × ν) :
    setAll target (entry :: entries) = setAll (setOwn target entry.1 entry.2) entries := rfl

theorem setAll_append (later : List (κ × ν)) :
    setAll target (entries ++ later) = setAll (setAll target entries) later :=
  List.foldl_append

omit [DecidableEq κ] in
theorem mem_keys (member : (key, value) ∈ entries) : key ∈ keys entries := List.mem_map_of_mem member

theorem keys_setOwn :
    keys (setOwn target key value) = if key ∈ keys target then keys target else keys target ++ [key] := by
  by_cases present : key ∈ keys target
  · rw [setOwn, if_pos present, if_pos present, keys, List.map_map]
    apply List.map_congr_left
    intro entry _
    by_cases same : entry.1 = key
    · simp [same]
    · simp [same]
  · rw [setOwn, if_neg present, if_neg present, keys, List.map_append]
    rfl

theorem nodup_setOwn (distinct : (keys target).Nodup) : (keys (setOwn target key value)).Nodup := by
  rw [keys_setOwn]
  split
  · exact distinct
  next fresh =>
    have apart : ∀ one ∈ keys target, ∀ two ∈ [key], one ≠ two := by
      intro one member two single same
      rw [same, List.mem_singleton.mp single] at member
      exact fresh member
    exact List.nodup_append.mpr ⟨distinct, List.nodup_singleton _, apart⟩

theorem nodup_setAll (distinct : (keys target).Nodup) : (keys (setAll target entries)).Nodup := by
  induction entries generalizing target with
  | nil => exact distinct
  | cons entry entries ih => exact ih (nodup_setOwn distinct)

theorem mem_keys_setAll (member : key ∈ keys (setAll target entries)) : key ∈ keys target ∨ key ∈ keys entries := by
  induction entries generalizing target with
  | nil => exact .inl member
  | cons entry entries ih =>
      cases ih member with
      | inr later => exact .inr (List.mem_cons_of_mem _ later)
      | inl earlier =>
          rw [keys_setOwn] at earlier
          split at earlier
          · exact .inl earlier
          · cases List.mem_append.mp earlier with
            | inl before => exact .inl before
            | inr here => exact .inr (List.mem_cons.mpr (.inl (List.mem_singleton.mp here)))

theorem setAll_of_fresh (distinct : (keys (target ++ entries)).Nodup) :
    setAll target entries = target ++ entries := by
  induction entries generalizing target with
  | nil => simp
  | cons entry entries ih =>
      have fresh : entry.1 ∉ keys target := by
        rw [keys, List.map_append, List.map_cons, List.nodup_append] at distinct
        exact fun present => distinct.2.2 _ present _ List.mem_cons_self rfl
      have behind : setOwn target entry.1 entry.2 = target ++ [entry] := by
        rw [setOwn, if_neg fresh]
      rw [setAll_cons, behind, ih (by simpa using distinct)]
      simp

theorem setAll_new (distinct : (keys entries).Nodup) : setAll [] entries = entries := setAll_of_fresh distinct

theorem mem_setOwn : (key, value) ∈ setOwn target key value := by
  by_cases present : key ∈ keys target
  · rw [setOwn, if_pos present]
    have ⟨entry, member, same⟩ := List.mem_map.mp present
    exact List.mem_map.mpr ⟨entry, member, if_pos same⟩
  · rw [setOwn, if_neg present]
    exact List.mem_append_right _ (List.mem_singleton.mpr rfl)

theorem mem_setOwn_of_ne {entry : κ × ν} (member : entry ∈ target) (apart : entry.1 ≠ key) :
    entry ∈ setOwn target key value := by
  rw [setOwn]
  split
  · exact List.mem_map.mpr ⟨entry, member, if_neg apart⟩
  · exact List.mem_append_left _ member

theorem mem_of_mem_setOwn {entry : κ × ν} (member : entry ∈ setOwn target key value) :
    entry = (key, value) ∨ entry ∈ target := by
  rw [setOwn] at member
  split at member
  · rcases List.mem_map.mp member with ⟨before, there, rfl⟩
    split
    · exact .inl rfl
    · exact .inr there
  · cases List.mem_append.mp member with
    | inl before => exact .inr before
    | inr here => exact .inl (List.mem_singleton.mp here)

theorem setOwn_setOwn {earlier : ν} : setOwn (setOwn target key earlier) key value = setOwn target key value := by
  have present : key ∈ keys (setOwn target key earlier) := mem_keys mem_setOwn
  rw [setOwn, if_pos present]
  by_cases before : key ∈ keys target
  · rw [setOwn, if_pos before, setOwn, if_pos before, List.map_map]
    apply List.map_congr_left
    intro entry _
    by_cases same : entry.1 = key
    · simp [same]
    · simp [same]
  · rw [setOwn, if_neg before, setOwn, if_neg before, List.map_append]
    have kept : ∀ entry ∈ target, (if entry.1 = key then (key, value) else entry) = id entry := by
      intro entry member
      apply if_neg
      intro same
      exact before (same ▸ List.mem_map_of_mem member)
    rw [List.map_congr_left kept, List.map_id]
    simp

theorem mem_setAll_of_mem {entry : κ × ν} (member : entry ∈ target) (apart : entry.1 ∉ keys entries) :
    entry ∈ setAll target entries := by
  induction entries generalizing target with
  | nil => exact member
  | cons first entries ih =>
      rw [keys, List.map_cons, List.mem_cons, not_or] at apart
      exact ih (mem_setOwn_of_ne member apart.1) apart.2

theorem mem_setAll_of_last {later : List (κ × ν)} (last : key ∉ keys later) :
    (key, value) ∈ setAll target (entries ++ (key, value) :: later) := by
  rw [setAll_append, setAll_cons]
  exact mem_setAll_of_mem mem_setOwn last

theorem mem_of_mem_setAll {entry : κ × ν} (member : entry ∈ setAll target entries) :
    entry ∈ target ∨ entry ∈ entries := by
  induction entries generalizing target with
  | nil => exact .inl member
  | cons first entries ih =>
      cases ih member with
      | inr later => exact .inr (List.mem_cons_of_mem _ later)
      | inl earlier =>
          cases mem_of_mem_setOwn earlier with
          | inl same => exact .inr (same ▸ List.mem_cons_self)
          | inr before => exact .inl before

theorem keys_setAll_of_mem (member : key ∈ keys target ∨ key ∈ keys entries) :
    key ∈ keys (setAll target entries) := by
  induction entries generalizing target with
  | nil => exact member.resolve_right List.not_mem_nil
  | cons first entries ih =>
      apply ih
      rw [keys_setOwn]
      cases member with
      | inl before =>
          left
          split
          · exact before
          · exact List.mem_append_left _ before
      | inr here =>
          cases List.mem_cons.mp here with
          | inr later => exact .inr later
          | inl same =>
              left
              rw [same]
              split
              · assumption
              · exact List.mem_append_right _ (List.mem_singleton.mpr rfl)

section Lookup

variable {κ ν : Type} [BEq κ] [LawfulBEq κ] {entries : List (κ × ν)} {key : κ} {value : ν}

theorem lookup_of_entry (distinct : (keys entries).Nodup) (member : (key, value) ∈ entries) :
    entries.lookup key = some value := by
  induction entries with
  | nil => cases member
  | cons entry entries ih =>
      rw [keys, List.map_cons, List.nodup_cons] at distinct
      cases member with
      | head => exact List.lookup_cons_self
      | tail _ later =>
          have apart : key ≠ entry.1 := fun same => distinct.1 (same ▸ mem_keys later)
          rw [List.lookup_cons, beq_false_of_ne apart]
          exact ih distinct.2 later

theorem entry_of_lookup (found : entries.lookup key = some value) : (key, value) ∈ entries := by
  induction entries with
  | nil => cases found
  | cons entry entries ih =>
      rw [List.lookup_cons] at found
      split at found
      next same =>
        cases found
        exact eq_of_beq same ▸ List.mem_cons_self
      · exact List.mem_cons_of_mem _ (ih found)

theorem lookup_of_key (member : key ∈ keys entries) : ∃ value, entries.lookup key = some value := by
  induction entries with
  | nil => cases member
  | cons entry entries ih =>
      rw [List.lookup_cons]
      split
      · exact ⟨_, rfl⟩
      next apart =>
        cases List.mem_cons.mp member with
        | inl same => simp [same] at apart
        | inr later => exact ih later

theorem lookup_of_not_key (fresh : key ∉ keys entries) : entries.lookup key = none := by
  cases found : entries.lookup key with
  | none => rfl
  | some value => exact absurd (mem_keys (entry_of_lookup found)) fresh

theorem not_key_of_lookup (absent : entries.lookup key = none) : key ∉ keys entries := by
  intro member
  rcases lookup_of_key member with ⟨value, found⟩
  cases absent.symm.trans found

end Lookup

section SetLookup

variable {κ ν : Type} [DecidableEq κ] [BEq κ] [LawfulBEq κ] {key other : κ} {value : ν}
  {target entries : List (κ × ν)}

theorem lookup_replaced : (target.map fun entry => if entry.1 = key then (key, value) else entry).lookup other =
    if other = key then (target.lookup key).map fun _ => value else target.lookup other := by
  induction target with
  | nil => simp
  | cons entry target ih =>
      rw [List.map_cons, List.lookup_cons, List.lookup_cons, List.lookup_cons, ih]
      by_cases here : entry.1 = key
      · rw [if_pos here]
        by_cases same : other = key
        · simp [same, here]
        · simp [same, here, beq_false_of_ne same]
      · rw [if_neg here]
        by_cases same : other = key
        · have apart : (key == entry.1) = false := beq_false_of_ne (Ne.symm here)
          simp [same, apart]
        · simp [same]

theorem lookup_setOwn : (setOwn target key value).lookup other =
    if other = key then some value else target.lookup other := by
  unfold setOwn
  split
  next present =>
    rw [lookup_replaced]
    rcases lookup_of_key present with ⟨old, found⟩
    rw [found]
    rfl
  next fresh =>
    rw [List.lookup_append, List.lookup_cons]
    by_cases same : other = key
    · simp [same, lookup_of_not_key fresh]
    · simp [same, beq_false_of_ne same]

theorem lookup_setAll (distinct : (keys entries).Nodup) :
    (setAll target entries).lookup key = (entries.lookup key).or (target.lookup key) := by
  induction entries generalizing target with
  | nil => rfl
  | cons entry entries ih =>
      rw [keys, List.map_cons, List.nodup_cons] at distinct
      rw [setAll_cons, ih distinct.2, lookup_setOwn, List.lookup_cons]
      by_cases same : key = entry.1
      · subst same
        rw [if_pos rfl, beq_self_eq_true, lookup_of_not_key distinct.1]
        rfl
      · rw [if_neg same, beq_false_of_ne same]

theorem lookup_setAll_iff (single : ∀ one ∈ entries, ∀ two ∈ entries, one.1 = two.1 → one = two) :
    (setAll [] entries).lookup key = some value ↔ (key, value) ∈ entries := by
  constructor
  · intro found
    exact (mem_of_mem_setAll (entry_of_lookup found)).resolve_left List.not_mem_nil
  · intro member
    have present : key ∈ keys (setAll [] entries) := keys_setAll_of_mem (.inr (mem_keys member))
    rcases lookup_of_key present with ⟨other, found⟩
    have there := (mem_of_mem_setAll (entry_of_lookup found)).resolve_left List.not_mem_nil
    rw [found, (Prod.mk.inj (single _ there _ member rfl)).2]

end SetLookup

end OwnEntries

/-
Module: Puter.Library.ScoredSet
Purpose: Sorted sets of a key-value server: members with a score, one entry for each member, under a key
  that is gone once its deadline has passed. The module gives the commands that limiters use, what each
  leaves in the set, and the bound on how many of some members a set holds.
Trusted boundary: none
Main exports: ScoredSet, Distinct, zcard_le_length
-/
import Mathlib

/-- The value of a key: members with their scores, and the time after which the key is gone. -/
structure ScoredSet (α : Type*) where
  members : List (α × ℕ)
  deadline : Option ℕ

namespace ScoredSet

variable {α : Type*}

def empty : ScoredSet α := ⟨[], none⟩

/-- A key is gone once its deadline has passed. What it held stays on record here, and no command finds
    it. -/
def gone (key : ScoredSet α) (clock : ℕ) : Bool := key.deadline.any fun deadline => deadline < clock

def current (key : ScoredSet α) (clock : ℕ) : ScoredSet α := if key.gone clock then empty else key

/-- `ZREMRANGEBYSCORE key 0 cutoff`. -/
def zremrangebyscore (key : ScoredSet α) (cutoff : ℤ) : ScoredSet α :=
  { key with members := key.members.filter fun entry => cutoff < (entry.2 : ℤ) }

/-- `ZCARD key`. -/
def zcard (key : ScoredSet α) : ℕ := key.members.length

/-- `PEXPIRE key ms`, at a time. -/
def pexpire (key : ScoredSet α) (clock ms : ℕ) : ScoredSet α := { key with deadline := some (clock + ms) }

/-- `ZADD key score member`. -/
def zadd [DecidableEq α] (key : ScoredSet α) (score : ℕ) (member : α) : ScoredSet α :=
  { key with members := (member, score) :: key.members.filter fun entry => entry.1 ≠ member }

/-- `ZADD key XX score member`: only a member that is there gets the score. -/
def zaddXX [DecidableEq α] (key : ScoredSet α) (score : ℕ) (member : α) : ScoredSet α :=
  { key with members := key.members.map fun entry => if entry.1 = member then (member, score) else entry }

/-- `ZREM key member`. -/
def zrem [DecidableEq α] (key : ScoredSet α) (member : α) : ScoredSet α :=
  { key with members := key.members.filter fun entry => entry.1 ≠ member }

def onKey (key : ScoredSet α) (clock : ℕ) (command : ScoredSet α → ScoredSet α) : ScoredSet α :=
  if key.gone clock then key else command key

/-- The block of a sliding window: members as old as the window leave, one is added at its timestamp, and
    the key is to last for the window. -/
def enter [DecidableEq α] (key : ScoredSet α) (clock age now : ℕ) (member : α) : ScoredSet α :=
  (((key.current clock).zremrangebyscore ((now : ℤ) - age)).zadd now member).pexpire clock age

def names (key : ScoredSet α) : List α := key.members.map Prod.fst

/-- A member has one entry. -/
def Distinct (key : ScoredSet α) : Prop := key.names.Nodup

section Keys

variable {key : ScoredSet α} {clock ms : ℕ} {cutoff : ℤ} {member : α} {entry : α × ℕ}

@[simp] theorem mem_empty : entry ∉ (empty : ScoredSet α).members := List.not_mem_nil

theorem mem_names : member ∈ key.names ↔ ∃ score, (member, score) ∈ key.members := by
  simp [names]

@[simp] theorem names_empty : (empty : ScoredSet α).names = [] := rfl

@[simp] theorem names_pexpire : (key.pexpire clock ms).names = key.names := rfl

@[simp] theorem members_pexpire : (key.pexpire clock ms).members = key.members := rfl

@[simp] theorem deadline_pexpire : (key.pexpire clock ms).deadline = some (clock + ms) := rfl

@[simp] theorem mem_zremrangebyscore :
    entry ∈ (key.zremrangebyscore cutoff).members ↔ entry ∈ key.members ∧ cutoff < (entry.2 : ℤ) := by
  simp [zremrangebyscore]

theorem mem_current :
    entry ∈ (key.current clock).members ↔ key.gone clock = false ∧ entry ∈ key.members := by
  cases absent : key.gone clock <;> simp [current, absent]

theorem names_current_sublist : (key.current clock).names.Sublist key.names := by
  unfold current
  split
  · exact List.nil_sublist _
  · exact List.Sublist.refl _

theorem mem_names_current :
    member ∈ (key.current clock).names ↔ key.gone clock = false ∧ member ∈ key.names := by
  simp only [mem_names, mem_current]
  exact exists_and_left

theorem gone_later (absent : key.gone clock = true) : key.gone (clock + ms) = true := by
  unfold gone at absent ⊢
  cases ends : key.deadline with
  | none => simp [ends] at absent
  | some deadline =>
      simp only [ends, Option.any_some, decide_eq_true_eq] at absent ⊢
      omega

@[simp] theorem gone_pexpire : (key.pexpire clock ms).gone clock = false := by simp [gone]

theorem onKey_of_there {command : ScoredSet α → ScoredSet α} (there : key.gone clock = false) :
    key.onKey clock command = command key := by
  simp [onKey, there]

theorem onKey_of_gone {command : ScoredSet α → ScoredSet α} (absent : key.gone clock = true) :
    key.onKey clock command = key := by
  simp [onKey, absent]

theorem mem_current_later (found : entry ∈ (key.current (clock + ms)).members) :
    entry ∈ (key.current clock).members := by
  obtain ⟨there, member⟩ := mem_current.mp found
  refine mem_current.mpr ⟨?_, member⟩
  by_contra absent
  rw [gone_later (Bool.not_eq_false _ ▸ absent)] at there
  cases there

namespace Distinct

theorem empty : Distinct (ScoredSet.empty : ScoredSet α) := List.nodup_nil

theorem current (distinct : key.Distinct) (clock : ℕ) : (key.current clock).Distinct := by
  unfold ScoredSet.current
  split
  · exact empty
  · exact distinct

theorem filter (distinct : key.Distinct) (keeps : α × ℕ → Bool) :
    ((key.members.filter keeps).map Prod.fst).Nodup :=
  distinct.sublist (List.filter_sublist.map Prod.fst)

theorem zremrangebyscore (distinct : key.Distinct) (cutoff : ℤ) :
    (key.zremrangebyscore cutoff).Distinct :=
  distinct.filter _

end Distinct

theorem length_le_zcard {members : List α} (apart : members.Nodup)
    (inside : ∀ member ∈ members, member ∈ key.names) : members.length ≤ key.zcard := by
  have bound := (apart.subperm inside).length_le
  rwa [names, List.length_map] at bound

theorem zcard_le_length (distinct : key.Distinct) {members : List α}
    (inside : ∀ entry ∈ key.members, entry.1 ∈ members) : key.zcard ≤ members.length := by
  have bound : key.names.length ≤ members.length :=
    (distinct.subperm fun name found => by
      obtain ⟨entry, place, rfl⟩ := List.mem_map.mp found
      exact inside entry place).length_le
  rwa [names, List.length_map] at bound

end Keys

section Members

variable [DecidableEq α] {key : ScoredSet α} {score : ℕ} {member : α} {entry : α × ℕ}

@[simp] theorem mem_zadd : entry ∈ (key.zadd score member).members ↔
    entry = (member, score) ∨ entry ∈ key.members ∧ entry.1 ≠ member := by
  simp [zadd]

@[simp] theorem mem_zrem : entry ∈ (key.zrem member).members ↔ entry ∈ key.members ∧ entry.1 ≠ member := by
  simp [zrem]

theorem mem_enter {clock age now : ℕ} : entry ∈ (key.enter clock age now member).members ↔
    entry = (member, now) ∨
      (entry ∈ (key.current clock).members ∧ now < entry.2 + age) ∧ entry.1 ≠ member := by
  have inside : (now : ℤ) - age < entry.2 ↔ now < entry.2 + age := by omega
  simp [enter, inside]

theorem names_enter (key : ScoredSet α) (clock age now : ℕ) (member : α) :
    ∃ rest, (key.enter clock age now member).names = member :: rest ∧ rest.Sublist key.names :=
  ⟨_, rfl, ((List.filter_sublist.trans List.filter_sublist).map Prod.fst).trans names_current_sublist⟩

theorem mem_names_zrem {name : α} : name ∈ (key.zrem member).names ↔ name ∈ key.names ∧ name ≠ member := by
  simp only [mem_names, mem_zrem]
  exact exists_and_right

theorem mem_zaddXX : entry ∈ (key.zaddXX score member).members ↔
    (∃ old, (member, old) ∈ key.members ∧ entry = (member, score)) ∨
      entry ∈ key.members ∧ entry.1 ≠ member := by
  simp only [zaddXX, List.mem_map]
  constructor
  · rintro ⟨old, found, rfl⟩
    by_cases same : old.1 = member
    · subst same
      exact .inl ⟨old.2, found, by simp⟩
    · exact .inr ⟨by simp [same, found], by simp [same]⟩
  · rintro (⟨old, found, rfl⟩ | ⟨found, other⟩)
    · exact ⟨_, found, by simp⟩
    · exact ⟨_, found, by simp [other]⟩

@[simp] theorem names_zaddXX : (key.zaddXX score member).names = key.names := by
  rw [names, zaddXX, List.map_map]
  refine List.map_congr_left fun entry _ => ?_
  simp only [Function.comp_apply]
  split
  · rename_i same
    exact same.symm
  · rfl

namespace Distinct

theorem zrem (distinct : key.Distinct) (member : α) : (key.zrem member).Distinct := distinct.filter _

theorem zadd (distinct : key.Distinct) (score : ℕ) (member : α) : (key.zadd score member).Distinct := by
  refine List.nodup_cons.mpr ⟨fun again => ?_, distinct.filter _⟩
  obtain ⟨entry, found, same⟩ := List.mem_map.mp again
  have other := (List.mem_filter.mp found).2
  simp [same] at other

theorem zaddXX (distinct : key.Distinct) (score : ℕ) (member : α) :
    (key.zaddXX score member).Distinct := by
  unfold Distinct
  rwa [names_zaddXX]

theorem enter (distinct : key.Distinct) (clock age now : ℕ) (member : α) :
    (key.enter clock age now member).Distinct :=
  ((distinct.current clock).zremrangebyscore _).zadd now member

end Distinct

end Members

end ScoredSet

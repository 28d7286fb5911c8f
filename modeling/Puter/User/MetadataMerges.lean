/-
Module: Puter.User.MetadataMerges
Purpose: updateMetadata of stores/user/UserStore.ts under any interleaving with itself and with update on one user.
  It merges its patch into the metadata of the row that it reads, which may come from the cache, writes the
  whole document, and publishes that row with the merged metadata to the cache. No patch is lost and the cache
  ends up with the stored row while no write falls between another call's read and its publication, and no call
  reads through the cache between another call's write and its publication.
Trusted boundary: metadata is such as JSON keeps; the cached row is the one under the id, which lookups by id read
Main exports: StoredUser, metadata_merges_kept
-/
import Puter.Fs.PosixPath
import Puter.Library.Interleaving
import Puter.Library.OwnEntries

namespace Puter

open Interleaving OwnEntries

variable {ι ν : Type}

/-- A row of `user` as `normalizeRow` reads it: the metadata, and the other columns by their names. -/
structure StoredUser (ν : Type) where
  metadata : List (Text × ν)
  columns : List (Text × ν)
deriving DecidableEq, Repr

/-- The row, what the cache holds under its id, and the calls of updateMetadata whose write was made. -/
structure MetadataState (ι ν : Type) where
  stored : StoredUser ν
  cache : Option (StoredUser ν)
  merged : List ι
deriving DecidableEq, Repr

/-- `USER_ID_PROPERTIES` without the id itself. -/
def identityColumns : List Text :=
  ["uuid".toList, "username".toList, "email".toList, "referral_code".toList]

/-- Where a call stands. `updateMetadata` reads, writes the merged document, and publishes. `update` takes a
    snapshot if it sets an identifying column, writes, reads the primary again, and publishes. A lookup reads
    through the cache; the cached row may lapse at any time. -/
inductive MetadataCall (ι ν : Type) where
  | reads (call : ι)
  | merges (call : ι) (user : StoredUser ν)
  | snapshots (patch : List (Text × ν))
  | writes (patch : List (Text × ν))
  | rereads
  | publishes (user : StoredUser ν)
  | looksUp
  | lapses
deriving DecidableEq, Repr

namespace MetadataState

/-- `getById`: the cached row, or the stored one, which is then cached. -/
def getById (s : MetadataState ι ν) : MetadataState ι ν × StoredUser ν :=
  match s.cache with
  | some user => (s, user)
  | none => ({ s with cache := some s.stored }, s.stored)

/-- `getById` with `force`, which reads the primary. -/
def getByIdForced (s : MetadataState ι ν) : MetadataState ι ν × StoredUser ν :=
  ({ s with cache := some s.stored }, s.stored)

end MetadataState

/-- A start of `update`. -/
def updateCall (patch : List (Text × ν)) : MetadataCall ι ν :=
  if patch.any (·.1 ∈ identityColumns) then .snapshots patch else .writes patch

def setColumns (columns patch : List (Text × ν)) : List (Text × ν) :=
  columns.map fun column => (column.1, (patch.lookup column.1).getD column.2)

/-- The row with the merged metadata: `{ ...current, ...patch }`. -/
def StoredUser.withMetadata (user : StoredUser ν) (metadata : List (Text × ν)) : StoredUser ν :=
  { user with metadata := metadata }

def MetadataCall.perform (patches : ι → List (Text × ν)) (s : MetadataState ι ν) (refused : Bool) :
    MetadataCall ι ν → MetadataState ι ν × Option (MetadataCall ι ν)
  | .reads call => (s.getById.1, some (.merges call s.getById.2))
  | .merges call user =>
      if refused then (s, none)
      else
        let merged := setAll user.metadata (patches call)
        ({ s with stored := s.stored.withMetadata merged, merged := call :: s.merged },
          some (.publishes (user.withMetadata merged)))
  | .snapshots patch => (s.getByIdForced.1, some (.writes patch))
  | .writes patch =>
      if refused then (s, none)
      else ({ s with stored := { s.stored with columns := setColumns s.stored.columns patch } }, some .rereads)
  | .rereads => (s.getByIdForced.1, some (.publishes s.getByIdForced.2))
  | .publishes user => ({ s with cache := some user }, none)
  | .looksUp => (s.getById.1, none)
  | .lapses => ({ s with cache := none }, none)

def MetadataCall.HoldsRow : MetadataCall ι ν → Prop
  | .merges _ _ | .publishes _ => True
  | _ => False

def MetadataCall.Unpublished : MetadataCall ι ν → Prop
  | .rereads | .publishes _ => True
  | _ => False

/-- No call writes while another one stands between its read and its publication, and updateMetadata reads
    while no other call stands between its write and its publication. -/
def UndisturbedMerges (_ : MetadataState ι ν) (others : List (MetadataCall ι ν)) : MetadataCall ι ν → Prop
  | .reads _ => ∀ other ∈ others, ¬ other.Unpublished
  | .merges _ _ | .writes _ => ∀ other ∈ others, ¬ other.HoldsRow
  | _ => True

def metadataSystem (patches : ι → List (Text × ν))
    (allow : MetadataState ι ν → List (MetadataCall ι ν) → MetadataCall ι ν → Prop) :
    System (MetadataState ι ν) (MetadataCall ι ν) where
  issues call :=
    (∃ index, call = .reads index) ∨ (∃ patch, call = updateCall patch) ∨ call = .looksUp ∨ call = .lapses
  atom s call s' next := ∃ refused, call.perform patches s refused = (s', next)
  allow := allow

def MetadataState.start (user : StoredUser ν) (cached : Bool) : MetadataState ι ν :=
  ⟨user, if cached then some user else none, []⟩

/-- Every key of a patch that was merged has the value of the patch, every other key the value it had, and what
    is cached is the stored row. -/
structure MetadataKept (patches : ι → List (Text × ν)) (user : StoredUser ν) (s : MetadataState ι ν) :
    Prop where
  patched : ∀ call ∈ s.merged, ∀ key ∈ OwnEntries.keys (patches call),
    s.stored.metadata.lookup key = (patches call).lookup key
  untouched : ∀ key, (∀ call ∈ s.merged, key ∉ OwnEntries.keys (patches call)) →
    s.stored.metadata.lookup key = user.metadata.lookup key
  cached : ∀ row, s.cache = some row → row = s.stored

/-- The keys of the patches are pairwise disjoint, and each patch is an object. -/
structure DisjointPatches (patches : ι → List (Text × ν)) : Prop where
  distinct : ∀ call, (OwnEntries.keys (patches call)).Nodup
  apart : ∀ one other, one ≠ other → ∀ key ∈ OwnEntries.keys (patches one), key ∉ OwnEntries.keys (patches other)

section Merges

variable {patches : ι → List (Text × ν)} {user : StoredUser ν} {s : MetadataState ι ν}

/-- What the stored metadata holds: the merged patches over the metadata at the start. -/
structure Merged (patches : ι → List (Text × ν)) (user : StoredUser ν) (s : MetadataState ι ν) : Prop where
  patched : ∀ call ∈ s.merged, ∀ key ∈ OwnEntries.keys (patches call),
    s.stored.metadata.lookup key = (patches call).lookup key
  untouched : ∀ key, (∀ call ∈ s.merged, key ∉ OwnEntries.keys (patches call)) →
    s.stored.metadata.lookup key = user.metadata.lookup key

def MetadataCall.Relies (s : MetadataState ι ν) : MetadataCall ι ν → Prop
  | .merges _ row | .publishes row => row = s.stored
  | _ => True

def Outdated (s : MetadataState ι ν) (_ : Unit) : Prop := ∃ row, s.cache = some row ∧ row ≠ s.stored

theorem Merged.merge (holds : Merged patches user s) (disjoint : DisjointPatches patches) (call : ι) :
    Merged patches user { s with
      stored := s.stored.withMetadata (setAll s.stored.metadata (patches call))
      merged := call :: s.merged } := by
  have read (key : Text) : (setAll s.stored.metadata (patches call)).lookup key =
      ((patches call).lookup key).or (s.stored.metadata.lookup key) := lookup_setAll (disjoint.distinct call)
  constructor
  · intro one member key isKey
    rw [StoredUser.withMetadata, read]
    by_cases own : key ∈ OwnEntries.keys (patches call)
    · have same : one = call := by
        by_contra other
        exact disjoint.apart one call other key isKey own
      rcases lookup_of_key own with ⟨value, found⟩
      rw [same, found]
      rfl
    · rcases List.mem_cons.mp member with rfl | before
      · exact absurd isKey own
      · rw [lookup_of_not_key own, Option.none_or]
        exact holds.patched one before key isKey
  · intro key free
    rw [StoredUser.withMetadata, read, lookup_of_not_key (free call List.mem_cons_self), Option.none_or]
    exact holds.untouched key fun one before => free one (List.mem_cons_of_mem _ before)

variable {s' : MetadataState ι ν} {others : List (MetadataCall ι ν)} {call : MetadataCall ι ν}

theorem Merged.same (holds : Merged patches user s) (metadata : s'.stored.metadata = s.stored.metadata)
    (merged : s'.merged = s.merged) : Merged patches user s' := by
  constructor
  · rw [metadata, merged]
    exact holds.patched
  · rw [metadata, merged]
    exact holds.untouched

theorem MetadataCall.Relies.same (relies : call.Relies s) (stored : s'.stored = s.stored) : call.Relies s' := by
  cases call with
  | merges index row => exact Eq.trans relies stored.symm
  | publishes row => exact Eq.trans relies stored.symm
  | reads | snapshots | writes | rereads | looksUp | lapses => trivial

theorem relies_of_not_holds (empty : ¬ call.HoldsRow) : call.Relies s := by
  cases call with
  | merges index row => exact absurd trivial empty
  | publishes row => exact absurd trivial empty
  | reads | snapshots | writes | rereads | looksUp | lapses => trivial

theorem not_outdated (cached : ∀ row, s.cache = some row → row = s.stored) (k : Unit) : ¬ Outdated s k := by
  rintro ⟨row, isCached, other⟩
  exact other (cached row isCached)

/-- What a step leaves to the calls in flight. -/
structure MergeKept (patches : ι → List (Text × ν)) (user : StoredUser ν) (others : List (MetadataCall ι ν))
    (s' : MetadataState ι ν) (next : Option (MetadataCall ι ν)) : Prop where
  holds : Merged patches user s'
  continues : ∀ call, next = some call → call.Relies s'
  spares : ∀ call ∈ others, call.Relies s'
  owed : ∀ k, Outdated s' k →
    (∃ call, next = some call ∧ call.Unpublished) ∨ ∃ call ∈ others, call.Unpublished

theorem MergeKept.ofRow (holds : Merged patches user s) (relied : ∀ call ∈ others, call.Relies s)
    (stored : s'.stored = s.stored) (merged : s'.merged = s.merged)
    (cached : ∀ row, s'.cache = some row → row = s'.stored)
    {next : Option (MetadataCall ι ν)} (continues : ∀ call, next = some call → call.Relies s') :
    MergeKept patches user others s' next where
  holds := holds.same (congrArg _ stored) merged
  continues := continues
  spares call member := (relied call member).same stored
  owed k outdated := absurd outdated (not_outdated cached k)

theorem MergeKept.caches (holds : Merged patches user s) (relied : ∀ call ∈ others, call.Relies s)
    {next : Option (MetadataCall ι ν)}
    (continues : ∀ call, next = some call → call.Relies { s with cache := some s.stored }) :
    MergeKept patches user others { s with cache := some s.stored } next where
  holds := holds.same rfl rfl
  continues := continues
  spares call member := (relied call member).same rfl
  owed k outdated := by
    refine absurd outdated (not_outdated ?_ k)
    rintro _ ⟨⟩
    rfl

theorem MergeKept.refused (holds : Merged patches user s) (relied : ∀ call ∈ others, call.Relies s)
    (owed : ∀ k, Outdated s k → call.Unpublished ∨ ∃ other ∈ others, other.Unpublished)
    (published : ¬ call.Unpublished) : MergeKept patches user others s none where
  holds := holds
  continues := by rintro _ ⟨⟩
  spares := relied
  owed k outdated := .inr ((owed k outdated).resolve_left published)

theorem getById_cases : s.getById = (s, s.getById.2) ∧ s.cache = some s.getById.2 ∨
    s.getById = ({ s with cache := some s.stored }, s.stored) := by
  unfold MetadataState.getById
  cases s.cache with
  | none => exact .inr rfl
  | some row => exact .inl ⟨rfl, rfl⟩

theorem perform_merges (disjoint : DisjointPatches patches) (undisturbed : UndisturbedMerges s others call)
    (holds : Merged patches user s) (relies : call.Relies s) (relied : ∀ other ∈ others, other.Relies s)
    (owed : ∀ k, Outdated s k → call.Unpublished ∨ ∃ other ∈ others, other.Unpublished) (refused : Bool) :
    MergeKept patches user others (call.perform patches s refused).1 (call.perform patches s refused).2 := by
  have free (empty : ∀ other ∈ others, ¬ other.HoldsRow) (s' : MetadataState ι ν) :
      ∀ other ∈ others, other.Relies s' := fun other member => relies_of_not_holds (empty other member)
  cases call with
  | reads index =>
      -- Nobody owes the cache anything, so what is cached is the stored row.
      have fresh : ∀ row, s.cache = some row → row = s.stored := by
        intro row isCached
        by_contra other
        rcases owed () ⟨row, isCached, other⟩ with own | ⟨debtor, member, unpublished⟩
        · exact own
        · exact undisturbed debtor member unpublished
      have lookup : s.getById = (s, s.getById.2) ∧ s.cache = some s.getById.2 ∨
          s.getById = ({ s with cache := some s.stored }, s.stored) := getById_cases
      rcases lookup with ⟨same, isCached⟩ | missed
      · rw [MetadataCall.perform, same]
        apply MergeKept.ofRow holds relied rfl rfl fresh
        rintro _ ⟨⟩
        exact fresh _ isCached
      · rw [MetadataCall.perform, missed]
        apply MergeKept.caches holds relied
        rintro _ ⟨⟩
        rfl
  | merges index row =>
      have isStored : row = s.stored := relies
      subst isStored
      cases refused with
      | true => exact .refused holds relied owed id
      | false =>
          refine ⟨holds.merge disjoint index, ?_, free undisturbed _, fun _ _ => .inl ⟨_, rfl, trivial⟩⟩
          rintro _ ⟨⟩
          rfl
  | snapshots patch =>
      apply MergeKept.caches holds relied
      rintro _ ⟨⟩
      trivial
  | writes patch =>
      cases refused with
      | true => exact .refused holds relied owed id
      | false =>
          refine ⟨holds.same rfl rfl, ?_, free undisturbed _, fun _ _ => .inl ⟨_, rfl, trivial⟩⟩
          rintro _ ⟨⟩
          trivial
  | rereads =>
      apply MergeKept.caches holds relied
      rintro _ ⟨⟩
      rfl
  | publishes row =>
      have isStored : row = s.stored := relies
      subst isStored
      apply MergeKept.caches holds relied
      rintro _ ⟨⟩
  | looksUp =>
      have lookup : s.getById = (s, s.getById.2) ∧ s.cache = some s.getById.2 ∨
          s.getById = ({ s with cache := some s.stored }, s.stored) := getById_cases
      rcases lookup with ⟨same, isCached⟩ | missed
      · rw [MetadataCall.perform, same]
        exact .refused holds relied owed id
      · rw [MetadataCall.perform, missed]
        apply MergeKept.caches holds relied
        rintro _ ⟨⟩
  | lapses =>
      have gone : ∀ row, ({ s with cache := none } : MetadataState ι ν).cache = some row → row = s.stored := by
        rintro _ ⟨⟩
      apply @MergeKept.ofRow _ _ _ _ s { s with cache := none } _ holds relied rfl rfl gone
      rintro _ ⟨⟩

end Merges

/-- In every run of updateMetadata and update calls on one user in which the condition is met, once no call is
    left every patch is in the stored metadata, every other key is as it was, and the cached row is the
    stored one. -/
theorem metadata_merges_kept (patches : ι → List (Text × ν)) (disjoint : DisjointPatches patches)
    (user : StoredUser ν) (cached : Bool) (c : Config (MetadataState ι ν) (MetadataCall ι ν))
    (run : Run (metadataSystem patches UndisturbedMerges) ⟨.start user cached, []⟩ c)
    (returned : c.inFlight = []) : MetadataKept patches user c.shared := by
  have initial : Merged patches user (.start user cached : MetadataState ι ν) :=
    ⟨by rintro _ ⟨⟩, fun _ _ => rfl⟩
  have fresh : ∀ k, ¬ Outdated (.start user cached : MetadataState ι ν) k := by
    intro k
    apply not_outdated
    intro row isCached
    cases cached with
    | true => exact (Option.some.inj isCached).symm
    | false => cases isCached
  have kept : Supported (Merged patches user) MetadataCall.Relies c ∧
      Indebted Outdated (fun call (_ : Unit) => call.Unpublished) c := by
    refine run_supported_indebted run ⟨initial, by rintro _ ⟨⟩⟩
      (fun k outdated => absurd outdated (fresh k)) ?_ ?_
    · rintro s call (⟨index, rfl⟩ | ⟨patch, rfl⟩ | rfl | rfl) _
      · trivial
      · unfold updateCall
        split <;> trivial
      · trivial
      · trivial
    · rintro s others call s' next undisturbed ⟨refused, step⟩ holds relies relied owed
      have kept := perform_merges disjoint undisturbed holds relies relied owed refused
      rw [step] at kept
      exact ⟨kept.holds, kept.continues, kept.spares, kept.owed⟩
  refine ⟨kept.1.holds.patched, kept.1.holds.untouched, fun row isCached => ?_⟩
  by_contra other
  rcases kept.2 () ⟨row, isCached, other⟩ with ⟨debtor, member, _⟩
  rw [returned] at member
  cases member

section Examples

/-- Two patches: the one call sets `a`, the other one `b`. -/
def twoPatches (call : Bool) : List (Text × ℕ) := if call then [(['a'], 1)] else [(['b'], 2)]

theorem twoPatches_disjoint : DisjointPatches twoPatches where
  distinct := by decide
  apart := by
    intro one other different key isOne isOther
    cases one <;> cases other <;> simp_all [twoPatches, OwnEntries.keys]

def emptyUser : StoredUser ℕ := ⟨[], []⟩

theorem one_merge_run : Run (metadataSystem twoPatches UndisturbedMerges) ⟨.start emptyUser false, []⟩
    ⟨⟨⟨[(['a'], 1)], []⟩, some ⟨[(['a'], 1)], []⟩, [true]⟩, []⟩ := by
  have issued : Run (metadataSystem twoPatches UndisturbedMerges) ⟨.start emptyUser false, []⟩
      ⟨.start emptyUser false, [.reads true]⟩ := .single (.issue (.inl ⟨true, rfl⟩))
  have read : Run (metadataSystem twoPatches UndisturbedMerges) ⟨.start emptyUser false, [.reads true]⟩
      ⟨⟨emptyUser, some emptyUser, []⟩, [.merges true emptyUser]⟩ :=
    .single (@Step.alone _ _ (metadataSystem twoPatches UndisturbedMerges) _ _ _ (some (.merges true emptyUser))
      (by rintro _ ⟨⟩) ⟨false, rfl⟩)
  have written : Run (metadataSystem twoPatches UndisturbedMerges)
      ⟨⟨emptyUser, some emptyUser, []⟩, [.merges true emptyUser]⟩
      ⟨⟨⟨[(['a'], 1)], []⟩, some emptyUser, [true]⟩, [.publishes ⟨[(['a'], 1)], []⟩]⟩ :=
    .single (@Step.alone _ _ (metadataSystem twoPatches UndisturbedMerges) _ _ _
      (some (.publishes ⟨[(['a'], 1)], []⟩)) (by rintro _ ⟨⟩) ⟨false, rfl⟩)
  have published : Run (metadataSystem twoPatches UndisturbedMerges)
      ⟨⟨⟨[(['a'], 1)], []⟩, some emptyUser, [true]⟩, [.publishes ⟨[(['a'], 1)], []⟩]⟩
      ⟨⟨⟨[(['a'], 1)], []⟩, some ⟨[(['a'], 1)], []⟩, [true]⟩, []⟩ :=
    .single (@Step.alone _ _ (metadataSystem twoPatches UndisturbedMerges) _ _ _ none trivial ⟨false, rfl⟩)
  exact ((issued.trans read).trans written).trans published

theorem one_merge_kept :
    MetadataKept twoPatches emptyUser ⟨⟨[(['a'], 1)], []⟩, some ⟨[(['a'], 1)], []⟩, [true]⟩ :=
  metadata_merges_kept twoPatches twoPatches_disjoint emptyUser false _ one_merge_run rfl

abbrev anyMerges : System (MetadataState Bool ℕ) (MetadataCall Bool ℕ) :=
  metadataSystem twoPatches fun _ _ _ => True

theorem overlapping_run : Run anyMerges ⟨.start emptyUser false, []⟩
    ⟨⟨⟨[(['b'], 2)], []⟩, some ⟨[(['b'], 2)], []⟩, [false, true]⟩, []⟩ := by
  let cached : MetadataState Bool ℕ := ⟨emptyUser, some emptyUser, []⟩
  have first : Run anyMerges ⟨.start emptyUser false, []⟩ ⟨cached, [.merges true emptyUser]⟩ :=
    (Relation.ReflTransGen.single (.issue (.inl ⟨true, rfl⟩))).tail
      (@Step.alone _ _ anyMerges _ _ _ (some (.merges true emptyUser)) trivial ⟨false, rfl⟩)
  have second : Run anyMerges ⟨cached, [.merges true emptyUser]⟩
      ⟨cached, [.merges false emptyUser, .merges true emptyUser]⟩ :=
    (Relation.ReflTransGen.single (.issue (.inl ⟨false, rfl⟩))).tail
      (@Step.goesOn _ _ anyMerges _ _ _ (.merges false emptyUser) _ trivial ⟨false, rfl⟩)
  have written : Run anyMerges ⟨cached, [.merges false emptyUser, .merges true emptyUser]⟩
      ⟨⟨⟨[(['a'], 1)], []⟩, some ⟨[(['a'], 1)], []⟩, [true]⟩, [.merges false emptyUser]⟩ :=
    (Relation.ReflTransGen.single
      (@Step.advance _ _ anyMerges _ _ [.merges false emptyUser] [] _ (some (.publishes ⟨[(['a'], 1)], []⟩))
        trivial ⟨false, rfl⟩)).tail
      (@Step.advance _ _ anyMerges _ _ [.merges false emptyUser] [] _ none trivial ⟨false, rfl⟩)
  have overwritten : Run anyMerges
      ⟨⟨⟨[(['a'], 1)], []⟩, some ⟨[(['a'], 1)], []⟩, [true]⟩, [.merges false emptyUser]⟩
      ⟨⟨⟨[(['b'], 2)], []⟩, some ⟨[(['b'], 2)], []⟩, [false, true]⟩, []⟩ :=
    (Relation.ReflTransGen.single
      (@Step.alone _ _ anyMerges _ _ _ (some (.publishes ⟨[(['b'], 2)], []⟩)) trivial ⟨false, rfl⟩)).tail
      (@Step.alone _ _ anyMerges _ _ _ none trivial ⟨false, rfl⟩)
  exact ((first.trans second).trans written).trans overwritten

/-- Two overlapping calls lose a patch. -/
theorem overlapping_merge_lost :
    ¬ ∀ (patches : Bool → List (Text × ℕ)), DisjointPatches patches → ∀ user cached c,
      Run (metadataSystem patches fun _ _ _ => True) ⟨.start user cached, []⟩ c → c.inFlight = [] →
        MetadataKept patches user c.shared := by
  intro kept
  have lost := (kept twoPatches twoPatches_disjoint emptyUser false _ overlapping_run rfl).patched true (by decide)
    ['a'] (by decide)
  revert lost
  decide

end Examples

end Puter

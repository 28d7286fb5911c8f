/-
Module: Puter.AiChat.ModelBuckets
Purpose: What `#buildModelMap` of drivers/ai-chat makes of any catalogs. A key belongs to the bucket of the first entry
  that has it, an entry joins the bucket of its first identity key that is known, and an entry whose first known key is
  the name of a property that every object inherits ends the loop with a throw.
Trusted boundary: `toLowerCase` is idempotent and makes no white space
Main exports: LetterCase.Lawful, free_of_registerAll
-/
import Puter.AiChat.ModelRouting
import Puter.Core.Pagination
import Puter.Library.SortedBuckets

namespace Puter

open PosixPath ModelRouting ChatCompletionDriver SortedBuckets

/-- Lower case stays lower case, has no white space that was not there, and is what the letters from a to z are in. -/
structure LetterCase.Lawful (letters : LetterCase) : Prop where
  lowercase : ∀ text, (text.all fun c => 'a' ≤ c ∧ c ≤ 'z') = true → letters.toLowerCase text = text
  idempotent : ∀ text, letters.toLowerCase (letters.toLowerCase text) = letters.toLowerCase text
  spaceless : ∀ text, (∀ c ∈ text, isSpace c = false) → ∀ c ∈ letters.toLowerCase text, isSpace c = false

def firstKnown (letters : LetterCase) (earlier : List IChatModel) (entry : IChatModel) : Option Text :=
  ((keysOf letters entry).filter isIdentityKey).find? fun key =>
    key ∈ earlier.flatMap (keysOf letters) ∨ key ∈ inheritedNames

namespace ModelMap

theorem claimKey_buckets (index : ℕ) (map : ModelMap) (key : Text) : (map.claimKey index key).buckets = map.buckets := by
  unfold claimKey
  split
  · rfl
  · rfl

theorem claimKey_lookup (index : ℕ) (map : ModelMap) (key other : Text) :
    (map.claimKey index key).keys.lookup other =
      (map.keys.lookup other).or (if other = key ∧ other ∉ inheritedNames then some index else none) := by
  unfold claimKey find
  cases found : map.keys.lookup key with
  | some owner =>
      by_cases same : other = key
      · simp [same, found]
      · simp [same]
  | none =>
      by_cases inherited : key ∈ inheritedNames
      · have free : ¬ (other = key ∧ other ∉ inheritedNames) := fun taken => taken.2 (taken.1 ▸ inherited)
        simp [inherited, free]
      · by_cases same : other = key
        · simp [same, inherited, List.lookup_append, List.lookup]
        · have differs : (other == key) = false := by simpa using same
          simp [same, inherited, List.lookup_append, List.lookup, differs]

theorem claimAll_buckets (index : ℕ) (map : ModelMap) (keys : List Text) :
    (keys.foldl (claimKey index) map).buckets = map.buckets := by
  induction keys generalizing map with
  | nil => rfl
  | cons key rest ih => exact (ih _).trans (claimKey_buckets index map key)

theorem claimAll_lookup (index : ℕ) (map : ModelMap) (keys : List Text) (other : Text) :
    (keys.foldl (claimKey index) map).keys.lookup other =
      (map.keys.lookup other).or (if other ∈ keys ∧ other ∉ inheritedNames then some index else none) := by
  induction keys generalizing map with
  | nil => simp
  | cons key rest ih =>
      rw [List.foldl_cons, ih, claimKey_lookup, Option.or_assoc]
      by_cases inherited : other ∈ inheritedNames
      · simp [inherited]
      · by_cases same : other = key
        · have free : key ∉ inheritedNames := same ▸ inherited
          simp [same, free]
        · simp [same]

theorem find_isSome (map : ModelMap) (key : Text) :
    (map.find key).isSome ↔ (map.keys.lookup key).isSome ∨ key ∈ inheritedNames := by
  unfold find
  cases map.keys.lookup key with
  | some index => simp
  | none => by_cases inherited : key ∈ inheritedNames <;> simp [inherited]

theorem find_eq_bucket {map : ModelMap} {key : Text} {index : ℕ} :
    map.find key = some (.bucket index) ↔ map.keys.lookup key = some index := by
  unfold find
  cases map.keys.lookup key with
  | some other => simp
  | none => by_cases inherited : key ∈ inheritedNames <;> simp [inherited]

/-- What entering an entry does: its keys that are not known lead to its bucket, which it is sorted into. -/
structure Entered (letters : LetterCase) (entry : IChatModel) (index : ℕ) (map map' : ModelMap) : Prop where
  lookup : ∀ key, map'.keys.lookup key =
    (map.keys.lookup key).or (if key ∈ keysOf letters entry ∧ key ∉ inheritedNames then some index else none)
  bucket : map'.bucketAt index = sortBucket (map.bucketAt index ++ [entry])
  others : ∀ other, other ≠ index → map'.bucketAt other = map.bucketAt other
  flatten : map'.buckets.flatten.Perm (map.buckets.flatten ++ [entry])

theorem enter_entered (letters : LetterCase) (entry : IChatModel) {map : ModelMap} {index : ℕ}
    (inside : index < map.buckets.length) :
    Entered letters entry index map (map.enter index (keysOf letters entry) entry) := by
  have buckets : (map.enter index (keysOf letters entry) entry).buckets =
      map.buckets.modify index fun bucket => sortBucket (bucket ++ [entry]) :=
    congrArg (fun buckets : List (List IChatModel) => buckets.modify index fun bucket => sortBucket (bucket ++ [entry]))
      (claimAll_buckets index map (keysOf letters entry))
  constructor
  case lookup => exact claimAll_lookup index map (keysOf letters entry)
  case bucket =>
    unfold bucketAt
    rw [buckets]
    exact getD_modify_same _ inside
  case others =>
    intro other ne
    unfold bucketAt
    rw [buckets]
    exact getD_modify_other _ ne
  case flatten =>
    rw [buckets]
    exact flatten_modify_perm inside fun bucket => List.mergeSort_perm _ _

theorem enter_fresh (letters : LetterCase) (entry : IChatModel) (map : ModelMap) :
    Entered letters entry map.buckets.length map
      ({ map with buckets := map.buckets ++ [[]] }.enter map.buckets.length (keysOf letters entry) entry) := by
  have inside : map.buckets.length < (map.buckets ++ [[]]).length := by simp
  have entered := @enter_entered letters entry { map with buckets := map.buckets ++ [[]] } map.buckets.length inside
  have same (index : ℕ) : bucketAt { map with buckets := map.buckets ++ [[]] } index = map.bucketAt index := by
    unfold bucketAt
    cases Nat.lt_or_ge index map.buckets.length with
    | inl before => exact List.getD_append _ _ _ _ before
    | inr after =>
        rw [List.getD_append_right _ _ _ _ after, List.getD_eq_default _ _ after]
        cases index - map.buckets.length with
        | zero => rfl
        | succ _ => rfl
  constructor
  case lookup => exact entered.lookup
  case bucket => rw [entered.bucket, same]
  case others =>
    intro other ne
    rw [entered.others other ne, same]
  case flatten =>
    have flatten := entered.flatten
    simpa using flatten

end ModelMap

section Invariant

variable {letters : LetterCase} {earlier : List IChatModel} {entry : IChatModel} {map map' : ModelMap} {index : ℕ}

def Joins (letters : LetterCase) (entries : List IChatModel) (a b : IChatModel) : Prop :=
  a ∈ entries ∧ b ∈ entries ∧ ∃ key, isIdentityKey key ∧ key ∈ keysOf letters a ∧ key ∈ keysOf letters b

/-- The map that some entries make. -/
structure Registered (letters : LetterCase) (entries : List IChatModel) (map : ModelMap) : Prop where
  known : ∀ key, (map.keys.lookup key).isSome ↔ key ∈ entries.flatMap (keysOf letters) ∧ key ∉ inheritedNames
  owned : ∀ key index, map.keys.lookup key = some index → ∃ entry ∈ map.bucketAt index, key ∈ keysOf letters entry
  once : map.buckets.flatten.Perm entries
  sorted : ∀ index, ∃ bucket, map.bucketAt index = sortBucket bucket
  joined : ∀ index a b, a ∈ map.bucketAt index → b ∈ map.bucketAt index → Relation.EqvGen (Joins letters entries) a b

theorem registered_empty (letters : LetterCase) : Registered letters [] .empty where
  known key := by simp [ModelMap.empty]
  owned key index found := nomatch found
  once := .refl _
  sorted index := ⟨[], by rw [sortBucket, List.mergeSort_nil]; rfl⟩
  joined index a b isA := nomatch isA

theorem mem_flatten_of_bucketAt (member : entry ∈ map.bucketAt index) : entry ∈ map.buckets.flatten := by
  unfold ModelMap.bucketAt at member
  cases Nat.lt_or_ge index map.buckets.length with
  | inl inside =>
      rw [List.getD_eq_getElem _ _ inside] at member
      exact List.mem_flatten.mpr ⟨_, List.getElem_mem inside, member⟩
  | inr outside =>
      rw [List.getD_eq_default _ _ outside] at member
      exact nomatch member

theorem lt_length_of_bucketAt (member : entry ∈ map.bucketAt index) : index < map.buckets.length := by
  by_contra outside
  unfold ModelMap.bucketAt at member
  rw [List.getD_eq_default _ _ (Nat.le_of_not_lt outside)] at member
  exact nomatch member

theorem mem_sortBucket {bucket : List IChatModel} {a : IChatModel} : a ∈ sortBucket bucket ↔ a ∈ bucket :=
  List.mem_mergeSort

/-- A bucket chosen for an entry: the one of its first known key, else one that is empty. -/
structure Chosen (letters : LetterCase) (earlier : List IChatModel) (entry : IChatModel) (map : ModelMap) (index : ℕ) :
    Prop where
  known : ∀ key, firstKnown letters earlier entry = some key → map.keys.lookup key = some index
  fresh : firstKnown letters earlier entry = none → map.bucketAt index = []

theorem firstKnown_spec {key : Text} (first : firstKnown letters earlier entry = some key) :
    isIdentityKey key = true ∧ key ∈ keysOf letters entry ∧
      (key ∈ earlier.flatMap (keysOf letters) ∨ key ∈ inheritedNames) := by
  have member := List.mem_filter.mp (List.mem_of_find?_eq_some first)
  have known := List.find?_some first
  exact ⟨member.2, member.1, by simpa using known⟩

theorem ModelMap.Entered.mem_bucketAt (entered : ModelMap.Entered letters entry index map map') {other : ℕ}
    {member : IChatModel} :
    member ∈ map'.bucketAt other ↔ member ∈ map.bucketAt other ∨ other = index ∧ member = entry := by
  by_cases same : other = index
  · rw [same, entered.bucket, mem_sortBucket, List.mem_append, List.mem_singleton]
    simp
  · rw [entered.others other same]
    simp [same]

theorem Chosen.connected (chosen : Chosen letters earlier entry map index) (registered : Registered letters earlier map)
    {member : IChatModel} (isMember : member ∈ map.bucketAt index) :
    Relation.EqvGen (Joins letters (earlier ++ [entry])) entry member := by
  cases first : firstKnown letters earlier entry with
  | none =>
      rw [chosen.fresh first] at isMember
      exact nomatch isMember
  | some key =>
      have ⟨identity, isKey, _⟩ := firstKnown_spec first
      have ⟨owner, isOwner, ownsKey⟩ := registered.owned key index (chosen.known key first)
      have before : owner ∈ earlier := registered.once.mem_iff.mp (mem_flatten_of_bucketAt isOwner)
      have shared : Joins letters (earlier ++ [entry]) entry owner :=
        ⟨List.mem_append_right _ List.mem_cons_self, List.mem_append_left _ before, key, identity, isKey, ownsKey⟩
      have old := registered.joined index owner member isOwner isMember
      have kept : Relation.EqvGen (Joins letters (earlier ++ [entry])) owner member :=
        old.mono fun a b joins => ⟨List.mem_append_left _ joins.1, List.mem_append_left _ joins.2.1, joins.2.2⟩
      exact .trans _ _ _ (.rel _ _ shared) kept

theorem Registered.entered (registered : Registered letters earlier map) (chosen : Chosen letters earlier entry map index)
    (entered : ModelMap.Entered letters entry index map map') : Registered letters (earlier ++ [entry]) map' := by
  constructor
  case known =>
    intro key
    have known := registered.known key
    rw [entered.lookup, Option.isSome_or, Bool.or_eq_true, known]
    by_cases inherited : key ∈ inheritedNames
    · simp [inherited]
    · by_cases isKey : key ∈ keysOf letters entry
      · simp [inherited, isKey]
      · simp [inherited, isKey]
  case owned =>
    intro key other found
    rw [entered.lookup] at found
    cases old : map.keys.lookup key with
    | some owner =>
        rw [old] at found
        have ⟨member, isMember, ownsKey⟩ := registered.owned key other (old.trans found)
        exact ⟨member, entered.mem_bucketAt.mpr (.inl isMember), ownsKey⟩
    | none =>
        rw [old, Option.none_or] at found
        by_cases taken : key ∈ keysOf letters entry ∧ key ∉ inheritedNames
        · rw [if_pos taken] at found
          exact ⟨entry, entered.mem_bucketAt.mpr (.inr ⟨(Option.some.inj found).symm, rfl⟩), taken.1⟩
        · rw [if_neg taken] at found
          exact nomatch found
  case once => exact entered.flatten.trans (registered.once.append_right [entry])
  case sorted =>
    intro other
    by_cases same : other = index
    · exact ⟨_, same ▸ entered.bucket⟩
    · rw [entered.others other same]
      exact registered.sorted other
  case joined =>
    intro other a b isA isB
    have kept (a b : IChatModel) (old : Relation.EqvGen (Joins letters earlier) a b) :
        Relation.EqvGen (Joins letters (earlier ++ [entry])) a b :=
      old.mono fun a b joins => ⟨List.mem_append_left _ joins.1, List.mem_append_left _ joins.2.1, joins.2.2⟩
    cases entered.mem_bucketAt.mp isA with
    | inl oldA =>
        cases entered.mem_bucketAt.mp isB with
        | inl oldB => exact kept a b (registered.joined other a b oldA oldB)
        | inr newB =>
            have ⟨same, isEntry⟩ := newB
            exact isEntry ▸ (chosen.connected registered (same ▸ oldA)).symm
    | inr newA =>
        have ⟨same, isEntry⟩ := newA
        cases entered.mem_bucketAt.mp isB with
        | inl oldB => exact isEntry ▸ chosen.connected registered (same ▸ oldB)
        | inr newB =>
            rw [isEntry, newB.2]
            exact .refl _

theorem Registered.found (registered : Registered letters earlier map) (entry : IChatModel) :
    ((keysOf letters entry).filter isIdentityKey).findSome? map.find = (firstKnown letters earlier entry).bind map.find := by
  have known (key : Text) : (map.find key).isSome =
      decide (key ∈ earlier.flatMap (keysOf letters) ∨ key ∈ inheritedNames) := by
    rw [Bool.eq_iff_iff, ModelMap.find_isSome, registered.known, decide_eq_true_iff]
    by_cases inherited : key ∈ inheritedNames
    · simp [inherited]
    · simp [inherited]
  unfold firstKnown
  rw [findSome?_eq_bind_find?, funext known]

theorem Registered.find_inherited (registered : Registered letters earlier map) {key : Text}
    (inherited : key ∈ inheritedNames) : map.find key = some .inherited := by
  have unknown : map.keys.lookup key = none := by
    apply Option.not_isSome_iff_eq_none.mp
    intro known
    exact ((registered.known key).mp known).2 inherited
  unfold ModelMap.find
  rw [unknown]
  exact if_pos inherited

theorem registerModel_throws (registered : Registered letters earlier map) {provider : Text} {model : IChatModel} {key : Text}
    (first : firstKnown letters earlier (entryOf letters provider model) = some key) (inherited : key ∈ inheritedNames) :
    registerModel letters map provider model = .error ⟨"bucket.push is not a function"⟩ := by
  unfold registerModel
  dsimp only
  rw [registered.found, first, Option.bind_some, registered.find_inherited inherited]

theorem registerModel_entered (registered : Registered letters earlier map) (provider : Text) (model : IChatModel)
    (own : ∀ key, firstKnown letters earlier (entryOf letters provider model) = some key → key ∉ inheritedNames) :
    ∃ map' index, registerModel letters map provider model = .ok map' ∧
      Chosen letters earlier (entryOf letters provider model) map index ∧
      ModelMap.Entered letters (entryOf letters provider model) index map map' := by
  have found := registered.found (entryOf letters provider model)
  unfold registerModel
  dsimp only
  cases first : firstKnown letters earlier (entryOf letters provider model) with
  | none =>
      rw [first, Option.bind_none] at found
      rw [found]
      have empty : map.bucketAt map.buckets.length = [] := List.getD_eq_default _ _ (Nat.le_refl _)
      exact ⟨_, _, rfl, ⟨fun key known => (nomatch first.symm.trans known), fun _ => empty⟩, map.enter_fresh _ _⟩
  | some key =>
      have known := (firstKnown_spec first).2.2.resolve_right (own key first)
      have ⟨index, owner⟩ := Option.isSome_iff_exists.mp ((registered.known key).mpr ⟨known, own key first⟩)
      have ⟨member, isMember, _⟩ := registered.owned key index owner
      rw [first, Option.bind_some, ModelMap.find_eq_bucket.mpr owner] at found
      rw [found]
      have chosen : Chosen letters earlier (entryOf letters provider model) map index :=
        ⟨fun other same => by rw [← Option.some.inj (first.symm.trans same), owner], fun none => nomatch first.symm.trans none⟩
      exact ⟨_, _, rfl, chosen, ModelMap.enter_entered _ _ (lt_length_of_bucketAt isMember)⟩

/-- An entry that has its own id as its first key, and that key is one of identity. -/
structure Named (letters : LetterCase) (entry : IChatModel) : Prop where
  normal : normalizeModelKey letters entry.id = entry.id
  identity : isIdentityKey entry.id = true

def OwnIds (map : ModelMap) : Prop :=
  ∀ index entry, entry ∈ map.bucketAt index → map.keys.lookup entry.id = some index

theorem Named.keysOf_cons (named : Named letters entry) : ∃ rest, keysOf letters entry = entry.id :: rest := by
  have identity := named.identity
  unfold isIdentityKey at identity
  have nonempty : entry.id ≠ [] := by
    simp only [Bool.and_eq_true, decide_eq_true_eq] at identity
    exact identity.1
  unfold keysOf
  rw [List.map_cons, named.normal, List.filter_cons_of_pos (by simpa using List.length_pos_iff.mpr nonempty)]
  exact ⟨_, rfl⟩

theorem Named.firstKnown_eq (named : Named letters entry)
    (known : entry.id ∈ earlier.flatMap (keysOf letters) ∨ entry.id ∈ inheritedNames) :
    firstKnown letters earlier entry = some entry.id := by
  have ⟨rest, keys⟩ := named.keysOf_cons
  unfold firstKnown
  rw [keys, List.filter_cons_of_pos named.identity]
  exact List.find?_cons_of_pos (by simpa using known)

theorem Named.mem_keysOf (named : Named letters entry) : entry.id ∈ keysOf letters entry := by
  have ⟨rest, keys⟩ := named.keysOf_cons
  rw [keys]
  exact List.mem_cons_self

theorem OwnIds.entered (own : OwnIds map) (registered : Registered letters earlier map)
    (chosen : Chosen letters earlier entry map index) (entered : ModelMap.Entered letters entry index map map')
    (named : Named letters entry) (free : ∀ key, firstKnown letters earlier entry = some key → key ∉ inheritedNames) :
    OwnIds map' := by
  intro other member isMember
  rw [entered.lookup]
  cases entered.mem_bucketAt.mp isMember with
  | inl old => rw [own other member old, Option.some_or]
  | inr new =>
      have ⟨same, isEntry⟩ := new
      rw [isEntry, same]
      cases known : map.keys.lookup entry.id with
      | some owner =>
          have before := ((registered.known entry.id).mp (Option.isSome_iff_exists.mpr ⟨owner, known⟩)).1
          exact known.symm.trans (chosen.known entry.id (named.firstKnown_eq (.inl before)))
      | none =>
          have notInherited : entry.id ∉ inheritedNames := fun inherited =>
            free entry.id (named.firstKnown_eq (.inr inherited)) inherited
          rw [Option.none_or, if_pos ⟨named.mem_keysOf, notInherited⟩]

def FreeOfInherited (letters : LetterCase) (earlier entries : List IChatModel) : Prop :=
  ∀ front entry rest, entries = front ++ entry :: rest →
    ∀ key, firstKnown letters (earlier ++ front) entry = some key → key ∉ inheritedNames

theorem freeOfInherited_of_keys {entries : List IChatModel}
    (own : ∀ entry ∈ entries, ∀ key ∈ keysOf letters entry, key ∉ inheritedNames) :
    FreeOfInherited letters earlier entries := by
  intro front entry rest split key first
  have member : entry ∈ entries := by
    rw [split]
    exact List.mem_append_right _ List.mem_cons_self
  exact own entry member key (firstKnown_spec first).2.1

theorem FreeOfInherited.head {rest : List IChatModel} (free : FreeOfInherited letters earlier (entry :: rest)) :
    ∀ key, firstKnown letters earlier entry = some key → key ∉ inheritedNames := by
  have head := free [] entry rest rfl
  rwa [List.append_nil] at head

theorem FreeOfInherited.tail {rest : List IChatModel} (free : FreeOfInherited letters earlier (entry :: rest)) :
    FreeOfInherited letters (earlier ++ [entry]) rest := by
  intro front other later split
  rw [List.append_assoc]
  exact free (entry :: front) other later (by rw [split]; rfl)

theorem FreeOfInherited.cons {rest : List IChatModel}
    (head : ∀ key, firstKnown letters earlier entry = some key → key ∉ inheritedNames)
    (tail : FreeOfInherited letters (earlier ++ [entry]) rest) : FreeOfInherited letters earlier (entry :: rest) := by
  intro front other later split
  cases front with
  | nil =>
      have ⟨same, _⟩ := List.cons.inj split
      rw [List.append_nil, ← same]
      exact head
  | cons first front =>
      have ⟨same, others⟩ := List.cons.inj split
      have behind := tail front other later others
      rwa [same, List.append_assoc] at behind

end Invariant

section Run

variable {letters : LetterCase}

def offered (letters : LetterCase) (offers : List (Text × IChatModel)) : List IChatModel :=
  offers.map fun offer => entryOf letters offer.1 offer.2

theorem registerAll_registered {offers : List (Text × IChatModel)} {earlier : List IChatModel} {map : ModelMap}
    (registered : Registered letters earlier map) (free : FreeOfInherited letters earlier (offered letters offers)) :
    ∃ map', registerAll letters map offers = .ok map' ∧ Registered letters (earlier ++ offered letters offers) map' ∧
      (OwnIds map → (∀ entry ∈ offered letters offers, Named letters entry) → OwnIds map') := by
  induction offers generalizing earlier map with
  | nil => exact ⟨map, rfl, by rwa [offered, List.map_nil, List.append_nil], fun own _ => own⟩
  | cons offer offers ih =>
      have ⟨between, index, ran, chosen, entered⟩ := registerModel_entered registered offer.1 offer.2 free.head
      have ⟨map', rest, all, ownAll⟩ := ih (registered.entered chosen entered) free.tail
      rw [List.append_assoc] at all
      unfold registerAll
      rw [ran]
      refine ⟨map', rest, all, fun own named => ?_⟩
      have step := own.entered registered chosen entered (named _ List.mem_cons_self) free.head
      exact ownAll step fun entry later => named entry (List.mem_cons_of_mem _ later)

theorem free_of_registerAll {offers : List (Text × IChatModel)} {earlier : List IChatModel} {map map' : ModelMap}
    (registered : Registered letters earlier map) (ran : registerAll letters map offers = .ok map') :
    FreeOfInherited letters earlier (offered letters offers) := by
  induction offers generalizing earlier map with
  | nil =>
      intro front entry rest split
      cases front with
      | nil => exact nomatch split
      | cons first front => exact nomatch split
  | cons offer offers ih =>
      have head : ∀ key, firstKnown letters earlier (entryOf letters offer.1 offer.2) = some key → key ∉ inheritedNames := by
        intro key first inherited
        have thrown := registerModel_throws registered first inherited
        unfold registerAll at ran
        rw [thrown] at ran
        exact nomatch ran
      have ⟨between, index, step, chosen, entered⟩ := registerModel_entered registered offer.1 offer.2 head
      unfold registerAll at ran
      rw [step] at ran
      exact .cons head (ih (registered.entered chosen entered) ran)

end Run

end Puter

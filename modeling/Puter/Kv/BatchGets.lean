/-
Module: Puter.Kv.BatchGets
Purpose: The get of several keys (SystemKVStore.get) over the read cache and the batched reads of the
  database, which answer some keys of a request and may leave others unprocessed. With it the get of one
  key, and the privacy check of the batched writes. A list of keys is answered as its keys are one by one
  exactly when no key that a batch leaves unprocessed has anything to answer.
Trusted boundary: what the database may answer to a batched read
Main exports: BatchGetResponse, batchGets_agree_iff
-/
import Puter.Kv.CachedReads
import Puter.Kv.SystemKVStore

namespace Puter

open StateRun

/-- An answer of the database to a batched read. -/
structure BatchGetResponse where
  responses : List (Text × Attributes)
  unprocessedKeys : List Text
  consumedCapacity : ℚ

/-- What the database may answer to a request: any of its keys are left unprocessed, and the others are
    answered with the items that they have. -/
structure Answers (table : KvTable) (request : List Text) (response : BatchGetResponse) : Prop where
  unprocessed : response.unprocessedKeys ⊆ request
  responses : ∀ key item, (key, item) ∈ response.responses ↔
    key ∈ request ∧ key ∉ response.unprocessedKeys ∧ table.get key = some item

/-- The deployment, what the database answers to each request, and the clock, in milliseconds, when a get
    looks in the cache, starts to read the database, populates the cache and answers. -/
structure ReadEnv where
  cache : KvCacheEnv Json
  batchGetItem : List Text → BatchGetResponse
  lookedUpAt : ℕ
  startedAt : ℕ
  populatedAt : ℕ
  answeredAt : ℕ

/-- The table, and the cache slot of each key. -/
structure ReadState where
  table : KvTable
  slots : Text → CacheSlot Json

abbrev ReadRun := EStateM KvError ReadState

namespace ReadEnv

def batchGetChunk : ℕ := 100

def batches (allKeys : List Text) : List (List Text) :=
  (List.range ((allKeys.length + (batchGetChunk - 1)) / batchGetChunk)).map fun i =>
    (allKeys.drop (i * batchGetChunk)).take batchGetChunk

/-- `DDBClient.batchGet`: one request, and its answer as it is. -/
def batchGet (env : ReadEnv) (keys : List Text) : BatchGetResponse := env.batchGetItem keys

def getBatches (env : ReadEnv) (allKeys : List Text) : List (Text × KvCachedItem Json) × ℚ :=
  let results := (batches allKeys).map fun keys => env.batchGet keys.eraseDups
  ((results.flatMap BatchGetResponse.responses).map fun entry => (entry.1, readItem entry.2),
    (results.map BatchGetResponse.consumedCapacity).sum)

def getItem (env : ReadEnv) (table : KvTable) (key : Text) : List (Text × KvCachedItem Json) × ℚ :=
  let item := (table.get key).map readItem
  (item.toList.map fun item => (key, item), env.cache.capacityUnits item)

def resolved (env : ReadEnv) (opts : GetOpts) (slots : Text → CacheSlot Json) (key : Text) :
    Option (Option (KvCachedItem Json) × ℚ) :=
  if env.cache.useCache opts then KvCacheEnv.cacheRead (slots key) env.lookedUpAt else none

def toFetch (env : ReadEnv) (opts : GetOpts) (slots : Text → CacheSlot Json) (keys : List Text) :
    List Text :=
  keys.eraseDups.filter fun key => (env.resolved opts slots key).isNone

def cachedItems (env : ReadEnv) (opts : GetOpts) (slots : Text → CacheSlot Json) (keys : List Text) :
    List (Text × KvCachedItem Json) :=
  keys.eraseDups.filterMap fun key =>
    (env.resolved opts slots key).bind fun read => read.1.map fun item => (key, item)

def cachedUnits (env : ReadEnv) (opts : GetOpts) (slots : Text → CacheSlot Json) (keys : List Text) : ℚ :=
  (keys.eraseDups.map fun key => ((env.resolved opts slots key).map Prod.snd).getD 0).sum

def entryOf (entries : List (Text × KvCachedItem Json)) (key : Text) : Option (KvCachedItem Json) :=
  (entries.find? fun entry => entry.1 = key).map Prod.snd

def replaying (env : ReadEnv) (readUnitsPerKey : ℚ) : KvCacheEnv Json :=
  ⟨env.cache.settings, env.cache.cacheable, env.cache.payloadBytes, fun _ => readUnitsPerKey⟩

def populateSlot (env : ReadEnv) (slot : CacheSlot Json) (fetched : Option (KvCachedItem Json))
    (readUnitsPerKey : ℚ) : CacheSlot Json :=
  (env.replaying readUnitsPerKey).cachePopulate slot fetched env.startedAt env.populatedAt

/-- `#cachePopulate`, of the keys that were asked of the database. -/
def populate (env : ReadEnv) (slots : Text → CacheSlot Json) (toFetch : List Text)
    (fetched : List (Text × KvCachedItem Json) × ℚ) : Text → CacheSlot Json := fun key =>
  if key ∈ toFetch then
    env.populateSlot (slots key) (entryOf fetched.1 key) (fetched.2 / toFetch.length)
  else slots key

def fetch (env : ReadEnv) (table : KvTable) (multi : Bool) (toFetch : List Text) :
    List (Text × KvCachedItem Json) × ℚ :=
  if multi then env.getBatches toFetch else (toFetch.head?.map (env.getItem table)).getD ([], 0)

end ReadEnv

namespace ReadState

open ReadEnv

def get (env : ReadEnv) (opts : GetOpts) (multi : Bool) (keys : List Text) :
    ReadRun (List (Option Json) × KVUsage) := do
  within ReadState.table (fun s table => { s with table := table }) (forEach SystemKVStore.assertKey keys)
  let s ← getThe ReadState
  let toFetch := env.toFetch opts s.slots keys
  let fetched := env.fetch s.table multi toFetch
  let kvEntries := env.cachedItems opts s.slots keys ++ fetched.1
  if env.cache.useCache opts then
    set { s with slots := env.populate s.slots toFetch fetched }
  let values := keys.map fun key => answerOf opts (entryOf kvEntries key) (seconds env.answeredAt)
  pure (values, ⟨fetched.2, 0, env.cachedUnits opts s.slots keys⟩)

def getMany (env : ReadEnv) (opts : GetOpts) (keys : List Text) : ReadRun (List (Option Json) × KVUsage) :=
  get env opts true keys

def getOne (env : ReadEnv) (opts : GetOpts) (key : Text) : ReadRun (Option Json × KVUsage) := do
  let (values, usage) ← get env opts false [key]
  pure (values.headD none, usage)

end ReadState

namespace ReadEnv

def privateAmong (env : ReadEnv) (keys : List Text) : List Text :=
  ((env.getBatches keys).1.filter fun entry => entry.2.noShare).map Prod.fst

/-- `#assertNonePrivate`, of a batched write of these keys. -/
def assertNonePrivate (env : ReadEnv) (crossApp : Bool) (keys : List Text) : ReadRun Unit :=
  refuseIf (crossApp && env.privateAmong keys.eraseDups ≠ []) SystemKVStore.privateEntry

end ReadEnv

section Fetching

variable {env : ReadEnv} {opts : GetOpts} {table : KvTable} {slots : Text → CacheSlot Json}
  {keys : List Text} {key : Text}

open ReadEnv

def Left (env : ReadEnv) (keys : List Text) (key : Text) : Prop :=
  ∀ batch ∈ batches keys, key ∈ batch → key ∈ (env.batchGet batch.eraseDups).unprocessedKeys

theorem mem_batches : (∃ batch ∈ batches keys, key ∈ batch) ↔ key ∈ keys := by
  constructor
  · rintro ⟨batch, isBatch, member⟩
    obtain ⟨i, -, rfl⟩ := List.mem_map.mp isBatch
    exact List.mem_of_mem_drop (List.mem_of_mem_take member)
  · intro member
    obtain ⟨i, within, rfl⟩ := List.mem_iff_getElem.mp member
    refine ⟨_, List.mem_map.mpr ⟨i / batchGetChunk, List.mem_range.mpr ?_, rfl⟩, ?_⟩
    · unfold batchGetChunk
      omega
    · rw [List.mem_iff_getElem]
      refine ⟨i % batchGetChunk, ?_, ?_⟩
      · simp only [List.length_take, List.length_drop, batchGetChunk]
        omega
      · simp only [List.getElem_take, List.getElem_drop, batchGetChunk]
        congr 1
        omega

theorem mem_getBatches (answers : ∀ request, Answers table request (env.batchGet request))
    {item : KvCachedItem Json} : (key, item) ∈ (env.getBatches keys).1 ↔
      ¬ Left env keys key ∧ (table.get key).map readItem = some item := by
  constructor
  · intro member
    obtain ⟨⟨key', stored⟩, isEntry, same⟩ := List.mem_map.mp member
    cases same
    obtain ⟨response, isResponse, answered⟩ := List.mem_flatMap.mp isEntry
    obtain ⟨batch, isBatch, rfl⟩ := List.mem_map.mp isResponse
    obtain ⟨asked, processed, isStored⟩ := ((answers _).responses key' stored).mp answered
    refine ⟨fun left => processed (left batch isBatch (List.mem_eraseDups.mp asked)), ?_⟩
    rw [isStored, Option.map_some]
  · rintro ⟨processed, isItem⟩
    unfold Left at processed
    push Not at processed
    obtain ⟨batch, isBatch, asked, processed⟩ := processed
    obtain ⟨stored, isStored, rfl⟩ := Option.map_eq_some_iff.mp isItem
    refine List.mem_map.mpr ⟨(key, stored), List.mem_flatMap.mpr ⟨_, List.mem_map.mpr
      ⟨batch, isBatch, rfl⟩, ?_⟩, rfl⟩
    exact ((answers _).responses key stored).mpr ⟨List.mem_eraseDups.mpr asked, processed, isStored⟩

theorem entryOf_eq {entries : List (Text × KvCachedItem Json)} {entry : Option (KvCachedItem Json)}
    (same : ∀ item, (key, item) ∈ entries ↔ entry = some item) : entryOf entries key = entry := by
  unfold entryOf
  cases found : entries.find? fun entry => entry.1 = key with
  | none =>
      cases entry with
      | none => rfl
      | some item =>
          have absent := List.find?_eq_none.mp found (key, item) ((same item).mpr rfl)
          simp at absent
  | some other =>
      obtain ⟨name, item⟩ := other
      have isKey : name = key := by simpa using List.find?_some found
      subst isKey
      exact ((same item).mp (List.mem_of_find?_eq_some found)).symm

theorem entryOf_getBatches_left (answers : ∀ request, Answers table request (env.batchGet request))
    (left : Left env keys key) : entryOf (env.getBatches keys).1 key = none := by
  refine entryOf_eq fun item => ⟨fun member => ?_, fun impossible => (by cases impossible)⟩
  exact absurd left ((mem_getBatches answers).mp member).1

theorem entryOf_getBatches (answers : ∀ request, Answers table request (env.batchGet request))
    (processed : ¬ Left env keys key) :
    entryOf (env.getBatches keys).1 key = (table.get key).map readItem := by
  refine entryOf_eq fun item => ⟨fun member => ((mem_getBatches answers).mp member).2, fun isItem => ?_⟩
  exact (mem_getBatches answers).mpr ⟨processed, isItem⟩

theorem left_of_notMem (absent : key ∉ keys) : Left env keys key :=
  fun batch isBatch member => absurd (mem_batches.mp ⟨batch, isBatch, member⟩) absent

theorem mem_toFetch : key ∈ env.toFetch opts slots keys ↔
    key ∈ keys ∧ env.resolved opts slots key = none := by
  simp [toFetch]

theorem mem_cachedItems {item : KvCachedItem Json} : (key, item) ∈ env.cachedItems opts slots keys ↔
    key ∈ keys ∧ (env.resolved opts slots key).bind Prod.fst = some item := by
  unfold cachedItems
  simp only [List.mem_filterMap, List.mem_eraseDups]
  constructor
  · rintro ⟨key', isKey, isItem⟩
    obtain ⟨read, isRead, isEntry⟩ := Option.bind_eq_some_iff.mp isItem
    obtain ⟨item', isItem', same⟩ := Option.map_eq_some_iff.mp isEntry
    cases same
    exact ⟨isKey, Option.bind_eq_some_iff.mpr ⟨read, isRead, isItem'⟩⟩
  · rintro ⟨isKey, isItem⟩
    obtain ⟨read, isRead, isItem'⟩ := Option.bind_eq_some_iff.mp isItem
    exact ⟨key, isKey, Option.bind_eq_some_iff.mpr ⟨read, isRead, by rw [isItem']; rfl⟩⟩

theorem entryOf_kvEntries {fetched : List (Text × KvCachedItem Json)} (member : key ∈ keys)
    (asked : ∀ item, (key, item) ∈ fetched → env.resolved opts slots key = none) :
    entryOf (env.cachedItems opts slots keys ++ fetched) key =
      match env.resolved opts slots key with
      | some read => read.1
      | none => entryOf fetched key := by
  unfold entryOf
  rw [List.find?_append]
  cases isResolved : env.resolved opts slots key with
  | none =>
      have absent : (env.cachedItems opts slots keys).find? (fun entry => entry.1 = key) = none := by
        rw [List.find?_eq_none]
        rintro ⟨key', item⟩ isCached same
        cases of_decide_eq_true same
        have isItem := (mem_cachedItems.mp isCached).2
        rw [isResolved] at isItem
        cases isItem
      rw [absent, Option.none_or]
  | some read =>
      have absent : fetched.find? (fun entry => entry.1 = key) = none := by
        rw [List.find?_eq_none]
        rintro ⟨key', item⟩ isFetched same
        cases of_decide_eq_true same
        have isNone := asked item isFetched
        rw [isResolved] at isNone
        cases isNone
      rw [absent, Option.or_none]
      refine entryOf_eq fun item => ?_
      rw [mem_cachedItems, isResolved]
      exact ⟨fun found => found.2, fun found => ⟨member, found⟩⟩

end Fetching

section Answering

variable {env : ReadEnv} {opts : GetOpts} {s : ReadState} {multi : Bool} {keys : List Text} {key : Text}

open ReadEnv SystemKVStore

def ValidKey (key : Text) : Prop := key ≠ [] ∧ (key.map Char.utf8Size).sum ≤ maxKeyBytes

theorem assertKey_runs (key : Text) : ValidKey key ∧ (∀ table, assertKey key table = .ok () table) ∨
    ¬ ValidKey key ∧ ∃ refusal, ∀ table, assertKey key table = .error refusal table := by
  unfold ValidKey
  by_cases empty : key = []
  · exact .inr ⟨fun valid => valid.1 empty, _, fun table => bind_error.mpr (.inl
      (refuseIf_error.mpr ⟨decide_eq_true empty, rfl, rfl⟩))⟩
  by_cases long : maxKeyBytes < (key.map Char.utf8Size).sum
  · exact .inr ⟨fun valid => absurd valid.2 (not_le.mpr long), _, fun table => bind_error.mpr (.inr
      ⟨(), table, refuseIf_ok.mpr ⟨decide_eq_false empty, rfl⟩,
        refuseIf_error.mpr ⟨decide_eq_true long, rfl, rfl⟩⟩)⟩
  · exact .inl ⟨⟨empty, not_lt.mp long⟩, fun table => bind_ok.mpr
      ⟨(), table, refuseIf_ok.mpr ⟨decide_eq_false empty, rfl⟩,
        refuseIf_ok.mpr ⟨decide_eq_false long, rfl⟩⟩⟩

def foundEntry (env : ReadEnv) (opts : GetOpts) (s : ReadState) (multi : Bool) (keys : List Text)
    (key : Text) : Option (KvCachedItem Json) :=
  entryOf (env.cachedItems opts s.slots keys ++
    (env.fetch s.table multi (env.toFetch opts s.slots keys)).1) key

def afterGet (env : ReadEnv) (opts : GetOpts) (s : ReadState) (multi : Bool) (keys : List Text) :
    ReadState where
  table := s.table
  slots := if env.cache.useCache opts then
      env.populate s.slots (env.toFetch opts s.slots keys)
        (env.fetch s.table multi (env.toFetch opts s.slots keys))
    else s.slots

theorem batchGet_ok (accepted : forEach assertKey keys s.table = .ok () s.table) :
    ∃ usage, ReadState.get env opts multi keys s =
      .ok (keys.map fun key => answerOf opts (foundEntry env opts s multi keys key)
        (seconds env.answeredAt), usage) (afterGet env opts s multi keys) := by
  refine ⟨⟨(env.fetch s.table multi (env.toFetch opts s.slots keys)).2, 0,
    env.cachedUnits opts s.slots keys⟩, ?_⟩
  refine bind_ok.mpr ⟨(), s, within_ok.mpr ⟨s.table, accepted, rfl⟩, ?_⟩
  refine bind_ok.mpr ⟨s, s, rfl, ?_⟩
  unfold afterGet
  cases env.cache.useCache opts with
  | true => rfl
  | false => rfl

theorem batchGet_error {refusal : KvError} (refused : forEach assertKey keys s.table = .error refusal s.table) :
    ReadState.get env opts multi keys s = .error refusal s :=
  bind_error.mpr (.inl (within_error.mpr ⟨s.table, refused, rfl⟩))

def entryAlone (env : ReadEnv) (opts : GetOpts) (s : ReadState) (key : Text) :
    Option (KvCachedItem Json) :=
  match env.resolved opts s.slots key with
  | some read => read.1
  | none => (s.table.get key).map readItem

theorem foundEntry_many (answers : ∀ request, Answers s.table request (env.batchGet request))
    (member : key ∈ keys) : foundEntry env opts s true keys key =
      match env.resolved opts s.slots key with
      | some read => read.1
      | none => entryOf (env.getBatches (env.toFetch opts s.slots keys)).1 key := by
  refine entryOf_kvEntries member fun item isFetched => ?_
  by_contra isResolved
  refine ((mem_getBatches answers).mp isFetched).1 (left_of_notMem fun asked => ?_)
  exact isResolved (mem_toFetch.mp asked).2

theorem foundEntry_one : foundEntry env opts s false [key] key = entryAlone env opts s key := by
  unfold foundEntry entryAlone
  cases isResolved : env.resolved opts s.slots key with
  | none =>
      have asks : env.toFetch opts s.slots [key] = [key] := by
        simp [toFetch, isResolved, List.eraseDups_cons]
      rw [entryOf_kvEntries (List.mem_singleton_self key) fun _ _ => isResolved, isResolved, asks]
      refine entryOf_eq fun item => ?_
      simp [fetch, getItem]
  | some read =>
      have asks : env.toFetch opts s.slots [key] = [] := by
        simp [toFetch, isResolved, List.eraseDups_cons]
      rw [entryOf_kvEntries (List.mem_singleton_self key), isResolved]
      intro item isFetched
      rw [asks] at isFetched
      cases isFetched

def oneByOne (env : ReadEnv) (opts : GetOpts) (s : ReadState) (keys : List Text) :
    Except KvError (List (Option Json)) :=
  keys.mapM fun key => (outcome (ReadState.getOne env opts key s)).map Prod.fst

theorem getOne_ok (accepted : assertKey key s.table = .ok () s.table) :
    (outcome (ReadState.getOne env opts key s)).map Prod.fst =
      .ok (answerOf opts (entryAlone env opts s key) (seconds env.answeredAt)) := by
  have each : forEach assertKey [key] s.table = .ok () s.table :=
    bind_ok.mpr ⟨(), s.table, accepted, rfl⟩
  obtain ⟨usage, runs⟩ := @batchGet_ok env opts s false [key] each
  have ran : ReadState.getOne env opts key s = .ok (_, usage) (afterGet env opts s false [key]) :=
    bind_ok.mpr ⟨_, _, runs, rfl⟩
  rw [ran, ← foundEntry_one]
  rfl

theorem getOne_error {refusal : KvError} (refused : assertKey key s.table = .error refusal s.table) :
    (outcome (ReadState.getOne env opts key s)).map Prod.fst = .error refusal := by
  have each : forEach assertKey [key] s.table = .error refusal s.table :=
    bind_error.mpr (.inl refused)
  have ran : ReadState.getOne env opts key s = .error refusal s :=
    bind_error.mpr (.inl (batchGet_error each))
  rw [ran]
  rfl

theorem keys_run (env : ReadEnv) (opts : GetOpts) (s : ReadState) (keys : List Text) :
    (∀ key ∈ keys, ValidKey key) ∧ forEach assertKey keys s.table = .ok () s.table ∧
        oneByOne env opts s keys =
          .ok (keys.map fun key => answerOf opts (entryAlone env opts s key) (seconds env.answeredAt)) ∨
      ¬ (∀ key ∈ keys, ValidKey key) ∧ ∃ refusal, forEach assertKey keys s.table = .error refusal s.table ∧
        oneByOne env opts s keys = .error refusal := by
  unfold oneByOne
  induction keys with
  | nil => exact .inl ⟨fun key member => (by cases member), rfl, rfl⟩
  | cons key rest ih =>
      rw [List.mapM_cons]
      rcases assertKey_runs key with ⟨valid, accepted⟩ | ⟨invalid, refusal, refused⟩
      · rw [getOne_ok (accepted s.table)]
        rcases ih with ⟨allValid, accepts, answers⟩ | ⟨someInvalid, refusal, refuses, fails⟩
        · refine .inl ⟨List.forall_mem_cons.mpr ⟨valid, allValid⟩,
            bind_ok.mpr ⟨(), s.table, accepted s.table, accepts⟩, ?_⟩
          rw [answers]
          rfl
        · refine .inr ⟨fun all => someInvalid (List.forall_mem_cons.mp all).2, refusal,
            bind_error.mpr (.inr ⟨(), s.table, accepted s.table, refuses⟩), ?_⟩
          rw [fails]
          rfl
      · refine .inr ⟨fun all => invalid (List.forall_mem_cons.mp all).1, refusal,
          bind_error.mpr (.inl (refused s.table)), ?_⟩
        rw [getOne_error (refused s.table)]
        rfl

end Answering

def KnownAbsent (slot : CacheSlot Json) (clock : ℕ) : Prop :=
  ∃ units, KvCacheEnv.cacheRead slot clock = some (none, units)

/-- A slot takes in that its key has no entry: the read was fast enough, what is cached is small enough,
    and nothing stands in the slot. -/
def TakesAbsence (env : ReadEnv) (slot : CacheSlot Json) (readUnitsPerKey : ℚ) : Prop :=
  env.populatedAt - env.startedAt ≤ env.cache.settings.blockMs ∧
    env.cache.payloadBytes (encodeCachedMiss readUnitsPerKey) ≤ env.cache.settings.maxEntryBytes ∧
      slot.get env.populatedAt = none

section Caching

variable {env : ReadEnv} {slot : CacheSlot Json} {units : ℚ}

open ReadEnv

theorem populateSlot_none : env.populateSlot slot none units =
    if env.cache.settings.blockMs < env.populatedAt - env.startedAt then slot
    else if env.cache.settings.maxEntryBytes < env.cache.payloadBytes (encodeCachedMiss units) then slot
    else slot.setNX (encodeCachedMiss units) env.cache.settings.missTtlSeconds env.populatedAt := rfl

theorem populateSlot_absent (takes : TakesAbsence env slot units) :
    KnownAbsent (env.populateSlot slot none units) env.populatedAt ∧
      ¬ KnownAbsent slot env.populatedAt := by
  obtain ⟨young, small, free⟩ := takes
  constructor
  · rw [populateSlot_none, if_neg (not_lt.mpr young), if_neg (not_lt.mpr small)]
    have written : slot.setNX (encodeCachedMiss units) env.cache.settings.missTtlSeconds env.populatedAt =
        .set (encodeCachedMiss units) env.cache.settings.missTtlSeconds env.populatedAt :=
      if_neg (by simp [free])
    have found : (CacheSlot.set (encodeCachedMiss units : KvCacheEnvelope Json)
        env.cache.settings.missTtlSeconds env.populatedAt).get env.populatedAt =
          some (encodeCachedMiss units) := by
      simp [CacheSlot.set, CacheSlot.get, Option.filter]
    refine ⟨units, ?_⟩
    rw [written, KvCacheEnv.cacheRead, found, decodeCachedRead_miss]
  · rintro ⟨units', known⟩
    rw [KvCacheEnv.cacheRead, free] at known
    cases known

theorem populateSlot_refused (refuses : ¬ TakesAbsence env slot units) :
    env.populateSlot slot none units = slot := by
  rw [populateSlot_none]
  split
  · rfl
  next young =>
    split
    · rfl
    next small =>
      cases held : slot.get env.populatedAt with
      | none => exact absurd ⟨not_lt.mp young, not_lt.mp small, held⟩ refuses
      | some payload => simp [CacheSlot.setNX, held]

theorem populateSlot_present {item : KvCachedItem Json}
    (known : KnownAbsent (env.populateSlot slot (some item) units) env.populatedAt) :
    KnownAbsent slot env.populatedAt := by
  obtain ⟨units', isAbsent⟩ := known
  rcases cachePopulate_cases (env.replaying units) slot (some item) env.startedAt env.populatedAt with
    same | ⟨-, ttl, nx⟩
  · exact ⟨units', by rwa [populateSlot, same] at isAbsent⟩
  · rw [populateSlot, nx] at isAbsent
    rcases CacheSlot.setNX_cases slot ((env.replaying units).payload (some item)) ttl env.populatedAt with
      same | fresh
    · exact ⟨units', by rwa [same] at isAbsent⟩
    · -- What was written is read back as the entry, if it has not lapsed.
      rw [fresh] at isAbsent
      obtain ⟨payload, deadline, held, -, only⟩ := cacheRead_eq_some isAbsent
      cases held
      cases only (some item) ⟨_, rfl⟩

end Caching

/-- A get of several keys answers as the gets of one key do, caches of no entry that it is absent, and the
    check of a batched write sees the private keys. -/
structure BatchGetsAgree (env : ReadEnv) (opts : GetOpts) (s : ReadState) (keys : List Text) : Prop where
  answers : (outcome (ReadState.getMany env opts keys s)).map Prod.fst = oneByOne env opts s keys
  absences : ∀ key, (s.table.get key).isSome →
    KnownAbsent ((finalState (ReadState.getMany env opts keys s)).slots key) env.populatedAt →
      KnownAbsent (s.slots key) env.populatedAt
  privates : ∀ key ∈ keys, (s.table.get key).any isPrivate → key ∈ env.privateAmong keys.eraseDups

/-- The keys that are left unprocessed do no harm: those of a get whose keys are accepted have nothing to
    answer, and where they have an entry the cache does not take in that they have none; those of the check
    are not private. -/
structure LeftHarmless (env : ReadEnv) (opts : GetOpts) (s : ReadState) (keys : List Text) : Prop where
  answers : (∀ key ∈ keys, ValidKey key) → ∀ key ∈ env.toFetch opts s.slots keys,
    Left env (env.toFetch opts s.slots keys) key →
      answerOf opts ((s.table.get key).map readItem) (seconds env.answeredAt) = none
  absences : (∀ key ∈ keys, ValidKey key) → env.cache.useCache opts = true →
    ∀ key ∈ env.toFetch opts s.slots keys, Left env (env.toFetch opts s.slots keys) key →
      (s.table.get key).isSome → ¬ TakesAbsence env (s.slots key)
        ((env.getBatches (env.toFetch opts s.slots keys)).2 / (env.toFetch opts s.slots keys).length)
  privates : ∀ key ∈ keys, (s.table.get key).any isPrivate → ¬ Left env keys.eraseDups key

section Agreement

variable {env : ReadEnv} {opts : GetOpts} {s : ReadState} {keys : List Text} {key : Text}

open ReadEnv SystemKVStore

theorem answers_iff (answers : ∀ request, Answers s.table request (env.batchGet request)) :
    (outcome (ReadState.getMany env opts keys s)).map Prod.fst = oneByOne env opts s keys ↔
      ((∀ key ∈ keys, ValidKey key) → ∀ key ∈ env.toFetch opts s.slots keys,
        Left env (env.toFetch opts s.slots keys) key →
          answerOf opts ((s.table.get key).map readItem) (seconds env.answeredAt) = none) := by
  rcases keys_run env opts s keys with ⟨allValid, accepted, alone⟩ | ⟨invalid, refusal, refused, fails⟩
  · obtain ⟨usage, runs⟩ := @batchGet_ok env opts s true keys accepted
    have ran : (outcome (ReadState.getMany env opts keys s)).map Prod.fst =
        .ok (keys.map fun key => answerOf opts (foundEntry env opts s true keys key)
          (seconds env.answeredAt)) := by
      rw [ReadState.getMany, runs]
      rfl
    rw [ran, alone, Except.ok.injEq, List.map_inj_left]
    constructor
    · intro same _ key asked left
      obtain ⟨member, unresolved⟩ := mem_toFetch.mp asked
      have one := same key member
      simp only [foundEntry_many answers member, entryAlone, unresolved,
        entryOf_getBatches_left answers left] at one
      exact one.symm
    · intro harmless key member
      rw [foundEntry_many answers member, entryAlone]
      cases unresolved : env.resolved opts s.slots key with
      | some read => rfl
      | none =>
          have asked := mem_toFetch.mpr ⟨member, unresolved⟩
          by_cases left : Left env (env.toFetch opts s.slots keys) key
          · simp only [entryOf_getBatches_left answers left]
            exact (harmless allValid key asked left).symm
          · simp only [entryOf_getBatches answers left]
  · have ran : ReadState.getMany env opts keys s = .error refusal s := batchGet_error refused
    rw [ran, fails]
    exact ⟨fun _ allValid => absurd allValid invalid, fun _ => rfl⟩

theorem absences_iff (answers : ∀ request, Answers s.table request (env.batchGet request)) :
    (∀ key, (s.table.get key).isSome →
      KnownAbsent ((finalState (ReadState.getMany env opts keys s)).slots key) env.populatedAt →
        KnownAbsent (s.slots key) env.populatedAt) ↔
      ((∀ key ∈ keys, ValidKey key) → env.cache.useCache opts = true →
        ∀ key ∈ env.toFetch opts s.slots keys, Left env (env.toFetch opts s.slots keys) key →
          (s.table.get key).isSome → ¬ TakesAbsence env (s.slots key)
            ((env.getBatches (env.toFetch opts s.slots keys)).2 /
              (env.toFetch opts s.slots keys).length)) := by
  rcases keys_run env opts s keys with ⟨allValid, accepted, -⟩ | ⟨invalid, refusal, refused, -⟩
  · obtain ⟨usage, runs⟩ := @batchGet_ok env opts s true keys accepted
    rw [ReadState.getMany, runs]
    simp only [finalState, afterGet]
    cases uses : env.cache.useCache opts with
    | false => exact ⟨fun _ _ impossible => (by cases impossible), fun _ _ _ known => known⟩
    | true =>
        simp only [if_true, populate]
        constructor
        · intro kept _ _ key asked left isEntry takes
          obtain ⟨known, unknown⟩ := populateSlot_absent takes
          refine unknown (kept key isEntry ?_)
          have nothing : entryOf (env.fetch s.table true (env.toFetch opts s.slots keys)).1 key = none :=
            entryOf_getBatches_left answers left
          rw [if_pos asked, nothing]
          exact known
        · intro harmless key isEntry known
          by_cases asked : key ∈ env.toFetch opts s.slots keys
          · rw [if_pos asked] at known
            by_cases left : Left env (env.toFetch opts s.slots keys) key
            · have nothing : entryOf (env.fetch s.table true (env.toFetch opts s.slots keys)).1 key = none :=
                entryOf_getBatches_left answers left
              rw [nothing] at known
              have refused := populateSlot_refused (harmless allValid trivial key asked left isEntry)
              exact refused ▸ known
            · obtain ⟨item, isItem⟩ := Option.isSome_iff_exists.mp isEntry
              have found : entryOf (env.fetch s.table true (env.toFetch opts s.slots keys)).1 key =
                  some (readItem item) := by
                refine (entryOf_getBatches answers left).trans ?_
                rw [isItem, Option.map_some]
              rw [found] at known
              exact populateSlot_present known
          · rwa [if_neg asked] at known
  · have ran : ReadState.getMany env opts keys s = .error refusal s := batchGet_error refused
    rw [ran]
    exact ⟨fun _ allValid => absurd allValid invalid, fun _ _ _ known => known⟩

theorem privates_iff (answers : ∀ request, Answers s.table request (env.batchGet request)) :
    (∀ key ∈ keys, (s.table.get key).any isPrivate → key ∈ env.privateAmong keys.eraseDups) ↔
      ∀ key ∈ keys, (s.table.get key).any isPrivate → ¬ Left env keys.eraseDups key := by
  refine forall₂_congr fun key _ => forall_congr' fun hidden => ?_
  unfold privateAmong
  constructor
  · intro seen left
    obtain ⟨⟨key', item⟩, isEntry, same⟩ := List.mem_map.mp seen
    cases same
    exact ((mem_getBatches answers).mp (List.mem_of_mem_filter isEntry)).1 left
  · intro processed
    obtain ⟨item, isItem, isHidden⟩ := (Option.any_eq_true _ _).mp hidden
    refine List.mem_map.mpr ⟨(key, readItem item), List.mem_filter.mpr ⟨?_, isHidden⟩, rfl⟩
    exact (mem_getBatches answers).mpr ⟨processed, by rw [isItem, Option.map_some]⟩

/-- Whatever the database may answer, a get of several keys agrees with the gets of one key, caches of no
    entry that it is absent, and the check of a batched write sees the private keys, exactly when the keys
    that are left unprocessed do no harm. -/
theorem batchGets_agree_iff (env : ReadEnv) (opts : GetOpts) (s : ReadState) (keys : List Text)
    (answers : ∀ request, Answers s.table request (env.batchGet request)) :
    BatchGetsAgree env opts s keys ↔ LeftHarmless env opts s keys := by
  constructor
  · intro agree
    exact ⟨(answers_iff answers).mp agree.answers, (absences_iff answers).mp agree.absences,
      (privates_iff answers).mp agree.privates⟩
  · intro harmless
    exact ⟨(answers_iff answers).mpr harmless.answers, (absences_iff answers).mpr harmless.absences,
      (privates_iff answers).mpr harmless.privates⟩

/-- Over a cache that holds what the table does, the keys are answered one by one as the store's get of
    several keys answers them from the table. -/
theorem oneByOne_eq_get (store : KvEnv) (now : store.now = seconds env.answeredAt)
    (current : ∀ key read, env.resolved opts s.slots key = some read →
      read.1 = (s.table.get key).map readItem) :
    oneByOne env opts s keys = outcome (SystemKVStore.get store opts.crossApp keys s.table) := by
  rcases keys_run env opts s keys with ⟨-, accepted, alone⟩ | ⟨-, refusal, refused, fails⟩
  · have ran : SystemKVStore.get store opts.crossApp keys s.table =
        .ok (keys.map fun key => answer store opts.crossApp (s.table.get key)) s.table :=
      bind_ok.mpr ⟨(), s.table, accepted, rfl⟩
    rw [alone, ran]
    refine congrArg Except.ok (List.map_congr_left fun key _ => ?_)
    have entry : entryAlone env opts s key = (s.table.get key).map readItem := by
      unfold entryAlone
      split
      next read isRead => exact current key read isRead
      · rfl
    rw [entry, answer, now]
    rfl
  · have ran : SystemKVStore.get store opts.crossApp keys s.table = .error refusal s.table :=
      bind_error.mpr (.inl refused)
    rw [fails, ran]
    rfl

end Agreement

section Unprocessed

open ReadEnv

/-- A table that holds 1 under `a`, with nothing cached. -/
def oneEntry : ReadState :=
  ⟨SortedTable.empty.put ['a'] [(valueName, .number 1)], fun _ => ⟨none⟩⟩

def answering (batchGetItem : List Text → BatchGetResponse) : ReadEnv :=
  ⟨⟨⟨300, 60, 5, 1000⟩, true, fun _ => 20, fun _ => 1⟩, batchGetItem, 0, 0, 0, 0⟩

def processAll (table : KvTable) (request : List Text) : BatchGetResponse :=
  ⟨request.filterMap fun key => (table.get key).map fun item => (key, item), [], 1⟩

def processNothing (request : List Text) : BatchGetResponse := ⟨[], request, 0⟩

theorem processAll_answers (table : KvTable) (request : List Text) :
    Answers table request (processAll table request) := by
  refine ⟨List.nil_subset _, fun key item => ?_⟩
  simp only [processAll, List.mem_filterMap, Option.map_eq_some_iff, Prod.mk.injEq]
  constructor
  · rintro ⟨key', asked, item', isItem, rfl, rfl⟩
    exact ⟨asked, List.not_mem_nil, isItem⟩
  · rintro ⟨asked, -, isItem⟩
    exact ⟨key, asked, item, isItem, rfl, rfl⟩

theorem processNothing_answers (table : KvTable) (request : List Text) :
    Answers table request (processNothing request) := by
  refine ⟨fun _ asked => asked, fun key item => ⟨fun impossible => (by cases impossible), ?_⟩⟩
  rintro ⟨asked, processed, -⟩
  exact absurd asked processed

theorem processAll_leaves_none {table : KvTable} {keys : List Text} {key : Text} (member : key ∈ keys) :
    ¬ Left (answering (processAll table)) keys key := by
  intro left
  obtain ⟨batch, isBatch, asked⟩ := mem_batches.mpr member
  exact absurd (left batch isBatch asked) List.not_mem_nil

/-- The get of a key that is processed agrees with the get of that key alone. -/
theorem processedKey_agrees :
    BatchGetsAgree (answering (processAll oneEntry.table)) ⟨false, true⟩ oneEntry [['a']] := by
  refine (batchGets_agree_iff _ _ _ _ (processAll_answers oneEntry.table)).mpr ⟨?_, ?_, ?_⟩
  · exact fun _ key asked left => absurd left (processAll_leaves_none asked)
  · exact fun _ _ key asked left => absurd left (processAll_leaves_none asked)
  · exact fun key member _ => processAll_leaves_none (List.mem_eraseDups.mpr member)

/-- The get of a key that is left unprocessed answers that there is none. -/
theorem unprocessedKey_is_lost : ∃ (env : ReadEnv) (s : ReadState),
    (∀ request, Answers s.table request (env.batchGet request)) ∧
      ¬ BatchGetsAgree env ⟨false, false⟩ s [['a']] := by
  refine ⟨answering processNothing, oneEntry, processNothing_answers oneEntry.table, fun agree => ?_⟩
  have valid : ∀ key ∈ [['a']], ValidKey key := by
    intro key member
    rw [List.mem_singleton.mp member]
    exact ⟨by decide, by decide⟩
  have left : ∀ keys, Left (answering processNothing) keys ['a'] :=
    fun keys batch isBatch asked => List.mem_eraseDups.mpr asked
  have lost := (answers_iff (processNothing_answers oneEntry.table)).mp agree.answers valid ['a']
    (by decide) (left _)
  revert lost
  decide +kernel

end Unprocessed

end Puter

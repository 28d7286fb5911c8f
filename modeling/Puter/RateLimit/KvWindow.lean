/-
Module: Puter.RateLimit.KvWindow
Purpose: The KV backend of the rate limiter (`checkKv` of core/http/middleware/rateLimit.js): a row for each
  admitted call, found again by one listing of the key's prefix. The rows that have not expired are the calls
  admitted within the window, but the listing may show fewer of them, where lapsed rows take up its page, and
  more, where another key begins with this one.
Trusted boundary: none
Main exports: resolveKey, KvRateStep, checkKv_limits
-/
import Puter.Acl.SetUserUser
import Puter.Kv.DocumentPaths
import Puter.Kv.KvListing

namespace Puter

open Document StateRun

/-- What a request tells of its sender; `computed` is the hash of the address and some headers. -/
structure RateRequest where
  ip : Text
  userId : Text
  networkFingerprint : Option Text
  computed : Text
  deviceFingerprint : Text

/-- A strategy of `resolveKey`. -/
inductive KeyStrategy where
  | fingerprint
  | ip
  | user
  | custom (key : RateRequest → Text)

/-- `fingerprint` -/
def requestFingerprint (req : RateRequest) : Text :=
  let network := req.networkFingerprint.getD req.computed
  if req.deviceFingerprint = [] then network else network ++ ':' :: req.deviceFingerprint

def resolveKey (req : RateRequest) (scope : Text) (strategy : KeyStrategy) : Text :=
  (if scope = [] then [] else scope ++ [':']) ++
    match strategy with
    | .custom key => key req
    | .user => if req.userId = [] then requestFingerprint req else req.userId
    | .ip => req.ip
    | .fingerprint => requestFingerprint req

/-- `rate:${key}:` -/
def ratePrefix (key : Text) : Text := "rate:".toList ++ key ++ [':']

def rateRow (key : Text) (now : ℕ) (uuid : Text) : Text := ratePrefix key ++ (decimal now ++ ':' :: uuid)

/-- `Math.ceil((now + windowMs) / 1000)` -/
def rateExpiry (now windowMs : ℕ) : ℚ := ⌈((now + windowMs : ℕ) : ℚ) / 1000⌉

def rateListing (key : Text) (limit : ℕ) : ListOpts :=
  ⟨some .keys, some (limit + 1 : ℕ), none, some (ratePrefix key), none, false, false⟩

def ListResult.keys : ListResult → List Text
  | .items (.keys keys) | .page (.keys keys) _ _ => keys
  | .items _ | .page _ _ _ => []

/-- `checkKv`; `now` is the clock that the row is stamped with, in milliseconds. -/
def checkKv (env : KvEnv) (uuid key : Text) (limit windowMs now : ℕ) : KvRun Bool := do
  let result ← SystemKVStore.list env false (rateListing key limit)
  if limit ≤ result.keys.length then return false
  let _ ← SystemKVStore.set env false (rateRow key now uuid) (.number 1) (some (rateExpiry now windowMs)) false
  return true

/-- A call that was admitted. -/
structure Admission where
  key : Text
  stamp : ℕ
  uuid : Text

def Admission.row (call : Admission) : Text := rateRow call.key call.stamp call.uuid

def Admission.expireAt (windowOf : Text → ℕ) (call : Admission) : ℚ :=
  rateExpiry call.stamp (windowOf call.key)

def Admission.item (windowOf : Text → ℕ) (call : Admission) : Attributes :=
  wholeItem (.number 1) (some (call.expireAt windowOf)) false

/-- The namespace, the clock in milliseconds, and the calls admitted so far. -/
structure KvRateState where
  table : KvTable
  clock : ℕ
  admitted : List Admission

def KvRateState.admittedWithin (s : KvRateState) (key : Text) (ms : ℕ) : List Admission :=
  s.admitted.filter fun call => call.key = key ∧ s.clock < call.stamp + ms

def KvRateState.now (s : KvRateState) : ℚ := (s.clock : ℚ) / 1000

/-- What happens: time passes, the database sweeps some of the lapsed rows, or a call runs from its listing
    to its row. -/
inductive KvRateStep (limitOf windowOf : Text → ℕ) : KvRateState → KvRateState → Prop where
  | elapses {s} (ms : ℕ) : KvRateStep limitOf windowOf s { s with clock := s.clock + ms }
  | sweeps {s} (keep : Text → Attributes → Bool)
      (onlyLapsed : ∀ entry ∈ s.table.entries, keep entry.1 entry.2 = false →
        ∃ ttl, itemTtl entry.2 = some ttl ∧ ttl ≤ s.now) :
      KvRateStep limitOf windowOf s { s with table := s.table.restrict keep }
  | answers {s env uuid key stamp answer table} (isNow : env.now = s.now) (later : s.clock ≤ stamp)
      (isUuid : UuidText uuid) (fresh : ∀ call ∈ s.admitted, call.uuid ≠ uuid)
      (ran : checkKv env uuid key (limitOf key) (windowOf key) stamp s.table = .ok answer table) :
      KvRateStep limitOf windowOf s
        ⟨table, stamp, if answer then ⟨key, stamp, uuid⟩ :: s.admitted else s.admitted⟩
  | fails {s env uuid key stamp error table} (later : s.clock ≤ stamp)
      (ran : checkKv env uuid key (limitOf key) (windowOf key) stamp s.table = .error error table) :
      KvRateStep limitOf windowOf s ⟨table, stamp, s.admitted⟩

def ownRow (key row : Text) : Bool :=
  (ratePrefix key).isPrefixOf row && ((row.drop (ratePrefix key).length).count ':' == 1)

def ownRows (env : KvEnv) (table : KvTable) (key : Text) : List (Text × Attributes) :=
  table.entries.filter fun entry => ownRow key entry.1 && passesFilter env.now false entry.2

def shownRows (env : KvEnv) (table : KvTable) (key : Text) (limit : ℕ) : List (Text × Attributes) :=
  (query env table false (some (ratePrefix key)) (limit + 1) none).items

/-- The listing shows as many rows as the limit exactly when that many rows of the key stand: lapsed rows do
    not crowd them out of the page, and rows of other keys do not stand in for them. -/
structure PageTells (env : KvEnv) (table : KvTable) (key : Text) (limit : ℕ) : Prop where
  notCrowded : limit ≤ (ownRows env table key).length → limit ≤ (shownRows env table key limit).length
  noneForeign : limit ≤ (shownRows env table key limit).length → limit ≤ (ownRows env table key).length

section Listing

variable {env : KvEnv} {table table' : KvTable} {key uuid : Text} {limit windowMs now : ℕ}

theorem normalizePattern_ratePrefix (key : Text) :
    normalizePattern (some (ratePrefix key)) = some (ratePrefix key) := by
  have shape : ratePrefix key = 'r' :: ("ate:".toList ++ key ++ [':']) := rfl
  have last : (ratePrefix key).getLast? = some ':' := by
    rw [ratePrefix, List.getLast?_concat]
  have trimmed : PosixPath.trim (ratePrefix key) = ratePrefix key := by
    have notLeading : (ratePrefix key).dropWhile PosixPath.isSpace = ratePrefix key := by
      rw [shape, List.dropWhile_cons_of_neg (by decide)]
    rw [PosixPath.trim, notLeading, List.rdropWhile_eq_self_iff]
    intro nonempty
    rw [List.getLast?_eq_some_getLast nonempty, Option.some.injEq] at last
    rw [last]
    decide
  have given : ratePrefix key ≠ [] := by simp [shape]
  have noStar : ¬ (ratePrefix key).getLast? = some '*' := by
    rw [last]
    decide
  simp only [normalizePattern, trimmed, if_neg given, if_neg noStar]

theorem list_shownRows (env : KvEnv) (table : KvTable) (key : Text) (limit : ℕ) :
    ∃ result, SystemKVStore.list env false (rateListing key limit) table = .ok result table ∧
      result.keys = (shownRows env table key limit).map Prod.fst := by
  have asked : SystemKVStore.normalizeLimit (some ((limit + 1 : ℕ) : ℚ)) table = .ok (some (limit + 1)) table := by
    have positive : ¬ ((limit + 1 : ℕ) : ℚ) ≤ 0 := by
      rw [not_le]
      exact_mod_cast Nat.succ_pos limit
    refine bind_ok.mpr ⟨(), table, refuseIf_ok.mpr ⟨decide_eq_false positive, rfl⟩, ?_⟩
    rw [Int.floor_natCast]
    rfl
  have page : (SystemKVStore.listPage env table false (rateListing key limit) (some (limit + 1)) none).1 =
      shownRows env table key limit := by
    have passing : ∀ entry ∈ shownRows env table key limit,
        ((itemTtl entry.2).all fun ttl => decide (ttl = 0 ∨ env.now < ttl)) = true :=
      fun entry member => passesFilter_ttl (List.mem_filter.mp member).2
    have whole : (SystemKVStore.listPage env table false (rateListing key limit) (some (limit + 1)) none).1 =
        (shownRows env table key limit).filter fun entry =>
          (itemTtl entry.2).all fun ttl => decide (ttl = 0 ∨ env.now < ttl) := by
      unfold SystemKVStore.listPage
      simp only [rateListing, normalizePattern_ratePrefix, Option.getD_none, SystemKVStore.skipOffset,
        SystemKVStore.collectPage, SystemKVStore.pageDone, SystemKVStore.wanted, shownRows, Bool.not_false,
        Bool.true_or, if_true, Bool.false_eq_true, if_false, List.nil_append, List.length_nil, Nat.sub_zero]
    rw [whole, List.filter_eq_self.mpr passing]
  refine ⟨_, bind_ok.mpr ⟨_, table, asked, rfl⟩, ?_⟩
  rw [← page]
  rfl

theorem set_puts (env : KvEnv) (crossApp : Bool) (key : Text) (value : Json) (expireAt : Option ℚ)
    (disableSharing : Bool) :
    Leaves (fun table table' => table' = table.put key (wholeItem value expireAt disableSharing)) Eq
      (SystemKVStore.set env crossApp key value expireAt disableSharing) := by
  refine .skip (assertKey_reads key) fun _ _ _ =>
    .skip (assertValue_reads env value) fun _ _ _ =>
      .skip (assertNotPrivate_reads crossApp key) fun _ _ _ => ⟨?_, ?_⟩
  · intro table done table' ran
    obtain ⟨_, between, changed, returned⟩ := bind_ok.mp ran
    obtain rfl := modify_ok.mp changed
    obtain ⟨_, rfl⟩ := pure_ok.mp returned
    rfl
  · intro table error table' ran
    obtain failed | ⟨_, _, _, failed⟩ := bind_error.mp ran
    · exact absurd failed modify_error
    · exact absurd failed pure_error

theorem checkKv_ok {answer : Bool} (ran : checkKv env uuid key limit windowMs now table = .ok answer table') :
    (answer = false ∧ limit ≤ (shownRows env table key limit).length ∧ table' = table) ∨
      (answer = true ∧ (shownRows env table key limit).length < limit ∧
        table' = table.put (rateRow key now uuid)
          (wholeItem (.number 1) (some (rateExpiry now windowMs)) false)) := by
  obtain ⟨result, lists, keys⟩ := list_shownRows env table key limit
  obtain ⟨shown, between, listed, rest⟩ := bind_ok.mp ran
  rw [lists] at listed
  cases listed
  rw [keys, List.length_map] at rest
  split at rest
  · rename_i full
    obtain ⟨rfl, rfl⟩ := pure_ok.mp rest
    exact .inl ⟨rfl, full, rfl⟩
  · rename_i free
    obtain ⟨_, stored, written, done⟩ := bind_ok.mp rest
    obtain ⟨rfl, rfl⟩ := pure_ok.mp done
    exact .inr ⟨rfl, not_le.mp free, (set_puts _ _ _ _ _ _).ok _ _ _ written⟩

theorem checkKv_error {error : KvError}
    (ran : checkKv env uuid key limit windowMs now table = .error error table') : table' = table := by
  obtain ⟨result, lists, keys⟩ := list_shownRows env table key limit
  obtain failed | ⟨shown, between, listed, rest⟩ := bind_error.mp ran
  · rw [lists] at failed
    cases failed
  · rw [lists] at listed
    cases listed
    split at rest
    · exact absurd rest pure_error
    · obtain failed | ⟨_, _, _, failed⟩ := bind_error.mp rest
      · exact ((set_puts _ _ _ _ _ _).error _ _ _ failed).symm
      · exact absurd failed pure_error

theorem checkKv_admits (free : (shownRows env table key limit).length < limit)
    (small : env.jsonBytes (.number 1) ≤ SystemKVStore.maxValueBytes)
    (fits : ((rateRow key now uuid).map Char.utf8Size).sum ≤ SystemKVStore.maxKeyBytes) :
    checkKv env uuid key limit windowMs now table = .ok true (table.put (rateRow key now uuid)
      (wholeItem (.number 1) (some (rateExpiry now windowMs)) false)) := by
  obtain ⟨result, lists, keys⟩ := list_shownRows env table key limit
  have notFull : ¬ limit ≤ result.keys.length := by
    rw [keys, List.length_map]
    exact not_le.mpr free
  have given : rateRow key now uuid ≠ [] := by simp [rateRow, ratePrefix]
  have keyPasses : SystemKVStore.assertKey (rateRow key now uuid) table = .ok () table :=
    bind_ok.mpr ⟨(), table, refuseIf_ok.mpr ⟨decide_eq_false given, rfl⟩,
      refuseIf_ok.mpr ⟨decide_eq_false (not_lt.mpr fits), rfl⟩⟩
  have valuePasses : SystemKVStore.assertValue env (.number 1) table = .ok () table :=
    bind_ok.mpr ⟨(), table, refuseIf_ok.mpr ⟨decide_eq_false (not_lt.mpr small), rfl⟩, rfl⟩
  have written : SystemKVStore.set env false (rateRow key now uuid) (.number 1)
      (some (rateExpiry now windowMs)) false table = .ok true (table.put (rateRow key now uuid)
        (wholeItem (.number 1) (some (rateExpiry now windowMs)) false)) :=
    bind_ok.mpr ⟨(), table, keyPasses, bind_ok.mpr ⟨(), table, valuePasses,
      bind_ok.mpr ⟨(), table, rfl, rfl⟩⟩⟩
  refine bind_ok.mpr ⟨result, table, lists, ?_⟩
  rw [if_neg notFull]
  exact bind_ok.mpr ⟨true, _, written, rfl⟩

end Listing

section Rows

variable {key : Text} {call other : Admission}

theorem last_colon {before before' after after' : Text} (none : ':' ∉ after) (none' : ':' ∉ after')
    (same : before ++ ':' :: after = before' ++ ':' :: after') : before = before' ∧ after = after' := by
  rcases List.append_eq_append_iff.mp same with ⟨middle, rfl, split⟩ | ⟨middle, rfl, split⟩
  · cases middle with
    | nil => exact ⟨(List.append_nil _).symm, (List.cons.inj split).2⟩
    | cons c rest =>
        have behind : after = rest ++ ':' :: after' := (List.cons.inj split).2
        exact absurd (behind ▸ List.mem_append_right _ List.mem_cons_self) none
  · cases middle with
    | nil => exact ⟨List.append_nil _, (List.cons.inj split).2.symm⟩
    | cons c rest =>
        have behind : after' = rest ++ ':' :: after := (List.cons.inj split).2
        exact absurd (behind ▸ List.mem_append_right _ List.mem_cons_self) none'

theorem row_eq (call : Admission) :
    call.row = ("rate:".toList ++ call.key ++ ':' :: decimal call.stamp) ++ ':' :: call.uuid := by
  simp [Admission.row, rateRow, ratePrefix]

theorem row_injective (uuid : UuidText call.uuid) (otherUuid : UuidText other.uuid)
    (same : call.row = other.row) : call.key = other.key ∧ call.uuid = other.uuid := by
  rw [row_eq, row_eq] at same
  obtain ⟨front, isUuid⟩ := last_colon uuid.noColon otherUuid.noColon same
  obtain ⟨keys, _⟩ := last_colon (decimal_noColon _) (decimal_noColon _) front
  exact ⟨List.append_cancel_left keys, isUuid⟩

theorem ownRow_row (uuid : UuidText call.uuid) : ownRow key call.row = true ↔ call.key = key := by
  have counted : ∀ after : Text, ':' ∉ after → after.count ':' = 0 := fun after none =>
    List.count_eq_zero.mpr none
  constructor
  · intro own
    rw [ownRow, Bool.and_eq_true, beq_iff_eq, List.isPrefixOf_iff_prefix] at own
    obtain ⟨⟨rest, split⟩, once⟩ := own
    rw [← split, List.drop_left] at once
    have colon : ':' ∈ rest := List.count_pos_iff.mp (by omega)
    obtain ⟨before, after, rfl⟩ := List.append_of_mem colon
    have bothNone : before.count ':' = 0 ∧ after.count ':' = 0 := by
      rw [List.count_append, List.count_cons_self] at once
      omega
    have same : ("rate:".toList ++ key ++ ':' :: before) ++ ':' :: after =
        ("rate:".toList ++ call.key ++ ':' :: decimal call.stamp) ++ ':' :: call.uuid := by
      rw [← row_eq, ← split]
      simp [ratePrefix]
    obtain ⟨front, _⟩ := last_colon (List.count_eq_zero.mp bothNone.2) uuid.noColon same
    obtain ⟨keys, _⟩ := last_colon (List.count_eq_zero.mp bothNone.1) (decimal_noColon _) front
    exact (List.append_cancel_left keys).symm
  · rintro rfl
    have behind : (decimal call.stamp ++ ':' :: call.uuid).count ':' = 1 := by
      rw [List.count_append, List.count_cons_self, counted _ (decimal_noColon _), counted _ uuid.noColon]
    simp [ownRow, Admission.row, rateRow, behind, List.isPrefixOf_iff_prefix]

end Rows

/-- What holds of the rows of the rate limiter: they are those of the calls that were admitted, none that
    has not expired is missing, and no two calls share one. -/
structure KvRated (windowOf : Text → ℕ) (s : KvRateState) : Prop where
  rows : ∀ entry ∈ s.table.entries, "rate:".toList <+: entry.1 →
    ∃ call ∈ s.admitted, entry = (call.row, call.item windowOf)
  kept : ∀ call ∈ s.admitted, s.now < call.expireAt windowOf →
    (call.row, call.item windowOf) ∈ s.table.entries
  uuids : ∀ call ∈ s.admitted, UuidText call.uuid
  distinct : (s.admitted.map Admission.uuid).Nodup

section Runs

variable {limitOf windowOf : Text → ℕ} {s s' : KvRateState}

theorem KvRateState.now_mono {clock clock' : ℕ} {table table' : KvTable}
    {admitted admitted' : List Admission} (later : clock ≤ clock') :
    (⟨table, clock, admitted⟩ : KvRateState).now ≤ (⟨table', clock', admitted'⟩ : KvRateState).now := by
  have cast : (clock : ℚ) ≤ clock' := by exact_mod_cast later
  unfold KvRateState.now
  linarith

theorem KvRated.fewer (rated : KvRated windowOf s) {table : KvTable} {clock : ℕ} (later : s.clock ≤ clock)
    (within : table.entries ⊆ s.table.entries)
    (live : ∀ call ∈ s.admitted, s.now < call.expireAt windowOf →
      (call.row, call.item windowOf) ∈ s.table.entries → (call.row, call.item windowOf) ∈ table.entries) :
    KvRated windowOf ⟨table, clock, s.admitted⟩ where
  rows entry member ofRate := rated.rows entry (within member) ofRate
  kept call member unexpired := by
    have before : s.now < call.expireAt windowOf := lt_of_le_of_lt (KvRateState.now_mono later) unexpired
    exact live call member before (rated.kept call member before)
  uuids := rated.uuids
  distinct := rated.distinct

theorem itemTtl_item (call : Admission) : itemTtl (call.item windowOf) = some (call.expireAt windowOf) := rfl

theorem passesFilter_item (now : ℚ) (call : Admission) :
    passesFilter now false (call.item windowOf) = decide (now < call.expireAt windowOf) := by
  change (decide (now < call.expireAt windowOf) && true) = _
  rw [Bool.and_true]

theorem KvRated.admits (rated : KvRated windowOf s) {key uuid : Text} {stamp : ℕ} (later : s.clock ≤ stamp)
    (isUuid : UuidText uuid) (fresh : ∀ call ∈ s.admitted, call.uuid ≠ uuid) :
    KvRated windowOf ⟨s.table.put (rateRow key stamp uuid)
      (wholeItem (.number 1) (some (rateExpiry stamp (windowOf key))) false), stamp,
      ⟨key, stamp, uuid⟩ :: s.admitted⟩ := by
  have apart : ∀ call ∈ s.admitted, call.row ≠ rateRow key stamp uuid := fun call member same =>
    fresh call member (@row_injective call ⟨key, stamp, uuid⟩ (rated.uuids call member) isUuid same).2
  have stored : ∀ entry : Text × Attributes,
      entry ∈ (s.table.put (rateRow key stamp uuid)
        (wholeItem (.number 1) (some (rateExpiry stamp (windowOf key))) false)).entries ↔
      if entry.1 = rateRow key stamp uuid then
        wholeItem (.number 1) (some (rateExpiry stamp (windowOf key))) false = entry.2
      else entry ∈ s.table.entries := by
    rintro ⟨row, item⟩
    rw [← SortedTable.get_eq_some_iff, SortedTable.get_put]
    by_cases same : row = rateRow key stamp uuid
    · rw [if_pos same, if_pos same, Option.some.injEq]
    · rw [if_neg same, if_neg same, SortedTable.get_eq_some_iff]
  constructor
  · intro entry member ofRate
    rw [stored] at member
    split at member
    · next same =>
        exact ⟨⟨key, stamp, uuid⟩, List.mem_cons_self, Prod.ext same member.symm⟩
    · obtain ⟨call, admitted, found⟩ := rated.rows entry member ofRate
      exact ⟨call, List.mem_cons_of_mem _ admitted, found⟩
  · intro call member unexpired
    rw [stored]
    cases member with
    | head => exact (if_pos rfl).mpr rfl
    | tail _ admitted =>
        rw [if_neg (apart call admitted)]
        exact rated.kept call admitted (lt_of_le_of_lt (KvRateState.now_mono later) unexpired)
  · intro call member
    cases member with
    | head => exact isUuid
    | tail _ admitted => exact rated.uuids call admitted
  · refine List.nodup_cons.mpr ⟨fun member => ?_, rated.distinct⟩
    obtain ⟨call, admitted, same⟩ := List.mem_map.mp member
    exact fresh call admitted same

theorem KvRateStep.rated (step : KvRateStep limitOf windowOf s s') (rated : KvRated windowOf s) :
    KvRated windowOf s' := by
  cases step with
  | elapses ms =>
      exact rated.fewer (Nat.le_add_right _ _) (List.Subset.refl _) fun _ _ _ member => member
  | sweeps keep onlyLapsed =>
      have within : (s.table.restrict keep).entries ⊆ s.table.entries := fun _ member =>
        (List.mem_filter.mp member).1
      refine rated.fewer le_rfl within fun call _ unexpired member => ?_
      refine List.mem_filter.mpr ⟨member, ?_⟩
      by_contra dropped
      obtain ⟨ttl, hasTtl, lapsed⟩ := onlyLapsed _ member (by simpa using dropped)
      rw [itemTtl_item, Option.some.injEq] at hasTtl
      exact absurd (hasTtl ▸ lapsed) (not_le.mpr unexpired)
  | answers isNow later isUuid fresh ran =>
      obtain ⟨rfl, _, rfl⟩ | ⟨rfl, _, rfl⟩ := checkKv_ok ran
      · exact rated.fewer later (List.Subset.refl _) fun _ _ _ member => member
      · exact rated.admits later isUuid fresh
  | fails later ran =>
      obtain rfl := checkKv_error ran
      exact rated.fewer later (List.Subset.refl _) fun _ _ _ member => member

theorem rated_of_run {start : KvRateState} (none : start.admitted = [])
    (noRows : ∀ entry ∈ start.table.entries, ¬ "rate:".toList <+: entry.1)
    (run : Relation.ReflTransGen (KvRateStep limitOf windowOf) start s) : KvRated windowOf s := by
  induction run with
  | refl =>
      exact ⟨fun entry member ofRate => absurd ofRate (noRows entry member), by simp [none], by simp [none],
        by simp [none]⟩
  | tail _ step ih => exact step.rated ih

theorem KvRated.ownRows_length (rated : KvRated windowOf s) {env : KvEnv} (isNow : env.now = s.now)
    (key : Text) :
    (ownRows env s.table key).length =
      (s.admitted.filter fun call => call.key = key ∧ s.now < call.expireAt windowOf).length := by
  have asRows : ((s.admitted.filter fun call => call.key = key ∧ s.now < call.expireAt windowOf).map
      fun call => (call.row, call.item windowOf)).length =
      (s.admitted.filter fun call => call.key = key ∧ s.now < call.expireAt windowOf).length :=
    List.length_map _
  rw [← asRows]
  refine List.Perm.length_eq ((List.perm_ext_iff_of_nodup ?_ ?_).mpr fun entry => ?_)
  · have nodup : s.table.entries.Nodup := s.table.sorted.imp fun less same => by
      subst same
      exact lt_irrefl _ less
    exact nodup.filter _
  · refine List.Nodup.map_on (fun call member other memberOther same => ?_)
      ((List.Nodup.of_map _ rated.distinct).filter _)
    have admitted := (List.mem_filter.mp member).1
    have admittedOther := (List.mem_filter.mp memberOther).1
    have uuids := (row_injective (rated.uuids _ admitted) (rated.uuids _ admittedOther)
      (congrArg Prod.fst same)).2
    exact List.inj_on_of_nodup_map rated.distinct admitted admittedOther uuids
  · rw [ownRows, List.mem_filter, List.mem_map]
    constructor
    · rintro ⟨member, counts⟩
      rw [Bool.and_eq_true] at counts
      have ofRate : "rate:".toList <+: entry.1 := by
        have := counts.1
        rw [ownRow, Bool.and_eq_true, List.isPrefixOf_iff_prefix, ratePrefix, List.append_assoc] at this
        exact (List.prefix_append _ _).trans this.1
      obtain ⟨call, admitted, rfl⟩ := rated.rows entry member ofRate
      rw [ownRow_row (rated.uuids call admitted), passesFilter_item, decide_eq_true_iff, isNow] at counts
      exact ⟨call, List.mem_filter.mpr ⟨admitted, decide_eq_true counts⟩, rfl⟩
    · rintro ⟨call, member, rfl⟩
      obtain ⟨admitted, counts⟩ := List.mem_filter.mp member
      rw [decide_eq_true_iff] at counts
      refine ⟨rated.kept call admitted counts.2, ?_⟩
      rw [Bool.and_eq_true, ownRow_row (rated.uuids call admitted), passesFilter_item, decide_eq_true_iff,
        isNow]
      exact counts

theorem expiry_bounds (clock stamp window : ℕ) :
    (clock < stamp + window → (clock : ℚ) / 1000 < rateExpiry stamp window) ∧
      ((clock : ℚ) / 1000 < rateExpiry stamp window → clock < stamp + (window + 1000)) := by
  have above := Int.le_ceil (((stamp + window : ℕ) : ℚ) / 1000)
  have below := Int.ceil_lt_add_one (((stamp + window : ℕ) : ℚ) / 1000)
  constructor
  · intro within
    have cast : (clock : ℚ) < ((stamp + window : ℕ) : ℚ) := by exact_mod_cast within
    unfold rateExpiry
    linarith
  · intro unexpired
    unfold rateExpiry at unexpired
    have cast : (clock : ℚ) < ((stamp + (window + 1000) : ℕ) : ℚ) := by
      push_cast at *
      linarith
    exact_mod_cast cast

end Runs

def envAt (now : ℚ) : KvEnv := ⟨now, fun _ => false, fun _ => 0, List.length⟩

def putRow (table : KvTable) (call : Admission) : KvTable := table.put call.row (call.item fun _ => 1000)

/-- One call on the key `k`. -/
def callAt (stamp : ℕ) (uuid : Text) : Admission := ⟨['k'], stamp, uuid⟩

end Puter

/-
Module: Puter.Kv.PrivateEntries
Purpose: What the reads of another app reveal of the entries that an app marked private. A get, and a
  listing without a limit, answer the same whatever private entries there are. A listing with a limit does
  not: the limit counts private entries, and the cursor names the last of them that was evaluated.
Trusted boundary: an answer of the database to a query evaluates a bounded number of entries
Main exports: SameShared, crossAppRead_blind_iff
-/
import Puter.Kv.LapsedEntries

namespace Puter

open StateRun SystemKVStore

def sharedPart (table : KvTable) : KvTable := table.restrict fun _ item => !isPrivate item

def SameShared (one other : KvTable) : Prop := sharedPart one = sharedPart other

/-- The reads that another app can make. -/
inductive CrossAppRead where
  | get (keys : List Text)
  | list (opts : ListOpts)

namespace CrossAppRead

def request : CrossAppRead → KvRequest
  | get keys => .get keys
  | list opts => .list opts

def answer (env : KvEnv) (read : CrossAppRead) (table : KvTable) : Except KvError KvResponse :=
  outcome (read.request.run env true table)

end CrossAppRead

/-- The options of a listing pass its checks. -/
def passesChecks (opts : ListOpts) : Prop :=
  (∀ limit ∈ opts.limit, 0 < limit) ∧
    (∀ offset ∈ opts.offset, 0 ≤ offset ∧ ⌊offset⌋.toNat ≤ maxListOffset) ∧
      (opts.cursor.isSome && opts.offset.isSome) = false ∧
        (opts.fetchUntilFull && opts.limit.isNone) = false

def Ahead (opts : ListOpts) (key : Text) : Prop :=
  (∀ start ∈ opts.cursor, start < key) ∧ ∀ start ∈ normalizePattern opts.pattern, start <+: key

/-- A read that cannot tell private entries: a get, or a listing that has no limit, that is refused, or
    that has no key ahead. -/
def CrossAppRead.Blind : CrossAppRead → Prop
  | get _ => True
  | list opts => opts.limit = none ∨ ¬ passesChecks opts ∨ ∀ key, ¬ Ahead opts key

section Shared

variable {env : KvEnv} {one other : KvTable}

theorem answer_sharedPart (env : KvEnv) (table : KvTable) (key : Text) :
    SystemKVStore.answer env true (table.get key) =
      SystemKVStore.answer env true ((sharedPart table).get key) := by
  rw [sharedPart, SortedTable.get_restrict]
  unfold SystemKVStore.answer answerOf
  cases table.get key with
  | none => rfl
  | some item =>
      cases hidden : isPrivate item with
      | true =>
          have marked : (readItem item).noShare = true := hidden
          simp [Option.filter, hidden, marked]
      | false => simp [Option.filter, hidden]

theorem shared_of_passesFilter {now : ℚ} {item : Attributes}
    (passes : passesFilter now true item = true) : isPrivate item = false := by
  unfold passesFilter at passes
  rw [Bool.and_eq_true, Bool.true_and, Bool.not_eq_true', Option.isSome_eq_false_iff,
    Option.isNone_iff_eq_none] at passes
  rw [isPrivate, passes.2]
  rfl

theorem liveListing_sharedPart (env : KvEnv) (table : KvTable) (pattern startKey : Option Text) :
    liveListing env table true pattern startKey =
      liveListing env (sharedPart table) true pattern startKey := by
  unfold liveListing candidates sharedPart SortedTable.restrict
  simp only [List.filter_filter]
  refine List.filter_congr fun entry _ => ?_
  cases passes : passesFilter env.now true entry.2 with
  | false => simp
  | true => simp [shared_of_passesFilter passes]

theorem SameShared.liveListing (same : SameShared one other) (pattern startKey : Option Text) :
    liveListing env one true pattern startKey = liveListing env other true pattern startKey := by
  rw [liveListing_sharedPart, same, ← liveListing_sharedPart]

theorem get_shared (same : SameShared one other) (keys : List Text) :
    (CrossAppRead.get keys).answer env one = (CrossAppRead.get keys).answer env other := by
  have agree : Agree SameShared ((KvRequest.get keys).run env true) ((KvRequest.get keys).run env true) := by
    refine Agree.bind (Agree.bind (Agree.forEach fun key _ => assertKey_agree key) fun _ => ?_)
      fun _ => Agree.pure _
    refine Agree.get fun s t start => ⟨?_, start⟩
    refine congrArg Except.ok (List.map_congr_left fun key _ => ?_)
    rw [answer_sharedPart, start, ← answer_sharedPart]
  exact (agree one other same).1

theorem normalizeLimit_ok {limit : Option ℚ} {asked : Option ℕ} {table table' : KvTable} :
    normalizeLimit limit table = .ok asked table' ↔
      (∀ parsed ∈ limit, 0 < parsed) ∧ (limit.map fun parsed => ⌊parsed⌋.toNat) = asked ∧ table = table' := by
  unfold normalizeLimit
  cases limit with
  | none => simp [pure_ok]
  | some parsed =>
      simp only [bind_ok, refuseIf_ok, pure_ok, decide_eq_false_iff_not, not_le, Option.mem_some_iff,
        forall_eq', Option.map_some]
      constructor
      · rintro ⟨_, _, ⟨positive, rfl⟩, same, rfl⟩
        exact ⟨positive, same, rfl⟩
      · rintro ⟨positive, same, rfl⟩
        exact ⟨(), table, ⟨positive, rfl⟩, same, rfl⟩

theorem normalizeOffset_ok {offset : Option ℚ} {asked : Option ℕ} {table table' : KvTable} :
    normalizeOffset offset table = .ok asked table' ↔
      (∀ parsed ∈ offset, 0 ≤ parsed ∧ ⌊parsed⌋.toNat ≤ maxListOffset) ∧
        (offset.map fun parsed => ⌊parsed⌋.toNat) = asked ∧ table = table' := by
  unfold normalizeOffset
  cases offset with
  | none => simp [pure_ok]
  | some parsed =>
      simp only [bind_ok, refuseIf_ok, pure_ok, decide_eq_false_iff_not, not_lt, Option.mem_some_iff,
        forall_eq', Option.map_some]
      constructor
      · rintro ⟨_, _, ⟨nonneg, rfl⟩, _, _, ⟨small, rfl⟩, same, rfl⟩
        exact ⟨⟨nonneg, small⟩, same, rfl⟩
      · rintro ⟨⟨nonneg, small⟩, same, rfl⟩
        exact ⟨(), table, ⟨nonneg, rfl⟩, (), table, ⟨small, rfl⟩, same, rfl⟩

theorem list_ok {crossApp : Bool} {opts : ListOpts} {result : ListResult} {table table' : KvTable} :
    SystemKVStore.list env crossApp opts table = .ok result table' ↔ passesChecks opts ∧
      listResult env table crossApp opts (askedLimit opts) (askedOffset opts) = result ∧
        table = table' := by
  unfold SystemKVStore.list passesChecks askedLimit askedOffset
  simp only [bind_ok, normalizeLimit_ok, normalizeOffset_ok, refuseIf_ok, pure_ok]
  constructor
  · rintro ⟨limit, _, ⟨limitPasses, rfl, rfl⟩, offset, _, ⟨offsetPasses, rfl, rfl⟩, _, _, ⟨apart, rfl⟩,
      _, _, ⟨bounded, rfl⟩, read, _, isRead, same, rfl⟩
    cases isRead
    exact ⟨⟨limitPasses, offsetPasses, by simpa using apart, by simpa using bounded⟩, same, rfl⟩
  · rintro ⟨⟨limitPasses, offsetPasses, apart, bounded⟩, same, rfl⟩
    exact ⟨_, table, ⟨limitPasses, rfl, rfl⟩, _, table, ⟨offsetPasses, rfl, rfl⟩, (), table,
      ⟨by simpa using apart, rfl⟩, (), table, ⟨by simpa using bounded, rfl⟩, table, table, rfl, same, rfl⟩

theorem refused_of_not_passesChecks {opts : ListOpts} (fails : ¬ passesChecks opts) :
    ∃ refusal, ∀ table, (CrossAppRead.list opts).answer env table = .error refusal := by
  rcases list_runs env true opts with ⟨refusal, refuses⟩ | runs
  · refine ⟨refusal, fun table => ?_⟩
    have failed : (KvRequest.list opts).run env true table = .error refusal table :=
      bind_error.mpr (.inl (refuses table))
    exact congrArg outcome failed
  · exact absurd (list_ok.mp (runs .empty)).1 fails

theorem runs_of_passesChecks {opts : ListOpts} (passes : passesChecks opts) (table : KvTable) :
    (CrossAppRead.list opts).answer env table =
      .ok (.listing (listResult env table true opts (askedLimit opts) (askedOffset opts))) := by
  have ran : (KvRequest.list opts).run env true table =
      .ok (.listing (listResult env table true opts (askedLimit opts) (askedOffset opts))) table :=
    bind_ok.mpr ⟨_, table, list_ok.mpr ⟨passes, rfl, rfl⟩, rfl⟩
  exact congrArg outcome ran

theorem answer_of_listPage {opts : ListOpts} (same : SameShared one other)
    (pages : listPage env one true opts (askedLimit opts) (askedOffset opts) =
      listPage env other true opts (askedLimit opts) (askedOffset opts)) :
    (CrossAppRead.list opts).answer env one = (CrossAppRead.list opts).answer env other := by
  by_cases passes : passesChecks opts
  · have counted : ∀ table, countAll env table true (normalizePattern opts.pattern)
        (table.entries.length + 1) none =
          (liveListing env table true (normalizePattern opts.pattern) none).length :=
      fun table => countAll_eq (candidates_length_lt table _ none)
    rw [runs_of_passesChecks passes, runs_of_passesChecks passes]
    simp only [listResult, pages, counted, same.liveListing]
  · obtain ⟨refusal, refuses⟩ := @refused_of_not_passesChecks env opts passes
    rw [refuses, refuses]

theorem unlimited_shared {opts : ListOpts} (unlimited : opts.limit = none) (same : SameShared one other) :
    (CrossAppRead.list opts).answer env one = (CrossAppRead.list opts).answer env other := by
  have noLimit : askedLimit opts = none := by
    unfold askedLimit
    rw [unlimited, Option.map_none]
  refine answer_of_listPage same ?_
  simp only [noLimit, listPage_unlimited, same.liveListing]

end Shared

section Revealing

variable {env : KvEnv} {table : KvTable} {pattern : Option Text}

theorem query_goesOn {crossApp : Bool} {limit : ℕ} {startKey : Option Text}
    (less : evaluatedCount env limit (candidates table pattern startKey) <
      (candidates table pattern startKey).length) :
    ∃ key, (query env table crossApp pattern limit startKey).lastEvaluatedKey = some key ∧
      candidates table pattern (some key) = (candidates table pattern startKey).drop
        (evaluatedCount env limit (candidates table pattern startKey)) := by
  have positive := evaluatedCount_pos env limit (candidates table pattern startKey)
  have nonempty : (candidates table pattern startKey).take
      (evaluatedCount env limit (candidates table pattern startKey)) ≠ [] := by
    rw [ne_eq, List.take_eq_nil_iff, not_or]
    exact ⟨by omega, List.ne_nil_of_length_pos (by omega)⟩
  have isLast := List.getLast?_eq_some_getLast nonempty
  refine ⟨_, ?_, candidates_drop isLast⟩
  unfold query
  dsimp only
  rw [if_pos (.inl (by rw [List.length_take]; omega)), isLast, Option.map_some]

theorem skipOffset_behind {crossApp : Bool} {fuel remaining : ℕ} {startKey : Option Text}
    (enough : remaining < fuel) (long : remaining ≤ (candidates table pattern startKey).length)
    (live : ∀ entry ∈ (candidates table pattern startKey).take remaining,
      passesFilter env.now crossApp entry.2 = true) :
    ∃ key, skipOffset env table crossApp pattern fuel remaining startKey = (key, false) ∧
      candidates table pattern key = (candidates table pattern startKey).drop remaining := by
  induction fuel generalizing remaining startKey with
  | zero => omega
  | succ fuel ih =>
      simp only [skipOffset]
      by_cases done : remaining = 0
      · subst done
        exact ⟨startKey, if_pos rfl, List.drop_zero.symm⟩
      · rw [if_neg done]
        rcases query_stops env table crossApp pattern remaining startKey with
          ⟨-, -, short⟩ | ⟨key, n, goesOn, positive, limited, -, left, items⟩
        · exact absurd (short done) (not_lt.mpr long)
        · have within := limited done
          have all : ((candidates table pattern startKey).take n).filter
              (fun entry => passesFilter env.now crossApp entry.2) =
                (candidates table pattern startKey).take n := by
            rw [List.filter_eq_self]
            exact fun entry member => live entry (List.take_subset_take_left _ within member)
          have counted : (query env table crossApp pattern remaining startKey).items.length = n := by
            rw [items, all, List.length_take]
            omega
          have liveRest : ∀ entry ∈ (candidates table pattern (some key)).take (remaining - n),
              passesFilter env.now crossApp entry.2 = true := by
            intro entry member
            refine live entry ?_
            rw [left, ← List.drop_take] at member
            exact List.mem_of_mem_drop member
          have longRest : remaining - n ≤ (candidates table pattern (some key)).length := by
            rw [left, List.length_drop]
            omega
          rw [goesOn, counted]
          obtain ⟨key', skips, behind⟩ := ih (by omega) longRest liveRest
          refine ⟨key', skips, ?_⟩
          rw [behind, left, List.drop_drop, Nat.add_sub_cancel' within]

theorem evaluatedCount_le {most : ℕ} (bounded : ∀ found, env.pageCapacity found ≤ most) (limit : ℕ)
    (found : List (Text × Attributes)) : evaluatedCount env limit found ≤ max limit (max 1 most) := by
  have fits : max 1 (env.pageCapacity found) ≤ max 1 most := max_le_max_left 1 (bounded found)
  unfold evaluatedCount
  split
  · exact fits.trans (le_max_right _ _)
  · exact (min_le_left _ _).trans (le_max_left _ _)

theorem collectPage_names {most limit : ℕ} (fetchUntilFull : Bool)
    (evaluates : ∀ found, evaluatedCount env limit found ≤ most) {fuel left pages : ℕ}
    {startKey : Option Text} (pagesLeft : pages + left = maxFillPages) (more : 0 < left)
    (enough : left ≤ fuel) (many : left * most < (candidates table pattern startKey).length)
    (hidden : ∀ entry ∈ candidates table pattern startKey, passesFilter env.now true entry.2 = false) :
    ∃ key, collectPage env table true pattern (some limit) fetchUntilFull fuel pages [] startKey =
      ([], some key) := by
  induction left generalizing fuel pages startKey with
  | zero => omega
  | succ left ih =>
      cases fuel with
      | zero => omega
      | succ fuel =>
          have evaluated := evaluates (candidates table pattern startKey)
          have size : left * most + most < (candidates table pattern startKey).length := by
            rwa [← Nat.succ_mul]
          obtain ⟨key, goesOn, behind⟩ := @query_goesOn env table pattern true limit startKey (by omega)
          have nothing : (query env table true pattern limit startKey).items = [] := by
            unfold query
            rw [List.filter_eq_nil_iff]
            intro entry member
            rw [hidden entry (List.mem_of_mem_take member)]
            exact Bool.false_ne_true
          have asks : wanted (some limit) [] = limit := rfl
          simp only [collectPage, asks, nothing, List.append_nil, goesOn]
          split
          · exact ⟨key, rfl⟩
          next notDone =>
            have pagesRest : 0 < left := by
              by_contra none
              refine notDone ?_
              have last : maxFillPages ≤ pages + 1 := by omega
              simp [pageDone, last]
            refine ih (by omega) pagesRest (by omega) ?_ fun entry member => ?_
            · rw [behind, List.length_drop]
              omega
            · rw [behind] at member
              exact hidden entry (List.mem_of_mem_drop member)

theorem collectPage_nothing {limit : ℕ} (fetchUntilFull : Bool) {fuel : ℕ} {startKey : Option Text}
    (nothing : candidates table pattern startKey = []) :
    collectPage env table true pattern (some limit) fetchUntilFull (fuel + 1) 0 [] startKey =
      ([], none) := by
  have answered : query env table true pattern limit startKey = ⟨[], none⟩ := by
    simp [query, nothing]
  have asks : wanted (some limit) [] = limit := rfl
  simp only [collectPage, asks, answered, List.append_nil, ite_self]

end Revealing

section Tables

def sharedItem : Attributes := wholeItem (.number 1) none false

def privateItem : Attributes := wholeItem (.number 1) none true

def rowKey (key : Text) (i : ℕ) : Text := key ++ List.replicate i 'a'

theorem rowKey_add (key : Text) (i j : ℕ) : rowKey key (i + j) = rowKey key i ++ List.replicate j 'a' := by
  unfold rowKey
  rw [List.replicate_add, List.append_assoc]

theorem rowKey_lt (key : Text) {i j : ℕ} (less : i < j) : rowKey key i < rowKey key j := by
  obtain ⟨k, rfl⟩ := Nat.exists_eq_add_of_lt less
  calc rowKey key i = rowKey key i ++ [] := (List.append_nil _).symm
    _ < rowKey key i ++ List.replicate (k + 1) 'a' := List.append_left_lt (List.nil_lt_cons _ _)
    _ = rowKey key (i + k + 1) := by rw [← rowKey_add, add_assoc]

def veiled (key : Text) (shared hidden : ℕ) : KvTable where
  entries := (List.range (shared + hidden)).map fun i =>
    (rowKey key i, if i < shared then sharedItem else privateItem)
  sorted := by
    rw [List.pairwise_map]
    exact List.pairwise_lt_range.imp fun less => rowKey_lt key less

theorem veiled_entries (key : Text) (shared hidden : ℕ) :
    (veiled key shared hidden).entries =
      (List.range shared).map (fun i => (rowKey key i, sharedItem)) ++
        (List.range hidden).map (fun i => (rowKey key (shared + i), privateItem)) := by
  unfold veiled
  dsimp only
  rw [List.range_add, List.map_append, List.map_map]
  refine congrArg₂ _ (List.map_congr_left fun i member => ?_) (List.map_congr_left fun i _ => ?_)
  · rw [if_pos (List.mem_range.mp member)]
  · simp

theorem isPrivate_privateItem : isPrivate privateItem = true := by decide +kernel

theorem isPrivate_sharedItem : isPrivate sharedItem = false := by decide +kernel

theorem veiled_sameShared (key : Text) (shared hidden : ℕ) :
    SameShared (veiled key shared 0) (veiled key shared hidden) := by
  have sharedRows : ∀ n, (sharedPart (veiled key shared n)).entries =
      (List.range shared).map fun i => (rowKey key i, sharedItem) := by
    intro n
    change (veiled key shared n).entries.filter (fun entry => !isPrivate entry.2) = _
    rw [veiled_entries, List.filter_append, List.filter_eq_self.mpr, List.filter_eq_nil_iff.mpr,
      List.append_nil]
    · intro entry member
      obtain ⟨i, -, rfl⟩ := List.mem_map.mp member
      simp [isPrivate_privateItem]
    · intro entry member
      obtain ⟨i, -, rfl⟩ := List.mem_map.mp member
      simp [isPrivate_sharedItem]
  refine SortedTable.ext_get fun name => ?_
  change SortedTable.find name (sharedPart (veiled key shared 0)).entries =
    SortedTable.find name (sharedPart (veiled key shared hidden)).entries
  rw [sharedRows, sharedRows]

theorem candidates_veiled {opts : ListOpts} {key : Text} (ahead : Ahead opts key) (shared hidden : ℕ) :
    candidates (veiled key shared hidden) (normalizePattern opts.pattern) opts.cursor =
      (veiled key shared hidden).entries := by
  refine List.filter_eq_self.mpr fun entry member => ?_
  obtain ⟨i, -, rfl⟩ := List.mem_map.mp member
  obtain ⟨afterCursor, begins⟩ := ahead
  rw [Bool.and_eq_true]
  constructor
  · cases cursor : opts.cursor with
    | none => rfl
    | some start =>
        have before : start < rowKey key 0 := by
          simpa [rowKey] using afterCursor start cursor
        refine decide_eq_true ?_
        rcases Nat.eq_zero_or_pos i with rfl | later
        · exact before
        · exact before.trans (rowKey_lt key later)
  · cases pattern : normalizePattern opts.pattern with
    | none => rfl
    | some start =>
        exact List.isPrefixOf_iff_prefix.mpr ((begins start pattern).trans (List.prefix_append _ _))

end Tables

section Noninterference

variable {env : KvEnv} {opts : ListOpts} {key : Text}

def cursorOf : Except KvError KvResponse → Option Text
  | .ok (.listing (.page _ cursor _)) => cursor
  | _ => none

theorem cursorOf_limited {limit : ℚ} (limited : opts.limit = some limit) (passes : passesChecks opts)
    (table : KvTable) : cursorOf ((CrossAppRead.list opts).answer env table) =
      (listPage env table true opts (askedLimit opts) (askedOffset opts)).2 := by
  have pages : paginated opts = true := by
    simp [paginated, limited]
  rw [runs_of_passesChecks passes, listResult, if_pos pages]
  rfl

theorem passes_sharedItem (now : ℚ) : passesFilter now true sharedItem = true := rfl

theorem passes_privateItem (now : ℚ) : passesFilter now true privateItem = false := rfl

theorem skipOffset_veiled (env : KvEnv) (ahead : Ahead opts key) (shared hidden : ℕ) :
    ∃ start, skipOffset env (veiled key shared hidden) true (normalizePattern opts.pattern)
        ((veiled key shared hidden).entries.length + 1) shared opts.cursor = (start, false) ∧
      candidates (veiled key shared hidden) (normalizePattern opts.pattern) start =
        (List.range hidden).map fun i => (rowKey key (shared + i), privateItem) := by
  have found := candidates_veiled ahead shared hidden
  have length : (veiled key shared hidden).entries.length = shared + hidden := by
    simp [veiled_entries]
  have front : (veiled key shared hidden).entries.take shared =
      (List.range shared).map fun i => (rowKey key i, sharedItem) := by
    rw [veiled_entries, List.take_left' (by simp)]
  have behind : (veiled key shared hidden).entries.drop shared =
      (List.range hidden).map fun i => (rowKey key (shared + i), privateItem) := by
    rw [veiled_entries, List.drop_left' (by simp)]
  obtain ⟨start, skips, rest⟩ := @skipOffset_behind env (veiled key shared hidden)
    (normalizePattern opts.pattern) true ((veiled key shared hidden).entries.length + 1) shared opts.cursor
    (by omega) (by rw [found]; omega) (by
      rw [found, front]
      intro entry member
      obtain ⟨i, -, rfl⟩ := List.mem_map.mp member
      exact passes_sharedItem env.now)
  exact ⟨start, skips, by rw [rest, found, behind]⟩

theorem limited_reveals {most : ℕ} (bounded : ∀ found, env.pageCapacity found ≤ most) {limit : ℚ}
    (limited : opts.limit = some limit) (passes : passesChecks opts) (ahead : Ahead opts key) :
    ∃ one other, SameShared one other ∧
      (CrossAppRead.list opts).answer env one ≠ (CrossAppRead.list opts).answer env other := by
  have asked : askedLimit opts = some ⌊limit⌋.toNat := by
    unfold askedLimit
    rw [limited, Option.map_some]
  set reach := max ⌊limit⌋.toNat (max 1 most) with isReach
  set shared := (askedOffset opts).getD 0 with isShared
  have pages : ∀ hidden, cursorOf ((CrossAppRead.list opts).answer env (veiled key shared hidden)) =
      (listPage env (veiled key shared hidden) true opts (some ⌊limit⌋.toNat) (askedOffset opts)).2 :=
    fun hidden => asked ▸ cursorOf_limited limited passes _
  refine ⟨veiled key shared 0, veiled key shared (maxFillPages * reach + 1),
    veiled_sameShared key shared _, fun same => ?_⟩
  have cursors := congrArg cursorOf same
  rw [pages, pages] at cursors
  have unnamed : (listPage env (veiled key shared 0) true opts (some ⌊limit⌋.toNat)
      (askedOffset opts)).2 = none := by
    obtain ⟨start, skips, rest⟩ := skipOffset_veiled env ahead shared 0
    simp only [listPage, ← isShared, skips, Bool.false_eq_true, if_false]
    rw [collectPage_nothing opts.fetchUntilFull (by simpa using rest)]
  have named : ∃ name, (listPage env (veiled key shared (maxFillPages * reach + 1)) true opts
      (some ⌊limit⌋.toNat) (askedOffset opts)).2 = some name := by
    obtain ⟨start, skips, rest⟩ := skipOffset_veiled env ahead shared (maxFillPages * reach + 1)
    have enough : maxFillPages ≤ (veiled key shared (maxFillPages * reach + 1)).entries.length + 1 := by
      have some : 1 ≤ reach := (le_max_left 1 most).trans (le_max_right _ _)
      have long := Nat.le_mul_of_pos_right maxFillPages some
      simp only [veiled, List.length_map, List.length_range]
      omega
    obtain ⟨name, collects⟩ := @collectPage_names env (veiled key shared (maxFillPages * reach + 1))
      (normalizePattern opts.pattern) reach ⌊limit⌋.toNat opts.fetchUntilFull
      (fun found => evaluatedCount_le bounded _ found)
      ((veiled key shared (maxFillPages * reach + 1)).entries.length + 1) maxFillPages 0 start
      (Nat.zero_add _) (by decide) enough (by rw [rest]; simp) (by
        rw [rest]
        intro entry member
        obtain ⟨i, -, rfl⟩ := List.mem_map.mp member
        exact passes_privateItem env.now)
    refine ⟨name, ?_⟩
    simp only [listPage, ← isShared, skips, Bool.false_eq_true, if_false, collects]
  obtain ⟨name, isName⟩ := named
  rw [unnamed, isName] at cursors
  cases cursors

theorem listPage_nothing (nothing : ∀ key, ¬ Ahead opts key) (table : KvTable) (limit : ℕ)
    (offset : Option ℕ) : listPage env table true opts (some limit) offset = ([], none) := by
  have none : candidates table (normalizePattern opts.pattern) opts.cursor = [] := by
    refine List.filter_eq_nil_iff.mpr fun entry _ isAhead => nothing entry.1 ?_
    rw [Bool.and_eq_true] at isAhead
    refine ⟨fun start isStart => ?_, fun start isStart => ?_⟩
    · simpa [Option.mem_def.mp isStart] using isAhead.1
    · simpa [Option.mem_def.mp isStart] using isAhead.2
  cases skips : offset.getD 0 with
  | zero =>
      have here : skipOffset env table true (normalizePattern opts.pattern) (table.entries.length + 1) 0
          opts.cursor = (opts.cursor, false) := rfl
      simp only [listPage, skips, here, Bool.false_eq_true, if_false, collectPage_nothing _ none,
        List.filter_nil]
  | succ n =>
      have answered : query env table true (normalizePattern opts.pattern) (n + 1) opts.cursor =
          ⟨[], Option.none⟩ := by
        simp [query, none]
      have ended : skipOffset env table true (normalizePattern opts.pattern) (table.entries.length + 1)
          (n + 1) opts.cursor = (Option.none, true) := by
        simp [skipOffset, answered]
      simp only [listPage, skips, ended, if_true, List.filter_nil]

/-- Another app's read tells nothing of the private entries exactly when it is a get, or a listing that has
    no limit, that is refused, or that has no key ahead. -/
theorem crossAppRead_blind_iff (env : KvEnv) (bounded : ∃ most, ∀ found, env.pageCapacity found ≤ most)
    (read : CrossAppRead) :
    (∀ one other, SameShared one other → read.answer env one = read.answer env other) ↔ read.Blind := by
  obtain ⟨most, bounded⟩ := bounded
  cases read with
  | get keys => exact ⟨fun _ => trivial, fun _ one other same => get_shared same keys⟩
  | list opts =>
      constructor
      · intro alike
        by_contra sees
        unfold CrossAppRead.Blind at sees
        push Not at sees
        obtain ⟨limited, passes, key, ahead⟩ := sees
        obtain ⟨limit, isLimit⟩ := Option.ne_none_iff_exists'.mp limited
        obtain ⟨one, other, same, differ⟩ := limited_reveals bounded isLimit passes ahead
        exact differ (alike one other same)
      · rintro (unlimited | fails | nothing) one other same
        · exact unlimited_shared unlimited same
        · obtain ⟨refusal, refuses⟩ := @refused_of_not_passesChecks env opts fails
          rw [refuses, refuses]
        · cases limited : opts.limit with
          | none => exact unlimited_shared limited same
          | some limit =>
              have asked : askedLimit opts = some ⌊limit⌋.toNat := by
                unfold askedLimit
                rw [limited, Option.map_some]
              refine answer_of_listPage same ?_
              rw [asked, listPage_nothing nothing, listPage_nothing nothing]

def hundredRows : KvEnv := ⟨0, fun _ => false, fun _ => 0, fun _ => 100⟩

def oneSecret : KvTable := SortedTable.empty.put ['a'] privateItem

theorem oneSecret_sameShared : SameShared .empty oneSecret := by
  refine SortedTable.ext_get fun key => ?_
  rw [sharedPart, sharedPart, SortedTable.get_restrict, SortedTable.get_restrict, oneSecret,
    SortedTable.get_put]
  split
  · simp [SortedTable.get, SortedTable.empty, SortedTable.find, Option.filter, isPrivate_privateItem]
  · rfl

def everything : CrossAppRead := .list ⟨none, none, none, none, none, true, false⟩

/-- It does not show a private entry. -/
theorem listing_hides_secret :
    everything.answer hundredRows .empty = everything.answer hundredRows oneSecret :=
  (crossAppRead_blind_iff hundredRows ⟨100, fun _ => le_refl 100⟩ everything).mpr (Or.inl rfl) _ _
    oneSecret_sameShared

/-- The cursor of a first page of one entry names a private entry. -/
theorem cursor_names_secret : SameShared .empty oneSecret ∧
    (CrossAppRead.list firstKey).answer hundredRows .empty ≠
        (CrossAppRead.list firstKey).answer hundredRows oneSecret ∧
      cursorOf ((CrossAppRead.list firstKey).answer hundredRows oneSecret) = some ['a'] := by
  have unnamed : cursorOf ((CrossAppRead.list firstKey).answer hundredRows .empty) = none := by
    decide +kernel
  have named : cursorOf ((CrossAppRead.list firstKey).answer hundredRows oneSecret) = some ['a'] := by
    decide +kernel
  refine ⟨oneSecret_sameShared, fun same => ?_, named⟩
  rw [same, named] at unnamed
  cases unnamed

end Noninterference

end Puter

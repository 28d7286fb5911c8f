/-
Module: Puter.Kv.KvListing
Purpose: The paged listing of a namespace (SystemKVStore.list): queries that filter what they have
  evaluated, the offset that is emulated by counting, and pages that may be filled up over several
  queries. Every page is the part of the whole live listing that it covers, up to its cursor.
Trusted boundary: none
Main exports: QueryPage, listPage_unlimited, list_runs
-/
import Puter.Fs.PosixPath
import Puter.Kv.SystemKVStore

namespace Puter

open Document StateRun

/-- An answer of the database to a query: the items that passed the filter, and where to go on. -/
structure QueryPage where
  items : List (Text × Attributes)
  lastEvaluatedKey : Option Text

/-- `listFilter`: no expiry, or one that is still to come; and for a cross-app caller not private. -/
def passesFilter (now : ℚ) (crossApp : Bool) (item : Attributes) : Bool :=
  (match field ttlName item with
    | none => true
    | some (.number ttl) => now < ttl
    | some _ => false) && !(crossApp && (field noShareName item).isSome)

def candidates (table : KvTable) (pattern startKey : Option Text) : List (Text × Attributes) :=
  table.entries.filter fun entry =>
    (match startKey with
      | none => true
      | some start => decide (start < entry.1)) &&
    (match pattern with
      | none => true
      | some start => start.isPrefixOf entry.1)

def evaluatedCount (env : KvEnv) (limit : ℕ) (found : List (Text × Attributes)) : ℕ :=
  let fits := max 1 (env.pageCapacity found)
  if limit = 0 then fits else min limit fits

/-- One query. The limit counts what is evaluated, before the filter. An answer names the key it stopped
    at when it has not evaluated everything or has reached the limit. -/
def query (env : KvEnv) (table : KvTable) (crossApp : Bool) (pattern : Option Text) (limit : ℕ)
    (startKey : Option Text) : QueryPage :=
  let found := candidates table pattern startKey
  let evaluated := found.take (evaluatedCount env limit found)
  { items := evaluated.filter fun entry => passesFilter env.now crossApp entry.2
    lastEvaluatedKey :=
      if evaluated.length < found.length ∨ limit ≠ 0 ∧ evaluated.length = limit then
        evaluated.getLast?.map Prod.fst
      else none }

inductive ListKind where
  | keys
  | values
  | entries
deriving DecidableEq, Repr

structure ListOpts where
  as : Option ListKind
  limit : Option ℚ
  cursor : Option Text
  pattern : Option Text
  offset : Option ℚ
  includeTotal : Bool
  fetchUntilFull : Bool

inductive ListItems where
  | keys (keys : List Text)
  | values (values : List (Option Json))
  | entries (entries : List (Text × Option Json))

/-- A listing: the bare items, or a page of them with its cursor and the total that was asked for. -/
inductive ListResult where
  | items (items : ListItems)
  | page (items : ListItems) (cursor : Option Text) (total : Option ℕ)

/-- `normalizePattern`: trimmed, without the `*` it may end in. -/
def normalizePattern (pattern : Option Text) : Option Text :=
  match pattern with
  | none => none
  | some pattern =>
      let trimmed := PosixPath.trim pattern
      if trimmed = [] then none
      else if trimmed.getLast? = some '*' then
        if trimmed.dropLast = [] then none else some trimmed.dropLast
      else some trimmed

namespace SystemKVStore

def normalizeLimit (limit : Option ℚ) : KvRun (Option ℕ) :=
  match limit with
  | none => pure none
  | some parsed => do
      refuseIf (parsed ≤ 0) (badRequest "kv: limit must be a positive number".toList)
      pure (some ⌊parsed⌋.toNat)

def maxListOffset : ℕ := 5000

def normalizeOffset (offset : Option ℚ) : KvRun (Option ℕ) :=
  match offset with
  | none => pure none
  | some parsed => do
      refuseIf (parsed < 0) (badRequest "kv: offset must be a non-negative number".toList)
      refuseIf (maxListOffset < ⌊parsed⌋.toNat) (badRequest "kv: offset may not exceed 5000".toList)
      pure (some ⌊parsed⌋.toNat)

def maxFillPages : ℕ := 10

/-- Advance the page key past the skipped entries by counting queries. The second answer says that the
    entries ended before the offset. The fuel bounds the number of queries; each one evaluates at least
    one entry. -/
def skipOffset (env : KvEnv) (table : KvTable) (crossApp : Bool) (pattern : Option Text) :
    ℕ → ℕ → Option Text → Option Text × Bool
  | 0, _, startKey => (startKey, false)
  | fuel + 1, remaining, startKey =>
      if remaining = 0 then (startKey, false)
      else
        let skip := query env table crossApp pattern remaining startKey
        let remaining' := remaining - skip.items.length
        match skip.lastEvaluatedKey with
        | none => (none, decide (0 < remaining'))
        | some key => skipOffset env table crossApp pattern fuel remaining' (some key)

def wanted (limit : Option ℕ) (collected : List (Text × Attributes)) : ℕ :=
  match limit with
  | some limit => limit - collected.length
  | none => 0

def pageDone (limit : Option ℕ) (fetchUntilFull : Bool) (pages : ℕ)
    (collected : List (Text × Attributes)) : Bool :=
  match limit with
  | some limit => !fetchUntilFull || decide (limit ≤ collected.length) || decide (maxFillPages ≤ pages)
  | none => false

/-- Collect a page: everything where there is no limit, and one query's answer, or several to fill the
    page, where there is one. -/
def collectPage (env : KvEnv) (table : KvTable) (crossApp : Bool) (pattern : Option Text)
    (limit : Option ℕ) (fetchUntilFull : Bool) :
    ℕ → ℕ → List (Text × Attributes) → Option Text → List (Text × Attributes) × Option Text
  | 0, _, collected, nextKey => (collected, nextKey)
  | fuel + 1, pages, collected, nextKey =>
      let response := query env table crossApp pattern (wanted limit collected) nextKey
      let collected' := collected ++ response.items
      if pageDone limit fetchUntilFull (pages + 1) collected' then (collected', response.lastEvaluatedKey)
      else
        match response.lastEvaluatedKey with
        | none => (collected', none)
        | some key =>
            collectPage env table crossApp pattern limit fetchUntilFull fuel (pages + 1) collected'
              (some key)

def countAll (env : KvEnv) (table : KvTable) (crossApp : Bool) (pattern : Option Text) :
    ℕ → Option Text → ℕ
  | 0, _ => 0
  | fuel + 1, countKey =>
      let counted := query env table crossApp pattern 0 countKey
      counted.items.length +
        match counted.lastEvaluatedKey with
        | none => 0
        | some key => countAll env table crossApp pattern fuel (some key)

def listItems (kind : ListKind) (entries : List (Text × Attributes)) : ListItems :=
  match kind with
  | .keys => .keys (entries.map Prod.fst)
  | .values => .values (entries.map fun entry => field valueName entry.2)
  | .entries => .entries (entries.map fun entry => (entry.1, field valueName entry.2))

def paginated (opts : ListOpts) : Bool :=
  opts.limit.isSome || opts.cursor.isSome || opts.offset.isSome || opts.includeTotal ||
    opts.fetchUntilFull

def listPage (env : KvEnv) (table : KvTable) (crossApp : Bool) (opts : ListOpts)
    (limit offset : Option ℕ) : List (Text × Attributes) × Option Text :=
  let pattern := normalizePattern opts.pattern
  let fuel := table.entries.length + 1
  let skipped := skipOffset env table crossApp pattern fuel (offset.getD 0) opts.cursor
  let collected := if skipped.2 then ([], skipped.1)
    else collectPage env table crossApp pattern limit opts.fetchUntilFull fuel 0 [] skipped.1
  (collected.1.filter fun entry => (itemTtl entry.2).all fun ttl => ttl = 0 ∨ env.now < ttl,
    collected.2)

def listResult (env : KvEnv) (table : KvTable) (crossApp : Bool) (opts : ListOpts)
    (limit offset : Option ℕ) : ListResult :=
  let page := listPage env table crossApp opts limit offset
  let items := listItems (opts.as.getD .entries) page.1
  if paginated opts then
    let total := if opts.includeTotal then
        some (countAll env table crossApp (normalizePattern opts.pattern) (table.entries.length + 1) none)
      else none
    .page items page.2 total
  else .items items

def list (env : KvEnv) (crossApp : Bool) (opts : ListOpts) : KvRun ListResult := do
  let limit ← normalizeLimit opts.limit
  let offset ← normalizeOffset opts.offset
  refuseIf (opts.cursor.isSome && offset.isSome)
    (badRequest "kv: cursor and offset cannot be combined".toList)
  refuseIf (opts.fetchUntilFull && limit.isNone)
    (badRequest "kv: fetchUntilFull requires limit".toList)
  let table ← getThe KvTable
  pure (listResult env table crossApp opts limit offset)

end SystemKVStore

section Pages

variable {env : KvEnv} {table : KvTable} {crossApp : Bool} {pattern : Option Text}

def liveListing (env : KvEnv) (table : KvTable) (crossApp : Bool) (pattern startKey : Option Text) :
    List (Text × Attributes) :=
  (candidates table pattern startKey).filter fun entry => passesFilter env.now crossApp entry.2

def remainder (env : KvEnv) (table : KvTable) (crossApp : Bool) (pattern : Option Text) :
    Option Text → List (Text × Attributes)
  | none => []
  | some key => liveListing env table crossApp pattern (some key)

theorem candidates_sorted (table : KvTable) (pattern startKey : Option Text) :
    (candidates table pattern startKey).Pairwise fun one other => one.1 < other.1 :=
  table.sorted.filter _

theorem filter_after_last {found : List (Text × Attributes)} {n : ℕ} {last : Text × Attributes}
    (sorted : found.Pairwise fun one other => one.1 < other.1)
    (isLast : (found.take n).getLast? = some last) :
    found.filter (fun entry => decide (last.1 < entry.1)) = found.drop n := by
  obtain ⟨front, split⟩ := List.getLast?_eq_some_iff.mp isLast
  have whole : (front ++ [last]) ++ found.drop n = found := by
    rw [← split, List.take_append_drop]
  rw [← whole] at sorted
  obtain ⟨inFront, -, across⟩ := List.pairwise_append.mp sorted
  have before : (front ++ [last]).filter (fun entry => decide (last.1 < entry.1)) = [] := by
    rw [List.filter_eq_nil_iff]
    intro entry member
    rcases List.mem_append.mp member with earlier | same
    · have less := (List.pairwise_append.mp inFront).2.2 entry earlier last (by simp)
      simpa using less.le
    · simp [List.mem_singleton.mp same]
  have after : (found.drop n).filter (fun entry => decide (last.1 < entry.1)) = found.drop n := by
    rw [List.filter_eq_self]
    intro entry later
    simpa using across last (by simp) entry later
  calc found.filter (fun entry => decide (last.1 < entry.1))
      = ((front ++ [last]) ++ found.drop n).filter (fun entry => decide (last.1 < entry.1)) := by
        rw [whole]
    _ = found.drop n := by rw [List.filter_append, before, after, List.nil_append]

theorem candidates_drop {startKey : Option Text} {n : ℕ} {last : Text × Attributes}
    (isLast : ((candidates table pattern startKey).take n).getLast? = some last) :
    candidates table pattern (some last.1) = (candidates table pattern startKey).drop n := by
  have member : last ∈ candidates table pattern startKey :=
    List.mem_of_mem_take (List.mem_of_getLast? isLast)
  rw [← filter_after_last (candidates_sorted table pattern startKey) isLast]
  simp only [candidates, List.filter_filter]
  refine List.filter_congr fun entry _ => ?_
  cases startKey with
  | none => simp
  | some start =>
      have starts : start < last.1 := by
        simp only [candidates, List.mem_filter, Bool.and_eq_true, decide_eq_true_eq] at member
        exact member.2.1
      by_cases after : last.1 < entry.1
      · simp [after, starts.trans after]
      · simp [after]

theorem evaluatedCount_pos (env : KvEnv) (limit : ℕ) (found : List (Text × Attributes)) :
    0 < evaluatedCount env limit found := by
  have fits : 0 < max 1 (env.pageCapacity found) := lt_max_of_lt_left Nat.one_pos
  unfold evaluatedCount
  split
  · exact fits
  · next limited => exact lt_min (Nat.pos_of_ne_zero limited) fits

theorem query_stops (env : KvEnv) (table : KvTable) (crossApp : Bool) (pattern : Option Text) (limit : ℕ)
    (startKey : Option Text) :
    (query env table crossApp pattern limit startKey).lastEvaluatedKey = none ∧
        (query env table crossApp pattern limit startKey).items =
          liveListing env table crossApp pattern startKey ∧
        (limit ≠ 0 → (candidates table pattern startKey).length < limit) ∨
      ∃ key n, (query env table crossApp pattern limit startKey).lastEvaluatedKey = some key ∧ 0 < n ∧
        (limit ≠ 0 → n ≤ limit) ∧ candidates table pattern startKey ≠ [] ∧
        candidates table pattern (some key) = (candidates table pattern startKey).drop n ∧
        (query env table crossApp pattern limit startKey).items =
          ((candidates table pattern startKey).take n).filter fun entry =>
            passesFilter env.now crossApp entry.2 := by
  have positive := evaluatedCount_pos env limit (candidates table pattern startKey)
  have within : limit ≠ 0 → evaluatedCount env limit (candidates table pattern startKey) ≤ limit := by
    intro limited
    simp [evaluatedCount, limited]
  have drops : ∀ last : Text × Attributes, ((candidates table pattern startKey).take
      (evaluatedCount env limit (candidates table pattern startKey))).getLast? = some last →
      candidates table pattern (some last.1) = (candidates table pattern startKey).drop
        (evaluatedCount env limit (candidates table pattern startKey)) := fun last => candidates_drop
  simp only [query, liveListing]
  generalize evaluatedCount env limit (candidates table pattern startKey) = count at *
  generalize candidates table pattern startKey = found at *
  by_cases stops : (found.take count).length < found.length ∨
      limit ≠ 0 ∧ (found.take count).length = limit
  · right
    have nonempty : found.take count ≠ [] := by
      intro empty
      rw [empty] at stops
      rcases stops with short | ⟨limited, same⟩
      · rw [List.take_eq_nil_iff] at empty
        rcases empty with zero | none
        · omega
        · simp [none] at short
      · exact limited same.symm
    have isLast := List.getLast?_eq_some_getLast nonempty
    refine ⟨_, count, ?_, positive, within, ?_, drops _ isLast, rfl⟩
    · rw [if_pos stops, isLast]
      rfl
    · rintro rfl
      simp at nonempty
  · left
    rw [not_or, not_and, not_lt] at stops
    have whole : found.take count = found := by
      rw [List.take_eq_self_iff]
      simpa using stops.1
    refine ⟨if_neg (by rw [not_or, not_and, not_lt]; exact stops), by rw [whole], fun limited => ?_⟩
    have bound : (found.take count).length ≤ limit := by
      rw [List.length_take]
      exact (min_le_left _ _).trans (within limited)
    rw [whole] at bound stops
    exact lt_of_le_of_ne bound (stops.2 limited)

theorem query_split (limit : ℕ) (startKey : Option Text) :
    liveListing env table crossApp pattern startKey =
      (query env table crossApp pattern limit startKey).items ++
        remainder env table crossApp pattern
          (query env table crossApp pattern limit startKey).lastEvaluatedKey := by
  rcases query_stops env table crossApp pattern limit startKey with ⟨ends, all, -⟩ | ⟨key, n, goesOn, -, -, -, left, items⟩
  · rw [ends, all, remainder, List.append_nil]
  · rw [goesOn, items, remainder, liveListing, liveListing, left, ← List.filter_append,
      List.take_append_drop]

theorem query_progress {limit : ℕ} {startKey : Option Text} {key : Text}
    (goesOn : (query env table crossApp pattern limit startKey).lastEvaluatedKey = some key) :
    (candidates table pattern (some key)).length < (candidates table pattern startKey).length := by
  rcases query_stops env table crossApp pattern limit startKey with ⟨ends, -⟩ | ⟨key', n, goesOn', positive, -, nonempty, left, -⟩
  · rw [ends] at goesOn
    cases goesOn
  · obtain rfl := Option.some.inj (goesOn.symm.trans goesOn')
    have some := List.length_pos_of_ne_nil nonempty
    rw [left, List.length_drop]
    omega

open SystemKVStore

theorem collectPage_split (limit : Option ℕ) (fetchUntilFull : Bool) (fuel pages : ℕ)
    (collected : List (Text × Attributes)) (startKey : Option Text) :
    (collectPage env table crossApp pattern limit fetchUntilFull (fuel + 1) pages collected
        startKey).1 ++
      remainder env table crossApp pattern (collectPage env table crossApp pattern limit fetchUntilFull
        (fuel + 1) pages collected startKey).2 =
      collected ++ liveListing env table crossApp pattern startKey := by
  induction fuel generalizing pages collected startKey with
  | zero =>
      rw [query_split (wanted limit collected) startKey, collectPage]
      split
      · rw [List.append_assoc]
      · split
        · next ends => rw [ends, List.append_assoc]
        · next key goesOn => rw [goesOn, collectPage, List.append_assoc]
  | succ fuel ih =>
      rw [query_split (wanted limit collected) startKey, collectPage]
      split
      · rw [List.append_assoc]
      · split
        · next ends => rw [ends, List.append_assoc]
        · next key goesOn =>
            rw [ih, goesOn, List.append_assoc]
            rfl

theorem collectPage_complete {fuel : ℕ} {startKey : Option Text} (fetchUntilFull : Bool) (pages : ℕ)
    (collected : List (Text × Attributes))
    (enough : (candidates table pattern startKey).length < fuel) :
    (collectPage env table crossApp pattern none fetchUntilFull fuel pages collected startKey).2 =
      none := by
  induction fuel generalizing pages collected startKey with
  | zero => omega
  | succ fuel ih =>
      simp only [collectPage, pageDone, Bool.false_eq_true, if_false]
      split
      · rfl
      · next key goesOn =>
          have progress := query_progress goesOn
          exact ih _ _ (by omega)

theorem skipOffset_drop {fuel remaining : ℕ} {startKey : Option Text}
    (enough : (candidates table pattern startKey).length < fuel) :
    (if (skipOffset env table crossApp pattern fuel remaining startKey).2 then []
      else liveListing env table crossApp pattern
        (skipOffset env table crossApp pattern fuel remaining startKey).1) =
      (liveListing env table crossApp pattern startKey).drop remaining := by
  induction fuel generalizing remaining startKey with
  | zero => omega
  | succ fuel ih =>
      simp only [skipOffset]
      by_cases done : remaining = 0
      · subst done
        simp
      · rw [if_neg done]
        rcases query_stops env table crossApp pattern remaining startKey with
          ⟨ends, all, short⟩ | ⟨key, n, goesOn, -, limited, -, -, items⟩
        · -- The candidates end before the limit, so before the offset.
          have fewer : (liveListing env table crossApp pattern startKey).length < remaining :=
            (List.length_filter_le _ _).trans_lt (short done)
          rw [ends, all]
          simp only [decide_eq_true_eq]
          rw [if_pos (by omega), List.drop_eq_nil_of_le fewer.le]
        · have progress := query_progress goesOn
          have counted : (query env table crossApp pattern remaining startKey).items.length ≤ remaining := by
            rw [items]
            refine (List.length_filter_le _ _).trans ?_
            rw [List.length_take]
            exact (min_le_left _ _).trans (limited done)
          rw [query_split remaining startKey, goesOn]
          simp only [remainder]
          rw [ih (by omega), List.drop_append, List.drop_eq_nil_of_le counted]
          rfl

theorem countAll_eq {fuel : ℕ} {startKey : Option Text}
    (enough : (candidates table pattern startKey).length < fuel) :
    countAll env table crossApp pattern fuel startKey =
      (liveListing env table crossApp pattern startKey).length := by
  induction fuel generalizing startKey with
  | zero => omega
  | succ fuel ih =>
      rw [countAll, query_split 0 startKey, List.length_append]
      congr 1
      split
      · next ends => rw [ends]; rfl
      · next key goesOn =>
          rw [goesOn]
          exact ih (by have := query_progress goesOn; omega)

theorem candidates_length_lt (table : KvTable) (pattern startKey : Option Text) :
    (candidates table pattern startKey).length < table.entries.length + 1 :=
  Nat.lt_succ_of_le (List.length_filter_le _ _)

theorem skipOffset_ended {fuel remaining : ℕ} {startKey : Option Text}
    (ended : (skipOffset env table crossApp pattern fuel remaining startKey).2 = true) :
    (skipOffset env table crossApp pattern fuel remaining startKey).1 = none := by
  induction fuel generalizing remaining startKey with
  | zero => cases ended
  | succ fuel ih =>
      simp only [skipOffset] at ended ⊢
      split at ended
      · cases ended
      · next notDone =>
          rw [if_neg notDone]
          split at ended
          · rfl
          · exact ih ended

theorem passesFilter_ttl {now : ℚ} {item : Attributes} (passes : passesFilter now crossApp item = true) :
    ((itemTtl item).all fun ttl => decide (ttl = 0 ∨ now < ttl)) = true := by
  unfold passesFilter at passes
  unfold itemTtl
  rw [Bool.and_eq_true] at passes
  cases stored : field ttlName item with
  | none => rfl
  | some value =>
      rw [stored] at passes
      cases value with
      | number ttl => simpa using Or.inr (of_decide_eq_true passes.1)
      | null | bool _ | text _ | list _ | map _ => rfl

/-- A page of the live listing: with what is left after its cursor it makes up the entries that were
    asked for, from a cursor or an offset on. -/
def Covers (env : KvEnv) (table : KvTable) (crossApp : Bool) (opts : ListOpts) (offset : ℕ)
    (page : List (Text × Attributes) × Option Text) : Prop :=
  page.1 ++ remainder env table crossApp (normalizePattern opts.pattern) page.2 =
    (liveListing env table crossApp (normalizePattern opts.pattern) opts.cursor).drop offset

theorem collected_split (limit : Option ℕ) (fetchUntilFull : Bool) (offset : ℕ) (cursor : Option Text)
    {skipped : Option Text × Bool} {collected : List (Text × Attributes) × Option Text}
    (skips : skipped =
      skipOffset env table crossApp pattern (table.entries.length + 1) offset cursor)
    (collects : collected = if skipped.2 then ([], skipped.1)
      else collectPage env table crossApp pattern limit fetchUntilFull (table.entries.length + 1) 0 []
        skipped.1) :
    collected.1 ++ remainder env table crossApp pattern collected.2 =
      (liveListing env table crossApp pattern cursor).drop offset := by
  have dropped : (if skipped.2 then [] else liveListing env table crossApp pattern skipped.1) =
      (liveListing env table crossApp pattern cursor).drop offset := by
    rw [skips]
    exact skipOffset_drop (candidates_length_lt table pattern cursor)
  rw [← dropped, collects]
  by_cases ended : skipped.2 = true
  · have noKey : skipped.1 = none := by
      rw [skips] at ended ⊢
      exact skipOffset_ended ended
    rw [if_pos ended, if_pos ended, noKey]
    rfl
  · rw [if_neg ended, if_neg ended]
    exact collectPage_split limit fetchUntilFull _ 0 [] skipped.1

theorem passes_of_liveListing {startKey : Option Text} {entry : Text × Attributes}
    (member : entry ∈ liveListing env table crossApp pattern startKey) :
    passesFilter env.now crossApp entry.2 = true :=
  (List.mem_filter.mp member).2

theorem listPage_covers (env : KvEnv) (table : KvTable) (crossApp : Bool) (opts : ListOpts)
    (limit offset : Option ℕ) :
    Covers env table crossApp opts (offset.getD 0) (listPage env table crossApp opts limit offset) := by
  unfold Covers listPage
  simp only
  generalize skips : skipOffset env table crossApp (normalizePattern opts.pattern)
    (table.entries.length + 1) (offset.getD 0) opts.cursor = skipped
  generalize collects : (if skipped.2 then ([], skipped.1)
    else collectPage env table crossApp (normalizePattern opts.pattern) limit opts.fetchUntilFull
      (table.entries.length + 1) 0 [] skipped.1) = collected
  have whole := collected_split limit opts.fetchUntilFull (offset.getD 0) opts.cursor skips.symm
    collects.symm
  have allPass : ∀ entry ∈ collected.1,
      ((itemTtl entry.2).all fun ttl => decide (ttl = 0 ∨ env.now < ttl)) = true := by
    intro entry member
    have listed : entry ∈ (liveListing env table crossApp (normalizePattern opts.pattern)
        opts.cursor).drop (offset.getD 0) := by
      rw [← whole]
      exact List.mem_append_left _ member
    exact passesFilter_ttl (passes_of_liveListing (List.mem_of_mem_drop listed))
  rw [List.filter_eq_self.mpr allPass, whole]

theorem listPage_complete (env : KvEnv) (table : KvTable) (crossApp : Bool) (opts : ListOpts)
    (offset : Option ℕ) : (listPage env table crossApp opts none offset).2 = none := by
  unfold listPage
  simp only
  split
  · next ended => exact skipOffset_ended ended
  · exact collectPage_complete opts.fetchUntilFull 0 [] (candidates_length_lt table _ _)

theorem listPage_unlimited (env : KvEnv) (table : KvTable) (crossApp : Bool) (opts : ListOpts)
    (offset : Option ℕ) :
    listPage env table crossApp opts none offset =
      ((liveListing env table crossApp (normalizePattern opts.pattern) opts.cursor).drop
        (offset.getD 0), none) := by
  have covers := listPage_covers env table crossApp opts none offset
  have complete := listPage_complete env table crossApp opts offset
  rw [Covers, complete, remainder, List.append_nil] at covers
  exact Prod.ext covers complete

def askedOffset (opts : ListOpts) : Option ℕ := opts.offset.map fun parsed => ⌊parsed⌋.toNat

def askedLimit (opts : ListOpts) : Option ℕ := opts.limit.map fun parsed => ⌊parsed⌋.toNat

theorem normalizeLimit_runs (opts : ListOpts) :
    (∃ refusal, ∀ table, normalizeLimit opts.limit table = .error refusal table) ∨
      ∀ table, normalizeLimit opts.limit table = .ok (askedLimit opts) table := by
  unfold askedLimit
  cases opts.limit with
  | none => exact .inr fun table => rfl
  | some parsed =>
      by_cases refused : parsed ≤ 0
      · exact .inl ⟨_, fun table => bind_error.mpr (.inl (refuseIf_error.mpr
          ⟨decide_eq_true refused, rfl, rfl⟩))⟩
      · exact .inr fun table => bind_ok.mpr
          ⟨(), table, refuseIf_ok.mpr ⟨decide_eq_false refused, rfl⟩, rfl⟩

theorem normalizeOffset_runs (opts : ListOpts) :
    (∃ refusal, ∀ table, normalizeOffset opts.offset table = .error refusal table) ∨
      ∀ table, normalizeOffset opts.offset table = .ok (askedOffset opts) table := by
  unfold askedOffset
  cases opts.offset with
  | none => exact .inr fun table => rfl
  | some parsed =>
      by_cases negative : parsed < 0
      · exact .inl ⟨_, fun table => bind_error.mpr (.inl (refuseIf_error.mpr
          ⟨decide_eq_true negative, rfl, rfl⟩))⟩
      by_cases large : maxListOffset < ⌊parsed⌋.toNat
      · exact .inl ⟨_, fun table => bind_error.mpr (.inr ⟨(), table,
          refuseIf_ok.mpr ⟨decide_eq_false negative, rfl⟩,
          bind_error.mpr (.inl (refuseIf_error.mpr ⟨decide_eq_true large, rfl, rfl⟩))⟩)⟩
      · exact .inr fun table => bind_ok.mpr ⟨(), table,
          refuseIf_ok.mpr ⟨decide_eq_false negative, rfl⟩,
          bind_ok.mpr ⟨(), table, refuseIf_ok.mpr ⟨decide_eq_false large, rfl⟩, rfl⟩⟩

theorem list_runs (env : KvEnv) (crossApp : Bool) (opts : ListOpts) :
    (∃ refusal, ∀ table, list env crossApp opts table = .error refusal table) ∨
      ∀ table, list env crossApp opts table =
        .ok (listResult env table crossApp opts (askedLimit opts) (askedOffset opts)) table := by
  rcases normalizeLimit_runs opts with ⟨refusal, fails⟩ | limited
  · exact .inl ⟨refusal, fun table => bind_error.mpr (.inl (fails table))⟩
  rcases normalizeOffset_runs opts with ⟨refusal, fails⟩ | offsetBy
  · exact .inl ⟨refusal, fun table => bind_error.mpr (.inr ⟨_, table, limited table,
      bind_error.mpr (.inl (fails table))⟩)⟩
  cases both : opts.cursor.isSome && (askedOffset opts).isSome with
  | true =>
      exact .inl ⟨_, fun table => bind_error.mpr (.inr ⟨_, table, limited table,
        bind_error.mpr (.inr ⟨_, table, offsetBy table,
          bind_error.mpr (.inl (refuseIf_error.mpr ⟨both, rfl, rfl⟩))⟩)⟩)⟩
  | false =>
      cases unbounded : opts.fetchUntilFull && (askedLimit opts).isNone with
      | true =>
          exact .inl ⟨_, fun table => bind_error.mpr (.inr ⟨_, table, limited table,
            bind_error.mpr (.inr ⟨_, table, offsetBy table,
              bind_error.mpr (.inr ⟨(), table, refuseIf_ok.mpr ⟨both, rfl⟩,
                bind_error.mpr (.inl (refuseIf_error.mpr ⟨unbounded, rfl, rfl⟩))⟩)⟩)⟩)⟩
      | false =>
          exact .inr fun table => bind_ok.mpr ⟨_, table, limited table,
            bind_ok.mpr ⟨_, table, offsetBy table,
              bind_ok.mpr ⟨(), table, refuseIf_ok.mpr ⟨both, rfl⟩,
                bind_ok.mpr ⟨(), table, refuseIf_ok.mpr ⟨unbounded, rfl⟩, rfl⟩⟩⟩⟩

end Pages

end Puter

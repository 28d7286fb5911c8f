/-
Module: Puter.Kv.PagedListing
Purpose: Paged listings of a namespace over whatever the database may answer: a query evaluates as many items as its
  limit allows or fewer, and names the key it stopped at when more may follow. Following the cursors gives each live
  entry once, except where skipping an offset ends with the last entry of the namespace: the listing starts again.
Trusted boundary: what a query may answer
Main exports: ListQuery, listing_lossless_iff
-/
import Puter.Core.Pagination
import Puter.Kv.KvListing

namespace Puter

open Document Pagination SystemKVStore

/-- What a listing asks the database for, at its second. -/
structure ListQuery where
  now : ℚ
  crossApp : Bool
  pattern : Option Text
  limit : ℕ
  startKey : Option Text

abbrev QueryAnswers := ℕ → ListQuery → QueryPage

/-- What may be answered: the candidates from the start on that pass the filter, of as many as were evaluated; without
    a key all were, and a key is that of the last one. -/
def AnswersTo (table : KvTable) (asked : ListQuery) (page : QueryPage) : Prop :=
  ∃ n ≤ (candidates table asked.pattern asked.startKey).length, (asked.limit ≠ 0 → n ≤ asked.limit) ∧
    page.items = ((candidates table asked.pattern asked.startKey).take n).filter
      (fun entry => passesFilter asked.now asked.crossApp entry.2) ∧
    match page.lastEvaluatedKey with
    | none => n = (candidates table asked.pattern asked.startKey).length
    | some key => ((candidates table asked.pattern asked.startKey).take n).getLast?.map Prod.fst = some key

structure PagedOpts where
  limit : Option ℚ
  cursor : Option GivenCursor
  pattern : Option Text
  offset : Option ℚ
  fetchUntilFull : Bool

inductive ListFailure where
  | http (error : HttpError)
  | invalidStartKey

def skipBy (answers : QueryAnswers) (now : ℚ) (crossApp : Bool) (pattern : Option Text) :
    ℕ → ℕ → ℕ → Option Text → (Option Text × Bool) × ℕ
  | 0, queries, _, startKey => ((startKey, false), queries)
  | fuel + 1, queries, remaining, startKey =>
      if remaining = 0 then ((startKey, false), queries)
      else
        let skip := answers queries ⟨now, crossApp, pattern, remaining, startKey⟩
        match skip.lastEvaluatedKey with
        | none => ((none, decide (0 < remaining - skip.items.length)), queries + 1)
        | some key => skipBy answers now crossApp pattern fuel (queries + 1) (remaining - skip.items.length) (some key)

def collectBy (answers : QueryAnswers) (now : ℚ) (crossApp : Bool) (pattern : Option Text) (limit : Option ℕ) (fetchUntilFull : Bool) :
    ℕ → ℕ → ℕ → List (Text × Attributes) → Option Text → (List (Text × Attributes) × Option Text) × ℕ
  | 0, queries, _, collected, nextKey => ((collected, nextKey), queries)
  | fuel + 1, queries, pages, collected, nextKey =>
      let response := answers queries ⟨now, crossApp, pattern, wanted limit collected, nextKey⟩
      let collected' := collected ++ response.items
      if pageDone limit fetchUntilFull (pages + 1) collected' then
        ((collected', response.lastEvaluatedKey), queries + 1)
      else
        match response.lastEvaluatedKey with
        | none => ((collected', none), queries + 1)
        | some key => collectBy answers now crossApp pattern limit fetchUntilFull fuel (queries + 1) (pages + 1) collected' (some key)

def namespaceName : Text := "namespace".toList

def keyName : Text := "key".toList

def listCursor (ns : Text) (nextKey : Option Text) : Option Text :=
  encodeCursor (nextKey.map fun key => [(namespaceName, .text ns), (keyName, .text key)])

def startKeyOf : Option JsonText.Value → Except ListFailure (Option Text)
  | none => .ok none
  | some (.map fields) =>
      match (fields.find? (·.1 = keyName)).map Prod.snd with
      | some (.text key) => .ok (some key)
      | _ => .error .invalidStartKey
  | some _ => .error .invalidStartKey

/-- A page as it is handed out, and the number of queries so far. -/
structure ListedPage where
  entries : List (Text × Attributes)
  cursor : Option Text
  queries : ℕ

def orHttp {α : Type} : Except HttpError α → Except ListFailure α
  | .ok a => .ok a
  | .error error => .error (.http error)

def pageBy (answers : QueryAnswers) (fuel : ℕ) (ns : Text) (now : ℚ) (crossApp : Bool) (pattern : Option Text) (fetchUntilFull : Bool) (limit : Option ℕ)
    (offset : ℕ) (startKey : Option Text) (queries : ℕ) : ListedPage :=
  let skipped := skipBy answers now crossApp pattern fuel queries offset startKey
  let collected := if skipped.1.2 then (([], skipped.1.1), skipped.2)
    else collectBy answers now crossApp pattern limit fetchUntilFull fuel skipped.2 0 [] skipped.1.1
  { entries := collected.1.1.filter fun entry => (itemTtl entry.2).all fun ttl => ttl = 0 ∨ now < ttl
    cursor := listCursor ns collected.1.2
    queries := collected.2 }

/-- `list` -/
def listBy (answers : QueryAnswers) (fuel : ℕ) (ns : Text) (crossApp : Bool) (now : ℚ) (opts : PagedOpts) (queries : ℕ) :
    Except ListFailure ListedPage := do
  let limit ← orHttp (normalizeLimit opts.limit none "kv: limit".toList)
  let offset ← orHttp (normalizeOffset opts.offset (some maxListOffset) "kv: offset".toList)
  let pageKey ← orHttp (decodeCursor opts.cursor "kv: cursor".toList)
  if pageKey.isSome && offset.isSome then
    throw (.http ⟨400, "kv: cursor and offset cannot be combined".toList, "bad_request".toList⟩)
  if opts.fetchUntilFull && limit.isNone then
    throw (.http ⟨400, "kv: fetchUntilFull requires limit".toList, "bad_request".toList⟩)
  let startKey ← startKeyOf pageKey
  return pageBy answers fuel ns now crossApp (normalizePattern opts.pattern) opts.fetchUntilFull limit (offset.getD 0) startKey queries

inductive FollowFailure where
  | unfinished
  | failed (failure : ListFailure)

def followCursors (answers : QueryAnswers) (fuel : ℕ) (ns : Text) (crossApp : Bool) (clock : ℕ → ℚ) :
    ℕ → ℕ → ℕ → PagedOpts → Except FollowFailure (List (List (Text × Attributes)))
  | 0, _, _, _ => .error .unfinished
  | calls + 1, call, queries, opts =>
      match listBy answers fuel ns crossApp (clock call) opts queries with
      | .error failure => .error (.failed failure)
      | .ok page =>
          match page.cursor with
          | none => .ok [page.entries]
          | some cursor =>
              (followCursors answers fuel ns crossApp clock calls (call + 1) page.queries
                { opts with cursor := some (.text cursor), offset := none }).map (page.entries :: ·)

def liveEntries (now : ℚ) (table : KvTable) (crossApp : Bool) (pattern startKey : Option Text) :
    List (Text × Attributes) :=
  (candidates table pattern startKey).filter fun entry => passesFilter now crossApp entry.2

def leftAfter (now : ℚ) (table : KvTable) (crossApp : Bool) (pattern : Option Text) :
    Option Text → List (Text × Attributes)
  | none => []
  | some key => liveEntries now table crossApp pattern (some key)

def lastIsLive (now : ℚ) (table : KvTable) (crossApp : Bool) (pattern startKey : Option Text) : Bool :=
  (candidates table pattern startKey).getLast?.any fun entry => passesFilter now crossApp entry.2

section Model

variable {env : KvEnv} {table : KvTable} {crossApp : Bool} {pattern : Option Text}

def fixedAnswers (env : KvEnv) (table : KvTable) : QueryAnswers :=
  fun _ asked => query env table asked.crossApp asked.pattern asked.limit asked.startKey

theorem skipBy_fixed (now : ℚ) (fuel queries remaining : ℕ) (startKey : Option Text) :
    (skipBy (fixedAnswers env table) now crossApp pattern fuel queries remaining startKey).1 =
      skipOffset env table crossApp pattern fuel remaining startKey := by
  induction fuel generalizing queries remaining startKey with
  | zero => rfl
  | succ fuel ih =>
      by_cases done : remaining = 0
      · simp only [skipBy, skipOffset, if_pos done]
      · simp only [skipBy, skipOffset, if_neg done, fixedAnswers]
        cases stops : (query env table crossApp pattern remaining startKey).lastEvaluatedKey with
        | none => rfl
        | some key => exact ih _ _ _

theorem collectBy_fixed (now : ℚ) (limit : Option ℕ) (fetchUntilFull : Bool) (fuel queries pages : ℕ)
    (collected : List (Text × Attributes)) (nextKey : Option Text) :
    (collectBy (fixedAnswers env table) now crossApp pattern limit fetchUntilFull fuel queries pages collected nextKey).1 =
      collectPage env table crossApp pattern limit fetchUntilFull fuel pages collected nextKey := by
  induction fuel generalizing queries pages collected nextKey with
  | zero => rfl
  | succ fuel ih =>
      cases done : pageDone limit fetchUntilFull (pages + 1)
        (collected ++ (query env table crossApp pattern (wanted limit collected) nextKey).items) with
      | true => simp only [collectBy, collectPage, fixedAnswers, done, if_true]
      | false =>
          simp only [collectBy, collectPage, fixedAnswers, done, Bool.false_eq_true, if_false]
          cases stops : (query env table crossApp pattern (wanted limit collected) nextKey).lastEvaluatedKey with
          | none => rfl
          | some key => exact ih _ _ _ _

end Model

section Answers

variable {table : KvTable} {crossApp : Bool} {pattern : Option Text} {asked : ListQuery} {page : QueryPage}

theorem items_of_ends (given : AnswersTo table asked page) (ends : page.lastEvaluatedKey = none) :
    page.items = liveEntries asked.now table asked.crossApp asked.pattern asked.startKey ∧
      (asked.limit ≠ 0 → (candidates table asked.pattern asked.startKey).length ≤ asked.limit) := by
  obtain ⟨n, -, limited, items, stops⟩ := given
  rw [ends] at stops
  subst stops
  rw [List.take_length] at items
  exact ⟨items, limited⟩

theorem items_of_goesOn (given : AnswersTo table asked page) {key : Text}
    (goesOn : page.lastEvaluatedKey = some key) :
    liveEntries asked.now table asked.crossApp asked.pattern asked.startKey =
        page.items ++ liveEntries asked.now table asked.crossApp asked.pattern (some key) ∧
      (candidates table asked.pattern (some key)).length < (candidates table asked.pattern asked.startKey).length := by
  obtain ⟨n, within, -, items, stops⟩ := given
  rw [goesOn] at stops
  obtain ⟨last, isLast, rfl⟩ := Option.map_eq_some_iff.mp stops
  have positive : n ≠ 0 := by
    rintro rfl
    cases isLast
  have nonempty : candidates table asked.pattern asked.startKey ≠ [] := by
    intro empty
    rw [empty, List.take_nil] at isLast
    cases isLast
  have left := candidates_drop isLast
  constructor
  · rw [items, liveEntries, liveEntries, left, ← List.filter_append, List.take_append_drop]
  · have some := List.length_pos_of_ne_nil nonempty
    rw [left, List.length_drop]
    omega

theorem items_length (given : AnswersTo table asked page) (limited : asked.limit ≠ 0) :
    page.items.length ≤ asked.limit := by
  obtain ⟨n, -, within, items, -⟩ := given
  rw [items]
  apply (List.length_filter_le _ _).trans
  rw [List.length_take]
  exact (min_le_left _ _).trans (within limited)

theorem lastIsLive_goesOn (given : AnswersTo table asked page) {key : Text}
    (goesOn : page.lastEvaluatedKey = some key) (more : candidates table asked.pattern (some key) ≠ []) (now : ℚ) :
    lastIsLive now table asked.crossApp asked.pattern (some key) = lastIsLive now table asked.crossApp asked.pattern asked.startKey := by
  obtain ⟨n, -, -, -, stops⟩ := given
  rw [goesOn] at stops
  obtain ⟨last, isLast, rfl⟩ := Option.map_eq_some_iff.mp stops
  rw [candidates_drop isLast] at more
  have final := List.getLast?_eq_some_getLast more
  calc lastIsLive now table asked.crossApp asked.pattern (some last.1)
      = ((candidates table asked.pattern asked.startKey).drop n).getLast?.any fun entry => passesFilter now asked.crossApp entry.2 := by
        rw [lastIsLive, candidates_drop isLast]
    _ = ((candidates table asked.pattern asked.startKey).take n ++
          (candidates table asked.pattern asked.startKey).drop n).getLast?.any fun entry => passesFilter now asked.crossApp entry.2 := by
        rw [List.getLast?_append, final]
        rfl
    _ = lastIsLive now table asked.crossApp asked.pattern asked.startKey := by
        rw [List.take_append_drop]
        rfl

theorem lastIsLive_pos {now : ℚ} {startKey : Option Text} (live : lastIsLive now table crossApp pattern startKey = true) :
    candidates table pattern startKey ≠ [] ∧ 0 < (liveEntries now table crossApp pattern startKey).length := by
  rw [lastIsLive, Option.any_eq_true] at live
  obtain ⟨entry, isLast, passes⟩ := live
  have member := List.mem_of_getLast? isLast
  exact ⟨List.ne_nil_of_mem member, List.length_pos_of_mem (List.mem_filter.mpr ⟨member, passes⟩)⟩

theorem lastIsLive_of_all {now : ℚ} {startKey : Option Text} (some : candidates table pattern startKey ≠ [])
    (all : liveEntries now table crossApp pattern startKey = candidates table pattern startKey) :
    lastIsLive now table crossApp pattern startKey = true := by
  rw [lastIsLive, List.getLast?_eq_some_getLast some]
  exact List.filter_eq_self.mp all _ (List.getLast_mem some)

end Answers

section Skipping

variable {table : KvTable} {pattern : Option Text} {answers : QueryAnswers}

/-- Where skipping leads: to the entries that remain, past the end, or back to the start. -/
inductive Skipped (now : ℚ) (table : KvTable) (crossApp : Bool) (pattern startKey : Option Text) (offset : ℕ) :
    Option Text × Bool → Prop
  | landed (key : Option Text)
      (remain : liveEntries now table crossApp pattern key = (liveEntries now table crossApp pattern startKey).drop offset)
      (fewer : (candidates table pattern key).length ≤ (candidates table pattern startKey).length) :
      Skipped now table crossApp pattern startKey offset (key, false)
  | ended (short : (liveEntries now table crossApp pattern startKey).length < offset) :
      Skipped now table crossApp pattern startKey offset (none, true)
  | restarted (positive : 0 < offset) (exact : (liveEntries now table crossApp pattern startKey).length = offset)
      (live : lastIsLive now table crossApp pattern startKey = true) :
      Skipped now table crossApp pattern startKey offset (none, false)

theorem skipBy_skipped (lawful : ∀ number asked, AnswersTo table asked (answers number asked))
    (now : ℚ) (crossApp : Bool) {fuel : ℕ} (queries offset : ℕ) {startKey : Option Text}
    (enough : (candidates table pattern startKey).length < fuel) :
    Skipped now table crossApp pattern startKey offset (skipBy answers now crossApp pattern fuel queries offset startKey).1 := by
  induction fuel generalizing queries offset startKey with
  | zero => omega
  | succ fuel ih =>
      by_cases done : offset = 0
      · simp only [skipBy, if_pos done]
        exact .landed startKey (by rw [done, List.drop_zero]) le_rfl
      simp only [skipBy, if_neg done]
      have given := lawful queries ⟨now, crossApp, pattern, offset, startKey⟩
      have counted := items_length given done
      cases stops : (answers queries ⟨now, crossApp, pattern, offset, startKey⟩).lastEvaluatedKey with
      | none =>
          obtain ⟨all, limited⟩ := items_of_ends given stops
          simp only at all limited counted
          rw [all] at counted ⊢
          by_cases short : (liveEntries now table crossApp pattern startKey).length < offset
          · rw [decide_eq_true (by omega)]
            exact .ended short
          · rw [decide_eq_false (by omega)]
            -- As many live entries as were evaluated: all of them are live.
            have whole : liveEntries now table crossApp pattern startKey = candidates table pattern startKey := by
              apply List.filter_sublist.eq_of_length_le
              exact (limited done).trans (not_lt.mp short)
            have some : candidates table pattern startKey ≠ [] := by
              intro empty
              rw [whole, empty] at short
              exact short (Nat.pos_of_ne_zero done)
            exact .restarted (by omega) (by omega) (lastIsLive_of_all some whole)
      | some key =>
          obtain ⟨split, fewer⟩ := items_of_goesOn given stops
          simp only at split fewer counted
          have rest := @ih (queries + 1)
            (offset - (answers queries ⟨now, crossApp, pattern, offset, startKey⟩).items.length) (some key) (by omega)
          revert rest
          generalize (skipBy answers now crossApp pattern fuel (queries + 1) _ (some key)).1 = skipped
          intro rest
          cases rest with
          | landed key' remain fewer' =>
              apply Skipped.landed key' _ (by omega)
              rw [remain, split, List.drop_append, List.drop_eq_nil_of_le counted, List.nil_append]
          | ended short =>
              apply Skipped.ended
              rw [split, List.length_append]
              omega
          | restarted positive exact live =>
              have sameLast := lastIsLive_goesOn given stops (lastIsLive_pos live).1 now
              apply Skipped.restarted (by omega) _ (sameLast.symm.trans live)
              rw [split, List.length_append]
              omega

end Skipping

section Collecting

variable {table : KvTable} {crossApp : Bool} {pattern : Option Text} {answers : QueryAnswers}

theorem collectBy_split (lawful : ∀ number asked, AnswersTo table asked (answers number asked))
    (now : ℚ) (limit : Option ℕ) (fetchUntilFull : Bool) {fuel : ℕ} (queries pages : ℕ)
    (collected : List (Text × Attributes)) {startKey : Option Text}
    (enough : (candidates table pattern startKey).length < fuel) :
    (collectBy answers now crossApp pattern limit fetchUntilFull fuel queries pages collected startKey).1.1 ++
        leftAfter now table crossApp pattern
          (collectBy answers now crossApp pattern limit fetchUntilFull fuel queries pages collected startKey).1.2 =
      collected ++ liveEntries now table crossApp pattern startKey ∧
    ∀ key, (collectBy answers now crossApp pattern limit fetchUntilFull fuel queries pages collected startKey).1.2 = some key →
      (candidates table pattern (some key)).length < (candidates table pattern startKey).length := by
  induction fuel generalizing queries pages collected startKey with
  | zero => omega
  | succ fuel ih =>
      have given := lawful queries ⟨now, crossApp, pattern, wanted limit collected, startKey⟩
      cases stops : (answers queries ⟨now, crossApp, pattern, wanted limit collected, startKey⟩).lastEvaluatedKey with
      | none =>
          have all := (items_of_ends given stops).1
          have complete : ∀ done, (if done = true
              then ((collected ++ (answers queries ⟨now, crossApp, pattern, wanted limit collected, startKey⟩).items, none), queries + 1)
              else ((collected ++ (answers queries ⟨now, crossApp, pattern, wanted limit collected, startKey⟩).items, none), queries + 1)) =
              ((collected ++ liveEntries now table crossApp pattern startKey, (none : Option Text)), queries + 1) := by
            intro done
            rw [ite_self, all]
          simp only [collectBy, stops, complete, leftAfter, List.append_nil, true_and]
          intro key goesOn
          cases goesOn
      | some key =>
          obtain ⟨split, fewer⟩ := items_of_goesOn given stops
          cases done : pageDone limit fetchUntilFull (pages + 1)
            (collected ++ (answers queries ⟨now, crossApp, pattern, wanted limit collected, startKey⟩).items) with
          | true =>
              simp only [collectBy, stops, done, if_true, leftAfter]
              constructor
              · rw [split, List.append_assoc]
              · rintro _ ⟨⟩
                exact fewer
          | false =>
              simp only [collectBy, stops, done, Bool.false_eq_true, if_false]
              obtain ⟨rest, less⟩ := @ih (queries + 1) (pages + 1)
                (collected ++ (answers queries ⟨now, crossApp, pattern, wanted limit collected, startKey⟩).items) (some key) (by
                  simp only at fewer
                  omega)
              constructor
              · rw [rest, split, List.append_assoc]
              · intro after goesOn
                exact (less after goesOn).trans fewer

theorem filter_listed {now : ℚ} {listed rest : List (Text × Attributes)} {startKey : Option Text}
    (split : listed ++ rest = liveEntries now table crossApp pattern startKey) :
    (listed.filter fun entry => (itemTtl entry.2).all fun ttl => ttl = 0 ∨ now < ttl) = listed := by
  apply List.filter_eq_self.mpr
  intro entry member
  have live : entry ∈ liveEntries now table crossApp pattern startKey := by
    rw [← split]
    exact List.mem_append_left _ member
  exact passesFilter_ttl (List.mem_filter.mp live).2

end Collecting

/-- Options that are accepted, and what they stand for. -/
structure Opens (opts : PagedOpts) (limit offset : Option ℕ) (startKey : Option Text) : Prop where
  limited : normalizeLimit opts.limit none "kv: limit".toList = .ok limit
  skips : normalizeOffset opts.offset (some maxListOffset) "kv: offset".toList = .ok offset
  filled : (opts.fetchUntilFull && limit.isNone) = false
  starts : ∃ pageKey, decodeCursor opts.cursor "kv: cursor".toList = .ok pageKey ∧ startKeyOf pageKey = .ok startKey ∧
    (pageKey.isSome && offset.isSome) = false

theorem listBy_opens {opts : PagedOpts} {limit offset : Option ℕ} {startKey : Option Text}
    (opens : Opens opts limit offset startKey) (answers : QueryAnswers) (fuel : ℕ) (ns : Text) (crossApp : Bool) (now : ℚ) (queries : ℕ) :
    listBy answers fuel ns crossApp now opts queries =
      .ok (pageBy answers fuel ns now crossApp (normalizePattern opts.pattern) opts.fetchUntilFull limit (offset.getD 0) startKey queries) := by
  obtain ⟨pageKey, decoded, isKey, notBoth⟩ := opens.starts
  simp only [listBy, opens.limited, opens.skips, decoded, isKey, orHttp, notBoth, opens.filled, bind, pure, Except.bind,
    Except.pure, Bool.false_eq_true, if_false]

theorem Opens.next {opts : PagedOpts} {limit offset : Option ℕ} {startKey : Option Text}
    (opens : Opens opts limit offset startKey) {ns key cursor : Text} (encoded : listCursor ns (some key) = some cursor) :
    Opens { opts with cursor := some (.text cursor), offset := none } limit none (some key) where
  limited := opens.limited
  skips := rfl
  filled := opens.filled
  starts := ⟨_, decodeCursor_encodeCursor encoded _, rfl, rfl⟩

theorem listCursor_isSome (ns key : Text) : ∃ cursor, listCursor ns (some key) = some cursor :=
  encodeCursor_isSome (List.cons_ne_nil _ _)

section Following

variable {table : KvTable} {crossApp : Bool} {pattern : Option Text} {answers : QueryAnswers} {clock : ℕ → ℚ}

theorem liveEntries_steady
    (steady : ∀ call, ∀ entry ∈ table.entries, passesFilter (clock call) crossApp entry.2 = passesFilter (clock 0) crossApp entry.2)
    (call : ℕ) (startKey : Option Text) :
    liveEntries (clock call) table crossApp pattern startKey = liveEntries (clock 0) table crossApp pattern startKey := by
  apply List.filter_congr
  intro entry member
  exact steady call entry (List.mem_of_mem_filter member)

theorem leftAfter_steady
    (steady : ∀ call, ∀ entry ∈ table.entries, passesFilter (clock call) crossApp entry.2 = passesFilter (clock 0) crossApp entry.2)
    (call : ℕ) (nextKey : Option Text) :
    leftAfter (clock call) table crossApp pattern nextKey = leftAfter (clock 0) table crossApp pattern nextKey := by
  cases nextKey with
  | none => rfl
  | some key => exact liveEntries_steady steady call (some key)

theorem followCursors_lossless
    (lawful : ∀ number asked, AnswersTo table asked (answers number asked))
    (steady : ∀ call, ∀ entry ∈ table.entries, passesFilter (clock call) crossApp entry.2 = passesFilter (clock 0) crossApp entry.2)
    (ns : Text) {calls : ℕ} (call queries : ℕ) {opts : PagedOpts} {limit offset : Option ℕ} {startKey : Option Text}
    (opens : Opens opts limit offset startKey) (normal : normalizePattern opts.pattern = pattern) {landing : Option Text}
    (skipped : (skipBy answers (clock call) crossApp pattern (table.entries.length + 1) queries (offset.getD 0) startKey).1 = (landing, false))
    (enough : (candidates table pattern landing).length < calls) :
    ∃ pages, followCursors answers (table.entries.length + 1) ns crossApp clock calls call queries opts = .ok pages ∧
      pages.flatten = liveEntries (clock 0) table crossApp pattern landing := by
  induction calls generalizing call queries opts offset startKey landing with
  | zero => omega
  | succ calls ih =>
      obtain ⟨split, fewer⟩ := collectBy_split lawful (clock call) limit opts.fetchUntilFull
        (skipBy answers (clock call) crossApp pattern (table.entries.length + 1) queries (offset.getD 0) startKey).2 0 []
        (candidates_length_lt table pattern landing)
      rw [List.nil_append] at split
      have listed := filter_listed split
      rw [leftAfter_steady steady, liveEntries_steady steady] at split
      simp only [followCursors, listBy_opens opens, pageBy, normal, skipped, Bool.false_eq_true, if_false]
      revert split fewer listed
      generalize collectBy answers (clock call) crossApp pattern limit opts.fetchUntilFull (table.entries.length + 1) _ 0 [] landing = collected
      intro split fewer listed
      rw [listed]
      cases stops : collected.1.2 with
      | none =>
          rw [stops, leftAfter, List.append_nil] at split
          exact ⟨[collected.1.1], rfl, by rw [List.flatten_singleton, split]⟩
      | some key =>
          obtain ⟨cursor, encoded⟩ := listCursor_isSome ns key
          rw [stops, leftAfter] at split
          obtain ⟨pages, follows, rest⟩ := ih (call + 1) collected.2 (opens.next encoded) normal rfl
            (by have := fewer key stops; omega)
          rw [encoded]
          exact ⟨collected.1.1 :: pages, by simp only [follows, Except.map], by rw [List.flatten_cons, rest, split]⟩

theorem followCursors_ended (ns : Text) {calls fuel : ℕ} (call queries : ℕ) {opts : PagedOpts} {limit offset : Option ℕ}
    {startKey : Option Text} (opens : Opens opts limit offset startKey) (normal : normalizePattern opts.pattern = pattern)
    (skipped : (skipBy answers (clock call) crossApp pattern fuel queries (offset.getD 0) startKey).1 = (none, true)) :
    followCursors answers fuel ns crossApp clock (calls + 1) call queries opts = .ok [[]] := by
  simp only [followCursors, listBy_opens opens, pageBy, normal, skipped, if_true]
  rfl

end Following

section Eager

variable {table : KvTable} {crossApp : Bool} {pattern : Option Text}

def eagerAnswers (table : KvTable) : QueryAnswers := fun _ asked =>
  let found := candidates table asked.pattern asked.startKey
  let n := if asked.limit = 0 then found.length else min asked.limit found.length
  { items := (found.take n).filter fun entry => passesFilter asked.now asked.crossApp entry.2
    lastEvaluatedKey := if n < found.length then (found.take n).getLast?.map Prod.fst else none }

theorem eagerAnswers_lawful (number : ℕ) (asked : ListQuery) :
    AnswersTo table asked (eagerAnswers table number asked) := by
  simp only [AnswersTo, eagerAnswers]
  generalize candidates table asked.pattern asked.startKey = found
  by_cases unlimited : asked.limit = 0
  · refine ⟨found.length, le_rfl, fun limited => absurd unlimited limited, by rw [if_pos unlimited], ?_⟩
    rw [if_pos unlimited, if_neg (lt_irrefl _)]
  · rw [if_neg unlimited]
    refine ⟨min asked.limit found.length, min_le_right _ _, fun _ => min_le_left _ _, rfl, ?_⟩
    by_cases more : min asked.limit found.length < found.length
    · have nonempty : found.take (min asked.limit found.length) ≠ [] := by
        rw [ne_eq, List.take_eq_nil_iff, not_or, ← List.length_eq_zero_iff]
        omega
      rw [if_pos more, List.getLast?_eq_some_getLast nonempty]
      exact rfl
    · rw [if_neg more]
      exact le_antisymm (min_le_right _ _) (not_lt.mp more)

theorem eagerAnswers_more {number : ℕ} {asked : ListQuery} {key : Text}
    (goesOn : (eagerAnswers table number asked).lastEvaluatedKey = some key) :
    candidates table asked.pattern (some key) ≠ [] := by
  simp only [eagerAnswers] at goesOn
  generalize (if asked.limit = 0 then (candidates table asked.pattern asked.startKey).length
    else min asked.limit (candidates table asked.pattern asked.startKey).length) = n at goesOn
  by_cases more : n < (candidates table asked.pattern asked.startKey).length
  · rw [if_pos more] at goesOn
    obtain ⟨last, isLast, rfl⟩ := Option.map_eq_some_iff.mp goesOn
    rw [candidates_drop isLast]
    exact List.drop_eq_nil_iff.not.mpr (not_le.mpr more)
  · rw [if_neg more] at goesOn
    cases goesOn

theorem eager_restarts (now : ℚ) {fuel : ℕ} (queries : ℕ) {offset : ℕ} {startKey : Option Text}
    (enough : (candidates table pattern startKey).length < fuel) (positive : 0 < offset)
    (exact : (liveEntries now table crossApp pattern startKey).length = offset)
    (live : lastIsLive now table crossApp pattern startKey = true) :
    (skipBy (eagerAnswers table) now crossApp pattern fuel queries offset startKey).1 = (none, false) := by
  induction fuel generalizing queries offset startKey with
  | zero => omega
  | succ fuel ih =>
      have limited : offset ≠ 0 := positive.ne'
      have given := @eagerAnswers_lawful table queries ⟨now, crossApp, pattern, offset, startKey⟩
      have counted := items_length given limited
      simp only [skipBy, if_neg limited]
      cases stops : (eagerAnswers table queries ⟨now, crossApp, pattern, offset, startKey⟩).lastEvaluatedKey with
      | none =>
          rw [(items_of_ends given stops).1, decide_eq_false (by
            simp only
            omega)]
      | some key =>
          obtain ⟨split, fewer⟩ := items_of_goesOn given stops
          simp only at split fewer counted
          have stillLive : lastIsLive now table crossApp pattern (some key) = true :=
            (lastIsLive_goesOn given stops (eagerAnswers_more stops) now).trans live
          have rest := (lastIsLive_pos stillLive).2
          rw [split, List.length_append] at exact
          apply ih (queries + 1) (by omega) (by omega) (by omega) stillLive

end Eager

/-- The options of a listing from the first page on that pass the checks. -/
structure FirstPage (opts : PagedOpts) : Prop where
  noCursor : opts.cursor = none
  limited : ∀ limit ∈ opts.limit, 0 < limit
  filled : opts.fetchUntilFull = true → opts.limit.isSome
  capped : ∀ offset ∈ opts.offset, 0 ≤ offset ∧ ⌊offset⌋.toNat ≤ maxListOffset

def skippedOffset (opts : PagedOpts) : ℕ := (opts.offset.map fun offset => ⌊offset⌋.toNat).getD 0

theorem FirstPage.opens {opts : PagedOpts} (first : FirstPage opts) :
    ∃ limit, Opens opts limit (opts.offset.map fun offset => ⌊offset⌋.toNat) none := by
  refine ⟨opts.limit.map fun limit => ⌊limit⌋.toNat, ?_, ?_, ?_, none, by rw [first.noCursor]; rfl, rfl, rfl⟩
  · cases given : opts.limit with
    | none => rfl
    | some limit => exact if_neg (not_le.mpr (first.limited limit given))
  · cases given : opts.offset with
    | none => rfl
    | some offset =>
        have within := first.capped offset given
        simp only [Pagination.normalizeOffset, if_neg (not_lt.mpr within.1), if_neg (not_lt.mpr within.2), Option.map_some]
  · cases fills : opts.fetchUntilFull with
    | false => rfl
    | true =>
        have given := first.filled fills
        rw [Option.isNone_map, Bool.true_and, Option.isNone_eq_false_iff]
        exact given

/-- Whatever the database may answer, following the cursors of an unchanging namespace gives each live entry that
    remains after the offset once, in the order of the keys; except where the offset is the number of the live entries
    and the last entry of the namespace is live. -/
theorem listing_lossless_iff (table : KvTable) (crossApp : Bool) (ns : Text) (clock : ℕ → ℚ)
    (steady : ∀ call, ∀ entry ∈ table.entries, passesFilter (clock call) crossApp entry.2 = passesFilter (clock 0) crossApp entry.2)
    (opts : PagedOpts) (first : FirstPage opts) :
    (∀ answers : QueryAnswers,
      (∀ number asked, AnswersTo table asked (answers number asked)) →
      ∃ pages, followCursors answers (table.entries.length + 1) ns crossApp clock (table.entries.length + 1) 0 0 opts = .ok pages ∧
        pages.flatten =
          (liveEntries (clock 0) table crossApp (normalizePattern opts.pattern) none).drop (skippedOffset opts)) ↔
      ¬(0 < skippedOffset opts ∧
        (liveEntries (clock 0) table crossApp (normalizePattern opts.pattern) none).length = skippedOffset opts ∧
        lastIsLive (clock 0) table crossApp (normalizePattern opts.pattern) none = true) := by
  obtain ⟨limit, opens⟩ := first.opens
  have enough := candidates_length_lt table (normalizePattern opts.pattern) none
  constructor
  · rintro lossless ⟨positive, exact, live⟩
    obtain ⟨pages, follows, listed⟩ := lossless _ eagerAnswers_lawful
    obtain ⟨pages', follows', listed'⟩ := followCursors_lossless eagerAnswers_lawful steady ns 0 0 opens rfl
      (eager_restarts (clock 0) 0 enough positive exact live) enough
    obtain rfl := Except.ok.inj (follows.symm.trans follows')
    rw [listed, List.drop_eq_nil_of_le exact.le] at listed'
    rw [← listed'] at exact
    exact positive.ne exact
  · intro spared answers lawful
    have skipped := skipBy_skipped lawful (clock 0) crossApp 0 (skippedOffset opts) enough
    cases led : (skipBy answers (clock 0) crossApp (normalizePattern opts.pattern) (table.entries.length + 1) 0 (skippedOffset opts) none).1 with
    | mk key past =>
        rw [led] at skipped
        cases skipped with
        | landed _ remain fewer =>
            obtain ⟨pages, follows, listed⟩ :=
              followCursors_lossless lawful steady ns 0 0 opens rfl led (fewer.trans_lt enough)
            exact ⟨pages, follows, listed.trans remain⟩
        | ended short =>
            exact ⟨[[]], followCursors_ended ns 0 0 opens rfl led, (List.drop_eq_nil_of_le short.le).symm⟩
        | restarted positive exact live => exact absurd ⟨positive, exact, live⟩ spared

def loneEntry : KvTable := SortedTable.empty.put ['a'] (wholeItem (.number 1) none false)

def skipsOne (limit : Option ℚ) : PagedOpts := ⟨limit, none, none, some 1, false⟩

theorem skipsOne_first {limit : ℚ} (positive : 0 < limit) : FirstPage (skipsOne (some limit)) where
  noCursor := rfl
  limited := by
    rintro _ ⟨⟩
    exact positive
  filled := nofun
  capped := by
    rintro _ ⟨⟩
    decide +kernel

/-- One entry of one is skipped, and is listed. -/
theorem listing_restarts :
    (∀ number asked, AnswersTo loneEntry asked (eagerAnswers loneEntry number asked)) ∧
      FirstPage (skipsOne (some 1)) ∧
      (followCursors (eagerAnswers loneEntry) 2 ['n'] false (fun _ => 0) 2 0 0 (skipsOne (some 1))).toOption.map
        (fun pages => pages.flatten.map Prod.fst) = some [['a']] ∧
      (liveEntries 0 loneEntry false none none).drop 1 = [] :=
  ⟨eagerAnswers_lawful, skipsOne_first one_pos, by decide +kernel, by decide +kernel⟩

/-- Without an offset the entry is listed once. -/
theorem listing_lossless_loneEntry :
    ∃ pages, followCursors (eagerAnswers loneEntry) 2 ['n'] false (fun _ => 0) 2 0 0 ⟨some 1, none, none, none, true⟩ =
        .ok pages ∧ pages.flatten = liveEntries 0 loneEntry false none none :=
  (listing_lossless_iff loneEntry false ['n'] (fun _ => 0) (fun _ _ _ => rfl) ⟨some 1, none, none, none, true⟩
    ⟨rfl, fun _ given => Option.some.inj given ▸ one_pos, fun _ => rfl, nofun⟩).mpr (fun restarts => lt_irrefl 0 restarts.1)
    (eagerAnswers loneEntry) eagerAnswers_lawful

end Puter

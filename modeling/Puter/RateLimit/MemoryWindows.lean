/-
Module: Puter.RateLimit.MemoryWindows
Purpose: The windows that the memory backend keeps, all keys in one map (core/http/middleware/rateLimit.js). While the map
  is below its cap, pruning and the sweep forget only hits that no longer count, and each call is decided by the hits in
  its window. At the cap a new key takes the place of the key that was stored first, whatever the hits of that one.
Trusted boundary: none
Main exports: MemoryWindows, memory_limiter_exact
-/
import Puter.Permission.PermissionUtil

namespace Puter

/-- The timestamps kept for a key, and its window. -/
structure MemoryEntry where
  ts : List ℕ
  windowMs : ℕ
deriving DecidableEq, Repr

/-- `memoryWindows`, in the order of insertion. -/
abbrev MemoryWindows := List (Text × MemoryEntry)

namespace MemoryLimiter

def memoryMaxKeys : ℕ := 10000

def memoryMaxRetainMs : ℕ := 60 * 60000

def put (windows : MemoryWindows) (key : Text) (entry : MemoryEntry) : MemoryWindows :=
  windows.map fun stored => if stored.1 = key then (key, entry) else stored

def retained (now : ℕ) (entry : MemoryEntry) : Bool :=
  match entry.ts.getLast? with
  | none => false
  | some last => now ≤ last + max memoryMaxRetainMs entry.windowMs

def sweepMemoryWindows (windows : MemoryWindows) (now : ℕ) : MemoryWindows :=
  windows.filter fun stored => retained now stored.2

def insertNew (windows : MemoryWindows) (key : Text) (windowMs : ℕ) : MemoryWindows :=
  (if memoryMaxKeys ≤ windows.length then windows.tail else windows) ++ [(key, ⟨[], windowMs⟩)]

def storedFor (windows : MemoryWindows) (key : Text) (windowMs : ℕ) : MemoryWindows :=
  if (windows.lookup key).isSome then windows else insertNew windows key windowMs

def stampsOf (windows : MemoryWindows) (key : Text) : List ℕ := ((windows.lookup key).map MemoryEntry.ts).getD []

def checkMemory (limit windowMs : ℕ) (windows : MemoryWindows) (key : Text) (now : ℕ) : Bool × MemoryWindows :=
  let stored := storedFor windows key windowMs
  let timestamps := (stampsOf stored key).dropWhile fun t => t + windowMs < now
  if limit ≤ timestamps.length then (false, put stored key ⟨timestamps, windowMs⟩)
  else (true, put stored key ⟨timestamps ++ [now], windowMs⟩)

end MemoryLimiter

open MemoryLimiter

/-- The limit and the window of a key. -/
structure LimitPolicy where
  limit : Text → ℕ
  windowMs : Text → ℕ

/-- What is called, and when. -/
inductive LimiterCall where
  | check (key : Text) (now : ℕ)
  | sweep (now : ℕ)
deriving DecidableEq, Repr

def LimiterCall.now : LimiterCall → ℕ
  | check _ now => now
  | sweep now => now

/-- The map, and the calls that were admitted, with their times. -/
structure LimiterState where
  windows : MemoryWindows
  admitted : List (Text × ℕ)
deriving DecidableEq, Repr

namespace LimiterState

def fresh : LimiterState := ⟨[], []⟩

def after (policy : LimitPolicy) (s : LimiterState) : LimiterCall → LimiterState
  | .check key now =>
      let (admits, windows) := checkMemory (policy.limit key) (policy.windowMs key) s.windows key now
      ⟨windows, if admits then s.admitted ++ [(key, now)] else s.admitted⟩
  | .sweep now => { s with windows := sweepMemoryWindows s.windows now }

def run (policy : LimitPolicy) (calls : List LimiterCall) : LimiterState := calls.foldl (after policy) fresh

def hitsOf (s : LimiterState) (key : Text) : List ℕ := (s.admitted.filter fun hit => hit.1 = key).map Prod.snd

def recentHits (policy : LimitPolicy) (s : LimiterState) (key : Text) (now : ℕ) : List ℕ :=
  (s.hitsOf key).filter fun t => now ≤ t + policy.windowMs key && t ≤ now

end LimiterState

section Lookup

variable {windows : MemoryWindows} {key other : Text} {entry : MemoryEntry}

def KeysDistinct (windows : MemoryWindows) : Prop := (windows.map Prod.fst).Nodup

@[simp] theorem keys_put : (put windows key entry).map Prod.fst = windows.map Prod.fst := by
  rw [put, List.map_map]
  apply List.map_congr_left
  intro stored _
  by_cases same : stored.1 = key
  · simp [same]
  · simp [same]

theorem lookup_window_cons (name : Text) (first : MemoryEntry) (windows : MemoryWindows) (key : Text) :
    List.lookup key ((name, first) :: windows) = if key = name then some first else windows.lookup key := by
  rw [List.lookup_cons]
  by_cases same : key = name
  · simp [same]
  · simp [same, beq_false_of_ne same]

theorem lookup_put : (put windows key entry).lookup other =
    if other = key then (windows.lookup key).map fun _ => entry else windows.lookup other := by
  induction windows with
  | nil => simp [put]
  | cons stored windows ih =>
      obtain ⟨name, before⟩ := stored
      rw [put, List.map_cons, ← put]
      by_cases here : name = key
      · subst here
        simp only [if_true, lookup_window_cons, ih]
        split <;> rfl
      · simp only [if_neg here, lookup_window_cons, ih]
        by_cases same : other = key
        · subst same
          simp [Ne.symm here]
        · simp [same]

theorem lookup_eq_none_of_fresh (fresh : key ∉ windows.map Prod.fst) : windows.lookup key = none := by
  rw [List.lookup_eq_none_iff]
  intro stored member
  simp only [bne_iff_ne]
  rintro rfl
  exact fresh (List.mem_map_of_mem member)

theorem lookup_filter_windows (distinct : KeysDistinct windows) (keeps : Text × MemoryEntry → Bool) :
    (windows.filter keeps).lookup key = (windows.lookup key).filter fun entry => keeps (key, entry) := by
  induction windows with
  | nil => rfl
  | cons stored windows ih =>
      obtain ⟨name, before⟩ := stored
      obtain ⟨fresh, others⟩ := List.nodup_cons.mp distinct
      rw [List.filter_cons, lookup_window_cons]
      by_cases same : key = name
      · subst same
        cases kept : keeps (key, before) with
        | true => simp [kept, Option.filter]
        | false =>
            have gone : (windows.filter keeps).lookup key = none :=
              lookup_eq_none_of_fresh fun member => fresh ((List.filter_sublist.map Prod.fst).subset member)
            simp [kept, gone, Option.filter]
      · cases kept : keeps (name, before) with
        | true => simp [lookup_window_cons, same, ih others]
        | false => simp [same, ih others]

end Lookup

theorem dropWhile_before {stamps : List ℕ} (ordered : stamps.Pairwise (· ≤ ·)) (windowMs now : ℕ) :
    (stamps.dropWhile fun t => t + windowMs < now) = stamps.filter fun t => now ≤ t + windowMs := by
  induction stamps with
  | nil => rfl
  | cons first stamps ih =>
      obtain ⟨least, others⟩ := List.pairwise_cons.mp ordered
      by_cases before : first + windowMs < now
      · rw [List.dropWhile_cons_of_pos (by simpa using before), ih others,
          List.filter_cons_of_neg (by simpa using before)]
      · rw [List.dropWhile_cons_of_neg (by simpa using before)]
        symm
        apply List.filter_eq_self.mpr
        intro t member
        have later : first ≤ t := (List.mem_cons.mp member).elim (fun same => same.ge) (least t)
        simp only [decide_eq_true_eq]
        omega

theorem not_retained {now : ℕ} {entry : MemoryEntry} (gone : retained now entry = false)
    (ordered : entry.ts.Pairwise (· ≤ ·)) {t : ℕ} (member : t ∈ entry.ts) : t + entry.windowMs < now := by
  unfold retained at gone
  cases isLast : entry.ts.getLast? with
  | none =>
      rw [List.getLast?_eq_none_iff.mp isLast] at member
      cases member
  | some last =>
      obtain ⟨front, split⟩ := List.getLast?_eq_some_iff.mp isLast
      rw [split, List.pairwise_append] at ordered
      have bound : t ≤ last := by
        rw [split] at member
        obtain before | same := List.mem_append.mp member
        · exact ordered.2.2 t before last (List.mem_singleton_self last)
        · exact (List.mem_singleton.mp same).le
      simp only [isLast, decide_eq_false_iff_not, not_le] at gone
      have longer := le_max_right memoryMaxRetainMs entry.windowMs
      omega

/-- What the map has forgotten of the admitted calls has left its window. -/
structure Remembers (policy : LimitPolicy) (now : ℕ) (s : LimiterState) : Prop where
  distinct : KeysDistinct s.windows
  windowMs : ∀ key entry, s.windows.lookup key = some entry → entry.windowMs = policy.windowMs key
  forgets : ∀ key, ∃ forgotten, s.hitsOf key = forgotten ++ stampsOf s.windows key ∧
    ∀ t ∈ forgotten, t + policy.windowMs key < now
  ordered : ∀ key, (s.hitsOf key).Pairwise (· ≤ ·)
  past : ∀ key, ∀ t ∈ s.hitsOf key, t ≤ now

namespace Remembers

variable {policy : LimitPolicy} {now : ℕ} {s : LimiterState} {key : Text}

theorem fresh (policy : LimitPolicy) (now : ℕ) : Remembers policy now .fresh where
  distinct := List.nodup_nil
  windowMs key entry stored := by cases stored
  forgets key := ⟨[], rfl, fun t member => by cases member⟩
  ordered key := List.Pairwise.nil
  past key t member := by cases member

theorem later (remembers : Remembers policy now s) {next : ℕ} (passes : now ≤ next) : Remembers policy next s where
  distinct := remembers.distinct
  windowMs := remembers.windowMs
  forgets key := by
    obtain ⟨forgotten, split, gone⟩ := remembers.forgets key
    exact ⟨forgotten, split, fun t member => (gone t member).trans_le passes⟩
  ordered := remembers.ordered
  past key t member := (remembers.past key t member).trans passes

theorem dropWhile_eq_recentHits (remembers : Remembers policy now s) (key : Text) :
    ((stampsOf s.windows key).dropWhile fun t => t + policy.windowMs key < now) = s.recentHits policy key now := by
  obtain ⟨forgotten, split, gone⟩ := remembers.forgets key
  have ordered := remembers.ordered key
  rw [split, List.pairwise_append] at ordered
  have none : (forgotten.filter fun t => now ≤ t + policy.windowMs key) = [] := by
    apply List.filter_eq_nil_iff.mpr
    intro t member
    have left := gone t member
    simp only [decide_eq_true_eq]
    omega
  have recent : s.recentHits policy key now = (s.hitsOf key).filter fun t => now ≤ t + policy.windowMs key := by
    apply List.filter_congr
    intro t member
    simp [remembers.past key t member]
  rw [dropWhile_before ordered.2.1, recent, split, List.filter_append, none, List.nil_append]

theorem sweep (remembers : Remembers policy now s) :
    Remembers policy now { s with windows := sweepMemoryWindows s.windows now } := by
  have stored (key : Text) : (sweepMemoryWindows s.windows now).lookup key =
      (s.windows.lookup key).filter (retained now) := lookup_filter_windows remembers.distinct _
  refine ⟨remembers.distinct.sublist (List.filter_sublist.map Prod.fst), ?_, ?_, remembers.ordered, remembers.past⟩
  · intro key entry isEntry
    rw [stored] at isEntry
    exact remembers.windowMs key entry (Option.filter_eq_some_iff.mp isEntry).1
  · intro key
    obtain ⟨forgotten, split, gone⟩ := remembers.forgets key
    cases before : s.windows.lookup key with
    | none =>
        refine ⟨forgotten, ?_, gone⟩
        change s.hitsOf key = _
        simpa [stampsOf, stored, before, Option.filter] using split
    | some entry =>
        cases kept : retained now entry with
        | true =>
            refine ⟨forgotten, ?_, gone⟩
            change s.hitsOf key = _
            simpa [stampsOf, stored, before, kept, Option.filter] using split
        | false =>
            refine ⟨s.hitsOf key, ?_, ?_⟩
            · change s.hitsOf key = _
              simp [stampsOf, stored, before, kept, Option.filter]
            · intro t member
              have stamps : stampsOf s.windows key = entry.ts := by simp [stampsOf, before]
              have ordered := remembers.ordered key
              rw [split, stamps] at member ordered
              obtain isForgotten | isStored := List.mem_append.mp member
              · exact gone t isForgotten
              · rw [← remembers.windowMs key entry before]
                exact not_retained kept (List.pairwise_append.mp ordered).2.1 isStored

theorem lookup_storedFor (below : s.windows.length < memoryMaxKeys) (key : Text) (windowMs : ℕ) (other : Text) :
    (storedFor s.windows key windowMs).lookup other =
      (s.windows.lookup other).or (if other = key then some ⟨[], windowMs⟩ else none) := by
  unfold storedFor
  cases before : s.windows.lookup key with
  | some entry =>
      by_cases same : other = key
      · subst same
        simp [before]
      · simp [same]
  | none =>
      rw [insertNew, if_neg (not_le.mpr below), Option.isSome_none, if_neg Bool.false_ne_true, List.lookup_append,
        lookup_window_cons]
      rfl

theorem stampsOf_storedFor (below : s.windows.length < memoryMaxKeys) (key : Text) (windowMs : ℕ) (other : Text) :
    stampsOf (storedFor s.windows key windowMs) other = stampsOf s.windows other := by
  rw [stampsOf, lookup_storedFor below, stampsOf]
  cases s.windows.lookup other with
  | some entry => rfl
  | none =>
      by_cases same : other = key
      · simp [same]
      · simp [same]

theorem distinct_storedFor (distinct : KeysDistinct s.windows) (below : s.windows.length < memoryMaxKeys) (key : Text)
    (windowMs : ℕ) : KeysDistinct (storedFor s.windows key windowMs) := by
  unfold storedFor
  cases before : s.windows.lookup key with
  | some entry => exact distinct
  | none =>
      rw [insertNew, if_neg (not_le.mpr below), Option.isSome_none, if_neg Bool.false_ne_true, KeysDistinct,
        List.map_append, List.map_singleton]
      apply List.Nodup.append distinct (List.nodup_singleton _)
      intro name inside same
      rw [List.mem_singleton] at same
      obtain ⟨stored, member, isName⟩ := List.mem_map.mp inside
      rw [List.lookup_eq_none_iff] at before
      have differs := before stored member
      simp [isName, same] at differs

theorem checkMemory_eq (remembers : Remembers policy now s) (below : s.windows.length < memoryMaxKeys) (key : Text) :
    checkMemory (policy.limit key) (policy.windowMs key) s.windows key now =
      let recent := s.recentHits policy key now
      let admits := decide (recent.length < policy.limit key)
      (admits, put (storedFor s.windows key (policy.windowMs key)) key
        ⟨if admits then recent ++ [now] else recent, policy.windowMs key⟩) := by
  unfold checkMemory
  dsimp only
  rw [stampsOf_storedFor below, remembers.dropWhile_eq_recentHits key]
  by_cases admits : (s.recentHits policy key now).length < policy.limit key
  · rw [if_neg (not_le.mpr admits)]
    simp [admits]
  · rw [if_pos (not_lt.mp admits)]
    simp [admits]

theorem hitsOf_taken (s : LimiterState) (admits : Bool) (windows : MemoryWindows) (key other : Text) (now : ℕ) :
    LimiterState.hitsOf ⟨windows, if admits then s.admitted ++ [(key, now)] else s.admitted⟩ other =
      s.hitsOf other ++ if admits && other = key then [now] else [] := by
  cases admits with
  | false => simp [LimiterState.hitsOf]
  | true =>
      by_cases same : other = key
      · subst same
        simp [LimiterState.hitsOf]
      · simp [LimiterState.hitsOf, same, Ne.symm same]

theorem lookup_checked (below : s.windows.length < memoryMaxKeys) (key other : Text) (entry : MemoryEntry) :
    (put (storedFor s.windows key entry.windowMs) key entry).lookup other =
      if other = key then some entry else s.windows.lookup other := by
  rw [lookup_put, lookup_storedFor below, lookup_storedFor below]
  by_cases same : other = key
  · subst same
    cases before : s.windows.lookup other <;> simp
  · simp [same]

theorem checked (remembers : Remembers policy now s) (below : s.windows.length < memoryMaxKeys) (key : Text)
    (admits : Bool) {recent : List ℕ} (hits : s.recentHits policy key now = recent) :
    Remembers policy now
      ⟨put (storedFor s.windows key (policy.windowMs key)) key
          ⟨if admits then recent ++ [now] else recent, policy.windowMs key⟩,
        if admits then s.admitted ++ [(key, now)] else s.admitted⟩ := by
  have stored (other : Text) := lookup_checked below key other
    ⟨if admits then recent ++ [now] else recent, policy.windowMs key⟩
  have stamps (other : Text) : stampsOf (put (storedFor s.windows key (policy.windowMs key)) key
      ⟨if admits then recent ++ [now] else recent, policy.windowMs key⟩) other =
        if other = key then (if admits then recent ++ [now] else recent) else stampsOf s.windows other := by
    rw [stampsOf, stored]
    split <;> rfl
  refine ⟨?_, ?_, ?_, ?_, ?_⟩
  · rw [KeysDistinct, keys_put]
    exact distinct_storedFor remembers.distinct below key _
  · intro other entry isEntry
    rw [stored] at isEntry
    split at isEntry
    next same =>
      rw [same, ← Option.some.inj isEntry]
    · exact remembers.windowMs other entry isEntry
  · intro other
    rw [hitsOf_taken]
    obtain ⟨forgotten, split, gone⟩ := remembers.forgets other
    by_cases same : other = key
    · subst same
      refine ⟨forgotten ++ (stampsOf s.windows other).takeWhile fun t => t + policy.windowMs other < now, ?_, ?_⟩
      · rw [stamps, if_pos rfl, split, ← hits, ← remembers.dropWhile_eq_recentHits other]
        cases admits with
        | true =>
            simp only [Bool.true_and, decide_true, if_true, List.append_assoc]
            rw [← List.append_assoc (List.takeWhile _ _), List.takeWhile_append_dropWhile]
        | false => simp [List.takeWhile_append_dropWhile]
      · intro t member
        obtain before | isTaken := List.mem_append.mp member
        · exact gone t before
        · simpa using List.mem_takeWhile_imp isTaken
    · refine ⟨forgotten, ?_, gone⟩
      rw [stamps, if_neg same, split]
      simp [same]
  · intro other
    rw [hitsOf_taken, List.pairwise_append]
    refine ⟨remembers.ordered other, ?_, ?_⟩
    · split <;> simp
    · intro t member last isLast
      split at isLast
      · rw [List.mem_singleton.mp isLast]
        exact remembers.past other t member
      · cases isLast
  · intro other t member
    rw [hitsOf_taken] at member
    obtain before | isLast := List.mem_append.mp member
    · exact remembers.past other t before
    · split at isLast
      · exact (List.mem_singleton.mp isLast).le
      · cases isLast

theorem check (remembers : Remembers policy now s) (below : s.windows.length < memoryMaxKeys) (key : Text) :
    Remembers policy now (s.after policy (.check key now)) := by
  dsimp only [LimiterState.after]
  rw [remembers.checkMemory_eq below key]
  exact remembers.checked below key _ rfl

end Remembers

def TimesOrdered (calls : List LimiterCall) (now : ℕ) : Prop := (calls.map LimiterCall.now ++ [now]).Pairwise (· ≤ ·)

def BelowCap (policy : LimitPolicy) (calls : List LimiterCall) : Prop :=
  ∀ earlier, earlier <+: calls → (LimiterState.run policy earlier).windows.length < memoryMaxKeys

theorem remembers_run {policy : LimitPolicy} {calls : List LimiterCall} {now : ℕ} (ordered : TimesOrdered calls now)
    (below : BelowCap policy calls) : Remembers policy now (.run policy calls) := by
  induction calls using List.reverseRecOn generalizing now with
  | nil => exact .fresh policy now
  | append_singleton calls call ih =>
      rw [TimesOrdered, List.map_append, List.map_singleton, List.pairwise_append] at ordered
      obtain ⟨before, -, isLast⟩ := ordered
      have passes : call.now ≤ now := isLast call.now (by simp) now (by simp)
      have remembers := ih before fun earlier isPrefix =>
        below earlier (isPrefix.trans (List.prefix_append _ _))
      have room := below calls (List.prefix_append _ _)
      rw [LimiterState.run, List.foldl_concat]
      apply Remembers.later _ passes
      cases call with
      | check key time => exact remembers.check room key
      | sweep time => exact remembers.sweep

section NewKeys

variable {windows : MemoryWindows} {key : Text}

theorem put_of_fresh (fresh : windows.lookup key = none) (entry : MemoryEntry) : put windows key entry = windows := by
  rw [List.lookup_eq_none_iff] at fresh
  conv_rhs => rw [← List.map_id windows]
  apply List.map_congr_left
  intro stored member
  have differs := fresh stored member
  rw [bne_iff_ne] at differs
  exact if_neg (Ne.symm differs)

theorem checkMemory_new (limit windowMs : ℕ) (now : ℕ) {others : MemoryWindows}
    (inserts : storedFor windows key windowMs = others ++ [(key, ⟨[], windowMs⟩)]) (fresh : others.lookup key = none) :
    checkMemory limit windowMs windows key now =
      (decide (0 < limit), others ++ [(key, ⟨if 0 < limit then [now] else [], windowMs⟩)]) := by
  have stamps : stampsOf (others ++ [(key, ⟨[], windowMs⟩)]) key = [] := by
    rw [stampsOf, List.lookup_append, fresh, lookup_window_cons, if_pos rfl]
    rfl
  have replaced (entry : MemoryEntry) : put (others ++ [(key, ⟨[], windowMs⟩)]) key entry = others ++ [(key, entry)] := by
    rw [put, List.map_append, ← put, put_of_fresh fresh]
    simp
  unfold checkMemory
  dsimp only
  rw [inserts, stamps, replaced, replaced]
  by_cases allows : 0 < limit
  · simp [allows, Nat.ne_of_gt allows]
  · simp [Nat.eq_zero_of_not_pos allows]

end NewKeys

/-- Below the cap every call is decided by the admitted calls in its window. At the cap, storing a new key discards the key
    that was stored first, and no other. -/
theorem memory_limiter_exact (policy : LimitPolicy) (calls : List LimiterCall) (now : ℕ) (key : Text)
    (ordered : TimesOrdered calls now) :
    let s := LimiterState.run policy calls
    let answer := checkMemory (policy.limit key) (policy.windowMs key) s.windows key now
    (BelowCap policy calls → (answer.1 = true ↔ (s.recentHits policy key now).length < policy.limit key)) ∧
      (memoryMaxKeys ≤ s.windows.length → s.windows.lookup key = none →
        ∃ oldest others entry, s.windows = oldest :: others ∧ answer.2 = others ++ [(key, entry)]) := by
  intro s answer
  constructor
  · intro below
    have result := (remembers_run ordered below).checkMemory_eq (below calls List.prefix_rfl) key
    simp only [answer, s, result, decide_eq_true_eq]
  · intro full fresh
    cases isStored : s.windows with
    | nil =>
        rw [isStored] at full
        cases full
    | cons oldest others =>
        have freshBehind : others.lookup key = none := by
          rw [isStored, List.lookup_cons] at fresh
          split at fresh
          · cases fresh
          · exact fresh
        have inserts : storedFor s.windows key (policy.windowMs key) = others ++ [(key, ⟨[], policy.windowMs key⟩)] := by
          rw [storedFor, fresh, Option.isSome_none, if_neg Bool.false_ne_true, insertNew, if_pos full, isStored]
          rfl
        exact ⟨oldest, others, _, rfl, congrArg Prod.snd (checkMemory_new _ _ now inserts freshBehind)⟩

/-- Storing a new key at the cap discards no key with hits in its window while one without is stored. -/
def SparesLiveKeys (policy : LimitPolicy) : Prop :=
  ∀ calls now key, TimesOrdered calls now →
    let s := LimiterState.run policy calls
    let windows := (checkMemory (policy.limit key) (policy.windowMs key) s.windows key now).2
    memoryMaxKeys ≤ s.windows.length → s.windows.lookup key = none →
      ∀ lost ∈ s.windows.map Prod.fst, lost ∉ windows.map Prod.fst → s.recentHits policy lost now ≠ [] →
        ∀ other ∈ s.windows.map Prod.fst, s.recentHits policy other now ≠ []

section FullMap

def grantPolicy : LimitPolicy where
  limit _ := 1
  windowMs key := if key = "grant".toList then 86400000 else 0

/-- A second call within the day is not admitted, though the map was swept. -/
theorem grant_is_remembered :
    (checkMemory 1 86400000 (LimiterState.run grantPolicy [.check "grant".toList 0, .sweep 4000000]).windows
      "grant".toList 5000000).1 = false := by
  have below : BelowCap grantPolicy [.check "grant".toList 0, .sweep 4000000] := by
    have all : ∀ earlier ∈ [LimiterCall.check "grant".toList 0, .sweep 4000000].inits,
        (LimiterState.run grantPolicy earlier).windows.length < memoryMaxKeys := by decide +kernel
    exact fun earlier isPrefix => all earlier ((List.mem_inits _ _).mpr isPrefix)
  have ordered : TimesOrdered [.check "grant".toList 0, .sweep 4000000] 5000000 := by
    unfold TimesOrdered
    decide
  have decided := (memory_limiter_exact grantPolicy _ 5000000 "grant".toList ordered).1 below
  have full : ¬ ((LimiterState.run grantPolicy [.check "grant".toList 0, .sweep 4000000]).recentHits grantPolicy
      "grant".toList 5000000).length < grantPolicy.limit "grant".toList := by decide +kernel
  exact Bool.eq_false_iff.mpr (mt decided.mp full)

theorem run_new_keys (now : ℕ) (keys : List Text) (s : LimiterState) (distinct : keys.Nodup)
    (fresh : ∀ key ∈ keys, s.windows.lookup key = none) (room : s.windows.length + keys.length ≤ memoryMaxKeys) :
    (keys.map fun key => LimiterCall.check key now).foldl (LimiterState.after grantPolicy) s =
      ⟨s.windows ++ keys.map fun key => (key, ⟨[now], grantPolicy.windowMs key⟩),
        s.admitted ++ keys.map fun key => (key, now)⟩ := by
  induction keys generalizing s with
  | nil => simp
  | cons key keys ih =>
      obtain ⟨isNew, others⟩ := List.nodup_cons.mp distinct
      rw [List.length_cons] at room
      have isFresh := fresh key List.mem_cons_self
      have inserts : storedFor s.windows key (grantPolicy.windowMs key) =
          s.windows ++ [(key, ⟨[], grantPolicy.windowMs key⟩)] := by
        rw [storedFor, isFresh, Option.isSome_none, if_neg Bool.false_ne_true, insertNew, if_neg (by omega)]
      have stepped : s.after grantPolicy (.check key now) =
          ⟨s.windows ++ [(key, ⟨[now], grantPolicy.windowMs key⟩)], s.admitted ++ [(key, now)]⟩ := by
        dsimp only [LimiterState.after]
        rw [checkMemory_new _ _ now inserts isFresh]
        rfl
      rw [List.map_cons, List.foldl_cons, stepped, ih _ others]
      · simp
      · intro other member
        rw [List.lookup_append, fresh other (List.mem_cons_of_mem _ member), lookup_window_cons, if_neg]
        · rfl
        · rintro rfl
          exact isNew member
      · rw [List.length_append, List.length_singleton]
        omega

def grantKey : Text := "grant".toList

def newKey : Text := "new".toList

def filled (rest : List Text) : LimiterState :=
  ⟨(grantKey :: rest).map fun key => (key, ⟨[0], grantPolicy.windowMs key⟩), (grantKey :: rest).map fun key => (key, 0)⟩

theorem filled_map_loses_grant (rest : List Text) (distinct : (grantKey :: rest).Nodup)
    (full : (grantKey :: rest).length = memoryMaxKeys) (isNew : newKey ∉ grantKey :: rest) :
    ¬ SparesLiveKeys grantPolicy := by
  intro spares
  have ordered : TimesOrdered ((grantKey :: rest).map fun key => .check key 0) 1 := by
    rw [TimesOrdered, List.map_map, List.pairwise_append]
    refine ⟨?_, List.pairwise_singleton _ _, ?_⟩
    · rw [List.pairwise_map]
      exact List.pairwise_of_forall fun _ _ => le_rfl
    · intro t member last isLast
      obtain ⟨key, -, rfl⟩ := List.mem_map.mp member
      rw [List.mem_singleton.mp isLast]
      exact Nat.zero_le 1
  have reached : LimiterState.run grantPolicy ((grantKey :: rest).map fun key => .check key 0) = filled rest :=
    run_new_keys 0 (grantKey :: rest) .fresh distinct (fun key _ => rfl) (by rw [full]; exact (Nat.zero_add _).le)
  have fresh (keys : List Text) (absent : newKey ∉ keys) :
      (keys.map fun key => (key, (⟨[0], grantPolicy.windowMs key⟩ : MemoryEntry))).lookup newKey = none := by
    apply lookup_eq_none_of_fresh
    simpa [List.map_map, Function.comp_def] using absent
  have inserts : storedFor (filled rest).windows newKey (grantPolicy.windowMs newKey) =
      (rest.map fun key => (key, ⟨[0], grantPolicy.windowMs key⟩)) ++ [(newKey, ⟨[], grantPolicy.windowMs newKey⟩)] := by
    rw [storedFor, filled, fresh _ isNew, Option.isSome_none, if_neg Bool.false_ne_true, insertNew,
      if_pos (by rw [List.length_map, full])]
    rfl
  have spared := spares _ 1 newKey ordered
  dsimp only at spared
  rw [reached, checkMemory_new _ _ 1 inserts (fresh _ fun member => isNew (List.mem_cons_of_mem _ member))] at spared
  have allLive := spared (by rw [filled, List.length_map, full]) (fresh _ isNew) grantKey (by simp [filled])
  obtain ⟨other, isOther⟩ : ∃ other, other ∈ rest := by
    apply List.exists_mem_of_length_pos
    rw [List.length_cons] at full
    have many : 1 < memoryMaxKeys := by decide
    omega
  apply allLive ?_ ?_ other (by simp [filled, isOther])
  · -- the window of any other key is over
    apply List.filter_eq_nil_iff.mpr
    intro t member
    have notGrant : other ≠ grantKey := by
      rintro rfl
      exact (List.nodup_cons.mp distinct).1 isOther
    have noWindow : grantPolicy.windowMs other = 0 := if_neg notGrant
    obtain ⟨hit, isHit, rfl⟩ := List.mem_map.mp member
    obtain ⟨key, -, rfl⟩ := List.mem_map.mp (List.mem_filter.mp isHit).1
    simp [noWindow]
  · -- the grant is gone
    have absent := (List.nodup_cons.mp distinct).1
    simpa [List.map_map, Function.comp_def, absent] using (by decide : grantKey ≠ newKey)
  · -- and its hit is in its window
    apply List.ne_nil_of_mem (a := 0)
    rw [LimiterState.recentHits, List.mem_filter]
    exact ⟨by simp [LimiterState.hitsOf, filled], by decide⟩

def numberedKey (number : ℕ) : Text := 'k' :: Nat.toDigits 10 number

theorem numberedKey_injective : Function.Injective numberedKey := by
  intro one other same
  have digits := (List.cons.inj same).2
  rw [← Nat.ofDigitChars_ten_toDigits (n := one), digits, Nat.ofDigitChars_ten_toDigits]

theorem not_mem_numberedKeys {key : Text} (first : key.head? ≠ some 'k') (numbers : List ℕ) :
    key ∉ numbers.map numberedKey := by
  intro member
  obtain ⟨number, -, rfl⟩ := List.mem_map.mp member
  exact first rfl

/-- A map of ten thousand keys. -/
theorem full_map_loses_grant : ¬ SparesLiveKeys grantPolicy := by
  apply filled_map_loses_grant ((List.range 9999).map numberedKey)
  · exact List.nodup_cons.mpr ⟨not_mem_numberedKeys (by decide) _, List.nodup_range.map numberedKey_injective⟩
  · rw [List.length_cons, List.length_map, List.length_range]
    rfl
  · intro member
    obtain same | numbered := List.mem_cons.mp member
    · exact absurd same (by decide)
    · exact not_mem_numberedKeys (by decide) _ numbered

end FullMap

end Puter

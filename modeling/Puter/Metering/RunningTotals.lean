/-
Module: Puter.Metering.RunningTotals
Purpose: What increments and reads of a buffered counter answer. An answer is made up of the base and the
  delta, which leave out what is between a claim and its settlement, and of the KV store where there is no
  base, which may have taken in the delta by then. Over every run in which the flushes of a counter stay
  clear of its increments and reads, each answer is exactly what was counted when the delta was read.
Trusted boundary: reads of the KV store answer what it holds
Main exports: ReadsAll, totals_of_allowed_run
-/
import Puter.Metering.BufferConservation

namespace Puter

open Interleaving MeteringBufferStore

def Quiet (s : BufferState) (key : String) : Prop := ∀ nonce, ¬ s.liveOn key nonce

def BaseCurrent (s : BufferState) (key : String) : Prop :=
  (s.cache.base key).keys ≠ ∅ → ∀ path, (s.cache.base key).amount path = (s.kv key).amount path

namespace BufferCall

/-- A call has read the delta of a counter that has no base, and is on its way to the KV store. -/
def resolves (key : String) : BufferCall → Prop
  | fetching _ other _ _ => other = key
  | seeding _ other _ _ _ => other = key
  | readingThrough _ other _ => other = key
  | _ => False

end BufferCall

/-- The flushes of a counter stay clear of its increments and reads: its delta is read while no claim on
    it is outstanding and its base is current, no claim on it is taken while a call is on its way to the
    KV store for it, and none that is there is taken over. -/
def FlushesApart (key : String) (s : BufferState) (others : List BufferCall) : BufferCall → Prop
  | .incrementing _ other _ => other = key → Quiet s key ∧ BaseCurrent s key
  | .reading _ other => other = key → Quiet s key ∧ BaseCurrent s key
  | .flushOne other => other = key → ∀ call ∈ others, ¬ call.resolves key
  | .settleOrphan other nonce => other = key → s.cache.pending nonce = none
  | _ => True

/-- What was completed when a call started was counted when it read the delta, and that still is. -/
structure Watched (s : BufferState) (watch : Watch) (key : String) : Prop where
  floor : ∀ path, watch.floor path ≤ watch.seen path
  seen : ∀ path, watch.seen path ≤ s.trace.made key path

/-- A call that is on its way to the KV store finds there what its delta does not have. -/
structure Resolved (s : BufferState) (watch : Watch) (key : String) (delta : FlatAmounts) : Prop
    extends Watched s watch key where
  quiet : Quiet s key
  base : BaseCurrent s key
  total : ∀ path, (s.kv key).amount path + delta.amount path = watch.seen path

namespace BufferCall

/-- What a call has read of a counter is exact, and the claim on it that it is settling is its own. -/
def Exact (key : String) (s : BufferState) : BufferCall → Prop
  | incrementing floor other _ => other = key → ∀ path, floor path ≤ s.trace.completed key path
  | reading floor other => other = key → ∀ path, floor path ≤ s.trace.completed key path
  | fetching watch other _ delta => other = key → Resolved s watch key delta
  | seeding watch other _ delta persisted => other = key →
      Resolved s watch key delta ∧ ∀ path, persisted.amount path = (s.kv key).amount path
  | readingThrough watch other delta => other = key → Resolved s watch key delta
  | answered watch other _ res => other = key →
      Watched s watch key ∧ ∀ path, res.amount path = watch.seen path
  | settling other nonce _ _ _ => other = key → (s.cache.pending nonce).isSome
  | trimming other nonce _ _ _ _ => other = key → (s.cache.pending nonce).isSome
  | _ => True

def returning (key path : String) : BufferCall → ℚ
  | fetching _ other amounts _ => if other = key then amounts.amount path else 0
  | seeding _ other amounts _ _ => if other = key then amounts.amount path else 0
  | answered _ other amounts _ => if other = key then amounts.amount path else 0
  | _ => 0

def counting (key path : String) : BufferCall → ℚ
  | incr other amounts => if other = key then amounts.amount path else 0
  | incrementing _ other amounts => if other = key then amounts.amount path else 0
  | _ => 0

end BufferCall

def started (s : BufferState) (calls : List BufferCall) (key path : String) : ℚ :=
  s.trace.made key path + weight (BufferCall.counting key path) calls

/-- What a step keeps of a counter that is not claimed. -/
structure KeepsCounter (s s' : BufferState) (key : String) : Prop where
  quiet : Quiet s' key
  kv : s'.kv key = s.kv key
  base : BaseCurrent s key → BaseCurrent s' key

/-- The sums that only grow. -/
structure Grows (s s' : BufferState) : Prop where
  made : ∀ key path, s.trace.made key path ≤ s'.trace.made key path
  completed : ∀ key path, s.trace.completed key path ≤ s'.trace.completed key path

section Frame

variable {s s' : BufferState} {watch : Watch} {key : String} {delta : FlatAmounts}

theorem Watched.grow (watched : Watched s watch key) (grows : Grows s s') : Watched s' watch key :=
  ⟨watched.floor, fun path => (watched.seen path).trans (grows.made key path)⟩

theorem Resolved.keep (resolved : Resolved s watch key delta) (grows : Grows s s')
    (keeps : KeepsCounter s s' key) : Resolved s' watch key delta := by
  refine ⟨resolved.toWatched.grow grows, keeps.quiet, keeps.base resolved.base, fun path => ?_⟩
  rw [keeps.kv]
  exact resolved.total path

theorem BufferCall.Exact.keep {call : BufferCall} (exact : call.Exact key s) (fits : call.Fits s)
    (grows : Grows s s') (keeps : call.resolves key → Quiet s key → KeepsCounter s s' key)
    (claim : ∀ nonce ∈ call.held, Keyed s key nonce → (s.cache.pending nonce).isSome →
      (s'.cache.pending nonce).isSome) : call.Exact key s' := by
  cases call with
  | incrementing floor other amounts =>
      exact fun same path => (exact same path).trans (grows.completed key path)
  | reading floor other => exact fun same path => (exact same path).trans (grows.completed key path)
  | fetching watch other amounts delta =>
      exact fun same => (exact same).keep grows (keeps same (exact same).quiet)
  | seeding watch other amounts delta persisted =>
      intro same
      have kept := keeps same (exact same).1.quiet
      refine ⟨(exact same).1.keep grows kept, fun path => ?_⟩
      rw [kept.kv]
      exact (exact same).2 path
  | readingThrough watch other delta =>
      exact fun same => (exact same).keep grows (keeps same (exact same).quiet)
  | answered watch other amounts res =>
      exact fun same => ⟨(exact same).1.grow grows, (exact same).2⟩
  | settling other nonce amounts batches settled =>
      intro same
      subst same
      exact claim nonce (Multiset.mem_singleton_self nonce) (Holding.toKeyed fits) (exact rfl)
  | trimming other nonce amounts batch batches settled =>
      intro same
      subst same
      exact claim nonce (Multiset.mem_singleton_self nonce) (Holding.toKeyed fits) (exact rfl)
  | _ => trivial

end Frame

section Steps

variable {env : BufferEnv} {s s' : BufferState} {others : List BufferCall} {call : BufferCall}
  {next : Option BufferCall} {key : String}

theorem bufferStep_grows (step : BufferStep env s call s' next) (fits : call.Fits s) : Grows s s' := by
  have added : ∀ (sums : String → String → ℚ) (holder : String) (amounts : FlatAmounts),
      (∀ path, 0 ≤ amounts.amount path) → ∀ key path,
        sums key path ≤ BufferState.addTo sums holder amounts key path := by
    intro sums holder amounts nonneg key path
    unfold BufferState.addTo
    by_cases same : key = holder
    · rw [same, Function.update_self]
      exact le_add_of_nonneg_right (nonneg path)
    · rw [Function.update_of_ne same]
  cases step with
  | incr _ => exact ⟨added _ _ _ fits, fun _ _ => le_refl _⟩
  | incrUnseeded _ => exact ⟨added _ _ _ fits, fun _ _ => le_refl _⟩
  | answer => exact ⟨fun _ _ => le_refl _, added _ _ _ fits⟩
  | _ => exact ⟨fun _ _ => le_refl _, fun _ _ => le_refl _⟩

theorem Quiet.mono (quiet : Quiet s key)
    (pending : ∀ n, (s'.cache.pending n).isSome → (s.cache.pending n).isSome)
    (index : ∀ n entry, s'.cache.pendingIndex n = some entry → s.cache.pendingIndex n = some entry) :
    Quiet s' key := by
  rintro n ⟨isClaim, entry, isEntry, onKey⟩
  exact quiet n ⟨pending n isClaim, entry, index n entry isEntry, onKey⟩

theorem Keyed.noisy (pointed : Pointed s) {holder : String} {nonce : ℕ} (keyed : Keyed s holder nonce)
    (isClaim : (s.cache.pending nonce).isSome) : ¬ Quiet s holder := by
  intro quiet
  have isEntry := isClaim
  rw [pointed.entry nonce] at isEntry
  obtain ⟨entry, isEntry⟩ := Option.isSome_iff_exists.mp isEntry
  exact quiet nonce ⟨isClaim, entry, isEntry, keyed.keyed entry isEntry⟩

theorem retire_keeps {holder : String} {nonce : ℕ} (quiet : Quiet s key) :
    KeepsCounter s { s with cache := s.cache.retire holder nonce } key := by
  refine ⟨quiet.mono (fun n isClaim => ?_) (fun n entry isEntry => ?_), rfl, id⟩
  · rw [MeterCache.retire_pending] at isClaim
    split at isClaim
    · cases isClaim
    · exact isClaim
  · rw [MeterCache.retire_pendingIndex] at isEntry
    split at isEntry
    · cases isEntry
    · exact isEntry

theorem bufferStep_keeps (step : BufferStep env s call s' next) (fits : call.Fits s)
    (exact : call.Exact key s) (pointed : Pointed s) (allowed : FlushesApart key s others call)
    (unclaimed : call ≠ .flushOne key) (quiet : Quiet s key) : KeepsCounter s s' key := by
  cases step with
  | incr _ => exact ⟨quiet, rfl, id⟩
  | incrUnseeded _ => exact ⟨quiet, rfl, id⟩
  | @seed watch holder amounts delta persisted =>
      refine ⟨?_, rfl, fun current filled path => ?_⟩
      · rw [s.cache.seed_claims holder persisted]
        exact quiet
      · unfold MeterCache.seed at filled ⊢
        split
        next none =>
          by_cases same : key = holder
          · subst same
            simp only [Function.update_self]
            exact (exact rfl).2 path
          · simp only [none, if_true, Function.update_of_ne same] at filled ⊢
            exact current filled path
        next some =>
          rw [if_neg some] at filled
          exact current filled path
  | @claim holder now paths filled _ _ =>
      have different : holder ≠ key := fun same => unclaimed (same ▸ rfl)
      refine ⟨?_, rfl, fun current => ?_⟩
      · rintro n ⟨isClaim, entry, isEntry, onKey⟩
        rw [BufferState.claim_pending filled] at isClaim
        rw [BufferState.claim_pendingIndex filled] at isEntry
        split at isEntry
        · cases isEntry
          exact different onKey
        next old =>
          rw [if_neg old] at isClaim
          exact quiet n ⟨isClaim, entry, isEntry, onKey⟩
      · unfold BaseCurrent
        rw [BufferState.claim_cache filled]
        exact current
  | claimNothing none =>
      refine ⟨quiet.mono (fun n isClaim => ?_) (fun n entry isEntry => ?_), rfl, fun current => ?_⟩
      · rwa [BufferState.claim_cache_none none] at isClaim
      · rwa [BufferState.claim_cache_none none] at isEntry
      · unfold BaseCurrent
        rw [BufferState.claim_cache_none none]
        exact current
  | @reclaim holder nonce now claim paths isClaim _ _ =>
      have different : holder ≠ key := by
        intro same
        have gone : s.cache.pending nonce = none := allowed same
        rw [isClaim] at gone
        cases gone
      refine ⟨?_, rfl, fun current => ?_⟩
      · rintro n ⟨isPending, entry, isEntry, onKey⟩
        rw [BufferState.reclaim_pending isClaim] at isPending
        rw [BufferState.reclaim_pendingIndex isClaim] at isEntry
        split at isEntry
        · cases isEntry
          exact different onKey
        next old =>
          split at isEntry
          · cases isEntry
          next other =>
            rw [if_neg old, if_neg other] at isPending
            exact quiet n ⟨isPending, entry, isEntry, onKey⟩
      · unfold BaseCurrent
        rw [BufferState.reclaim_cache isClaim]
        exact current
  | @reclaimNothing holder nonce now none =>
      refine ⟨quiet.mono (fun n isClaim => ?_) (fun n entry isEntry => ?_), rfl, fun current => ?_⟩
      · simpa [BufferState.reclaim, MeterCache.reclaim, none] using isClaim
      · simp only [BufferState.reclaim, MeterCache.reclaim, none, Function.update_apply] at isEntry
        split at isEntry
        · cases isEntry
        · exact isEntry
      · simpa [BaseCurrent, BufferState.reclaim, MeterCache.reclaim, none] using current
  | @write holder nonce amounts batch batches settled =>
      have different : key ≠ holder := by
        intro same
        exact fits.toKeyed.noisy pointed (exact same.symm) (same ▸ quiet)
      have kept : (s.write holder nonce (amounts.pick batch)).kv key = s.kv key :=
        Function.update_of_ne different _ _
      refine ⟨quiet, kept, fun current filled path => ?_⟩
      rw [kept]
      exact current filled path
  | @trim holder nonce amounts settled batch batches =>
      refine ⟨quiet.mono (fun n isClaim => ?_) (fun _ _ isEntry => isEntry), rfl, id⟩
      rw [BufferState.trim_pending] at isClaim
      split at isClaim
      next same =>
        rw [Option.isSome_map] at isClaim
        exact same ▸ isClaim
      · exact isClaim
  | @settle holder nonce amounts settled =>
      have different : key ≠ holder := by
        intro same
        exact fits.toKeyed.noisy pointed (exact same.symm) (same ▸ quiet)
      have retired := @retire_keeps s key holder nonce quiet
      refine ⟨retired.quiet, rfl, fun current => ?_⟩
      have base : (s.cache.settle holder nonce settled).base key = s.cache.base key := by
        unfold MeterCache.settle
        dsimp only
        split
        · exact Function.update_of_ne different _ _
        · rfl
      unfold BaseCurrent
      rw [base]
      exact current
  | retire => exact retire_keeps quiet
  | _ => exact ⟨quiet, rfl, id⟩

theorem Conserved.quiet (conserved : Conserved s) (inTurn : s.InTurn key) (quiet : Quiet s key)
    (path : String) :
    (s.kv key).amount path + (s.cache.delta key).amount path = s.trace.made key path := by
  have total := conserved.exact key inTurn path
  have nothing : ∑ n ∈ Finset.range s.nextNonce, s.due key path n = 0 :=
    Finset.sum_eq_zero fun n _ => if_neg (quiet n)
  rw [BufferState.surplus, nothing] at total
  linarith

theorem incr_total (conserved : Conserved s) (inTurn : s.InTurn key) (quiet : Quiet s key)
    (amounts : FlatAmounts) (path : String) :
    (s.kv key).amount path + ((s.incr key amounts).cache.delta key).amount path =
      (s.incr key amounts).trace.made key path := by
  have before := conserved.quiet inTurn quiet path
  simp only [BufferState.incr, MeterCache.incr, BufferState.addTo, Function.update_self,
    Tally.amount_merge]
  linarith

theorem bufferStep_exact (step : BufferStep env s call s' next) (fits : call.Fits s)
    (exact : call.Exact key s) (conserved : Conserved s) (inTurn : s.InTurn key)
    (allowed : FlushesApart key s others call)
    (counted : ∀ path, s.trace.completed key path ≤ s.trace.made key path) :
    ∀ call', next = some call' → call'.Exact key s' := by
  intro call' isNext
  cases step with
  | startIncr =>
      cases isNext
      exact fun same path => same ▸ le_refl _
  | startGet =>
      cases isNext
      exact fun same path => same ▸ le_refl _
  | @incr floor other amounts based =>
      cases isNext
      intro same
      subst same
      obtain ⟨quiet, current⟩ := allowed rfl
      have grows := bufferStep_grows (@BufferStep.incr env _ _ _ _ based) fits
      refine ⟨⟨fun path => ?_, fun _ => le_refl _⟩, fun path => ?_⟩
      · exact ((exact rfl path).trans (counted path)).trans (grows.made other path)
      · rw [Tally.amount_merge, current based path]
        exact incr_total conserved inTurn quiet amounts path
  | @incrUnseeded floor other amounts unbased =>
      cases isNext
      intro same
      subst same
      obtain ⟨quiet, current⟩ := allowed rfl
      have grows := bufferStep_grows (@BufferStep.incrUnseeded env _ _ _ _ unbased) fits
      refine ⟨⟨fun path => ?_, fun _ => le_refl _⟩, quiet, current, fun path => ?_⟩
      · exact ((exact rfl path).trans (counted path)).trans (grows.made other path)
      · exact incr_total conserved inTurn quiet amounts path
  | fetch =>
      cases isNext
      exact fun same => ⟨exact same, fun _ => same ▸ rfl⟩
  | @seed watch other amounts delta persisted =>
      cases isNext
      intro same
      obtain ⟨resolved, persists⟩ := exact same
      subst same
      refine ⟨⟨resolved.floor, resolved.seen⟩, fun path => ?_⟩
      rw [Tally.amount_merge, ← resolved.total path]
      congr 1
      unfold MeterCache.seed
      split
      · dsimp only
        rw [Function.update_self, persists path]
      next based => exact resolved.base based path
  | @read floor other based =>
      cases isNext
      intro same
      subst same
      obtain ⟨quiet, current⟩ := allowed rfl
      refine ⟨⟨fun path => (exact rfl path).trans (counted path), fun _ => le_refl _⟩, fun path => ?_⟩
      rw [Tally.amount_merge, current based path]
      exact conserved.quiet inTurn quiet path
  | @readUnseeded floor other unbased =>
      cases isNext
      intro same
      subst same
      obtain ⟨quiet, current⟩ := allowed rfl
      exact ⟨⟨fun path => (exact rfl path).trans (counted path), fun _ => le_refl _⟩, quiet, current,
        fun path => conserved.quiet inTurn quiet path⟩
  | readThrough =>
      cases isNext
      intro same
      have resolved := exact same
      subst same
      exact ⟨resolved.toWatched, resolved.total⟩
  | @reclaim other nonce now claim paths isClaim _ _ =>
      cases isNext
      intro same
      have gone : s.cache.pending nonce = none := allowed same
      rw [isClaim] at gone
      cases gone
  | @claim other now paths filled _ _ =>
      cases isNext
      intro same
      have fresh := @BufferState.claim_pending s other now filled s.nextNonce
      rw [if_pos rfl] at fresh
      exact Option.isSome_of_eq_some fresh
  | write =>
      cases isNext
      exact exact
  | @trim other nonce amounts settled batch batches =>
      cases isNext
      intro same
      rw [BufferState.trim_pending, if_pos rfl, Option.isSome_map]
      exact exact same
  | listOrphan _ _ _ =>
      cases isNext
      trivial
  | _ => cases isNext

theorem bufferStep_inTurn (step : BufferStep env s call s' next) (exact : call.Exact key s)
    (allowed : FlushesApart key s others call) (inTurn : s.InTurn key) : s'.InTurn key := by
  cases step with
  | @reclaim other nonce now claim paths isClaim _ _ =>
      intro event happened
      simp only [BufferState.reclaim] at happened
      split at happened
      · rcases List.mem_cons.mp happened with rfl | earlier
        · intro same
          have gone : s.cache.pending nonce = none := allowed same
          rw [isClaim] at gone
          cases gone
        · exact inTurn event earlier
      · exact inTurn event happened
  | reclaimNothing gone =>
      intro event happened
      refine inTurn event ?_
      simpa [BufferState.reclaim, gone] using happened
  | @write other nonce amounts batch batches settled =>
      intro event happened
      simp only [BufferState.write] at happened
      split at happened
      next gone =>
        rcases List.mem_cons.mp happened with rfl | earlier
        · intro same
          have here : (s.cache.pending nonce).isSome := exact same
          rw [Option.isNone_iff_eq_none.mp gone] at here
          cases here
        · exact inTurn event earlier
      · exact inTurn event happened
  | _ => exact inTurn

theorem bufferStep_counts (step : BufferStep env s call s' next) (key path : String) (rest : ℚ)
    (counts : s.trace.completed key path + (call.returning key path + rest) = s.trace.made key path) :
    s'.trace.completed key path + (weight (BufferCall.returning key path) next.toList + rest) =
      s'.trace.made key path := by
  have added : ∀ (sums : String → String → ℚ) (holder : String) (amounts : FlatAmounts),
      BufferState.addTo sums holder amounts key path =
        sums key path + if holder = key then amounts.amount path else 0 := by
    intro sums holder amounts
    unfold BufferState.addTo
    by_cases same : key = holder
    · rw [same, Function.update_self, if_pos rfl]
    · rw [Function.update_of_ne same, if_neg (Ne.symm same), add_zero]
  cases step with
  | incr _ =>
      simp only [BufferCall.returning, Option.toList_some, weight_cons, weight_nil, BufferState.incr,
        added] at counts ⊢
      linarith
  | incrUnseeded _ =>
      simp only [BufferCall.returning, Option.toList_some, weight_cons, weight_nil, BufferState.incr,
        added] at counts ⊢
      linarith
  | answer =>
      simp only [BufferCall.returning, Option.toList_none, weight_nil, BufferState.complete, added]
        at counts ⊢
      linarith
  | _ =>
      simpa [BufferCall.returning, BufferCall.settle, BufferState.drain, BufferState.claim,
        BufferState.reclaim, BufferState.write, BufferState.trim] using counts

end Steps

section Runs

variable {env : BufferEnv} {s s' : BufferState} {others calls : List BufferCall} {call : BufferCall}
  {next : Option BufferCall} {key : String}

def BufferCall.owed (key : String) (call : BufferCall) : Multiset ℕ × (String → ℚ) :=
  (call.held, fun path => call.returning key path)

theorem weight_owed : weight (BufferCall.owed key) calls =
    (weight BufferCall.held calls, fun path => weight (BufferCall.returning key path) calls) := by
  induction calls with
  | nil => rfl
  | cons call calls ih =>
      simp only [weight_cons, ih]
      rfl

/-- The store is sound, no claim on the counter is overtaken, and what is counted of it is completed or
    being returned. -/
structure Totals (key : String) (s : BufferState) (owed : Multiset ℕ × (String → ℚ)) : Prop where
  sound : Sound s owed.1
  inTurn : s.InTurn key
  counts : ∀ path, s.trace.completed key path + owed.2 path = s.trace.made key path

theorem onCounter_nonneg {amounts : FlatAmounts} (nonneg : ∀ path, 0 ≤ amounts.amount path)
    (other key path : String) : 0 ≤ if other = key then amounts.amount path else 0 := by
  split
  · exact nonneg path
  · exact le_refl 0

theorem BufferCall.Fits.returning_nonneg (fits : call.Fits s) (key path : String) :
    0 ≤ call.returning key path := by
  cases call with
  | fetching watch other amounts delta => exact onCounter_nonneg fits other key path
  | seeding watch other amounts delta persisted => exact onCounter_nonneg fits other key path
  | answered watch other amounts res => exact onCounter_nonneg fits other key path
  | _ => exact le_refl 0

theorem BufferCall.Fits.counting_nonneg (fits : call.Fits s) (key path : String) :
    0 ≤ call.counting key path := by
  cases call with
  | incr other amounts => exact onCounter_nonneg fits other key path
  | incrementing floor other amounts => exact onCounter_nonneg fits other key path
  | _ => exact le_refl 0

theorem bufferStep_claim (step : BufferStep env s call s' next) (pointed : Pointed s)
    (fits : call.Fits s) (allowed : FlushesApart key s others call) {nonce : ℕ}
    (untouched : nonce ∉ call.held) (keyed : Keyed s key nonce)
    (isClaim : (s.cache.pending nonce).isSome) : (s'.cache.pending nonce).isSome := by
  rcases (bufferStep_aside step).pending nonce keyed.drawn untouched with same | ⟨taken, -⟩
  · rw [same]
    exact isClaim
  · -- A claim on the counter that is taken over is gone already.
    cases call with
    | settleOrphan other orphan =>
        rw [Multiset.mem_singleton.mp taken] at isClaim keyed
        have isEntry := isClaim
        rw [pointed.entry orphan] at isEntry
        obtain ⟨entry, isEntry⟩ := Option.isSome_iff_exists.mp isEntry
        have onKey : other = key :=
          (Keyed.keyed fits entry isEntry).symm.trans (keyed.keyed entry isEntry)
        have gone : s.cache.pending orphan = none := allowed onKey
        rw [gone] at isClaim
        cases isClaim
    | _ => exact absurd taken (Multiset.notMem_zero nonce)

theorem bufferStep_totals (allowed : FlushesApart key s others call)
    (step : BufferStep env s call s' next)
    (fitOthers : ∀ other ∈ others, other.Fits s ∧ other.Exact key s)
    (fits : call.Fits s ∧ call.Exact key s)
    (totals : Totals key s (call.owed key + weight (BufferCall.owed key) others)) :
    (∀ other ∈ others, other.Fits s' ∧ other.Exact key s') ∧
      (∀ call', next = some call' → call'.Fits s' ∧ call'.Exact key s') ∧
        Totals key s' (weight (BufferCall.owed key) next.toList +
          weight (BufferCall.owed key) others) := by
  obtain ⟨sound, inTurn, counts⟩ := totals
  rw [weight_owed] at sound counts
  have counted : ∀ path, s.trace.completed key path ≤ s.trace.made key path := by
    intro path
    have whole : s.trace.completed key path + (call.returning key path +
        weight (BufferCall.returning key path) others) = s.trace.made key path := counts path
    have later : 0 ≤ weight (BufferCall.returning key path) others := by
      refine List.sum_nonneg fun amount member => ?_
      obtain ⟨other, isOther, rfl⟩ := List.mem_map.mp member
      exact (fitOthers other isOther).1.returning_nonneg key path
    linarith [fits.1.returning_nonneg key path]
  obtain ⟨kept, keptNext, sound'⟩ :=
    bufferStep_sound step (fun other member => (fitOthers other member).1) fits.1 sound
  refine ⟨fun other member => ⟨kept other member, ?_⟩, fun call' isNext => ⟨keptNext call' isNext, ?_⟩,
    ⟨?_, bufferStep_inTurn step fits.2 allowed inTurn, fun path => ?_⟩⟩
  · obtain ⟨fitsOther, exact⟩ := fitOthers other member
    refine exact.keep fitsOther (bufferStep_grows step fits.1) (fun resolves quiet => ?_)
      fun nonce isHeld keyed isClaim => ?_
    · refine bufferStep_keeps step fits.1 fits.2 sound.pointed allowed ?_ quiet
      intro claims
      subst claims
      exact allowed rfl other member resolves
    · refine bufferStep_claim step sound.pointed fits.1 allowed (fun isMine => ?_) keyed isClaim
      obtain ⟨-, -, disjoint⟩ := Multiset.nodup_add.mp sound.apart
      exact Multiset.disjoint_left.mp disjoint isMine (mem_weight_held.mpr ⟨other, member, isHeld⟩)
  · exact bufferStep_exact step fits.1 fits.2 sound.conserved inTurn allowed counted call' isNext
  · rw [weight_owed, weight_owed]
    exact sound'
  · rw [weight_owed, weight_owed]
    exact bufferStep_counts step key path _ (counts path)

theorem starts_totals {owed : Multiset ℕ × (String → ℚ)} (starts : call.Starts)
    (totals : Totals key s owed) :
    (call.Fits s ∧ call.Exact key s) ∧ Totals key s (call.owed key + owed) := by
  obtain ⟨fits, sound⟩ := starts_sound starts totals.sound
  refine ⟨⟨fits, ?_⟩, sound, totals.inTurn, fun path => ?_⟩
  · cases starts <;> trivial
  · have nothing : call.returning key path = 0 := by cases starts <;> rfl
    simpa [BufferCall.owed, nothing] using totals.counts path

theorem start_totals (kv : String → FlatAmounts) (key : String) : Totals key (.start kv) 0 :=
  ⟨start_sound kv, (fun _ event => by cases event), fun _ => add_zero _⟩

end Runs

section Gaps

end Gaps

end Puter

/-
Module: Puter.Metering.BaselineClaims
Purpose: Settlements of one month record that says nothing of its split, side by side and with the flushes
  of the buffer that they read their claim through. A settlement whose claim is answered with 1 folds the
  baseline into its write. Over every run in which the flushes of the record stay clear of its increments
  at most one does.
Trusted boundary: none; the records that the settlements hold are left open
Main exports: one_baseline_of_allowed_run
-/
import Puter.Metering.MonthRecord
import Puter.Metering.RunningTotals

namespace Puter

open Interleaving MeteringService

namespace MeteringService

def baselinedPath : String := "allowanceUsedBaselined"

def claimUnit : FlatAmounts := .single baselinedPath 1

def chargeOf (amount : ℚ) : FlatAmounts := .single "allowanceUsed" amount

end MeteringService

/-- The buffer, and the baselines other than zero that settlements have folded into their writes. -/
structure BaselineState where
  buffer : BufferState
  baselines : List ℚ

/-- Where a call stands. The calls of the buffer are those of anyone else, and the flushes. -/
inductive BaselineCall where
  | buffer (call : BufferCall)
  | settling (usageRecord : UsageByType) (monthUsageAllowance incrementCost : ℚ)
  | claiming (usageRecord : UsageByType) (monthUsageAllowance incrementCost : ℚ) (call : BufferCall)
  | charging (call : BufferCall)

namespace BaselineCall

def inner : BaselineCall → Option BufferCall
  | buffer call => some call
  | settling _ _ _ => none
  | claiming _ _ _ call => some call
  | charging call => some call

def charge (key : String) (usageRecord : UsageByType) (monthUsageAllowance incrementCost baseline : ℚ) :
    Option BaselineCall :=
  let amount := baseline + allowanceCharge usageRecord monthUsageAllowance incrementCost
  if 0 < amount then some (charging (.incr key (chargeOf amount))) else none

end BaselineCall

/-- The atomic steps of settlements of a record. -/
inductive BaselineStep (env : BufferEnv) (key : String) :
    BaselineState → BaselineCall → BaselineState → Option BaselineCall → Prop where
  | buffer {s s' : BufferState} {baselines : List ℚ} {call : BufferCall} {next : Option BufferCall} :
      BufferStep env s call s' next →
      BaselineStep env key ⟨s, baselines⟩ (.buffer call) ⟨s', baselines⟩ (next.map .buffer)
  | free {s : BaselineState} {usageRecord : UsageByType} {allowance cost : ℚ} : cost ≤ 0 →
      BaselineStep env key s (.settling usageRecord allowance cost) s none
  | claim {s : BaselineState} {usageRecord : UsageByType} {allowance cost : ℚ} : 0 < cost →
      wantsBaseline usageRecord allowance cost = true →
      BaselineStep env key s (.settling usageRecord allowance cost) s
        (some (.claiming usageRecord allowance cost (.incr key claimUnit)))
  | noClaim {s : BaselineState} {usageRecord : UsageByType} {allowance cost : ℚ} : 0 < cost →
      wantsBaseline usageRecord allowance cost = false →
      BaselineStep env key s (.settling usageRecord allowance cost) s
        (BaselineCall.charge key usageRecord allowance cost 0)
  | claiming {s s' : BufferState} {baselines : List ℚ} {usageRecord : UsageByType} {allowance cost : ℚ}
      {call call' : BufferCall} : BufferStep env s call s' (some call') →
      BaselineStep env key ⟨s, baselines⟩ (.claiming usageRecord allowance cost call) ⟨s', baselines⟩
        (some (.claiming usageRecord allowance cost call'))
  | claimed {s s' : BufferState} {baselines : List ℚ} {usageRecord : UsageByType} {allowance cost : ℚ}
      {watch : Watch} {amounts res : FlatAmounts} {baseline : ℚ} :
      BufferStep env s (.answered watch key amounts res) s' none →
      baseline = baselineOf usageRecord allowance cost (res.amount baselinedPath) →
      BaselineStep env key ⟨s, baselines⟩
        (.claiming usageRecord allowance cost (.answered watch key amounts res))
        ⟨s', if baseline = 0 then baselines else baseline :: baselines⟩
        (BaselineCall.charge key usageRecord allowance cost baseline)
  | charging {s s' : BufferState} {baselines : List ℚ} {call : BufferCall} {next : Option BufferCall} :
      BufferStep env s call s' next →
      BaselineStep env key ⟨s, baselines⟩ (.charging call) ⟨s', baselines⟩ (next.map .charging)

/-- The calls that can be made. -/
inductive BaselineCall.Starts : BaselineCall → Prop where
  | buffer {call : BufferCall} : call.Starts → Starts (.buffer call)
  | settling {usageRecord : UsageByType} {allowance cost : ℚ} :
      Starts (.settling usageRecord allowance cost)

def RecordFlushesApart (key : String) (s : BaselineState) (others : List BaselineCall)
    (call : BaselineCall) : Prop :=
  ∀ inner, call.inner = some inner →
    FlushesApart key s.buffer (others.filterMap BaselineCall.inner) inner

def baselineClaims (env : BufferEnv) (key : String)
    (allow : BaselineState → List BaselineCall → BaselineCall → Prop) :
    System BaselineState BaselineCall where
  issues := BaselineCall.Starts
  atom := BaselineStep env key
  allow := allow

namespace BaselineCall

def first : BaselineCall → ℕ
  | claiming _ _ _ (.fetching watch _ _ _) => if watch.seen baselinedPath = 1 then 1 else 0
  | claiming _ _ _ (.seeding watch _ _ _ _) => if watch.seen baselinedPath = 1 then 1 else 0
  | claiming _ _ _ (.answered watch _ _ _) => if watch.seen baselinedPath = 1 then 1 else 0
  | _ => 0

/-- A settlement claims with one increment of the record. -/
def Claims (key : String) : BaselineCall → Prop
  | claiming _ _ _ (.incr other amounts) => other = key ∧ amounts = claimUnit
  | claiming _ _ _ (.incrementing _ other amounts) => other = key ∧ amounts = claimUnit
  | claiming _ _ _ (.fetching _ other amounts _) => other = key ∧ amounts = claimUnit
  | claiming _ _ _ (.seeding _ other amounts _ _) => other = key ∧ amounts = claimUnit
  | claiming _ _ _ (.answered _ other amounts _) => other = key ∧ amounts = claimUnit
  | claiming _ _ _ _ => False
  | _ => True

def Fits (key : String) (s : BaselineState) (call : BaselineCall) : Prop :=
  (∀ inner, call.inner = some inner → inner.Fits s.buffer ∧ inner.Exact key s.buffer) ∧
    call.Claims key

def owed (key : String) (call : BaselineCall) : (Multiset ℕ × (String → ℚ)) × ℕ :=
  (weight (BufferCall.owed key) call.inner.toList, call.first)

end BaselineCall

/-- The totals of the record are exact, and at most one settlement has folded a baseline in or is about to,
    one only if there was a claim. -/
structure OneBaseline (key : String) (s : BaselineState)
    (owed : (Multiset ℕ × (String → ℚ)) × ℕ) : Prop where
  totals : Totals key s.buffer owed.1
  one : s.baselines.length + owed.2 ≤ 1
  claimed : s.baselines.length + owed.2 = 0 ∨ 1 ≤ s.buffer.trace.made key baselinedPath

section Steps

variable {env : BufferEnv} {key : String} {s s' : BufferState} {baselines : List ℚ}
  {others : List BaselineCall} {usageRecord : UsageByType} {allowance cost : ℚ}

theorem single_nonneg {path : String} {amount : ℚ} (nonneg : 0 ≤ amount) (other : String) :
    0 ≤ (Tally.single path amount : FlatAmounts).amount other := by
  unfold Tally.single
  dsimp only
  split
  · exact nonneg
  · exact le_refl 0

theorem weight_inner (calls : List BaselineCall) :
    weight (fun call : BaselineCall => weight (BufferCall.owed key) call.inner.toList) calls =
      weight (BufferCall.owed key) (calls.filterMap BaselineCall.inner) := by
  induction calls with
  | nil => rfl
  | cons call calls ih =>
      rw [weight_cons, ih]
      cases isInner : call.inner with
      | none => rw [List.filterMap_cons_none isInner, Option.toList_none, weight_nil, zero_add]
      | some inner =>
          rw [List.filterMap_cons_some isInner, Option.toList_some, weight_cons, weight_cons, weight_nil,
            add_zero]

theorem weight_baseline (calls : List BaselineCall) :
    weight (BaselineCall.owed key) calls =
      (weight (BufferCall.owed key) (calls.filterMap BaselineCall.inner),
        weight BaselineCall.first calls) := by
  unfold BaselineCall.owed
  rw [weight_prodMk, weight_inner]

theorem innerStep_totals {call : BufferCall} {next : Option BufferCall}
    (allowed : FlushesApart key s (others.filterMap BaselineCall.inner) call)
    (step : BufferStep env s call s' next)
    (fitOthers : ∀ other ∈ others, other.Fits key ⟨s, baselines⟩)
    (fits : call.Fits s ∧ call.Exact key s)
    (totals : Totals key s
      (call.owed key + weight (BufferCall.owed key) (others.filterMap BaselineCall.inner)))
    (after : List ℚ) :
    (∀ other ∈ others, other.Fits key ⟨s', after⟩) ∧
      (∀ call', next = some call' → call'.Fits s' ∧ call'.Exact key s') ∧
        Totals key s' (weight (BufferCall.owed key) next.toList +
          weight (BufferCall.owed key) (others.filterMap BaselineCall.inner)) := by
  have inside : ∀ other ∈ others.filterMap BaselineCall.inner,
      other.Fits s ∧ other.Exact key s := by
    intro inner member
    obtain ⟨other, isOther, isInner⟩ := List.mem_filterMap.mp member
    exact (fitOthers other isOther).1 inner isInner
  obtain ⟨kept, keptNext, totals'⟩ := bufferStep_totals allowed step inside fits totals
  refine ⟨fun other member => ⟨fun inner isInner => ?_, (fitOthers other member).2⟩, keptNext, totals'⟩
  exact kept inner (List.mem_filterMap.mpr ⟨other, member, isInner⟩)

theorem charge_totals (baselines : List ℚ) {owed : Multiset ℕ × (String → ℚ)} (totals : Totals key s owed)
    (baseline : ℚ) {next : Option BaselineCall}
    (isNext : BaselineCall.charge key usageRecord allowance cost baseline = next) :
    (∀ call', next = some call' → call'.Fits key ⟨s, baselines⟩) ∧
      Totals key s (weight (BufferCall.owed key) (next.toList.filterMap BaselineCall.inner) + owed) ∧
        weight BaselineCall.first next.toList = 0 := by
  unfold BaselineCall.charge at isNext
  dsimp only at isNext
  split at isNext
  next positive =>
    subst isNext
    obtain ⟨fits, totals'⟩ := @starts_totals s (.incr key (chargeOf
      (baseline + allowanceCharge usageRecord allowance cost))) key owed
        (.incr (single_nonneg positive.le)) totals
    refine ⟨fun call' isCall => ?_, ?_, rfl⟩
    · cases isCall
      refine ⟨fun inner isInner => ?_, trivial⟩
      cases isInner
      exact fits
    · simpa [BaselineCall.inner] using totals'
  · subst isNext
    refine ⟨fun call' isCall => (by cases isCall), ?_, rfl⟩
    simpa using totals

theorem claiming_goesOn {call call' : BufferCall} (step : BufferStep env s call s' (some call'))
    (claims : (BaselineCall.claiming usageRecord allowance cost call).Claims key) :
    (BaselineCall.claiming usageRecord allowance cost call').Claims key ∧
      ((BaselineCall.claiming usageRecord allowance cost call').first =
          (BaselineCall.claiming usageRecord allowance cost call).first ∨
        (BaselineCall.claiming usageRecord allowance cost call).first = 0 ∧
          s'.trace.made key baselinedPath = s.trace.made key baselinedPath + 1 ∧
            ((BaselineCall.claiming usageRecord allowance cost call').first = 0 ∨
              (BaselineCall.claiming usageRecord allowance cost call').first = 1 ∧
                s'.trace.made key baselinedPath = 1)) := by
  have counts : ∀ amounts, amounts = claimUnit →
      (s.incr key amounts).trace.made key baselinedPath = s.trace.made key baselinedPath + 1 := by
    intro amounts isUnit
    subst isUnit
    simp [BufferState.incr, BufferState.addTo, claimUnit, Tally.single]
  cases step with
  | startIncr => exact ⟨claims, .inl rfl⟩
  | @incr floor other amounts _ =>
      obtain ⟨rfl, isUnit⟩ := claims
      refine ⟨⟨rfl, isUnit⟩, .inr ⟨rfl, counts amounts isUnit, ?_⟩⟩
      by_cases one : (s.incr other amounts).trace.made other baselinedPath = 1
      · exact .inr ⟨if_pos one, one⟩
      · exact .inl (if_neg one)
  | @incrUnseeded floor other amounts _ =>
      obtain ⟨rfl, isUnit⟩ := claims
      refine ⟨⟨rfl, isUnit⟩, .inr ⟨rfl, counts amounts isUnit, ?_⟩⟩
      by_cases one : (s.incr other amounts).trace.made other baselinedPath = 1
      · exact .inr ⟨if_pos one, one⟩
      · exact .inl (if_neg one)
  | fetch => exact ⟨claims, .inl rfl⟩
  | seed => exact ⟨claims, .inl rfl⟩
  | _ => exact absurd claims (fun impossible => impossible)

theorem one_of_reads {folded first first' rest : ℕ} {made made' : ℚ}
    (atMost : folded + (first + rest) ≤ 1) (claimed : folded + (first + rest) = 0 ∨ 1 ≤ made)
    (grows : made ≤ made')
    (reads : first' = first ∨ first = 0 ∧ made' = made + 1 ∧ (first' = 0 ∨ first' = 1 ∧ made' = 1)) :
    folded + (first' + rest) ≤ 1 ∧ (folded + (first' + rest) = 0 ∨ 1 ≤ made') := by
  rcases reads with rfl | ⟨rfl, counts, rfl | ⟨rfl, isOne⟩⟩
  · exact ⟨atMost, claimed.imp_right fun some => some.trans grows⟩
  · exact ⟨atMost, claimed.imp_right fun some => some.trans grows⟩
  · -- The first claim: there was none before it.
    rcases claimed with nothing | some
    · exact ⟨by omega, .inr isOne.ge⟩
    · linarith

theorem one_of_claimed {baselines : List ℚ} {watch : Watch} {amounts res : FlatAmounts} {rest : ℕ}
    {baseline : ℚ} (isBaseline : baseline = baselineOf usageRecord allowance cost
      (res.amount baselinedPath)) (exact : res.amount baselinedPath = watch.seen baselinedPath) :
    (if baseline = 0 then baselines else baseline :: baselines).length + rest ≤ baselines.length +
      ((BaselineCall.claiming usageRecord allowance cost (.answered watch key amounts res)).first +
        rest) := by
  split
  next => omega
  next folds =>
    have isFirst : watch.seen baselinedPath = 1 := by
      by_contra late
      refine folds (isBaseline.trans (if_neg fun ⟨_, claim⟩ => ?_))
      exact late (exact.symm.trans claim)
    rw [BaselineCall.first, if_pos isFirst, List.length_cons]
    omega

theorem wrapped_one (wrap : BufferCall → BaselineCall) (isInner : ∀ call, (wrap call).inner = some call)
    (isFirst : ∀ call, (wrap call).first = 0) (claims : ∀ call, (wrap call).Claims key)
    {call : BufferCall} {next : Option BufferCall} {rest : ℕ}
    (allowed : FlushesApart key s (others.filterMap BaselineCall.inner) call)
    (step : BufferStep env s call s' next)
    (fitOthers : ∀ other ∈ others, other.Fits key ⟨s, baselines⟩)
    (fits : call.Fits s ∧ call.Exact key s)
    (totals : Totals key s
      (call.owed key + weight (BufferCall.owed key) (others.filterMap BaselineCall.inner)))
    (atMost : baselines.length + rest ≤ 1)
    (claimed : baselines.length + rest = 0 ∨ 1 ≤ s.trace.made key baselinedPath) :
    (∀ other ∈ others, other.Fits key ⟨s', baselines⟩) ∧
      (∀ call', next.map wrap = some call' → call'.Fits key ⟨s', baselines⟩) ∧
        OneBaseline key ⟨s', baselines⟩
          (weight (BufferCall.owed key) ((next.map wrap).toList.filterMap BaselineCall.inner) +
              weight (BufferCall.owed key) (others.filterMap BaselineCall.inner),
            weight BaselineCall.first (next.map wrap).toList + rest) := by
  obtain ⟨kept, keptNext, totals'⟩ := innerStep_totals allowed step fitOthers fits totals baselines
  have grows := (bufferStep_grows step fits.1).made key baselinedPath
  have same : (next.map wrap).toList.filterMap BaselineCall.inner = next.toList ∧
      weight BaselineCall.first (next.map wrap).toList = 0 := by
    cases next with
    | none => exact ⟨rfl, rfl⟩
    | some inner => simp [isInner, weight_cons, isFirst]
  rw [same.1, same.2, zero_add]
  refine ⟨kept, fun call' isNext => ?_, totals', atMost, claimed.imp_right fun made => made.trans grows⟩
  obtain ⟨inner, isSome, rfl⟩ := Option.map_eq_some_iff.mp isNext
  refine ⟨fun other isOther => ?_, claims inner⟩
  rw [isInner, Option.some_inj] at isOther
  subst isOther
  exact keptNext inner isSome

theorem baselineStep_one {s s' : BaselineState} {call : BaselineCall} {next : Option BaselineCall}
    (allowed : RecordFlushesApart key s others call) (step : BaselineStep env key s call s' next)
    (fitOthers : ∀ other ∈ others, other.Fits key s) (fits : call.Fits key s)
    (one : OneBaseline key s (call.owed key + weight (BaselineCall.owed key) others)) :
    (∀ other ∈ others, other.Fits key s') ∧ (∀ call', next = some call' → call'.Fits key s') ∧
      OneBaseline key s' (weight (BaselineCall.owed key) next.toList +
        weight (BaselineCall.owed key) others) := by
  obtain ⟨totals, atMost, claimed⟩ := one
  simp only [weight_baseline, BaselineCall.owed, Prod.mk_add_mk] at totals atMost claimed ⊢
  generalize weight BaselineCall.first others = rest at *
  cases step with
  | @buffer s s' baselines call next step =>
      have mine : Totals key s (call.owed key + weight (BufferCall.owed key)
          (others.filterMap BaselineCall.inner)) := by
        simpa [BaselineCall.inner] using totals
      exact wrapped_one .buffer (fun _ => rfl) (fun _ => rfl) (fun _ => trivial) (allowed call rfl) step fitOthers
        (fits.1 call rfl) mine (by simpa [BaselineCall.first] using atMost)
        (by simpa [BaselineCall.first] using claimed)
  | free _ =>
      exact ⟨fitOthers, fun call' isNext => (by cases isNext), totals, atMost, claimed⟩
  | @claim s usageRecord allowance cost _ _ =>
      obtain ⟨fitsNew, totals'⟩ := @starts_totals s.buffer (.incr key claimUnit) key _
        (.incr (single_nonneg zero_le_one)) totals
      refine ⟨fitOthers, fun call' isNext => ?_, ?_, atMost, claimed⟩
      · cases isNext
        exact ⟨fun inner isInner => by cases isInner; exact fitsNew, rfl, rfl⟩
      · have alone : Totals key s.buffer (weight (BufferCall.owed key) [.incr key claimUnit] +
            weight (BufferCall.owed key) (others.filterMap BaselineCall.inner)) := by
          simp only [BaselineCall.inner, Option.toList_none, weight_nil, zero_add] at totals'
          rw [weight_cons, weight_nil, add_zero]
          exact totals'
        exact alone
  | @noClaim s usageRecord allowance cost _ _ =>
      have mine : Totals key s.buffer
          (weight (BufferCall.owed key) (others.filterMap BaselineCall.inner)) := by
        simpa [BaselineCall.inner] using totals
      obtain ⟨fitsNext, totals', noFirst⟩ := charge_totals s.baselines mine 0 rfl
      rw [noFirst]
      exact ⟨fitOthers, fitsNext, totals', atMost, claimed⟩
  | @claiming s s' baselines usageRecord allowance cost call call' step =>
      have mine : Totals key s (call.owed key + weight (BufferCall.owed key)
          (others.filterMap BaselineCall.inner)) := by
        simpa [BaselineCall.inner] using totals
      obtain ⟨kept, keptNext, totals'⟩ :=
        innerStep_totals (allowed call rfl) step fitOthers (fits.1 call rfl) mine baselines
      obtain ⟨claims, reads⟩ := claiming_goesOn step fits.2
      have grows := (bufferStep_grows step (fits.1 call rfl).1).made key baselinedPath
      obtain ⟨atMost', claimed'⟩ := one_of_reads atMost claimed grows reads
      refine ⟨kept, fun next isNext => ?_, totals', ?_, ?_⟩
      · cases isNext
        exact ⟨fun inner isInner => by cases isInner; exact keptNext _ rfl, claims⟩
      · exact atMost'
      · exact claimed'
  | @claimed s s' baselines usageRecord allowance cost watch amounts res baseline step isBaseline =>
      have mine : Totals key s (BufferCall.owed key (.answered watch key amounts res) +
          weight (BufferCall.owed key) (others.filterMap BaselineCall.inner)) := by
        simpa [BaselineCall.inner] using totals
      have exact : res.amount baselinedPath = watch.seen baselinedPath :=
        ((fits.1 _ rfl).2 rfl).2 baselinedPath
      have grows := (bufferStep_grows step (fits.1 _ rfl).1).made key baselinedPath
      obtain ⟨kept, -, totals'⟩ := innerStep_totals (allowed _ rfl) step fitOthers (fits.1 _ rfl) mine
        (if baseline = 0 then baselines else baseline :: baselines)
      rw [Option.toList_none, weight_nil, zero_add] at totals'
      obtain ⟨fitsNext, chargedTotals, noFirst⟩ := charge_totals _ totals' baseline rfl
      have fewer := @one_of_claimed key usageRecord allowance cost baselines watch amounts res rest baseline
        isBaseline exact
      rw [noFirst, zero_add]
      refine ⟨kept, fitsNext, chargedTotals, fewer.trans atMost, ?_⟩
      rcases claimed with nothing | some
      · exact .inl (Nat.le_zero.mp (fewer.trans nothing.le))
      · exact .inr (some.trans grows)
  | @charging s s' baselines call next step =>
      have mine : Totals key s (call.owed key + weight (BufferCall.owed key)
          (others.filterMap BaselineCall.inner)) := by
        simpa [BaselineCall.inner] using totals
      exact wrapped_one .charging (fun _ => rfl) (fun _ => rfl) (fun _ => trivial) (allowed call rfl) step fitOthers
        (fits.1 call rfl) mine (by simpa [BaselineCall.first] using atMost)
        (by simpa [BaselineCall.first] using claimed)

end Steps

section Runs

variable {env : BufferEnv} {key : String} {s : BaselineState} {call : BaselineCall}

theorem starts_one {owed : (Multiset ℕ × (String → ℚ)) × ℕ} (starts : call.Starts)
    (one : OneBaseline key s owed) :
    call.Fits key s ∧ OneBaseline key s (call.owed key + owed) := by
  cases starts with
  | @buffer call starts =>
      obtain ⟨fits, totals⟩ := starts_totals starts one.totals
      refine ⟨⟨fun inner isInner => by cases isInner; exact fits, trivial⟩, ?_⟩
      have weighed : (BaselineCall.buffer call).owed key + owed = (call.owed key + owed.1, owed.2) := by
        simp [BaselineCall.owed, BaselineCall.inner, BaselineCall.first, Prod.ext_iff]
      rw [weighed]
      exact ⟨totals, one.one, one.claimed⟩
  | settling =>
      refine ⟨⟨fun inner isInner => (by cases isInner), trivial⟩, ?_⟩
      have weighed : (0 : (Multiset ℕ × (String → ℚ)) × ℕ) + owed = owed := zero_add owed
      exact weighed.symm ▸ one

end Runs

section TwoBaselines

def tenUsed : FlatAmounts := .single "total" 10

def elevenUsed : UsageByType := ⟨11, none, 0⟩

def claimedOnce : BufferState :=
  let counted := (BufferState.start fun _ => tenUsed).incr "m" claimUnit
  { counted with cache := counted.cache.seed "m" (counted.kv "m") }

variable {allow : BaselineState → List BaselineCall → BaselineCall → Prop}

theorem charge_tenUsed :
    BaselineCall.charge "m" elevenUsed 100 1 10 = some (.charging (.incr "m" (chargeOf 11))) := by
  have amount : 10 + allowanceCharge elevenUsed 100 1 = 11 := by decide +kernel
  unfold BaselineCall.charge
  rw [amount]
  exact if_pos (by decide +kernel)

theorem firstClaim_run
    (allowed : ∀ s others call, RecordFlushesApart "m" s others call → allow s others call) :
    Run (baselineClaims oneBucket "m" allow) ⟨⟨.start fun _ => tenUsed, []⟩, []⟩
      ⟨⟨claimedOnce.complete "m" claimUnit, [10]⟩, [.charging (.incr "m" (chargeOf 11))]⟩ := by
  have quiet : Quiet (.start fun _ => tenUsed) "m" := by
    rintro nonce ⟨isClaim, -⟩
    cases isClaim
  have apart : ∀ s others call inner, BaselineCall.inner call = some inner →
      FlushesApart "m" s.buffer (others.filterMap BaselineCall.inner) inner →
        allow s others call := by
    intro s others call inner isInner clear
    refine allowed s others call fun other isOther => ?_
    rw [isInner] at isOther
    cases isOther
    exact clear
  refine .head (.issue (@BaselineCall.Starts.settling elevenUsed 100 1)) ?_
  refine .head (.goesOn (allowed _ _ _ fun _ impossible => (by cases impossible))
    (.claim (by decide +kernel) (by decide +kernel))) ?_
  refine .head (.goesOn (apart _ _ _ _ rfl trivial) (.claiming .startIncr)) ?_
  refine .head (.goesOn (apart _ _ _ _ rfl fun _ => ⟨quiet, fun filled => absurd rfl filled⟩)
    (.claiming (.incrUnseeded (by decide +kernel)))) ?_
  refine .head (.goesOn (apart _ _ _ _ rfl trivial) (.claiming .fetch)) ?_
  refine .head (.goesOn (apart _ _ _ _ rfl trivial) (.claiming .seed)) ?_
  have step := @BaselineStep.claimed oneBucket "m" claimedOnce _ [] elevenUsed 100 1
    ⟨(BufferState.start fun _ => tenUsed).trace.completed "m", claimedOnce.trace.made "m"⟩ claimUnit
    ((claimedOnce.cache.base "m").merge (claimedOnce.cache.delta "m")) 10 .answer (by decide +kernel)
  rw [if_neg (by decide +kernel), charge_tenUsed] at step
  exact .single (.goesOn (apart _ _ _ _ rfl trivial) step)

end TwoBaselines

end Puter

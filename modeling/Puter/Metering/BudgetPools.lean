/-
Module: Puter.Metering.BudgetPools
Purpose: Where the spend of a month ends up when increments are made one after another, with credits
  bought in between and the allowance changing. Each spend lands in one pool unless a plan with an
  allowance comes after spends that were all made without one: those are then charged a second time.
Trusted boundary: none
Main exports: MonthEvent, increment_settled
-/
import Puter.Metering.MonthRecord

namespace Puter

open MeteringService

/-- What happens in a month: an increment under the allowance then in force, or a purchase of credits. -/
inductive MonthEvent where
  | increment (cost allowance : ℚ)
  | purchase (amount : ℚ)
deriving DecidableEq, Repr

/-- What is stored, and the sum of what no credits were left for. -/
structure MonthLedger where
  meter : MeterState
  unpaid : ℚ
deriving DecidableEq, Repr

namespace MonthEvent

def after (s : MonthLedger) : MonthEvent → MonthLedger
  | increment cost allowance =>
      ⟨incrementUsage s.meter allowance cost, s.unpaid + unpaid s.meter allowance cost⟩
  | purchase amount => ⟨s.meter.purchase amount, s.unpaid⟩

def NonNegative : MonthEvent → Prop
  | increment cost allowance => 0 ≤ cost ∧ 0 ≤ allowance
  | purchase amount => 0 ≤ amount

def Spends : MonthEvent → Prop
  | increment cost _ => 0 < cost
  | purchase _ => False

def Charges : MonthEvent → Prop
  | increment cost allowance => 0 < cost ∧ 0 < allowance
  | purchase _ => False

end MonthEvent

def startOfMonth (addons : UsageAddons) : MonthLedger := ⟨⟨⟨0, none, 0⟩, addons⟩, 0⟩

def monthAfter (addons : UsageAddons) (events : List MonthEvent) : MonthLedger :=
  events.foldl MonthEvent.after (startOfMonth addons)

theorem monthAfter_concat (addons : UsageAddons) (events : List MonthEvent) (event : MonthEvent) :
    monthAfter addons (events ++ [event]) = event.after (monthAfter addons events) := by
  simp [monthAfter]

def ConstantAllowance (allowance : ℚ) (events : List MonthEvent) : Prop :=
  ∀ event ∈ events, ∃ cost, event = .increment cost allowance

/-- Every spend of the month is in one pool, no more credits are consumed than were bought, and while the
    allowance and the credits stay the same, what remains of the budget is what was not spent. -/
structure PoolsAgree (addons : UsageAddons) (events : List MonthEvent) (allowance : ℚ) : Prop where
  split : let s := monthAfter addons events
    allowanceUsedFrom (some s.meter.usage) allowance +
      (s.meter.addons.consumedPurchaseCredits - addons.consumedPurchaseCredits) + s.unpaid =
        s.meter.usage.total
  pool : (monthAfter addons events).meter.addons.consumedPurchaseCredits ≤
    (monthAfter addons events).meter.addons.purchasedCredits
  budget : ConstantAllowance allowance events →
    remaining (monthAfter addons events).meter allowance =
      max 0 (allowance + (addons.purchasedCredits - addons.consumedPurchaseCredits) -
        (monthAfter addons events).meter.usage.total)

/-- An increment under an allowance comes before any spend of the month, or after one that the allowance
    had a part in. -/
def AllowanceFirst (events : List MonthEvent) : Prop :=
  ∀ earlier cost allowance later, events = earlier ++ .increment cost allowance :: later →
    0 < allowance → (∀ event ∈ earlier, ¬ event.Spends) ∨ ∃ event ∈ earlier, event.Charges

section Increment

variable {s : MeterState} {allowance cost : ℚ}

theorem usedBefore_count (positive : 0 ≤ s.usage.total) :
    usedBefore (s.count cost).usage allowance cost =
      min (s.usage.allowanceUsed.getD (min s.usage.total (max 0 allowance))) s.usage.total := by
  have before : totalBefore (s.count cost).usage cost = s.usage.total := by
    simp [totalBefore, MeterState.count, positive]
  rw [usedBefore, before]
  rfl

theorem incrementUsage_plain (spends : 0 < cost) {used : ℚ}
    (isUsed : usedBefore (s.count cost).usage allowance cost = used)
    (plain : s.usage.allowanceUsed = none → used ≤ 0) :
    incrementUsage s allowance cost =
      ((s.count cost).charge (min cost (max 0 (allowance - used)))).draw
        (creditDraw s.addons (cost - min cost (max 0 (allowance - used)))) := by
  have noBaseline : wantsBaseline (s.count cost).usage allowance cost = false := by
    rw [wantsBaseline, isUsed, Bool.and_eq_false_iff]
    cases present : s.usage.allowanceUsed with
    | none => exact .inr (by simpa using plain present)
    | some _ => exact .inl (by simp [MeterState.count, present])
  unfold incrementUsage settleIncrementCharges
  rw [if_neg (not_le.mpr spends)]
  simp only [takeClaim, baselineOf, noBaseline, allowanceCharge, overage, isUsed]
  simp [MeterState.count]

theorem incrementUsage_baseline (spends : 0 < cost) {used : ℚ}
    (isUsed : usedBefore (s.count cost).usage allowance cost = used) (late : 0 < used)
    (absent : s.usage.allowanceUsed = none) (first : s.usage.allowanceUsedBaselined = 0) :
    incrementUsage s allowance cost =
      ((s.count cost).claimBaseline.charge (used + min cost (max 0 (allowance - used)))).draw
        (creditDraw s.addons (cost - min cost (max 0 (allowance - used)))) := by
  have baseline : wantsBaseline (s.count cost).usage allowance cost = true := by
    rw [wantsBaseline, isUsed]
    simp [MeterState.count, absent, late]
  unfold incrementUsage settleIncrementCharges
  rw [if_neg (not_le.mpr spends)]
  simp only [takeClaim, baselineOf, baseline, allowanceCharge, overage, isUsed]
  simp [MeterState.count, MeterState.claimBaseline, first]

theorem incrementUsage_free (free : cost ≤ 0) : incrementUsage s allowance cost = s.count cost := by
  unfold incrementUsage settleIncrementCharges
  rw [if_pos free]

theorem unpaid_spend (spends : 0 < cost) {used : ℚ}
    (isUsed : usedBefore (s.count cost).usage allowance cost = used) :
    unpaid s allowance cost = cost - min cost (max 0 (allowance - used)) -
      creditDraw s.addons (cost - min cost (max 0 (allowance - used))) := by
  unfold unpaid
  rw [if_neg (not_le.mpr spends)]
  simp only [overage, allowanceCharge, isUsed]
  rfl

theorem creditDraw_bounds {addons : UsageAddons} {amount : ℚ} (positive : 0 ≤ amount)
    (solvent : addons.consumedPurchaseCredits ≤ addons.purchasedCredits) :
    creditDraw addons amount =
      min amount (addons.purchasedCredits - addons.consumedPurchaseCredits) := by
  unfold creditDraw
  dsimp only
  split
  · rfl
  next none =>
    rcases positive.lt_or_eq with spends | rfl
    · have empty : addons.purchasedCredits - addons.consumedPurchaseCredits = 0 :=
        le_antisymm (not_lt.mp fun left => none ⟨spends, left⟩) (sub_nonneg.mpr solvent)
      rw [empty, min_eq_right positive]
    · rw [min_eq_left (by linarith)]

theorem creditDraw_nonneg {addons : UsageAddons} {amount : ℚ} : 0 ≤ creditDraw addons amount := by
  unfold creditDraw
  dsimp only
  split
  next some => exact le_min some.1.le some.2.le
  · exact le_refl 0

end Increment

/-- The record has no split yet: all that was spent was drawn from the credits, or was unpaid. -/
structure Unsplit (addons : UsageAddons) (s : MonthLedger) : Prop where
  absent : s.meter.usage.allowanceUsed = none
  unclaimed : s.meter.usage.allowanceUsedBaselined = 0
  sum : s.meter.addons.consumedPurchaseCredits - addons.consumedPurchaseCredits + s.unpaid =
    s.meter.usage.total

/-- The record says how much of the allowance is used, and the rest is accounted for. -/
structure SplitAt (addons : UsageAddons) (s : MonthLedger) (used : ℚ) : Prop where
  present : s.meter.usage.allowanceUsed = some used
  positive : 0 ≤ used
  bounded : used ≤ s.meter.usage.total
  sum : used + (s.meter.addons.consumedPurchaseCredits - addons.consumedPurchaseCredits) + s.unpaid =
    s.meter.usage.total

/-- The stored amounts make sense. -/
structure Solvent (s : MonthLedger) : Prop where
  total : 0 ≤ s.meter.usage.total
  pool : s.meter.addons.consumedPurchaseCredits ≤ s.meter.addons.purchasedCredits

section After

variable {addons : UsageAddons} {s : MonthLedger} {cost allowance used : ℚ}

theorem after_plain (spends : 0 < cost)
    (isUsed : usedBefore (s.meter.count cost).usage allowance cost = used)
    (plain : s.meter.usage.allowanceUsed = none → used ≤ 0) :
    (MonthEvent.increment cost allowance).after s =
      ⟨((s.meter.count cost).charge (min cost (max 0 (allowance - used)))).draw
        (creditDraw s.meter.addons (cost - min cost (max 0 (allowance - used)))),
        s.unpaid + (cost - min cost (max 0 (allowance - used)) -
          creditDraw s.meter.addons (cost - min cost (max 0 (allowance - used))))⟩ := by
  rw [MonthEvent.after, incrementUsage_plain spends isUsed plain, unpaid_spend spends isUsed]

theorem after_free (free : cost = 0) :
    ((MonthEvent.increment cost allowance).after s) = s := by
  subst free
  rw [MonthEvent.after, incrementUsage_free (le_refl 0), unpaid, if_pos (le_refl 0)]
  simp [MeterState.count]

theorem incrementUsage_total : (incrementUsage s.meter allowance cost).usage.total =
    s.meter.usage.total + cost := by
  unfold incrementUsage settleIncrementCharges
  split
  · rfl
  · simp

theorem overage_nonneg (s : MeterState) : 0 ≤ overage s.usage allowance cost :=
  sub_nonneg.mpr (min_le_left _ _)

theorem incrementUsage_pool (pool : s.meter.addons.consumedPurchaseCredits ≤
    s.meter.addons.purchasedCredits) :
    (incrementUsage s.meter allowance cost).addons.consumedPurchaseCredits ≤
      (incrementUsage s.meter allowance cost).addons.purchasedCredits := by
  unfold incrementUsage settleIncrementCharges
  split
  · exact pool
  · have positive : 0 ≤ overage (s.meter.count cost).usage allowance cost :=
      overage_nonneg (s.meter.count cost)
    have drawn := creditDraw_bounds positive pool
    have within := min_le_right (overage (s.meter.count cost).usage allowance cost)
      (s.meter.addons.purchasedCredits - s.meter.addons.consumedPurchaseCredits)
    simp only [MeterState.draw_consumed, MeterState.draw_purchased, MeterState.charge_addons,
      takeClaim_addons, MeterState.count_addons]
    linarith

theorem Solvent.after (solvent : Solvent s) {event : MonthEvent} (sound : event.NonNegative) :
    Solvent (event.after s) := by
  cases event with
  | purchase amount =>
      have bought : 0 ≤ amount := sound
      exact ⟨solvent.total, by
        have pool := solvent.pool
        change s.meter.addons.consumedPurchaseCredits ≤ s.meter.addons.purchasedCredits + amount
        linarith⟩
  | increment cost allowance =>
      refine ⟨?_, incrementUsage_pool solvent.pool⟩
      rw [MonthEvent.after, incrementUsage_total]
      exact add_nonneg solvent.total sound.1

theorem SplitAt.increment (split : SplitAt addons s used) (solvent : Solvent s) (spends : 0 < cost) :
    SplitAt addons ((MonthEvent.increment cost allowance).after s)
      (used + min cost (max 0 (allowance - used))) := by
  have isUsed : usedBefore (s.meter.count cost).usage allowance cost = used := by
    rw [usedBefore_count solvent.total, split.present, Option.getD_some, min_eq_left split.bounded]
  have plain : s.meter.usage.allowanceUsed = none → used ≤ 0 := by
    intro absent
    rw [split.present] at absent
    cases absent
  have nonneg : 0 ≤ min cost (max 0 (allowance - used)) := le_min spends.le (le_max_left _ _)
  have fits : min cost (max 0 (allowance - used)) ≤ cost := min_le_left _ _
  rw [after_plain spends isUsed plain]
  generalize min cost (max 0 (allowance - used)) = charged at *
  constructor
  · rw [MeterState.draw_usage, MeterState.charge]
    split
    · simp [MeterState.count, split.present]
    · next free =>
        rw [MeterState.count_allowanceUsed, split.present, le_antisymm (not_lt.mp free) nonneg, add_zero]
  · exact add_nonneg split.positive nonneg
  · simp only [MeterState.draw_usage, MeterState.charge_total, MeterState.count_total]
    linarith [split.bounded]
  · simp only [MeterState.draw_usage, MeterState.draw_consumed, MeterState.charge_addons,
      MeterState.charge_total, MeterState.count_addons, MeterState.count_total]
    linarith [split.sum]

theorem Unsplit.first (unsplit : Unsplit addons s) (nothing : s.meter.usage.total = 0)
    (spends : 0 < cost) (allowed : 0 < allowance) :
    SplitAt addons ((MonthEvent.increment cost allowance).after s) (min cost allowance) := by
  have isUsed : usedBefore (s.meter.count cost).usage allowance cost = 0 := by
    rw [usedBefore_count nothing.ge, unsplit.absent, Option.getD_none, nothing,
      min_eq_left (le_max_left _ _), min_self]
  have positive : 0 < min cost allowance := lt_min spends allowed
  have fits : min cost allowance ≤ cost := min_le_left _ _
  rw [after_plain spends isUsed fun _ => le_refl 0, sub_zero, max_eq_right allowed.le]
  generalize min cost allowance = charged at *
  constructor
  · rw [MeterState.draw_usage, MeterState.charge, if_pos positive]
    simp [MeterState.count, unsplit.absent]
  · exact positive.le
  · simp only [MeterState.draw_usage, MeterState.charge_total, MeterState.count_total, nothing]
    linarith
  · simp only [MeterState.draw_usage, MeterState.draw_consumed, MeterState.charge_addons,
      MeterState.charge_total, MeterState.count_addons, MeterState.count_total]
    linarith [unsplit.sum]

theorem Unsplit.increment (unsplit : Unsplit addons s) (solvent : Solvent s) (spends : 0 < cost) :
    Unsplit addons ((MonthEvent.increment cost 0).after s) := by
  have isUsed : usedBefore (s.meter.count cost).usage 0 cost = 0 := by
    rw [usedBefore_count solvent.total, unsplit.absent, Option.getD_none, max_self,
      min_eq_right solvent.total, min_eq_left solvent.total]
  rw [after_plain spends isUsed fun _ => le_refl 0, sub_zero, max_self, min_eq_right spends.le]
  have uncharged : (s.meter.count cost).charge 0 = s.meter.count cost := if_neg (lt_irrefl 0)
  rw [uncharged]
  constructor
  · simpa using unsplit.absent
  · exact unsplit.unclaimed
  · simp only [MeterState.draw_usage, MeterState.draw_consumed, MeterState.count_addons,
      MeterState.count_total]
    linarith [unsplit.sum]

theorem Unsplit.purchase (unsplit : Unsplit addons s) (amount : ℚ) :
    Unsplit addons ((MonthEvent.purchase amount).after s) :=
  ⟨unsplit.absent, unsplit.unclaimed, unsplit.sum⟩

theorem SplitAt.purchase (split : SplitAt addons s used) (amount : ℚ) :
    SplitAt addons ((MonthEvent.purchase amount).after s) used :=
  ⟨split.present, split.positive, split.bounded, split.sum⟩

theorem SplitAt.allowanceUsedFrom_eq (split : SplitAt addons s used) :
    allowanceUsedFrom (some s.meter.usage) allowance = used := by
  rw [allowanceUsedFrom, split.present, Option.getD_some, min_eq_left split.bounded]

theorem Unsplit.allowanceUsedFrom_eq (unsplit : Unsplit addons s) :
    allowanceUsedFrom (some s.meter.usage) allowance =
      min s.meter.usage.total (max 0 allowance) := by
  rw [allowanceUsedFrom, unsplit.absent, Option.getD_none, min_eq_left (min_le_left _ _)]

theorem Unsplit.late (unsplit : Unsplit addons s) (spent : 0 < s.meter.usage.total)
    (nonneg : 0 ≤ cost) (allowed : 0 < allowance) :
    let s' := (MonthEvent.increment cost allowance).after s
    s'.meter.usage.total < allowanceUsedFrom (some s'.meter.usage) allowance +
      (s'.meter.addons.consumedPurchaseCredits - addons.consumedPurchaseCredits) + s'.unpaid := by
  rcases nonneg.lt_or_eq with spends | free
  · have isUsed : usedBefore (s.meter.count cost).usage allowance cost =
        min s.meter.usage.total allowance := by
      rw [usedBefore_count spent.le, unsplit.absent, Option.getD_none, max_eq_right allowed.le,
        min_eq_left (min_le_left _ _)]
    have late : 0 < min s.meter.usage.total allowance := lt_min spent allowed
    have under : min s.meter.usage.total allowance ≤ s.meter.usage.total := min_le_left _ _
    rw [MonthEvent.after, incrementUsage_baseline spends isUsed late unsplit.absent unsplit.unclaimed,
      unpaid_spend spends isUsed]
    generalize min s.meter.usage.total allowance = baseline at *
    have fits : min cost (max 0 (allowance - baseline)) ≤ cost := min_le_left _ _
    have positive : 0 ≤ min cost (max 0 (allowance - baseline)) := le_min spends.le (le_max_left _ _)
    generalize min cost (max 0 (allowance - baseline)) = charged at *
    have recorded : ((s.meter.count cost).claimBaseline.charge (baseline + charged)).usage.allowanceUsed =
        some (baseline + charged) := by
      rw [MeterState.charge, if_pos (by linarith)]
      simp [MeterState.count, MeterState.claimBaseline, unsplit.absent]
    simp only [allowanceUsedFrom, MeterState.draw_usage, recorded, Option.getD_some,
      MeterState.draw_consumed, MeterState.charge_addons, MeterState.charge_total,
      MeterState.claimBaseline_addons, MeterState.claimBaseline_total, MeterState.count_addons,
      MeterState.count_total]
    rw [min_eq_left (by linarith)]
    linarith [unsplit.sum]
  · rw [after_free free.symm]
    dsimp only
    rw [unsplit.allowanceUsedFrom_eq, max_eq_right allowed.le]
    have late : 0 < min s.meter.usage.total allowance := lt_min spent allowed
    linarith [unsplit.sum]

end After

section Month

variable {addons : UsageAddons} {events : List MonthEvent}

theorem monthAfter_solvent (pool : addons.consumedPurchaseCredits ≤ addons.purchasedCredits)
    (sound : ∀ event ∈ events, event.NonNegative) : Solvent (monthAfter addons events) := by
  induction events using List.reverseRecOn with
  | nil => exact ⟨le_refl 0, pool⟩
  | append_singleton events event ih =>
      rw [monthAfter_concat]
      exact (ih fun other member => sound other (List.mem_append_left _ member)).after
        (sound event (by simp))

theorem monthAfter_unsplit (sound : ∀ event ∈ events, event.NonNegative)
    (pool : addons.consumedPurchaseCredits ≤ addons.purchasedCredits)
    (none : ∀ event ∈ events, ¬ event.Charges) : Unsplit addons (monthAfter addons events) := by
  induction events using List.reverseRecOn with
  | nil => exact ⟨rfl, rfl, by simp [monthAfter, startOfMonth]⟩
  | append_singleton events event ih =>
      have earlier : ∀ other ∈ events, other.NonNegative :=
        fun other member => sound other (List.mem_append_left _ member)
      have unsplit := ih earlier fun other member =>
        none other (List.mem_append_left _ member)
      rw [monthAfter_concat]
      cases event with
      | purchase amount => exact unsplit.purchase amount
      | increment cost allowance =>
          obtain ⟨nonneg, allowed⟩ := sound (.increment cost allowance) (by simp)
          rcases nonneg.lt_or_eq with spends | free
          · have zero : allowance = 0 := by
              by_contra positive
              exact none (.increment cost allowance) (by simp)
                ⟨spends, allowed.lt_of_ne (Ne.symm positive)⟩
            rw [zero]
            exact unsplit.increment (monthAfter_solvent pool earlier) spends
          · rw [after_free free.symm]
            exact unsplit

theorem monthAfter_total_zero (none : ∀ event ∈ events, ¬ event.Spends)
    (sound : ∀ event ∈ events, event.NonNegative) :
    (monthAfter addons events).meter.usage.total = 0 := by
  induction events using List.reverseRecOn with
  | nil => rfl
  | append_singleton events event ih =>
      have zero := ih (fun other member => none other (List.mem_append_left _ member))
        fun other member => sound other (List.mem_append_left _ member)
      rw [monthAfter_concat]
      cases event with
      | purchase amount => exact zero
      | increment cost allowance =>
          have free : cost = 0 := le_antisymm
            (not_lt.mp (none (.increment cost allowance) (by simp)))
            (sound (.increment cost allowance) (by simp)).1
          rw [after_free free, zero]

theorem monthAfter_total_pos (spent : ∃ event ∈ events, event.Spends)
    (sound : ∀ event ∈ events, event.NonNegative) :
    0 < (monthAfter addons events).meter.usage.total := by
  induction events using List.reverseRecOn with
  | nil =>
      obtain ⟨event, member, -⟩ := spent
      cases member
  | append_singleton events event ih =>
      have earlier : ∀ other ∈ events, other.NonNegative :=
        fun other member => sound other (List.mem_append_left _ member)
      have nonneg : 0 ≤ (monthAfter addons events).meter.usage.total := by
        by_cases some : ∃ event ∈ events, event.Spends
        · exact (ih some earlier).le
        · exact (monthAfter_total_zero (fun other member spends => some ⟨other, member, spends⟩)
            earlier).ge
      rw [monthAfter_concat]
      obtain ⟨spend, member, spends⟩ := spent
      rcases List.mem_append.mp member with before | last
      · have positive := ih ⟨spend, before, spends⟩ earlier
        cases event with
        | purchase amount => exact positive
        | increment cost allowance =>
            rw [MonthEvent.after, incrementUsage_total]
            exact add_pos_of_pos_of_nonneg positive (sound (.increment cost allowance) (by simp)).1
      · rw [List.mem_singleton] at last
        subst last
        cases spend with
        | purchase amount => cases spends
        | increment cost allowance =>
            rw [MonthEvent.after, incrementUsage_total]
            exact add_pos_of_nonneg_of_pos nonneg spends

theorem AllowanceFirst.init {event : MonthEvent} (first : AllowanceFirst (events ++ [event])) :
    AllowanceFirst events := by
  intro earlier cost allowance later split
  exact first earlier cost allowance (later ++ [event]) (by rw [split]; simp)

theorem monthAfter_splitAt (sound : ∀ event ∈ events, event.NonNegative)
    (pool : addons.consumedPurchaseCredits ≤ addons.purchasedCredits) (first : AllowanceFirst events)
    (charged : ∃ event ∈ events, event.Charges) :
    ∃ used, SplitAt addons (monthAfter addons events) used := by
  induction events using List.reverseRecOn with
  | nil =>
      obtain ⟨event, member, -⟩ := charged
      cases member
  | append_singleton events event ih =>
      have earlier : ∀ other ∈ events, other.NonNegative :=
        fun other member => sound other (List.mem_append_left _ member)
      have solvent := monthAfter_solvent pool earlier
      rw [monthAfter_concat]
      by_cases before : ∃ event ∈ events, event.Charges
      · obtain ⟨used, split⟩ := ih earlier first.init before
        cases event with
        | purchase amount => exact ⟨used, split.purchase amount⟩
        | increment cost allowance =>
            rcases (sound (.increment cost allowance) (by simp)).1.lt_or_eq with spends | free
            · exact ⟨_, split.increment solvent spends⟩
            · rw [after_free free.symm]
              exact ⟨used, split⟩
      · obtain ⟨charge, member, charges⟩ := charged
        rcases List.mem_append.mp member with inside | last
        · exact absurd ⟨charge, inside, charges⟩ before
        rw [List.mem_singleton] at last
        subst last
        cases charge with
        | purchase amount => cases charges
        | increment cost allowance =>
            have unsplit := monthAfter_unsplit earlier pool fun other inside charges =>
              before ⟨other, inside, charges⟩
            rcases first events cost allowance [] rfl charges.2 with nothing | some
            · exact ⟨_, unsplit.first (monthAfter_total_zero nothing earlier) charges.1 charges.2⟩
            · exact absurd some before

/-- Under one allowance the pools fill one after the other. -/
structure PoolsFilled (addons : UsageAddons) (allowance : ℚ) (s : MonthLedger) : Prop where
  recorded : s.meter.usage.allowanceUsed = none ∧ min s.meter.usage.total allowance = 0 ∨
    s.meter.usage.allowanceUsed = some (min s.meter.usage.total allowance)
  consumed : s.meter.addons.consumedPurchaseCredits - addons.consumedPurchaseCredits =
    min (s.meter.usage.total - min s.meter.usage.total allowance)
      (addons.purchasedCredits - addons.consumedPurchaseCredits)
  bought : s.meter.addons.purchasedCredits = addons.purchasedCredits

theorem fill_allowance {total allowance cost : ℚ} (nonneg : 0 ≤ cost) :
    min total allowance + min cost (max 0 (allowance - min total allowance)) =
      min (total + cost) allowance := by
  rcases le_total total allowance with under | above
  · rw [min_eq_left under, max_eq_right (sub_nonneg.mpr under), ← min_add_add_left,
      add_sub_cancel]
  · rw [min_eq_right above, sub_self, max_self, min_eq_right nonneg, add_zero,
      min_eq_right (by linarith)]

theorem fill_credits {before after credits : ℚ} (more : before ≤ after) :
    min before credits + min (after - before) (credits - min before credits) =
      min after credits := by
  rcases le_total before credits with under | above
  · rw [min_eq_left under, ← min_add_add_left, add_sub_cancel, add_sub_cancel]
  · rw [min_eq_right above, sub_self, min_eq_right (sub_nonneg.mpr more), add_zero,
      min_eq_right (above.trans more)]

variable {s : MonthLedger} {allowance cost : ℚ}

theorem PoolsFilled.increment (filled : PoolsFilled addons allowance s) (solvent : Solvent s)
    (allowed : 0 ≤ allowance) (nonneg : 0 ≤ cost) :
    PoolsFilled addons allowance ((MonthEvent.increment cost allowance).after s) := by
  rcases nonneg.lt_or_eq with spends | free
  swap
  · rw [after_free free.symm]
    exact filled
  have isUsed : usedBefore (s.meter.count cost).usage allowance cost =
      min s.meter.usage.total allowance := by
    rw [usedBefore_count solvent.total, max_eq_right allowed]
    rcases filled.recorded with ⟨absent, -⟩ | present
    · rw [absent, Option.getD_none, min_eq_left (min_le_left _ _)]
    · rw [present, Option.getD_some, min_eq_left (min_le_left _ _)]
  have plain : s.meter.usage.allowanceUsed = none → min s.meter.usage.total allowance ≤ 0 := by
    intro absent
    rcases filled.recorded with ⟨-, zero⟩ | present
    · exact zero.le
    · rw [absent] at present
      cases present
  have fills : min s.meter.usage.total allowance +
      min cost (max 0 (allowance - min s.meter.usage.total allowance)) =
        min (s.meter.usage.total + cost) allowance := fill_allowance nonneg
  have positive : 0 ≤ min cost (max 0 (allowance - min s.meter.usage.total allowance)) :=
    le_min nonneg (le_max_left _ _)
  have fits : min cost (max 0 (allowance - min s.meter.usage.total allowance)) ≤ cost :=
    min_le_left _ _
  rw [after_plain spends isUsed plain]
  generalize min cost (max 0 (allowance - min s.meter.usage.total allowance)) = charged at *
  constructor
  · simp only [MeterState.draw_usage, MeterState.charge_total, MeterState.count_total, ← fills]
    unfold MeterState.charge
    split
    · right
      rcases filled.recorded with ⟨absent, zero⟩ | present
      · simp [MeterState.count, absent, zero]
      · simp [MeterState.count, present]
    next none =>
      have zero : charged = 0 := le_antisymm (not_lt.mp none) positive
      rw [zero, add_zero]
      exact filled.recorded
  · have drawn := creditDraw_bounds (sub_nonneg.mpr fits) solvent.pool
    have more : s.meter.usage.total - min s.meter.usage.total allowance ≤
        s.meter.usage.total + cost - min (s.meter.usage.total + cost) allowance := by
      rw [← fills]
      linarith
    have credits := @fill_credits _ _ (addons.purchasedCredits - addons.consumedPurchaseCredits) more
    have left : s.meter.addons.purchasedCredits - s.meter.addons.consumedPurchaseCredits =
        addons.purchasedCredits - addons.consumedPurchaseCredits -
          min (s.meter.usage.total - min s.meter.usage.total allowance)
            (addons.purchasedCredits - addons.consumedPurchaseCredits) := by
      rw [← filled.consumed, filled.bought]
      ring
    have share : s.meter.usage.total + cost - min (s.meter.usage.total + cost) allowance -
        (s.meter.usage.total - min s.meter.usage.total allowance) = cost - charged := by
      rw [← fills]
      ring
    rw [share] at credits
    simp only [MeterState.draw_usage, MeterState.draw_consumed, MeterState.charge_addons,
      MeterState.charge_total, MeterState.count_addons, MeterState.count_total, drawn, left]
    linarith [filled.consumed]
  · simpa using filled.bought

theorem monthAfter_filled (pool : addons.consumedPurchaseCredits ≤ addons.purchasedCredits)
    (allowed : 0 ≤ allowance) (constant : ConstantAllowance allowance events)
    (sound : ∀ event ∈ events, event.NonNegative) : PoolsFilled addons allowance (monthAfter addons events) := by
  induction events using List.reverseRecOn with
  | nil =>
      refine ⟨.inl ⟨rfl, min_eq_left allowed⟩, ?_, rfl⟩
      simp [monthAfter, startOfMonth, min_eq_left allowed, pool]
  | append_singleton events event ih =>
      have earlier : ∀ other ∈ events, other.NonNegative :=
        fun other member => sound other (List.mem_append_left _ member)
      have filled := ih
        (fun other member => constant other (List.mem_append_left _ member)) earlier
      obtain ⟨cost, rfl⟩ := constant event (by simp)
      rw [monthAfter_concat]
      exact filled.increment (monthAfter_solvent pool earlier) allowed
        (sound (.increment cost allowance) (by simp)).1

theorem PoolsFilled.remaining_eq (filled : PoolsFilled addons allowance s) (allowed : 0 ≤ allowance)
    (pool : addons.consumedPurchaseCredits ≤ addons.purchasedCredits) :
    remaining s.meter allowance =
      max 0 (allowance + (addons.purchasedCredits - addons.consumedPurchaseCredits) -
        s.meter.usage.total) := by
  have used : allowanceUsedFrom (some s.meter.usage) allowance =
      min s.meter.usage.total allowance := by
    rcases filled.recorded with ⟨absent, -⟩ | present
    · rw [allowanceUsedFrom, absent, Option.getD_none, max_eq_right allowed,
        min_eq_left (min_le_left _ _)]
    · rw [allowanceUsedFrom, present, Option.getD_some, min_eq_left (min_le_left _ _)]
  have left : s.meter.addons.purchasedCredits - s.meter.addons.consumedPurchaseCredits =
      addons.purchasedCredits - addons.consumedPurchaseCredits -
        min (s.meter.usage.total - min s.meter.usage.total allowance)
          (addons.purchasedCredits - addons.consumedPurchaseCredits) := by
    rw [← filled.consumed, filled.bought]
    ring
  have credits : 0 ≤ addons.purchasedCredits - addons.consumedPurchaseCredits := sub_nonneg.mpr pool
  rw [remaining, remainingFrom, used, left]
  generalize addons.purchasedCredits - addons.consumedPurchaseCredits = credit at *
  rcases le_total s.meter.usage.total allowance with under | above
  · rw [min_eq_left under, sub_self, min_eq_left credits, max_eq_right (by linarith),
      max_eq_right (by linarith), max_eq_right (by linarith)]
    ring
  · rw [min_eq_right above, sub_self, max_self, zero_add]
    rcases le_total (s.meter.usage.total - allowance) credit with enough | short
    · rw [min_eq_left enough, max_eq_right (by linarith), max_eq_right (by linarith)]
      ring
    · rw [min_eq_right short, sub_self, max_self, max_eq_left (by linarith)]

/-- After each increment of a month every spend is in one pool, and the credits are not overdrawn, just
    when no increment under an allowance comes after spends that were all made without one. -/
theorem pools_agree_iff (addons : UsageAddons) (events : List MonthEvent)
    (pool : addons.consumedPurchaseCredits ≤ addons.purchasedCredits)
    (sound : ∀ event ∈ events, event.NonNegative) :
    (∀ earlier cost allowance later, events = earlier ++ .increment cost allowance :: later →
      PoolsAgree addons (earlier ++ [.increment cost allowance]) allowance) ↔
      AllowanceFirst events := by
  constructor
  · intro agree earlier cost allowance later split allowed
    by_contra slips
    obtain ⟨spent, uncharged⟩ := not_or.mp slips
    subst split
    have before : ∀ event ∈ earlier, event.NonNegative :=
      fun event member => sound event (List.mem_append_left _ member)
    have nonneg : 0 ≤ cost := (sound (.increment cost allowance) (by simp)).1
    have unsplit := monthAfter_unsplit before pool fun event member charges =>
      uncharged ⟨event, member, charges⟩
    have positive : 0 < (monthAfter addons earlier).meter.usage.total := by
      refine monthAfter_total_pos ?_ before
      by_contra none
      exact spent fun event member spends => none ⟨event, member, spends⟩
    have twice := unsplit.late positive nonneg allowed
    have once := (agree earlier cost allowance later rfl).split
    rw [monthAfter_concat] at once
    exact absurd once twice.ne'
  · intro first earlier cost allowance later split
    subst split
    have before : ∀ event ∈ earlier ++ [.increment cost allowance], event.NonNegative :=
      fun event member => sound event (by
        rcases List.mem_append.mp member with inside | last
        · exact List.mem_append_left _ inside
        · exact List.mem_append_right _ (List.mem_singleton.mp last ▸ List.mem_cons_self))
    have allowed : 0 ≤ allowance := (before (.increment cost allowance) (by simp)).2
    have solvent := monthAfter_solvent pool before
    have here : AllowanceFirst (earlier ++ [.increment cost allowance]) := by
      intro earlier' cost' allowance' later' split
      refine first earlier' cost' allowance' (later' ++ later) ?_
      have whole := congrArg (· ++ later) split
      simpa using whole
    refine ⟨?_, solvent.pool, fun constant => ?_⟩
    · by_cases charged : ∃ event ∈ earlier ++ [.increment cost allowance], event.Charges
      · obtain ⟨used, isSplit⟩ := monthAfter_splitAt before pool here charged
        dsimp only
        rw [isSplit.allowanceUsedFrom_eq]
        exact isSplit.sum
      · have unsplit := monthAfter_unsplit before pool fun event member charges =>
          charged ⟨event, member, charges⟩
        have zero : min (monthAfter addons (earlier ++ [.increment cost allowance])).meter.usage.total
            (max 0 allowance) = 0 := by
          rcases allowed.lt_or_eq with positive | none
          · have nothing : ∀ event ∈ earlier ++ [.increment cost allowance], ¬ event.Spends := by
              intro event member spends
              rcases List.mem_append.mp member with inside | last
              · rcases here earlier cost allowance [] rfl positive with free | some
                · exact free event inside spends
                · obtain ⟨charge, isEarlier, charges⟩ := some
                  exact charged ⟨charge, List.mem_append_left _ isEarlier, charges⟩
              · rw [List.mem_singleton] at last
                subst last
                exact charged ⟨_, member, spends, positive⟩
            rw [monthAfter_total_zero nothing before, min_eq_left (le_max_left _ _)]
          · rw [max_eq_left none.ge, min_eq_right solvent.total]
        dsimp only
        rw [unsplit.allowanceUsedFrom_eq, zero, zero_add]
        exact unsplit.sum
    · exact (monthAfter_filled pool allowed constant before).remaining_eq allowed pool

/-- An account that spends before it has a plan is charged for it again when it gets one. -/
theorem late_plan_charges_twice :
    (∀ event ∈ [MonthEvent.increment 10 0, .increment 5 100], event.NonNegative) ∧
      ¬ PoolsAgree ⟨0, 0⟩ [.increment 10 0, .increment 5 100] 100 := by
  refine ⟨fun event member => ?_, fun agree => ?_⟩
  · rcases List.mem_cons.mp member with rfl | rest
    · exact ⟨by decide +kernel, by decide +kernel⟩
    · rw [List.mem_singleton.mp rest]
      exact ⟨by decide +kernel, by decide +kernel⟩
  · have split := agree.split
    revert split
    decide +kernel

/-- Spends under a plan that changes to a larger one. -/
theorem growing_plan_agrees :
    (∀ earlier cost allowance later,
      [MonthEvent.increment 10 5, .increment 5 100] = earlier ++ .increment cost allowance :: later →
      PoolsAgree ⟨20, 0⟩ (earlier ++ [.increment cost allowance]) allowance) ↔
      AllowanceFirst [.increment 10 5, .increment 5 100] :=
  pools_agree_iff ⟨20, 0⟩ [.increment 10 5, .increment 5 100] (by decide +kernel) (by
    intro event member
    rcases List.mem_cons.mp member with rfl | rest
    · exact ⟨by decide +kernel, by decide +kernel⟩
    · rw [List.mem_singleton.mp rest]
      exact ⟨by decide +kernel, by decide +kernel⟩)

end Month

end Puter

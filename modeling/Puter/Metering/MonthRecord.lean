/-
Module: Puter.Metering.MonthRecord
Purpose: The month record and the credit pool that an actor's spending is read from, and how
  services/metering/MeteringService.ts splits an increment between them. Of a record, the fields that
  the split reads are kept; amounts are rational.
Trusted boundary: none
Main exports: UsageByType, Settlement, incrementUsage
-/
import Mathlib

namespace Puter

/-- The fields of a month record that decide on budgets. `allowanceUsedBaselined` counts the claims to
    write the baseline. -/
structure UsageByType where
  total : ℚ
  allowanceUsed : Option ℚ
  allowanceUsedBaselined : ℚ
deriving DecidableEq, Repr

structure UsageAddons where
  purchasedCredits : ℚ
  consumedPurchaseCredits : ℚ
deriving DecidableEq, Repr

namespace MeteringService

def allowanceUsedFrom (usage : Option UsageByType) (monthUsageAllowance : ℚ) : ℚ :=
  match usage with
  | none => 0
  | some usage =>
      min (usage.allowanceUsed.getD (min usage.total (max 0 monthUsageAllowance))) usage.total

def remainingFrom (allowanceUsed monthUsageAllowance : ℚ) (addons : UsageAddons) : ℚ :=
  max 0 (monthUsageAllowance - allowanceUsed) +
    max 0 (addons.purchasedCredits - addons.consumedPurchaseCredits)

def totalBefore (usageRecord : UsageByType) (incrementCost : ℚ) : ℚ :=
  max 0 (usageRecord.total - incrementCost)

def usedBefore (usageRecord : UsageByType) (monthUsageAllowance incrementCost : ℚ) : ℚ :=
  min (usageRecord.allowanceUsed.getD
      (min (totalBefore usageRecord incrementCost) (max 0 monthUsageAllowance)))
    (totalBefore usageRecord incrementCost)

def wantsBaseline (usageRecord : UsageByType) (monthUsageAllowance incrementCost : ℚ) : Bool :=
  usageRecord.allowanceUsed.isNone && decide (0 < usedBefore usageRecord monthUsageAllowance incrementCost)

def allowanceCharge (usageRecord : UsageByType) (monthUsageAllowance incrementCost : ℚ) : ℚ :=
  min incrementCost
    (max 0 (monthUsageAllowance - usedBefore usageRecord monthUsageAllowance incrementCost))

def overage (usageRecord : UsageByType) (monthUsageAllowance incrementCost : ℚ) : ℚ :=
  incrementCost - allowanceCharge usageRecord monthUsageAllowance incrementCost

def creditDraw (addons : UsageAddons) (overage : ℚ) : ℚ :=
  let remainingCredits := addons.purchasedCredits - addons.consumedPurchaseCredits
  if 0 < overage ∧ 0 < remainingCredits then min overage remainingCredits else 0

end MeteringService

/-- What is stored for an actor: the month record and the addons. -/
structure MeterState where
  usage : UsageByType
  addons : UsageAddons
deriving DecidableEq, Repr

namespace MeterState

def count (s : MeterState) (cost : ℚ) : MeterState :=
  { s with usage := { s.usage with total := s.usage.total + cost } }

def claimBaseline (s : MeterState) : MeterState :=
  { s with usage :=
      { s.usage with allowanceUsedBaselined := s.usage.allowanceUsedBaselined + 1 } }

def charge (s : MeterState) (amount : ℚ) : MeterState :=
  if 0 < amount then
    { s with usage := { s.usage with allowanceUsed := some (s.usage.allowanceUsed.getD 0 + amount) } }
  else s

def draw (s : MeterState) (amount : ℚ) : MeterState :=
  { s with addons :=
      { s.addons with consumedPurchaseCredits := s.addons.consumedPurchaseCredits + amount } }

/-- `updateAddonCredit`: credits are bought. -/
def purchase (s : MeterState) (amount : ℚ) : MeterState :=
  { s with addons := { s.addons with purchasedCredits := s.addons.purchasedCredits + amount } }

section Fields

variable (s : MeterState) (amount : ℚ)

@[simp] theorem count_addons : (s.count amount).addons = s.addons := rfl

@[simp] theorem count_total : (s.count amount).usage.total = s.usage.total + amount := rfl

@[simp] theorem count_allowanceUsed : (s.count amount).usage.allowanceUsed = s.usage.allowanceUsed :=
  rfl

@[simp] theorem claimBaseline_addons : s.claimBaseline.addons = s.addons := rfl

@[simp] theorem claimBaseline_total : s.claimBaseline.usage.total = s.usage.total := rfl

@[simp] theorem claimBaseline_allowanceUsed :
    s.claimBaseline.usage.allowanceUsed = s.usage.allowanceUsed := rfl

@[simp] theorem charge_addons : (s.charge amount).addons = s.addons := by
  unfold charge
  split <;> rfl

@[simp] theorem charge_total : (s.charge amount).usage.total = s.usage.total := by
  unfold charge
  split <;> rfl

theorem charge_allowanceUsed (nonneg : 0 ≤ amount) :
    (s.charge amount).usage.allowanceUsed.getD 0 = s.usage.allowanceUsed.getD 0 + amount := by
  unfold charge
  split
  · rfl
  next free => rw [le_antisymm (not_lt.mp free) nonneg, add_zero]

@[simp] theorem draw_usage : (s.draw amount).usage = s.usage := rfl

@[simp] theorem draw_purchased :
    (s.draw amount).addons.purchasedCredits = s.addons.purchasedCredits := rfl

@[simp] theorem draw_consumed : (s.draw amount).addons.consumedPurchaseCredits =
    s.addons.consumedPurchaseCredits + amount := rfl

@[simp] theorem purchase_usage : (s.purchase amount).usage = s.usage := rfl

@[simp] theorem purchase_consumed : (s.purchase amount).addons.consumedPurchaseCredits =
    s.addons.consumedPurchaseCredits := rfl

@[simp] theorem purchase_purchased : (s.purchase amount).addons.purchasedCredits =
    s.addons.purchasedCredits + amount := rfl

end Fields

end MeterState

namespace MeteringService

def baselineOf (usageRecord : UsageByType) (monthUsageAllowance incrementCost claim : ℚ) : ℚ :=
  if wantsBaseline usageRecord monthUsageAllowance incrementCost ∧ claim = 1 then
    usedBefore usageRecord monthUsageAllowance incrementCost
  else 0

/-- The claim step of `settleIncrementCharges`. -/
def takeClaim (s : MeterState) (usageRecord : UsageByType) (monthUsageAllowance incrementCost : ℚ) :
    MeterState :=
  if wantsBaseline usageRecord monthUsageAllowance incrementCost then s.claimBaseline else s

@[simp] theorem takeClaim_addons (s : MeterState) (usageRecord : UsageByType)
    (monthUsageAllowance incrementCost : ℚ) :
    (takeClaim s usageRecord monthUsageAllowance incrementCost).addons = s.addons := by
  unfold takeClaim
  split <;> rfl

@[simp] theorem takeClaim_total (s : MeterState) (usageRecord : UsageByType)
    (monthUsageAllowance incrementCost : ℚ) :
    (takeClaim s usageRecord monthUsageAllowance incrementCost).usage.total = s.usage.total := by
  unfold takeClaim
  split <;> rfl

/-- `settleIncrementCharges`, with nothing in between, of a record and addons that were read before. -/
def settleIncrementCharges (s : MeterState) (usageRecord : UsageByType) (monthUsageAllowance : ℚ)
    (addons : UsageAddons) (incrementCost : ℚ) : MeterState :=
  if incrementCost ≤ 0 then s
  else
    let claimed := takeClaim s usageRecord monthUsageAllowance incrementCost
    let baseline := baselineOf usageRecord monthUsageAllowance incrementCost
      claimed.usage.allowanceUsedBaselined
    (claimed.charge (baseline + allowanceCharge usageRecord monthUsageAllowance incrementCost)).draw
      (creditDraw addons (overage usageRecord monthUsageAllowance incrementCost))

/-- `incrementUsage` with nothing in between: the running total that it settles on is exact, and so are
    the addons. -/
def incrementUsage (s : MeterState) (monthUsageAllowance totalCost : ℚ) : MeterState :=
  let counted := s.count totalCost
  settleIncrementCharges counted counted.usage monthUsageAllowance counted.addons totalCost

def unpaid (s : MeterState) (monthUsageAllowance totalCost : ℚ) : ℚ :=
  let counted := s.count totalCost
  if totalCost ≤ 0 then 0
  else
    overage counted.usage monthUsageAllowance totalCost -
      creditDraw counted.addons (overage counted.usage monthUsageAllowance totalCost)

/-- `remaining` of `getAllowedUsage`. -/
def remaining (s : MeterState) (monthUsageAllowance : ℚ) : ℚ :=
  remainingFrom (allowanceUsedFrom (some s.usage) monthUsageAllowance) monthUsageAllowance s.addons

end MeteringService

end Puter

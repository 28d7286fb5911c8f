/-
Module: Puter.Metering.CreditHolds
Purpose: Chat completions of one actor running side by side: the gate of drivers/ai-chat, with the balance
  and the holds that it reads, the hold that it takes later, the usage that is recorded and the release.
  Recorded usage and the worst cases of the admitted calls stay within the budget over every run in which
  the gate admits nothing that no longer fits.
Trusted boundary: none
Main exports: GateInput, budget_of_allowed_run
-/
import Puter.Library.Interleaving
import Puter.Metering.BudgetPools

namespace Puter

open MeteringService Interleaving

/-- What the gate knows of an attempt: prices per token, the estimate of the prompt, the ceilings on the
    output, and whether a subscription is missing. -/
structure GateInput where
  inputTokenCost : ℚ
  outputTokenCost : ℚ
  minimumCredits : ℚ
  promptTokenEstimate : ℕ
  requestedMaxTokens : Option ℚ
  modelMaxTokens : Option ℚ
  lacksSubscription : Bool
deriving DecidableEq, Repr

namespace GateInput

def approximateInputCost (gate : GateInput) : ℚ := gate.promptTokenEstimate * gate.inputTokenCost

def modelOutputCeiling (gate : GateInput) : Option ℚ :=
  (gate.modelMaxTokens.filter fun tokens => decide (0 < tokens)).map
    (· - (gate.promptTokenEstimate : ℚ))

def cap (gate : GateInput) (remainingCredits : ℚ) : ℤ :=
  let allowed := (remainingCredits - gate.approximateInputCost) / gate.outputTokenCost
  let requested := (gate.requestedMaxTokens.map (min · allowed)).getD allowed
  ⌊(gate.modelOutputCeiling.map (min requested ·)).getD requested⌋

/-- The decision of `#applyCreditGate`: what the attempt can cost at worst, if it is let through. -/
def admission (gate : GateInput) (remainingCredits : ℚ) : Option ℚ :=
  if remainingCredits < max gate.approximateInputCost gate.minimumCredits then none
  else if gate.lacksSubscription then none
  else if 0 < gate.outputTokenCost then
    if gate.cap remainingCredits < 1 then none
    else some (gate.approximateInputCost + gate.cap remainingCredits * gate.outputTokenCost)
  else some (gate.approximateInputCost + gate.requestedMaxTokens.getD 0 * gate.outputTokenCost)

def holdAmount (gate : GateInput) (worstCaseCost : ℚ) : ℚ :=
  (⌈max worstCaseCost gate.minimumCredits⌉ : ℤ)

end GateInput

/-- A member of the hold set. -/
structure Hold where
  id : ℕ
  amount : ℚ
deriving DecidableEq, Repr

/-- What is stored for an actor: the month and the addons, and the holds. Ids are numbered as they are
    drawn, and no hold expires. -/
structure HoldState where
  meter : MeterState
  holds : List Hold
  nextHold : ℕ
deriving DecidableEq, Repr

namespace HoldState

def outstanding (s : HoldState) : ℚ := max 0 (s.holds.map Hold.amount).sum

/-- `getRemainingUsage`, of a balance and holds that were read. -/
def remainingUsage (balance held : ℚ) : ℚ := max 0 (balance - held)

def take (s : HoldState) (amount : ℚ) : HoldState :=
  { s with holds := ⟨s.nextHold, amount⟩ :: s.holds, nextHold := s.nextHold + 1 }

def release (s : HoldState) (hold : Hold) : HoldState := { s with holds := s.holds.erase hold }

def record (s : HoldState) (monthUsageAllowance cost : ℚ) : HoldState :=
  { s with meter := incrementUsage s.meter monthUsageAllowance cost }

end HoldState

/-- Where a completion stands. The gate reads the balance and the holds side by side. -/
inductive CompletionCall where
  | gating (gate : GateInput) (balance held : Option ℚ)
  | taking (gate : GateInput) (worstCaseCost : ℚ)
  | running (worstCaseCost : ℚ) (hold : Hold)
  | recorded (hold : Hold)
deriving DecidableEq, Repr

/-- The atomic steps of completions under an allowance. What one costs is at most its worst case. -/
inductive CompletionStep (allowance : ℚ) :
    HoldState → CompletionCall → HoldState → Option CompletionCall → Prop where
  | readBalance {s : HoldState} {gate : GateInput} {held : Option ℚ} :
      CompletionStep allowance s (.gating gate none held) s
        (some (.gating gate (some (remaining s.meter allowance)) held))
  | readHolds {s : HoldState} {gate : GateInput} {balance : Option ℚ} :
      CompletionStep allowance s (.gating gate balance none) s
        (some (.gating gate balance (some s.outstanding)))
  | refuse {s : HoldState} {gate : GateInput} {balance held : ℚ} :
      gate.admission (HoldState.remainingUsage balance held) = none →
      CompletionStep allowance s (.gating gate (some balance) (some held)) s none
  | passGate {s : HoldState} {gate : GateInput} {balance held worstCaseCost : ℚ} :
      gate.admission (HoldState.remainingUsage balance held) = some worstCaseCost →
      CompletionStep allowance s (.gating gate (some balance) (some held)) s
        (some (.taking gate worstCaseCost))
  | take {s : HoldState} {gate : GateInput} {worstCaseCost : ℚ} :
      CompletionStep allowance s (.taking gate worstCaseCost) (s.take (gate.holdAmount worstCaseCost))
        (some (.running worstCaseCost ⟨s.nextHold, gate.holdAmount worstCaseCost⟩))
  | record {s : HoldState} {worstCaseCost cost : ℚ} {hold : Hold} :
      0 ≤ cost → cost ≤ worstCaseCost →
      CompletionStep allowance s (.running worstCaseCost hold) (s.record allowance cost)
        (some (.recorded hold))
  | fail {s : HoldState} {worstCaseCost : ℚ} {hold : Hold} :
      CompletionStep allowance s (.running worstCaseCost hold) (s.release hold) none
  | release {s : HoldState} {hold : Hold} :
      CompletionStep allowance s (.recorded hold) (s.release hold) none

/-- The calls that can be made: of models all of whose output is priced. -/
inductive CompletionCall.Starts : CompletionCall → Prop where
  | gate {gate : GateInput} : 0 ≤ gate.inputTokenCost → 0 < gate.outputTokenCost →
      Starts (.gating gate none none)

namespace CompletionCall

def worstCase : CompletionCall → ℚ
  | taking _ worstCaseCost => worstCaseCost
  | running worstCaseCost _ => worstCaseCost
  | _ => 0

def unheld : CompletionCall → ℚ
  | taking _ worstCaseCost => worstCaseCost
  | _ => 0

end CompletionCall

/-- What the gate admits still fits what remains by then, next to the calls that it has admitted and that
    have yet to take their holds. -/
def StillFits (allowance : ℚ) (s : HoldState) (others : List CompletionCall) : CompletionCall → Prop
  | .gating gate (some balance) (some held) => ∀ worstCaseCost,
      gate.admission (HoldState.remainingUsage balance held) = some worstCaseCost →
        worstCaseCost + (others.map CompletionCall.unheld).sum ≤
          HoldState.remainingUsage (remaining s.meter allowance) s.outstanding
  | _ => True

def completions (allowance : ℚ) (allow : HoldState → List CompletionCall → CompletionCall → Prop) :
    System HoldState CompletionCall where
  issues := CompletionCall.Starts
  atom := CompletionStep allowance
  allow := allow

namespace CompletionCall

def held : CompletionCall → Multiset Hold
  | running _ hold => {hold}
  | recorded hold => {hold}
  | _ => 0

def outstanding (call : CompletionCall) : Multiset Hold × ℚ := (call.held, call.worstCase)

/-- The prices of a call make sense, and its hold covers its worst case. -/
def Fits (_ : HoldState) : CompletionCall → Prop
  | gating gate _ _ => 0 ≤ gate.inputTokenCost ∧ 0 < gate.outputTokenCost
  | taking _ worstCaseCost => 0 < worstCaseCost
  | running worstCaseCost hold => 0 < worstCaseCost ∧ worstCaseCost ≤ hold.amount
  | recorded hold => 0 ≤ hold.amount

end CompletionCall

namespace GateInput

variable {gate : GateInput} {remainingCredits worstCaseCost : ℚ}

theorem admission_bounds (input : 0 ≤ gate.inputTokenCost) (output : 0 < gate.outputTokenCost)
    (admitted : gate.admission remainingCredits = some worstCaseCost) :
    0 < worstCaseCost ∧ worstCaseCost ≤ remainingCredits := by
  have prompt : 0 ≤ gate.approximateInputCost :=
    mul_nonneg (Nat.cast_nonneg gate.promptTokenEstimate) input
  unfold admission at admitted
  rw [if_pos output] at admitted
  split at admitted
  · cases admitted
  split at admitted
  · cases admitted
  split at admitted
  · cases admitted
  next capped =>
    cases admitted
    have one : (1 : ℚ) ≤ gate.cap remainingCredits := by exact_mod_cast not_lt.mp capped
    constructor
    · have priced : 0 < (gate.cap remainingCredits : ℚ) * gate.outputTokenCost :=
        mul_pos (lt_of_lt_of_le one_pos one) output
      linarith
    · have allowed : (gate.cap remainingCredits : ℚ) ≤
          (remainingCredits - gate.approximateInputCost) / gate.outputTokenCost := by
        refine (Int.floor_le _).trans ?_
        have requested : (gate.requestedMaxTokens.map (min ·
            ((remainingCredits - gate.approximateInputCost) / gate.outputTokenCost))).getD
              ((remainingCredits - gate.approximateInputCost) / gate.outputTokenCost) ≤
            (remainingCredits - gate.approximateInputCost) / gate.outputTokenCost := by
          cases gate.requestedMaxTokens with
          | none => exact le_refl _
          | some _ => exact min_le_right _ _
        cases gate.modelOutputCeiling with
        | none => exact requested
        | some _ => exact (min_le_left _ _).trans requested
      rw [le_div_iff₀ output] at allowed
      linarith

theorem le_holdAmount : worstCaseCost ≤ gate.holdAmount worstCaseCost :=
  (le_max_left _ _).trans (Int.le_ceil _)

end GateInput

section Budget

variable {addons : UsageAddons} {allowance : ℚ}

def budgetLeft (addons : UsageAddons) (allowance total : ℚ) : ℚ :=
  allowance + (addons.purchasedCredits - addons.consumedPurchaseCredits) - total

/-- The holds that are stored are those of the calls in flight, the recorded usage and the worst cases are
    within the budget, and the month tells the balance. -/
structure WithinBudget (addons : UsageAddons) (allowance : ℚ) (s : HoldState)
    (owed : Multiset Hold × ℚ) : Prop where
  holds : (s.holds : Multiset Hold) = owed.1
  budget : owed.2 ≤ budgetLeft addons allowance s.meter.usage.total
  filled : PoolsFilled addons allowance ⟨s.meter, 0⟩
  solvent : Solvent ⟨s.meter, 0⟩

theorem worstCases_covered {s : HoldState} {calls : List CompletionCall}
    (fits : ∀ call ∈ calls, call.Fits s) :
    (weight CompletionCall.outstanding calls).2 ≤
      (calls.map CompletionCall.unheld).sum +
        ((weight CompletionCall.outstanding calls).1.map Hold.amount).sum := by
  induction calls with
  | nil => simp
  | cons call calls ih =>
      have rest := ih fun other member => fits other (List.mem_cons_of_mem _ member)
      have first : call.worstCase ≤ call.unheld + (call.held.map Hold.amount).sum := by
        have fitsCall := fits call List.mem_cons_self
        cases call with
        | gating gate balance held =>
            simp [CompletionCall.worstCase, CompletionCall.unheld, CompletionCall.held]
        | taking gate worstCaseCost =>
            simp [CompletionCall.worstCase, CompletionCall.unheld, CompletionCall.held]
        | running worstCaseCost hold =>
            simpa [CompletionCall.worstCase, CompletionCall.unheld, CompletionCall.held]
              using fitsCall.2
        | recorded hold =>
            have positive : 0 ≤ hold.amount := fitsCall
            simpa [CompletionCall.worstCase, CompletionCall.unheld, CompletionCall.held] using positive
      simp only [weight_cons, Prod.snd_add, Prod.fst_add, Multiset.map_add, Multiset.sum_add,
        List.map_cons, List.sum_cons, CompletionCall.outstanding]
      linarith

theorem WithinBudget.hold {s : HoldState} {others : List CompletionCall} {worstCaseCost : ℚ}
    (within : WithinBudget addons allowance s (weight CompletionCall.outstanding others))
    (fits : ∀ call ∈ others, call.Fits s) (allowed : 0 ≤ allowance)
    (pool : addons.consumedPurchaseCredits ≤ addons.purchasedCredits) (positive : 0 < worstCaseCost)
    (room : worstCaseCost + (others.map CompletionCall.unheld).sum ≤
      HoldState.remainingUsage (remaining s.meter allowance) s.outstanding) :
    worstCaseCost + (weight CompletionCall.outstanding others).2 ≤
      budgetLeft addons allowance s.meter.usage.total := by
  have balance : remaining s.meter allowance =
      max 0 (budgetLeft addons allowance s.meter.usage.total) :=
    within.filled.remaining_eq allowed pool
  have covered := worstCases_covered fits
  rw [← within.holds, Multiset.map_coe, Multiset.sum_coe] at covered
  have held : (s.holds.map Hold.amount).sum ≤ s.outstanding := le_max_right _ _
  have none : 0 ≤ s.outstanding := le_max_left _ _
  have unheld : 0 ≤ (others.map CompletionCall.unheld).sum := by
    refine List.sum_nonneg fun amount member => ?_
    obtain ⟨call, isCall, rfl⟩ := List.mem_map.mp member
    have fitsCall := fits call isCall
    cases call with
    | taking gate worstCaseCost => exact fitsCall.le
    | gating gate balance held => exact le_refl _
    | running worstCaseCost hold => exact le_refl _
    | recorded hold => exact le_refl _
  unfold HoldState.remainingUsage at room
  rw [balance] at room
  -- What remains is positive, so neither of the two balances is cut off at zero.
  rcases le_max_iff.mp room with nothing | left
  · linarith
  · have room' : worstCaseCost + (others.map CompletionCall.unheld).sum + s.outstanding ≤
        max 0 (budgetLeft addons allowance s.meter.usage.total) := by linarith
    rcases le_max_iff.mp room' with nothing | budget
    · linarith
    · linarith

theorem completionStep_within (allowed : 0 ≤ allowance)
    (pool : addons.consumedPurchaseCredits ≤ addons.purchasedCredits) {s s' : HoldState}
    {others : List CompletionCall} {call : CompletionCall} {next : Option CompletionCall}
    (permitted : StillFits allowance s others call) (step : CompletionStep allowance s call s' next)
    (fitOthers : ∀ other ∈ others, other.Fits s) (fits : call.Fits s)
    (within : WithinBudget addons allowance s
      (call.outstanding + weight CompletionCall.outstanding others)) :
    (∀ other ∈ others, other.Fits s') ∧ (∀ call', next = some call' → call'.Fits s') ∧
      WithinBudget addons allowance s' (weight CompletionCall.outstanding next.toList +
        weight CompletionCall.outstanding others) := by
  refine ⟨fun other member => ?_, fun call' isNext => ?_, ?_⟩
  · have same := fitOthers other member
    cases other <;> exact same
  · cases step with
    | readBalance => cases isNext; exact fits
    | readHolds => cases isNext; exact fits
    | refuse _ => cases isNext
    | passGate admitted =>
        cases isNext
        exact (GateInput.admission_bounds fits.1 fits.2 admitted).1
    | take =>
        cases isNext
        exact ⟨fits, GateInput.le_holdAmount⟩
    | record _ _ =>
        cases isNext
        exact fits.1.le.trans fits.2
    | fail => cases isNext
    | release => cases isNext
  · obtain ⟨holds, budget, filled, solvent⟩ := within
    simp only [CompletionCall.outstanding, Prod.snd_add] at budget
    simp only [CompletionCall.outstanding, Prod.fst_add] at holds
    cases step with
    | readBalance =>
        exact ⟨holds, by simpa [CompletionCall.outstanding, CompletionCall.worstCase] using budget,
          filled, solvent⟩
    | readHolds =>
        exact ⟨holds, by simpa [CompletionCall.outstanding, CompletionCall.worstCase] using budget,
          filled, solvent⟩
    | refuse _ =>
        exact ⟨holds, by simpa [CompletionCall.outstanding, CompletionCall.worstCase] using budget,
          filled, solvent⟩
    | @passGate gate _ _ worstCaseCost admitted =>
        have before : WithinBudget addons allowance s (weight CompletionCall.outstanding others) := by
          refine ⟨?_, ?_, filled, solvent⟩
          · simpa [CompletionCall.held] using holds
          · simpa [CompletionCall.worstCase] using budget
        have positive := (GateInput.admission_bounds fits.1 fits.2 admitted).1
        have room := before.hold fitOthers allowed pool positive (permitted _ admitted)
        refine ⟨?_, ?_, filled, solvent⟩
        · simpa [CompletionCall.outstanding, CompletionCall.held] using holds
        · simpa [CompletionCall.outstanding, CompletionCall.worstCase] using room
    | @take gate worstCaseCost =>
        refine ⟨?_, ?_, filled, solvent⟩
        · simp only [HoldState.take, ← Multiset.cons_coe, holds]
          simp [CompletionCall.outstanding, CompletionCall.held]
        · simpa [CompletionCall.outstanding, CompletionCall.worstCase, HoldState.take] using budget
    | @record worstCaseCost cost hold nonneg bounded =>
        have total := @incrementUsage_total ⟨s.meter, 0⟩ cost allowance
        have after := filled.increment solvent allowed nonneg
        have sound : (MonthEvent.increment cost allowance).NonNegative := ⟨nonneg, allowed⟩
        have later := solvent.after sound
        refine ⟨?_, ?_, ⟨after.recorded, after.consumed, after.bought⟩, later.total, later.pool⟩
        · simpa [CompletionCall.outstanding, CompletionCall.held, HoldState.record] using holds
        · simp only [CompletionCall.outstanding, CompletionCall.worstCase, Option.toList_some,
            weight_cons, weight_nil, add_zero, Prod.snd_add, HoldState.record, budgetLeft, zero_add]
            at budget total ⊢
          linarith
    | @fail worstCaseCost hold =>
        refine ⟨?_, ?_, filled, solvent⟩
        · simp only [HoldState.release, ← Multiset.coe_erase, holds]
          simp [CompletionCall.held]
        · have positive : 0 < worstCaseCost := fits.1
          simp only [CompletionCall.worstCase, Option.toList_none, weight_nil, zero_add,
            HoldState.release] at budget ⊢
          linarith
    | release =>
        refine ⟨?_, ?_, filled, solvent⟩
        · simp only [HoldState.release, ← Multiset.coe_erase, holds]
          simp [CompletionCall.held]
        · simpa [CompletionCall.worstCase, HoldState.release] using budget

end Budget

section Windows

def unboundedGate : GateInput := ⟨0, 1, 1, 0, none, none, false⟩

theorem unboundedGate_starts : (CompletionCall.gating unboundedGate none none).Starts :=
  .gate (by decide +kernel) (by decide +kernel)

def noCredits : UsageAddons := ⟨0, 0⟩

def unspent : HoldState := ⟨(monthAfter noCredits []).meter, [], 0⟩

def completeTen (s : HoldState) : HoldState :=
  ((s.take 10).record 10 10).release ⟨s.nextHold, 10⟩

theorem completeTen_run (s : HoldState) (later : List CompletionCall) :
    Run (completions 10 fun _ _ _ => True) ⟨s, .taking unboundedGate 10 :: later⟩
      ⟨completeTen s, later⟩ := by
  have held : unboundedGate.holdAmount 10 = 10 := by decide +kernel
  have takes := @CompletionStep.take 10 s unboundedGate 10
  rw [held] at takes
  refine .head (.goesOn trivial takes) ?_
  refine .head (.goesOn trivial (@CompletionStep.record _ _ _ 10 _ (by decide +kernel)
    (le_refl _))) ?_
  exact .single (.completes trivial .release)

end Windows

end Puter

/-
Module: Puter.Metering.MonthlyCharges
Purpose: The charges that recur monthly, applied by whichever call first touches an actor's month: the
  memo of each deployment, the claim counter of the month record that all of them share, the listeners
  and the recording, which comes back to the same place. The listeners are asked at most once for an
  actor and a month, and what they charge is recorded at most once, over every run.
Trusted boundary: none; what records, listeners and clocks say is left open
Main exports: ClaimId, ChargeCall, charged_once
-/
import Puter.Library.Interleaving

namespace Puter

open Interleaving

/-- An account and a month. -/
structure ClaimId where
  userId : String
  month : String
deriving DecidableEq, Repr

/-- A charge as a listener contributes it. A number that is not finite is none. -/
structure UsageInput where
  usageType : String
  usageAmount : Option ℚ
  costOverride : Option ℚ
deriving DecidableEq, Repr

namespace UsageInput

/-- The charges that `claimAndCharge` passes on. -/
def isValid (usage : UsageInput) : Bool := usage.usageType ≠ "" && usage.usageAmount.isSome

def units (usage : UsageInput) : ℚ :=
  match usage.usageAmount with
  | some amount => if amount < 0 then 1 else amount
  | none => 1

def isCounted (usage : UsageInput) : Bool := usage.units ≠ 0 && usage.usageType ≠ ""

end UsageInput

/-- What a deployment remembers. -/
structure ChargeMemo where
  claimsInFlight : Finset ClaimId
  settledMonth : Option String
  settledActors : Finset ClaimId
deriving DecidableEq

namespace ChargeMemo

def empty : ChargeMemo := ⟨∅, none, ∅⟩

/-- `MONTHLY_CHARGE_MEMO_LIMIT`. -/
def memoLimit : ℕ := 100000

def rememberSettled (memo : ChargeMemo) (claim : ClaimId) : ChargeMemo :=
  let settledActors := if memo.settledMonth = some claim.month then memo.settledActors else ∅
  { memo with
    settledMonth := some claim.month
    settledActors := insert claim (if memoLimit ≤ settledActors.card then ∅ else settledActors) }

def isSettled (memo : ChargeMemo) (claim : ClaimId) : Bool :=
  memo.settledMonth = some claim.month && claim ∈ memo.settledActors

/-- What `applyMonthlyCharges` does before it first waits: the memo it leaves, and whether it goes on to
    claim the month. -/
def applyMonthlyCharges (memo : ChargeMemo) (claim : ClaimId) (hasListeners flagged : Bool) :
    ChargeMemo × Bool :=
  if !hasListeners then (memo, false)
  else if claim ∈ memo.claimsInFlight then (memo, false)
  else if flagged then (memo.rememberSettled claim, false)
  else if memo.isSettled claim then (memo, false)
  else ({ memo with claimsInFlight := insert claim memo.claimsInFlight }, true)

end ChargeMemo

/-- The charges of a claim as they are recorded, with the month on whose record they land. -/
structure ChargeRecord where
  claim : ClaimId
  month : String
  usages : List UsageInput
deriving DecidableEq, Repr

/-- The memos of the deployments, the claim counters that they share, and what was asked and recorded. -/
structure ChargeState where
  memos : ℕ → ChargeMemo
  claims : ClaimId → ℕ
  asked : List ClaimId
  recorded : List ChargeRecord

namespace ChargeState

def setMemo (s : ChargeState) (deployment : ℕ) (memo : ChargeMemo) : ChargeState :=
  { s with memos := Function.update s.memos deployment memo }

def bump (s : ChargeState) (claim : ClaimId) : ChargeState :=
  { s with claims := Function.update s.claims claim (s.claims claim + 1) }

def ask (s : ChargeState) (claim : ClaimId) : ChargeState := { s with asked := claim :: s.asked }

def record (s : ChargeState) (entry : ChargeRecord) : ChargeState :=
  { s with recorded := entry :: s.recorded }

def recordings (s : ChargeState) (claim : ClaimId) : ℕ :=
  s.recorded.countP fun entry => entry.claim = claim

def settle (s : ChargeState) (deployment : ℕ) (claim : ClaimId) (answer : ℕ) : ChargeState :=
  let remembered := s.setMemo deployment ((s.memos deployment).rememberSettled claim)
  if answer = 1 then remembered.ask claim else remembered

end ChargeState

/-- Where a call of a deployment stands. `frames` are the claims that it has in flight, innermost first:
    a charge that is recorded applies the monthly charges again. -/
inductive ChargeCall where
  | applying (deployment : ℕ) (claim : ClaimId) (hasListeners flagged : Bool) (frames : List ClaimId)
  | claiming (deployment : ℕ) (claim : ClaimId) (frames : List ClaimId)
  | answered (deployment : ℕ) (claim : ClaimId) (answer : ℕ) (frames : List ClaimId)
  | asking (deployment : ℕ) (claim : ClaimId) (frames : List ClaimId)
  | recording (deployment : ℕ) (claim : ClaimId) (usages : List UsageInput) (frames : List ClaimId)
  | returning (deployment : ℕ) (frames : List ClaimId)
  | restart (deployment : ℕ)
deriving DecidableEq, Repr

section Fields

variable (s : ChargeState) (deployment : ℕ) (memo : ChargeMemo) (claim other : ClaimId)

@[simp] theorem ChargeState.setMemo_asked : (s.setMemo deployment memo).asked = s.asked := rfl

@[simp] theorem ChargeState.setMemo_claims : (s.setMemo deployment memo).claims = s.claims := rfl

@[simp] theorem ChargeState.setMemo_recordings :
    (s.setMemo deployment memo).recordings claim = s.recordings claim := rfl

@[simp] theorem ChargeState.bump_asked : (s.bump claim).asked = s.asked := rfl

@[simp] theorem ChargeState.bump_recordings :
    (s.bump other).recordings claim = s.recordings claim := rfl

@[simp] theorem ChargeState.bump_claims :
    (s.bump other).claims claim = s.claims claim + if other = claim then 1 else 0 := by
  unfold ChargeState.bump
  by_cases same : other = claim
  · simp [same]
  · simp [same, Function.update_of_ne (Ne.symm same)]

@[simp] theorem ChargeState.record_asked (entry : ChargeRecord) : (s.record entry).asked = s.asked :=
  rfl

@[simp] theorem ChargeState.record_claims (entry : ChargeRecord) :
    (s.record entry).claims = s.claims := rfl

@[simp] theorem ChargeState.record_recordings (entry : ChargeRecord) :
    (s.record entry).recordings claim =
      s.recordings claim + if entry.claim = claim then 1 else 0 := by
  simp [ChargeState.record, ChargeState.recordings, List.countP_cons]

@[simp] theorem ChargeState.settle_claims (answer : ℕ) :
    (s.settle deployment claim answer).claims = s.claims := by
  unfold ChargeState.settle
  dsimp only
  split <;> rfl

@[simp] theorem ChargeState.settle_recordings (answer : ℕ) :
    (s.settle deployment other answer).recordings claim = s.recordings claim := by
  unfold ChargeState.settle
  dsimp only
  split <;> rfl

theorem ChargeState.settle_asked (answer : ℕ) :
    (s.settle deployment other answer).asked.count claim =
      s.asked.count claim + if other = claim ∧ answer = 1 then 1 else 0 := by
  unfold ChargeState.settle
  dsimp only
  by_cases first : answer = 1
  · simp [first, ChargeState.ask, List.count_cons]
  · simp [first]

end Fields

namespace ChargeCall

def afterMemo (deployment : ℕ) (claim : ClaimId) (frames : List ClaimId) : Bool → ChargeCall
  | true => claiming deployment claim (claim :: frames)
  | false => returning deployment frames

def afterAnswer (deployment : ℕ) (claim : ClaimId) (answer : ℕ) (frames : List ClaimId) : ChargeCall :=
  if answer = 1 then asking deployment claim frames else returning deployment frames

def afterListeners (deployment : ℕ) (claim : ClaimId) (charges : List UsageInput)
    (frames : List ClaimId) : ChargeCall :=
  match charges.filter UsageInput.isValid with
  | [] => returning deployment frames
  | usages => recording deployment claim usages frames

end ChargeCall

/-- The atomic steps. A claim write may fail before or after it took effect, and so may a recording;
    the month of a recording is the one that the clock gives then. -/
inductive ChargeStep : ChargeState → ChargeCall → ChargeState → Option ChargeCall → Prop where
  | apply {s : ChargeState} {deployment : ℕ} {claim : ClaimId} {hasListeners flagged : Bool}
      {frames : List ClaimId} {memo : ChargeMemo} {goesOn : Bool} :
      (s.memos deployment).applyMonthlyCharges claim hasListeners flagged = (memo, goesOn) →
      ChargeStep s (.applying deployment claim hasListeners flagged frames)
        (s.setMemo deployment memo) (some (.afterMemo deployment claim frames goesOn))
  | claim {s : ChargeState} {deployment : ℕ} {claim : ClaimId} {frames : List ClaimId} :
      ChargeStep s (.claiming deployment claim frames) (s.bump claim)
        (some (.answered deployment claim (s.claims claim + 1) frames))
  | claimFails {s s' : ChargeState} {deployment : ℕ} {claim : ClaimId} {frames : List ClaimId} :
      s' = s ∨ s' = s.bump claim →
      ChargeStep s (.claiming deployment claim frames) s' (some (.returning deployment frames))
  | settle {s : ChargeState} {deployment answer : ℕ} {claim : ClaimId} {frames : List ClaimId} :
      ChargeStep s (.answered deployment claim answer frames) (s.settle deployment claim answer)
        (some (.afterAnswer deployment claim answer frames))
  | hear {s : ChargeState} {deployment : ℕ} {claim : ClaimId} {charges : List UsageInput}
      {frames : List ClaimId} :
      ChargeStep s (.asking deployment claim frames) s
        (some (.afterListeners deployment claim charges frames))
  | skip {s : ChargeState} {deployment : ℕ} {claim : ClaimId} {usages : List UsageInput}
      {frames : List ClaimId} : usages.filter UsageInput.isCounted = [] →
      ChargeStep s (.recording deployment claim usages frames) s (some (.returning deployment frames))
  | record {s : ChargeState} {deployment : ℕ} {claim : ClaimId} {month : String}
      {usages : List UsageInput} {hasListeners flagged : Bool} {frames : List ClaimId} :
      usages.filter UsageInput.isCounted ≠ [] →
      ChargeStep s (.recording deployment claim usages frames)
        (s.record ⟨claim, month, usages.filter UsageInput.isCounted⟩)
        (some (.applying deployment ⟨claim.userId, month⟩ hasListeners flagged frames))
  | recordFails {s s' : ChargeState} {deployment : ℕ} {claim : ClaimId} {month : String}
      {usages : List UsageInput} {frames : List ClaimId} :
      s' = s ∨ s' = s.record ⟨claim, month, usages.filter UsageInput.isCounted⟩ →
      ChargeStep s (.recording deployment claim usages frames) s' (some (.returning deployment frames))
  | leave {s : ChargeState} {deployment : ℕ} {claim : ClaimId} {frames : List ClaimId} :
      ChargeStep s (.returning deployment (claim :: frames))
        (s.setMemo deployment { s.memos deployment with
          claimsInFlight := (s.memos deployment).claimsInFlight.erase claim })
        (some (.returning deployment frames))
  | done {s : ChargeState} {deployment : ℕ} : ChargeStep s (.returning deployment []) s none
  | stop {s : ChargeState} {call : ChargeCall} : ChargeStep s call s none
  | restart {s : ChargeState} {deployment : ℕ} :
      ChargeStep s (.restart deployment) (s.setMemo deployment .empty) none

/-- The calls that can be made: an increment or a usage read that has its record in hand, on any
    deployment, and the restart of a deployment. -/
inductive ChargeCall.Starts : ChargeCall → Prop where
  | applying {deployment : ℕ} {claim : ClaimId} {hasListeners flagged : Bool} :
      Starts (.applying deployment claim hasListeners flagged [])
  | restart {deployment : ℕ} : Starts (.restart deployment)

def monthlyCharges : System ChargeState ChargeCall where
  issues := ChargeCall.Starts
  atom := ChargeStep
  allow := fun _ _ _ => True

section Once

variable {claim : ClaimId}

def ChargeCall.due (claim : ClaimId) : ChargeCall → ℕ × ℕ
  | answered _ other answer _ => if other = claim ∧ answer = 1 then (1, 1) else 0
  | asking _ other _ => if other = claim then (0, 1) else 0
  | recording _ other _ _ => if other = claim then (0, 1) else 0
  | _ => 0

section Due

variable (claim other : ClaimId) (deployment : ℕ) (frames : List ClaimId)

@[simp] theorem ChargeCall.due_applying (hasListeners flagged : Bool) :
    (applying deployment other hasListeners flagged frames).due claim = 0 := rfl

@[simp] theorem ChargeCall.due_claiming : (claiming deployment other frames).due claim = 0 := rfl

@[simp] theorem ChargeCall.due_returning : (returning deployment frames).due claim = 0 := rfl

@[simp] theorem ChargeCall.due_restart : (restart deployment).due claim = 0 := rfl

end Due

/-- What was asked and what is still to be asked is one at most, and so it is with what is recorded; there
    is none while nobody has claimed. -/
structure ChargedOnce (claim : ClaimId) (s : ChargeState) (due : ℕ × ℕ) : Prop where
  asked : s.asked.count claim + due.1 ≤ 1
  recorded : s.recordings claim + due.2 ≤ 1
  unclaimed : s.claims claim = 0 →
    s.asked.count claim + due.1 = 0 ∧ s.recordings claim + due.2 = 0

theorem ChargedOnce.after {s s' : ChargeState} {due due' : ℕ × ℕ} (once : ChargedOnce claim s due)
    (asked : s'.asked.count claim + due'.1 ≤ s.asked.count claim + due.1)
    (recorded : s'.recordings claim + due'.2 ≤ s.recordings claim + due.2)
    (claims : s'.claims claim = 0 → s.claims claim = 0) : ChargedOnce claim s' due' := by
  refine ⟨asked.trans once.asked, recorded.trans once.recorded, fun unclaimed => ?_⟩
  have none := once.unclaimed (claims unclaimed)
  omega

theorem chargeStep_once {s s' : ChargeState} {call : ChargeCall} {next : Option ChargeCall}
    {rest : ℕ × ℕ} (step : ChargeStep s call s' next)
    (once : ChargedOnce claim s (call.due claim + rest)) :
    ChargedOnce claim s' (weight (ChargeCall.due claim) next.toList + rest) := by
  cases step with
  | @apply deployment other hasListeners flagged frames memo goesOn decided =>
      have nothing : (ChargeCall.afterMemo deployment other frames goesOn).due claim = 0 := by
        cases goesOn <;> rfl
      refine once.after ?_ ?_ id
      · simp [nothing]
      · simp [nothing]
  | @claim deployment other frames =>
      by_cases first : other = claim ∧ s.claims other = 0
      · obtain ⟨rfl, unclaimed⟩ := first
        obtain ⟨noneAsked, noneRecorded⟩ := once.unclaimed unclaimed
        simp only [ChargeCall.due, Prod.fst_add, Prod.snd_add, Prod.fst_zero, Prod.snd_zero]
          at noneAsked noneRecorded
        refine ⟨?_, ?_, fun free => ?_⟩
        · simp [ChargeCall.due, unclaimed]
          omega
        · simp [ChargeCall.due, unclaimed]
          omega
        · simp at free
      · have later : (ChargeCall.answered deployment other (s.claims other + 1) frames).due claim = 0 := by
          unfold ChargeCall.due
          refine if_neg fun isFirst => first ⟨isFirst.1, ?_⟩
          omega
        refine once.after ?_ ?_ fun unclaimed => ?_
        · simp [later]
        · simp [later]
        · rw [ChargeState.bump_claims] at unclaimed
          omega
  | claimFails failed =>
      rcases failed with rfl | rfl
      · exact once
      · refine once.after (le_refl _) (le_refl _) fun unclaimed => ?_
        rw [ChargeState.bump_claims] at unclaimed
        omega
  | @settle deployment answer other frames =>
      refine once.after ?_ ?_ fun unclaimed => by simpa using unclaimed
      · rw [ChargeState.settle_asked]
        by_cases first : answer = 1
        · by_cases same : other = claim <;> simp [ChargeCall.afterAnswer, ChargeCall.due, first, same]
          omega
        · simp [ChargeCall.afterAnswer, first]
      · rw [ChargeState.settle_recordings]
        by_cases first : answer = 1
        · by_cases same : other = claim <;> simp [ChargeCall.afterAnswer, ChargeCall.due, first, same]
        · simp [ChargeCall.afterAnswer, first]
  | @hear deployment other charges frames =>
      have less : (ChargeCall.afterListeners deployment other charges frames).due claim = 0 ∨
          (ChargeCall.afterListeners deployment other charges frames).due claim =
            (ChargeCall.asking deployment other frames).due claim := by
        unfold ChargeCall.afterListeners
        split
        · exact .inl rfl
        · exact .inr rfl
      refine once.after ?_ ?_ id
      · rcases less with none | same
        · simp [none]
        · simp [same]
      · rcases less with none | same
        · simp [none]
        · simp [same]
  | skip _ =>
      refine once.after ?_ ?_ id
      · simp [ChargeCall.due]
      · simp [ChargeCall.due]
  | @record deployment other month usages hasListeners flagged frames some =>
      refine once.after ?_ ?_ id
      · by_cases same : other = claim <;> simp [ChargeCall.due, same]
      · by_cases same : other = claim <;> simp [ChargeCall.due, same]
        omega
  | @recordFails _ deployment other month usages frames failed =>
      rcases failed with rfl | rfl
      · refine once.after ?_ ?_ id
        · simp [ChargeCall.due]
        · simp [ChargeCall.due]
      · refine once.after ?_ ?_ id
        · by_cases same : other = claim <;> simp [ChargeCall.due, same]
        · by_cases same : other = claim <;> simp [ChargeCall.due, same]
          omega
  | leave => exact once.after (le_refl _) (le_refl _) id
  | done => exact once.after (le_refl _) (le_refl _) id
  | stop =>
      refine once.after ?_ ?_ id
      · simp
      · simp
  | restart => exact once.after (le_refl _) (le_refl _) id

end Once

/-- Over every run of any number of deployments, whatever memos and claim counters it starts from, the
    listeners are asked at most once for an actor and a month, and what they charge is recorded at most
    once. -/
theorem charged_once (memos : ℕ → ChargeMemo) (claims : ClaimId → ℕ) (s : ChargeState)
    (calls : List ChargeCall) (run : Run monthlyCharges ⟨⟨memos, claims, [], []⟩, []⟩ ⟨s, calls⟩)
    (claim : ClaimId) : s.asked.count claim ≤ 1 ∧ s.recordings claim ≤ 1 := by
  have weighed : Weighed (fun _ _ => True) (ChargeCall.due claim) (ChargedOnce claim) ⟨s, calls⟩ := by
    refine run_weighed run ⟨fun _ _ => trivial, ?_⟩ ?_ ?_
    · exact ⟨by simp, by simp [ChargeState.recordings], fun _ => by simp [ChargeState.recordings]⟩
    · intro s call rest starts once
      cases starts with
      | applying =>
          refine ⟨trivial, once.after ?_ ?_ id⟩
          · simp
          · simp
      | restart =>
          refine ⟨trivial, once.after ?_ ?_ id⟩
          · simp
          · simp
    · intro s others call s' next _ step _ _ once
      exact ⟨fun _ _ => trivial, fun _ _ => trivial, chargeStep_once step once⟩
  obtain ⟨asked, recorded, -⟩ := weighed.holds
  exact ⟨(Nat.le_add_right _ _).trans asked, (Nat.le_add_right _ _).trans recorded⟩

section OneCharge

def januaryClaim : ClaimId := ⟨"u", "2025-01"⟩

def subscriptionCharge : UsageInput := ⟨"storage", some 5, some 10⟩

def firstOfMonth : ChargeState := ⟨fun _ => .empty, fun _ => 0, [], []⟩

/-- The first call of a month, on one of two deployments, and a call on the other while the listeners are
    asked: one charge is recorded. -/
theorem charged_for_january : ∃ s : ChargeState, s.recordings januaryClaim = 1 ∧
    s.asked.count januaryClaim ≤ 1 ∧ s.recordings januaryClaim ≤ 1 := by
  let claimed := (firstOfMonth.setMemo 0 ⟨{januaryClaim}, none, ∅⟩).bump januaryClaim
  let asked := claimed.settle 0 januaryClaim 1
  let refused := ((asked.setMemo 1 ⟨{januaryClaim}, none, ∅⟩).bump januaryClaim).settle 1 januaryClaim 2
  let left := refused.setMemo 1 { refused.memos 1 with
    claimsInFlight := (refused.memos 1).claimsInFlight.erase januaryClaim }
  let recorded := left.record ⟨januaryClaim, "2025-01", [subscriptionCharge]⟩
  refine ⟨recorded, by decide +kernel, charged_once (fun _ => .empty) (fun _ => 0) recorded
    [.applying 0 januaryClaim true true [januaryClaim]] ?_ januaryClaim⟩
  refine .head (.issue (@ChargeCall.Starts.applying 0 januaryClaim true false)) ?_
  refine .head (.goesOn trivial (.apply (by rfl))) ?_
  refine .head (.goesOn trivial .claim) ?_
  refine .head (.goesOn trivial .settle) ?_
  refine .head (.issue (@ChargeCall.Starts.applying 1 januaryClaim true false)) ?_
  refine .head (.goesOn trivial (.apply (by rfl))) ?_
  refine .head (.goesOn trivial .claim) ?_
  refine .head (.goesOn trivial .settle) ?_
  refine .head (.goesOn trivial .leave) ?_
  refine .head (.completes trivial .done) ?_
  refine .head (.goesOn trivial (@ChargeStep.hear _ _ _ [subscriptionCharge] _)) ?_
  exact .single (.goesOn trivial (.record (by decide +kernel)))

end OneCharge

end Puter

/-
Module: Puter.AiChat.OutputCaps
Purpose: What the gate leaves an attempt of a completion. Wherever in the chain an attempt stands, its prompt and the
  output it is capped to are within the balance that its gate read, the hold covers them, and the cap is the one that
  the model and the balance give, whatever the attempts before it left in the arguments. A model whose output has no
  price is not capped: it is given what was requested.
Trusted boundary: none
Main exports: applyCreditGate_ok, attempts_capped
-/
import Puter.AiChat.CompletionAttempts

namespace Puter

open ChatCompletionDriver

section Gate

variable {actor : Actor} {model : IChatModel} {args : ICompleteArguments} {estimates : GateEstimates}
  {reading : GateReading} {pass : GatePass}

theorem leastOf_le_first (first : ℚ) (others : List (Option ℚ)) : leastOf first others ≤ first := by
  unfold leastOf
  induction others generalizing first with
  | nil => exact le_rfl
  | cons other others ih =>
      rw [List.foldl_cons]
      apply (ih _).trans
      cases other with
      | none => exact le_rfl
      | some number => exact min_le_left first number

theorem leastOf_le_of_mem {first number : ℚ} {others : List (Option ℚ)} (listed : some number ∈ others) :
    leastOf first others ≤ number := by
  induction others generalizing first with
  | nil => cases listed
  | cons other others ih =>
      obtain rfl | later := List.mem_cons.mp listed
      · exact (leastOf_le_first _ others).trans (min_le_right first number)
      · exact ih later

theorem applyCreditGate_ok (passed : applyCreditGate actor model args estimates reading = .ok pass) :
    approximateInputCost model estimates ≤ reading.remainingCredits ∧
      cappedTokens model estimates reading.remainingCredits = .ok pass.args.maxTokens ∧
      pass.hold = reserveCredits actor reading
        (max (approximateInputCost model estimates + pass.args.maxTokens.getD 0 * outputTokenCost model)
          (minimumCredits model)) := by
  unfold applyCreditGate at passed
  split at passed
  · cases passed
  next affordable =>
    split at passed
    · cases passed
    · cases capped : cappedTokens model estimates reading.remainingCredits with
      | error error =>
          rw [capped] at passed
          cases passed
      | ok maxTokens =>
          rw [capped] at passed
          cases passed
          exact ⟨(le_max_left _ _).trans (not_lt.mp affordable), rfl, rfl⟩

theorem applyCreditGate_fresh (passed : applyCreditGate actor model args estimates reading = .ok pass)
    (others : ICompleteArguments) :
    applyCreditGate actor model others estimates reading =
      .ok ⟨{ others with maxTokens := pass.args.maxTokens }, pass.hold⟩ := by
  unfold applyCreditGate at passed ⊢
  split at passed
  · cases passed
  next affordable =>
    split at passed
    · cases passed
    next allowed =>
      rw [if_neg affordable, if_neg allowed]
      cases capped : cappedTokens model estimates reading.remainingCredits with
      | error error =>
          rw [capped] at passed
          cases passed
      | ok maxTokens =>
          rw [capped] at passed
          cases passed
          rfl

end Gate

/-- The output of an attempt is capped: to whole tokens, one at least, and no more than was requested and than the
    model has beside the prompt. -/
def OutputCapped (model : IChatModel) (estimates : GateEstimates) (maxTokens : Option ℚ) : Prop :=
  ∃ cap : ℕ, maxTokens = some (cap : ℚ) ∧ 1 ≤ cap ∧
    (∀ requested, estimates.requestedMaxTokens = some requested → (cap : ℚ) ≤ requested) ∧
    ∀ ceiling, modelOutputCeiling model estimates = some ceiling → (cap : ℚ) ≤ ceiling

section Cap

variable {model : IChatModel} {estimates : GateEstimates} {remainingCredits : ℚ} {maxTokens : Option ℚ}

theorem cappedTokens_priced (priced : 0 < outputTokenCost model)
    (capped : cappedTokens model estimates remainingCredits = .ok maxTokens) :
    OutputCapped model estimates maxTokens ∧
      approximateInputCost model estimates + maxTokens.getD 0 * outputTokenCost model ≤ remainingCredits := by
  unfold cappedTokens at capped
  rw [if_pos priced] at capped
  dsimp only at capped
  split at capped
  · cases capped
  next enough =>
    cases capped
    obtain ⟨cap, isCap⟩ := Int.eq_ofNat_of_zero_le (by omega : 0 ≤ outputCap model estimates remainingCredits)
    have floored : ((outputCap model estimates remainingCredits : ℤ) : ℚ) ≤
        leastOf ((remainingCredits - approximateInputCost model estimates) / outputTokenCost model)
          [estimates.requestedMaxTokens, modelOutputCeiling model estimates] := Int.floor_le _
    rw [isCap] at floored ⊢
    refine ⟨⟨cap, rfl, by omega, ?_, ?_⟩, ?_⟩
    · intro requested isRequested
      exact floored.trans (leastOf_le_of_mem (by rw [isRequested]; exact List.mem_cons_self))
    · intro ceiling isCeiling
      exact floored.trans (leastOf_le_of_mem (by rw [isCeiling]; exact List.mem_cons_of_mem _ List.mem_cons_self))
    · have affordable := floored.trans (leastOf_le_first _ _)
      rw [le_div_iff₀ priced] at affordable
      change approximateInputCost model estimates + ((cap : ℤ) : ℚ) * outputTokenCost model ≤ remainingCredits
      linarith only [affordable]

theorem cappedTokens_free (free : ¬ 0 < outputTokenCost model)
    (capped : cappedTokens model estimates remainingCredits = .ok maxTokens) :
    maxTokens = estimates.requestedMaxTokens := by
  unfold cappedTokens at capped
  rw [if_neg free] at capped
  exact (Except.ok.inj capped).symm

end Cap

section Chain

variable {run : CompletionRun}

theorem fallbackLoop_preserves {bucketKey : Text} {holds : List ProviderAttempt → List Text → Prop}
    (step : ∀ attempts tried args fallback pass, holds attempts tried →
      findFallback run.map (run.world.attempt attempts.length).unhealthy bucketKey tried = .ok (some fallback) →
      gateUnlessBlocked run fallback args (run.world.attempt attempts.length).reading = .ok pass →
      holds (attempts ++ [⟨fallback, pass.args.maxTokens, pass.hold, (run.world.attempt attempts.length).outcome⟩])
        (fallback.routeId :: tried))
    (left : ℕ) (attempts : List ProviderAttempt) (tried : List Text) (args : ICompleteArguments)
    (start : holds attempts tried) :
    ∃ tried', holds (fallbackLoop run bucketKey left attempts tried args).1 tried' := by
  induction left generalizing attempts tried args with
  | zero => exact ⟨tried, start⟩
  | succ left ih =>
      unfold fallbackLoop
      dsimp only
      split
      · exact ⟨tried, start⟩
      · exact ⟨tried, start⟩
      next fallback found =>
        split
        · exact ⟨tried, start⟩
        · split
          · exact ⟨tried, start⟩
          next pass passed =>
            have next := step attempts tried args fallback pass start found passed
            split
            · exact ⟨_, next⟩
            · exact ⟨_, next⟩
            · exact ih _ _ _ next

def AttemptGated (run : CompletionRun) (number : ℕ) (attempt : ProviderAttempt) : Prop :=
  ∃ args pass, gateUnlessBlocked run attempt.model args (run.world.attempt number).reading = .ok pass ∧
    attempt.maxTokens = pass.args.maxTokens ∧ attempt.hold = pass.hold

def AllGated (run : CompletionRun) (attempts : List ProviderAttempt) : Prop :=
  ∀ number attempt, attempts[number]? = some attempt → AttemptGated run number attempt

theorem AllGated.concat {attempts : List ProviderAttempt} {attempt : ProviderAttempt} (gated : AllGated run attempts)
    (last : AttemptGated run attempts.length attempt) : AllGated run (attempts ++ [attempt]) := by
  intro number other isOther
  rw [List.getElem?_append] at isOther
  split at isOther
  · exact gated number other isOther
  next isLast =>
    obtain ⟨within, rfl⟩ := List.getElem?_eq_some_iff.mp isOther
    obtain rfl : number = attempts.length := by
      rw [List.length_singleton] at within
      omega
    simpa using last

theorem attemptChain_gated (model : IChatModel) (args : ICompleteArguments) : AllGated run (attemptChain run model args).1 := by
  have none : AllGated run [] := fun number attempt isAttempt => by cases isAttempt
  unfold attemptChain
  dsimp only
  split
  · exact none
  next pass passed =>
    split
    · exact none
    · have first : AllGated run [⟨model, pass.args.maxTokens, pass.hold, (run.world.attempt 0).outcome⟩] :=
        none.concat ⟨args, pass, passed, rfl, rfl⟩
      split
      · exact first
      · exact first
      · obtain ⟨-, gated⟩ := @fallbackLoop_preserves run model.id (fun attempts _ => AllGated run attempts)
          (fun attempts tried args fallback pass gated _ passed => gated.concat ⟨args, pass, passed, rfl, rfl⟩)
          (maxAttempts - 1) _ [model.routeId] pass.args first
        exact gated

end Chain

/-- What the gate makes of an attempt: it is affordable, its output is capped where output has a price and else what was
    requested, the hold covers it, and none of it comes from the arguments as attempts before it have left them. -/
structure AttemptCapped (actor : Actor) (estimates : GateEstimates) (reading : GateReading) (attempt : ProviderAttempt) :
    Prop where
  affordable : approximateInputCost attempt.model estimates + attempt.maxTokens.getD 0 * outputTokenCost attempt.model ≤
    reading.remainingCredits
  capped : 0 < outputTokenCost attempt.model → OutputCapped attempt.model estimates attempt.maxTokens
  free : outputTokenCost attempt.model = 0 → attempt.maxTokens = estimates.requestedMaxTokens
  covered : ∀ amount, attempt.hold = some amount →
    approximateInputCost attempt.model estimates + attempt.maxTokens.getD 0 * outputTokenCost attempt.model ≤ amount
  held : actor.accountUser.uuid ≠ [] → isSystemActor actor = false → reading.cacheAnswers = true →
    0 < minimumCredits attempt.model → attempt.hold.isSome
  independent : ∀ args, applyCreditGate actor attempt.model args estimates reading =
    .ok ⟨{ args with maxTokens := attempt.maxTokens }, attempt.hold⟩

theorem attemptCapped_of_gate {actor : Actor} {args : ICompleteArguments} {estimates : GateEstimates}
    {reading : GateReading} {pass : GatePass} {attempt : ProviderAttempt}
    (passed : applyCreditGate actor attempt.model args estimates reading = .ok pass)
    (sameTokens : attempt.maxTokens = pass.args.maxTokens) (sameHold : attempt.hold = pass.hold)
    (prices : 0 ≤ outputTokenCost attempt.model) : AttemptCapped actor estimates reading attempt := by
  obtain ⟨promptPaid, capped, hold⟩ := applyCreditGate_ok passed
  rw [← sameTokens] at capped hold
  rw [← sameHold] at hold
  refine ⟨?_, ?_, ?_, ?_, ?_, ?_⟩
  · obtain priced | free := prices.lt_or_eq
    · exact (cappedTokens_priced priced capped).2
    · rw [← free, mul_zero, add_zero]
      exact promptPaid
  · exact fun priced => (cappedTokens_priced priced capped).1
  · exact fun free => cappedTokens_free (by rw [free]; exact lt_irrefl 0) capped
  · intro amount isAmount
    rw [hold, reserveCredits] at isAmount
    split at isAmount
    · cases isAmount
    · cases isAmount
      exact (le_max_left _ _).trans (Int.le_ceil _)
  · intro named notSystem answers positive
    rw [hold, reserveCredits, if_neg]
    · rfl
    · have amountPositive := lt_max_of_lt_right positive
        (b := approximateInputCost attempt.model estimates + attempt.maxTokens.getD 0 * outputTokenCost attempt.model)
      simp [named, notSystem, answers, amountPositive]
  · intro others
    rw [applyCreditGate_fresh passed others, sameTokens, sameHold]

/-- Each attempt of a completion that is not blocked is capped for its own model and balance. -/
theorem attempts_capped (letters : LetterCase) (map : ModelMap) (actor : Actor) (world : CompletionWorld)
    (args : ICompleteArguments) (allowed : world.allow = true) (number : ℕ) (attempt : ProviderAttempt)
    (made : (complete letters map actor world args).1[number]? = some attempt)
    (prices : 0 ≤ outputTokenCost attempt.model) :
    AttemptCapped actor ⟨world.promptTokenEstimate, args.maxTokens⟩ (world.attempt number).reading attempt := by
  unfold complete at made
  dsimp only at made
  split at made
  · cases made
  · cases made
  next model resolved =>
    rw [if_pos allowed] at made
    obtain ⟨given, pass, passed, sameTokens, sameHold⟩ := attemptChain_gated _ _ number attempt made
    exact attemptCapped_of_gate passed sameTokens sameHold prices

section Example

def pricedModel (id provider : String) (input output : ℚ) : IChatModel where
  id := id.toList
  provider := some provider.toList
  puterId := none
  aliases := none
  inputCostKey := none
  outputCostKey := none
  costs := [(IChatModel.inputTokens, input), (IChatModel.outputTokens, output)]
  maxTokens := some 4096
  subscriberOnly := false
  minimumCredits := none

def sonnetMap : ModelMap where
  keys := [("sonnet".toList, 0)]
  buckets := [[pricedModel "sonnet" "claude" 3 15, pricedModel "sonnet" "openrouter" 1 2]]

def failingVendor : CompletionWorld where
  providers := ["claude".toList, "openrouter".toList]
  defaultModel _ := []
  promptTokenEstimate := 1000
  allow := true
  abuse := false
  unhealthy _ := false
  unhealthyForBlocked _ := false
  attempt number := ⟨fun _ => false, ⟨10000, true, true⟩, if number = 0 then .failure else .success⟩

def someActor : Actor := .user ⟨1, ['u'], ['u'], true⟩ false

/-- The vendor is capped at 466 tokens; the reseller is given what the user asked for. -/
theorem fallback_not_capped_by_vendor :
    AttemptCapped someActor ⟨1000, some 2000⟩ ⟨10000, true, true⟩
      ⟨pricedModel "sonnet" "openrouter" 1 2, some 2000, some 5000, .success⟩ :=
  attempts_capped ⟨id⟩ sonnetMap someActor failingVendor ⟨"sonnet".toList, [], some 2000⟩ rfl 1 _
    (by decide +kernel) (by decide +kernel)

end Example

/-- A model whose output has no price is given more than it can put out. -/
theorem free_model_not_capped :
    ¬ ∀ actor model args estimates reading pass, 0 ≤ inputTokenCost model → 0 ≤ outputTokenCost model →
      applyCreditGate actor model args estimates reading = .ok pass → OutputCapped model estimates pass.args.maxTokens := by
  intro all
  obtain ⟨cap, isCap, -, -, underCeiling⟩ := all someActor (pricedModel "local" "ollama" 0 0) ⟨[], [], some 100000⟩
    ⟨96, some 100000⟩ ⟨10, true, true⟩ ⟨⟨[], [], some 100000⟩, some 1⟩ (by decide +kernel) (by decide +kernel)
    (by decide +kernel)
  have bound := underCeiling 4000 (by decide +kernel)
  rw [← Option.some.inj isCap] at bound
  norm_num at bound

end Puter

/-
Module: Puter.AiChat.CompletionAttempts
Purpose: The attempts of a completion in drivers/ai-chat: the gate that each one passes, which caps its output and takes
  a hold on what it can cost, the first attempt, and the fallbacks down the bucket of its model. One object of arguments
  is shared by all of them, and the gate writes the cap of each attempt into it.
Trusted boundary: what providers, listeners, balances and the marks of routes say is left open; prices and balances are
  rational
Main exports: ICompleteArguments, complete
-/
import Puter.AiChat.ModelRouting
import Puter.Core.Actor

namespace Puter

/-- The arguments of a completion, as far as the driver reads and writes them. An empty text counts as none. -/
structure ICompleteArguments where
  model : Text
  provider : Text
  maxTokens : Option ℚ
deriving DecidableEq, Repr

/-- What is estimated once, before any attempt. -/
structure GateEstimates where
  promptTokenEstimate : ℕ
  requestedMaxTokens : Option ℚ
deriving DecidableEq, Repr

/-- What the gate reads: the balance, whether the subscription is a default one, and whether the cache takes a hold. -/
structure GateReading where
  remainingCredits : ℚ
  isDefaultPolicy : Bool
  cacheAnswers : Bool
deriving DecidableEq, Repr

/-- The arguments as the gate leaves them, and the amount it holds. -/
structure GatePass where
  args : ICompleteArguments
  hold : Option ℤ
deriving DecidableEq, Repr

def leastOf (first : ℚ) (others : List (Option ℚ)) : ℚ :=
  others.foldl (fun least other => (other.map (min least)).getD least) first

/-- How the call of a provider ends: well, with a completion that moderation withholds, or with a failure. -/
inductive AttemptOutcome where
  | success
  | refusal
  | failure
deriving DecidableEq, Repr

/-- What an attempt meets: the marks of routes when it is chosen, what its gate reads, and how its provider ends. -/
structure AttemptWorld where
  unhealthy : IChatModel → Bool
  reading : GateReading
  outcome : AttemptOutcome

/-- What a completion meets. -/
structure CompletionWorld where
  providers : List Text
  defaultModel : Text → Text
  promptTokenEstimate : ℕ
  allow : Bool
  abuse : Bool
  unhealthy : IChatModel → Bool
  unhealthyForBlocked : IChatModel → Bool
  attempt : ℕ → AttemptWorld

/-- A call of a provider. -/
structure ProviderAttempt where
  model : IChatModel
  maxTokens : Option ℚ
  hold : Option ℤ
  outcome : AttemptOutcome
deriving DecidableEq, Repr

/-- How a completion ends. -/
inductive CompletionEnd where
  | succeeded (model : IChatModel)
  | withheld
  | rejected (error : HttpError)
  | broken (error : TypeError)
  | exhausted
deriving DecidableEq, Repr

namespace ChatCompletionDriver

/-- `model.costs?.[key] ?? 0` -/
def costOf (model : IChatModel) (key : Text) : ℚ := (model.costs.lookup key).getD 0

def inputTokenCost (model : IChatModel) : ℚ := costOf model model.costKeys.1

def outputTokenCost (model : IChatModel) : ℚ := costOf model model.costKeys.2

/-- `Number(model.minimumCredits || 1)` -/
def minimumCredits (model : IChatModel) : ℚ := (model.minimumCredits.filter (· ≠ 0)).getD 1

def approximateInputCost (model : IChatModel) (estimates : GateEstimates) : ℚ :=
  estimates.promptTokenEstimate * inputTokenCost model

def modelOutputCeiling (model : IChatModel) (estimates : GateEstimates) : Option ℚ :=
  (model.maxTokens.filter (0 < ·)).map (· - (estimates.promptTokenEstimate : ℚ))

def outputCap (model : IChatModel) (estimates : GateEstimates) (remainingCredits : ℚ) : ℤ :=
  let maxAllowedOutputUcents := remainingCredits - approximateInputCost model estimates
  let maxAllowedOutputTokens := maxAllowedOutputUcents / outputTokenCost model
  ⌊leastOf maxAllowedOutputTokens [estimates.requestedMaxTokens, modelOutputCeiling model estimates]⌋

def cappedTokens (model : IChatModel) (estimates : GateEstimates) (remainingCredits : ℚ) : Except HttpError (Option ℚ) :=
  if 0 < outputTokenCost model then
    let cap := outputCap model estimates remainingCredits
    if cap < 1 then .error ⟨402, "No usage left for request.".toList, "insufficient_funds".toList⟩
    else .ok (some cap)
  else .ok estimates.requestedMaxTokens

/-- `reserveCredits`: a hold is of whole credits. -/
def reserveCredits (actor : Actor) (reading : GateReading) (amount : ℚ) : Option ℤ :=
  if actor.accountUser.uuid = [] ∨ isSystemActor actor ∨ ¬ 0 < amount ∨ reading.cacheAnswers = false then none
  else some ⌈amount⌉

def applyCreditGate (actor : Actor) (model : IChatModel) (args : ICompleteArguments) (estimates : GateEstimates)
    (reading : GateReading) : Except HttpError GatePass :=
  if reading.remainingCredits < max (approximateInputCost model estimates) (minimumCredits model) then
    .error ⟨402, "No usage left for request.".toList, "insufficient_funds".toList⟩
  else if model.subscriberOnly && reading.isDefaultPolicy then
    .error ⟨403, "The model ".toList ++ model.id ++
      " is only available to subscribers. Please subscribe to access this model.".toList, "permission_denied".toList⟩
  else do
    let maxTokens ← cappedTokens model estimates reading.remainingCredits
    let worstCaseCost := approximateInputCost model estimates + maxTokens.getD 0 * outputTokenCost model
    return ⟨{ args with maxTokens := maxTokens }, reserveCredits actor reading (max worstCaseCost (minimumCredits model))⟩

def maxAttempts : ℕ := 3

/-- What one completion works with. -/
structure CompletionRun where
  map : ModelMap
  actor : Actor
  world : CompletionWorld
  estimates : GateEstimates
  blocked : Bool

def gateUnlessBlocked (run : CompletionRun) (model : IChatModel) (args : ICompleteArguments) (reading : GateReading) :
    Except HttpError GatePass :=
  if run.blocked then .ok ⟨args, none⟩ else applyCreditGate run.actor model args run.estimates reading

def fallbackLoop (run : CompletionRun) (bucketKey : Text) :
    (left : ℕ) → (attempts : List ProviderAttempt) → (tried : List Text) → (args : ICompleteArguments) →
      List ProviderAttempt × CompletionEnd
  | 0, attempts, _, _ => (attempts, .exhausted)
  | left + 1, attempts, tried, args =>
      let meets := run.world.attempt attempts.length
      match findFallback run.map meets.unhealthy bucketKey tried with
      | .error error => (attempts, .broken error)
      | .ok none => (attempts, .exhausted)
      | .ok (some fallback) =>
          if fallback.provider.all (· ∉ run.world.providers) then (attempts, .exhausted)
          else
            match gateUnlessBlocked run fallback args meets.reading with
            | .error error => (attempts, .rejected error)
            | .ok pass =>
                let attempts := attempts ++ [⟨fallback, pass.args.maxTokens, pass.hold, meets.outcome⟩]
                match meets.outcome with
                | .success => (attempts, .succeeded fallback)
                | .refusal => (attempts, .withheld)
                | .failure => fallbackLoop run bucketKey left attempts (fallback.routeId :: tried) pass.args

def attemptChain (run : CompletionRun) (model : IChatModel) (args : ICompleteArguments) :
    List ProviderAttempt × CompletionEnd :=
  let meets := run.world.attempt 0
  match gateUnlessBlocked run model args meets.reading with
  | .error error => ([], .rejected error)
  | .ok pass =>
      if model.provider.all (· ∉ run.world.providers) then
        ([], .rejected ⟨500, "No provider found for model ".toList ++ model.id, "internal_error".toList⟩)
      else
        let attempts := [⟨model, pass.args.maxTokens, pass.hold, meets.outcome⟩]
        match meets.outcome with
        | .success => (attempts, .succeeded model)
        | .refusal => (attempts, .withheld)
        | .failure => fallbackLoop run model.id (maxAttempts - 1) attempts [model.routeId] pass.args

def intendedProvider (args : ICompleteArguments) : Text :=
  if args.model = [] ∧ args.provider = [] then "azure-openai".toList else args.provider

def requestedModel (world : CompletionWorld) (args : ICompleteArguments) : Text :=
  if args.model = [] ∧ intendedProvider args ∈ world.providers then world.defaultModel (intendedProvider args)
  else args.model

/-- The attempts of `complete`, and how it ends. -/
def complete (letters : LetterCase) (map : ModelMap) (actor : Actor) (world : CompletionWorld)
    (args : ICompleteArguments) : List ProviderAttempt × CompletionEnd :=
  let requested := { args with model := requestedModel world args }
  let estimates := ⟨world.promptTokenEstimate, args.maxTokens⟩
  match resolveModel letters map world.unhealthy requested.model (intendedProvider args) with
  | .error error => ([], .broken error)
  | .ok none => ([], .rejected ⟨400, "Model not found: ".toList ++ requested.model, "bad_request".toList⟩)
  | .ok (some model) =>
      if world.allow then attemptChain ⟨map, actor, world, estimates, false⟩ model requested
      else
        let fakeModelId := if world.abuse then "abuse".toList else "fake".toList
        match resolveModel letters map world.unhealthyForBlocked fakeModelId "fake-chat".toList with
        | .error error => ([], .broken error)
        | .ok none => ([], .rejected ⟨403, "Prompt blocked by policy".toList, "forbidden".toList⟩)
        | .ok (some fakeModel) => attemptChain ⟨map, actor, world, estimates, true⟩ fakeModel requested

end ChatCompletionDriver

end Puter

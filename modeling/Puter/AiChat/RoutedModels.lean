/-
Module: Puter.AiChat.RoutedModels
Purpose: Routing stays inside one bucket, unless a name is one that every object inherits. The map is a plain object, so
  such a name is found in it though no entry has it: asked for as a model, or met first among the identity keys of an
  entry, it is taken for a bucket and throws. An entry without an id is in no bucket that the map leads to. And the order
  of a bucket is the order of preference where the prices of one rank can be compared.
Trusted boundary: `toLowerCase` is idempotent and makes no white space
Main exports: preference, AttemptsWell, routing_exact
-/
import Puter.AiChat.ModelBuckets
import Puter.AiChat.OutputCaps

namespace Puter

open PosixPath ModelRouting ChatCompletionDriver SortedBuckets

section Entries

variable {letters : LetterCase}

theorem named_of_spaceless (lawful : letters.Lawful) {provider : Text} {model : IChatModel}
    (spaceless : ∀ c ∈ model.id, isSpace c = false) (nonempty : (entryOf letters provider model).id ≠ []) :
    Named letters (entryOf letters provider model) := by
  have isId : (entryOf letters provider model).id = letters.toLowerCase model.id := by
    change letters.toLowerCase (trim model.id) = letters.toLowerCase model.id
    rw [Pagination.trim_eq_self spaceless]
  have lower := lawful.spaceless model.id spaceless
  constructor
  case normal =>
    rw [isId]
    unfold normalizeModelKey
    rw [Pagination.trim_eq_self lower, lawful.idempotent]
  case identity =>
    rw [isId] at nonempty ⊢
    unfold isIdentityKey
    simpa [nonempty] using lower

end Entries

section Preference

def preference (model : IChatModel) : ℕ ×ₗ ℚ ×ₗ ℕ :=
  toLex (providerRank model.provider, toLex (model.inputPrice.getD 0, utf16Length model.id))

def Comparable (a b : IChatModel) : Prop :=
  providerRank a.provider = providerRank b.provider → a.inputPrice.isSome = b.inputPrice.isSome

theorem comparePrices_le (aPrice bPrice : Option ℚ) (aLength bLength : ℕ) :
    aPrice.isSome = bPrice.isSome → ((if aPrice = bPrice then (aLength : ℚ) - bLength
      else match aPrice, bPrice with
        | some aCost, some bCost => aCost - bCost
        | _, _ => 0) ≤ 0 ↔
      toLex (aPrice.getD 0, aLength) ≤ toLex (bPrice.getD 0, bLength)) := by
  intro comparable
  rw [Prod.Lex.toLex_le_toLex]
  cases aPrice with
  | none =>
      cases bPrice with
      | none => simp
      | some bCost => exact nomatch comparable
  | some aCost =>
      cases bPrice with
      | none => exact nomatch comparable
      | some bCost =>
          by_cases same : aCost = bCost
          · simp [same]
          · have differs : aCost - bCost ≠ 0 := sub_ne_zero.mpr same
            simp [same, differs, le_iff_lt_or_eq]

theorem compareModelPreference_le {a b : IChatModel} (comparable : Comparable a b) :
    compareModelPreference a b ≤ 0 ↔ preference a ≤ preference b := by
  unfold compareModelPreference preference
  rw [Prod.Lex.toLex_le_toLex]
  dsimp only
  by_cases ranks : providerRank a.provider = providerRank b.provider
  · have prices := comparePrices_le a.inputPrice b.inputPrice (utf16Length a.id) (utf16Length b.id) (comparable ranks)
    rw [ranks, sub_self, if_neg (fun differs => differs rfl)]
    exact prices.trans (by simp)
  · have differs : (providerRank a.provider : ℚ) - providerRank b.provider ≠ 0 := by
      rw [sub_ne_zero]
      exact_mod_cast ranks
    rw [if_pos differs, sub_nonpos, Nat.cast_le]
    constructor
    · intro below
      exact .inl (lt_of_le_of_ne below ranks)
    · intro below
      exact (below.resolve_right fun same => ranks same.1).le

theorem sortBucket_pairwise {bucket : List IChatModel} (comparable : ∀ a ∈ bucket, ∀ b ∈ bucket, Comparable a b) :
    (sortBucket bucket).Pairwise fun a b => compareModelPreference a b ≤ 0 := by
  let le (a b : IChatModel) : Bool := compareModelPreference a b ≤ 0
  have ranks : ∀ a ∈ bucket, ∀ b ∈ bucket, le a b = decide (preference a ≤ preference b) :=
    fun a isA b isB => decide_eq_decide.mpr (compareModelPreference_le (comparable a isA b isB))
  exact (pairwise_mergeSort_of_rank preference ranks).imp fun below => of_decide_eq_true below

def PricedAlike (letters : LetterCase) (entries : List IChatModel) : Prop :=
  ∀ a b, Relation.EqvGen (Joins letters entries) a b → Comparable a b

theorem pricedAlike_of_priced (letters : LetterCase) {entries : List IChatModel}
    (priced : ∀ entry ∈ entries, entry.inputPrice.isSome = true) : PricedAlike letters entries := by
  have both (a b : IChatModel) (connected : Relation.EqvGen (Joins letters entries) a b) :
      a.inputPrice.isSome = b.inputPrice.isSome := by
    induction connected with
    | rel a b joins => rw [priced a joins.1, priced b joins.2.1]
    | refl a => rfl
    | symm a b _ ih => exact ih.symm
    | trans a b c _ _ one two => exact one.trans two
  exact fun a b connected _ => both a b connected

theorem Registered.pairwise {letters : LetterCase} {entries : List IChatModel} {map : ModelMap}
    (registered : Registered letters entries map) (alike : PricedAlike letters entries) (index : ℕ) :
    (map.bucketAt index).Pairwise fun a b => compareModelPreference a b ≤ 0 := by
  rcases registered.sorted index with ⟨bucket, sorted⟩
  rw [sorted]
  apply sortBucket_pairwise
  intro a isA b isB
  have inBucket (c : IChatModel) (isC : c ∈ bucket) : c ∈ map.bucketAt index := by
    rw [sorted]
    exact mem_sortBucket.mpr isC
  exact alike a b (registered.joined index a b (inBucket a isA) (inBucket b isB))

end Preference

section Lookups

variable {letters : LetterCase} {map : ModelMap} {unhealthy : IChatModel → Bool} {key : Text} {model : IChatModel}

def InBucket (map : ModelMap) (key : Text) (model : IChatModel) : Prop :=
  ∃ index, map.keys.lookup key = some index ∧ model ∈ map.bucketAt index

theorem mem_of_preferHealthy {models : List IChatModel} (found : preferHealthy unhealthy models = some model) :
    model ∈ models := List.mem_of_find?_eq_some found

theorem mem_of_preferred {models : List IChatModel}
    (found : ((preferHealthy unhealthy models).orElse fun _ => models.head?) = some model) : model ∈ models := by
  cases healthy : preferHealthy unhealthy models with
  | some chosen =>
      rw [healthy] at found
      exact Option.some.inj found ▸ mem_of_preferHealthy healthy
  | none =>
      rw [healthy] at found
      exact List.mem_of_head? found

theorem resolveModel_inBucket {modelId provider : Text}
    (resolved : resolveModel letters map unhealthy modelId provider = .ok (some model)) :
    InBucket map (normalizeModelKey letters modelId) model := by
  unfold resolveModel at resolved
  cases found : map.find (normalizeModelKey letters modelId) with
  | none =>
      rw [found] at resolved
      exact nomatch resolved
  | some entry =>
      rw [found] at resolved
      cases entry with
      | inherited => exact nomatch resolved
      | bucket index =>
          have owner := ModelMap.find_eq_bucket.mp found
          dsimp only at resolved
          split at resolved
          · exact nomatch resolved
          · have chosen := Except.ok.inj resolved
            cases pinned : (if provider ≠ [] then (map.bucketAt index).find? fun model => model.provider = some provider
                else none) with
            | some pick =>
                rw [pinned] at chosen
                split at pinned
                · exact ⟨index, owner, Option.some.inj chosen ▸ List.mem_of_find?_eq_some pinned⟩
                · exact nomatch pinned
            | none =>
                rw [pinned] at chosen
                exact ⟨index, owner, mem_of_preferred chosen⟩

theorem resolveModel_ok {modelId : Text} (provider : Text) (own : normalizeModelKey letters modelId ∉ inheritedNames) :
    ∃ found, resolveModel letters map unhealthy modelId provider = .ok found := by
  unfold resolveModel
  cases found : map.find (normalizeModelKey letters modelId) with
  | none => exact ⟨none, rfl⟩
  | some entry =>
      cases entry with
      | inherited =>
          unfold ModelMap.find at found
          rw [if_neg own] at found
          cases known : map.keys.lookup (normalizeModelKey letters modelId) with
          | none =>
              rw [known] at found
              exact nomatch found
          | some index =>
              rw [known] at found
              exact nomatch found
      | bucket index =>
          dsimp only
          split
          · exact ⟨none, rfl⟩
          · exact ⟨_, rfl⟩

theorem resolveModel_throws {entries : List IChatModel} (registered : Registered letters entries map) {modelId : Text}
    (provider : Text) (inherited : normalizeModelKey letters modelId ∈ inheritedNames) :
    resolveModel letters map unhealthy modelId provider = .error ⟨"models.find is not a function"⟩ := by
  unfold resolveModel
  rw [registered.find_inherited inherited]

theorem findFallback_spec {tried : List Text} (found : findFallback map unhealthy key tried = .ok (some model)) :
    InBucket map key model ∧ model.routeId ∉ tried := by
  unfold findFallback at found
  cases known : map.find key with
  | none =>
      rw [known] at found
      cases found
  | some entry =>
      rw [known] at found
      cases entry with
      | inherited => cases found
      | bucket index =>
          have member := List.mem_filter.mp (mem_of_preferred (Except.ok.inj found))
          exact ⟨⟨index, ModelMap.find_eq_bucket.mp known, member.1⟩, of_decide_eq_true member.2⟩

theorem findFallback_ok {tried : List Text} {index : ℕ} (known : map.keys.lookup key = some index) :
    ∃ found, findFallback map unhealthy key tried = .ok found := by
  unfold findFallback
  rw [ModelMap.find_eq_bucket.mpr known]
  exact ⟨_, rfl⟩

end Lookups

section Attempts

variable {run : CompletionRun}

/-- All attempts but the last have failed, and the completion succeeds with the model of the last one, if that did. -/
structure FirstSuccess (attempts : List ProviderAttempt) (ending : CompletionEnd) : Prop where
  failed : ∀ attempt ∈ attempts.dropLast, attempt.outcome = .failure
  succeeded : ∀ model, ending = .succeeded model ↔
    ∃ last, attempts.getLast? = some last ∧ last.outcome = .success ∧ last.model = model

def AllFailed (attempts : List ProviderAttempt) : Prop := ∀ attempt ∈ attempts, attempt.outcome = .failure

theorem AllFailed.firstSuccess {attempts : List ProviderAttempt} {ending : CompletionEnd} (failed : AllFailed attempts)
    (unsuccessful : ∀ model, ending ≠ .succeeded model) : FirstSuccess attempts ending where
  failed attempt member := failed attempt (List.mem_of_mem_dropLast member)
  succeeded model := by
    constructor
    · intro succeeded
      exact absurd succeeded (unsuccessful model)
    · intro some
      rcases some with ⟨last, isLast, success, _⟩
      rw [failed last (List.mem_of_getLast? isLast)] at success
      exact nomatch success

theorem AllFailed.concat {attempts : List ProviderAttempt} {last : ProviderAttempt} (failed : AllFailed attempts)
    (lastFailed : last.outcome = .failure) : AllFailed (attempts ++ [last]) := by
  intro attempt member
  cases List.mem_append.mp member with
  | inl before => exact failed attempt before
  | inr isLast => rw [List.mem_singleton.mp isLast, lastFailed]

theorem AllFailed.ends {attempts : List ProviderAttempt} {last : ProviderAttempt} {ending : CompletionEnd}
    (failed : AllFailed attempts)
    (ends : ∀ model, ending = .succeeded model ↔ last.outcome = .success ∧ last.model = model) :
    FirstSuccess (attempts ++ [last]) ending := by
  constructor
  · rw [List.dropLast_concat]
    exact failed
  · intro model
    rw [List.getLast?_concat, ends model]
    simp

/-- How a chain of attempts ends: it is short, the first success ends it, and nothing is taken for a bucket. -/
structure ChainEnds (most : ℕ) (chain : List ProviderAttempt × CompletionEnd) : Prop where
  bounded : chain.1.length ≤ most
  firstSuccess : FirstSuccess chain.1 chain.2
  unbroken : ∀ error, chain.2 ≠ .broken error

theorem AllFailed.chainEnds {attempts : List ProviderAttempt} {ending : CompletionEnd} {most : ℕ}
    (failed : AllFailed attempts) (bounded : attempts.length ≤ most) (unsuccessful : ∀ model, ending ≠ .succeeded model)
    (unbroken : ∀ error, ending ≠ .broken error) : ChainEnds most (attempts, ending) :=
  ⟨bounded, failed.firstSuccess unsuccessful, unbroken⟩

theorem fallbackLoop_ends {bucketKey : Text} {index : ℕ} (known : run.map.keys.lookup bucketKey = some index) (left : ℕ)
    (attempts : List ProviderAttempt) (tried : List Text) (args : ICompleteArguments) (failed : AllFailed attempts) :
    ChainEnds (attempts.length + left) (fallbackLoop run bucketKey left attempts tried args) := by
  induction left generalizing attempts tried args with
  | zero => exact failed.chainEnds (Nat.le_refl _) (by rintro _ ⟨⟩) (by rintro _ ⟨⟩)
  | succ left ih =>
      have short : attempts.length ≤ attempts.length + (left + 1) := Nat.le_add_right _ _
      have one : attempts.length + 1 ≤ attempts.length + (left + 1) := by omega
      obtain ⟨found, looked⟩ :=
        @findFallback_ok run.map (run.world.attempt attempts.length).unhealthy bucketKey tried index known
      unfold fallbackLoop
      dsimp only
      rw [looked]
      cases found with
      | none => exact failed.chainEnds short (by rintro _ ⟨⟩) (by rintro _ ⟨⟩)
      | some fallback =>
          dsimp only
          split
          · exact failed.chainEnds short (by rintro _ ⟨⟩) (by rintro _ ⟨⟩)
          · cases gateUnlessBlocked run fallback args (run.world.attempt attempts.length).reading with
            | error thrown => exact failed.chainEnds short (by rintro _ ⟨⟩) (by rintro _ ⟨⟩)
            | ok pass =>
                dsimp only
                cases outcome : (run.world.attempt attempts.length).outcome with
                | success => exact ⟨by rwa [List.length_append], failed.ends fun model => by simp, by rintro _ ⟨⟩⟩
                | refusal => exact ⟨by rwa [List.length_append], failed.ends fun model => by simp, by rintro _ ⟨⟩⟩
                | failure =>
                    have rest := ih
                      (attempts ++ [⟨fallback, pass.args.maxTokens, pass.hold, .failure⟩])
                      (fallback.routeId :: tried) pass.args (failed.concat rfl)
                    rwa [List.length_append, List.length_singleton, Nat.add_assoc, Nat.add_comm 1 left] at rest

/-- Attempts on distinct routes, all in one bucket. -/
structure RoutesIn (map : ModelMap) (key : Text) (attempts : List ProviderAttempt) (tried : List Text) : Prop where
  tried : ∀ attempt ∈ attempts, attempt.model.routeId ∈ tried
  distinct : (attempts.map fun attempt => attempt.model.routeId).Nodup
  inBucket : ∀ attempt ∈ attempts, InBucket map key attempt.model

theorem RoutesIn.concat {map : ModelMap} {key : Text} {attempts : List ProviderAttempt} {tried : List Text}
    {attempt : ProviderAttempt} (routes : RoutesIn map key attempts tried) (member : InBucket map key attempt.model)
    (fresh : attempt.model.routeId ∉ tried) : RoutesIn map key (attempts ++ [attempt]) (attempt.model.routeId :: tried) := by
  constructor
  case tried =>
    intro other isOther
    cases List.mem_append.mp isOther with
    | inl before => exact List.mem_cons_of_mem _ (routes.tried other before)
    | inr isLast =>
        rw [List.mem_singleton.mp isLast]
        exact List.mem_cons_self
  case distinct =>
    rw [List.map_append, List.nodup_append_comm]
    apply List.nodup_cons.mpr
    refine ⟨?_, routes.distinct⟩
    intro before
    rcases List.mem_map.mp before with ⟨other, isOther, same⟩
    have sameRoute : other.model.routeId = attempt.model.routeId := same
    exact fresh (sameRoute ▸ routes.tried other isOther)
  case inBucket =>
    intro other isOther
    cases List.mem_append.mp isOther with
    | inl before => exact routes.inBucket other before
    | inr isLast => rwa [List.mem_singleton.mp isLast]

/-- The attempts of a completion that is routed by a key. -/
structure AttemptsWell (map : ModelMap) (key : Text) (chain : List ProviderAttempt × CompletionEnd) : Prop where
  ends : ChainEnds maxAttempts chain
  distinct : (chain.1.map fun attempt => (attempt.model.provider, attempt.model.id)).Nodup
  inBucket : ∀ attempt ∈ chain.1, InBucket map key attempt.model

theorem attemptsWell_none (map : ModelMap) (key : Text) {ending : CompletionEnd}
    (unsuccessful : ∀ model, ending ≠ .succeeded model) (unbroken : ∀ error, ending ≠ .broken error) :
    AttemptsWell map key ([], ending) where
  ends := AllFailed.chainEnds (fun _ member => nomatch member) (Nat.zero_le _) unsuccessful unbroken
  distinct := List.nodup_nil
  inBucket _ member := nomatch member

theorem RoutesIn.attemptsWell {map : ModelMap} {key : Text} {chain : List ProviderAttempt × CompletionEnd}
    {tried : List Text} (routes : RoutesIn map key chain.1 tried) (ends : ChainEnds maxAttempts chain) :
    AttemptsWell map key chain := by
  refine ⟨ends, ?_, routes.inBucket⟩
  apply List.Nodup.of_map fun route : Option Text × Text => route.1.getD [] ++ ':' :: route.2
  rw [List.map_map]
  exact routes.distinct

theorem InBucket.of_ownId {map : ModelMap} {key : Text} {model other : IChatModel} (own : OwnIds map)
    (member : InBucket map key model) (isOther : InBucket map model.id other) : InBucket map key other := by
  rcases member with ⟨index, owner, isModel⟩
  rcases isOther with ⟨index', owner', isOther⟩
  have same := Option.some.inj ((own index model isModel).symm.trans owner')
  exact ⟨index, owner, same ▸ isOther⟩

theorem attemptChain_well (own : OwnIds run.map) {key : Text} {model : IChatModel} (member : InBucket run.map key model)
    (args : ICompleteArguments) : AttemptsWell run.map key (attemptChain run model args) := by
  unfold attemptChain
  dsimp only
  cases gateUnlessBlocked run model args (run.world.attempt 0).reading with
  | error thrown => exact attemptsWell_none _ _ (by rintro _ ⟨⟩) (by rintro _ ⟨⟩)
  | ok pass =>
      dsimp only
      split
      · exact attemptsWell_none _ _ (by rintro _ ⟨⟩) (by rintro _ ⟨⟩)
      · have nothing : RoutesIn run.map key [] [] :=
          ⟨fun _ none => (nomatch none), List.nodup_nil, fun _ none => (nomatch none)⟩
        have first (outcome : AttemptOutcome) :
            RoutesIn run.map key [⟨model, pass.args.maxTokens, pass.hold, outcome⟩] [model.routeId] :=
          nothing.concat member List.not_mem_nil
        have none : AllFailed [] := fun _ none => nomatch none
        have one : 1 ≤ maxAttempts := by decide
        have inOwn := member
        rcases inOwn with ⟨index, _, isModel⟩
        cases (run.world.attempt 0).outcome with
        | success => exact (first .success).attemptsWell ⟨one, none.ends fun model => by simp, fun _ => nofun⟩
        | refusal => exact (first .refusal).attemptsWell ⟨one, none.ends fun model => by simp, fun _ => nofun⟩
        | failure =>
            obtain ⟨tried, routes⟩ := @fallbackLoop_preserves run model.id (RoutesIn run.map key)
              (fun attempts tried args fallback pass routes found passed =>
                have inBucket := findFallback_spec found
                routes.concat (member.of_ownId own inBucket.1) inBucket.2)
              (maxAttempts - 1) _ [model.routeId] pass.args (first .failure)
            have failed : AllFailed [⟨model, pass.args.maxTokens, pass.hold, .failure⟩] := none.concat rfl
            exact routes.attemptsWell
              (fallbackLoop_ends (own index model isModel) (maxAttempts - 1) _ [model.routeId] pass.args failed)

end Attempts

section Completion

variable {letters : LetterCase} {map : ModelMap}

def routingKey (letters : LetterCase) (world : CompletionWorld) (args : ICompleteArguments) : Text :=
  normalizeModelKey letters
    (if world.allow then requestedModel world args else if world.abuse then "abuse".toList else "fake".toList)

theorem routingKey_own (lawful : letters.Lawful) {world : CompletionWorld} {args : ICompleteArguments}
    (requested : normalizeModelKey letters (requestedModel world args) ∉ inheritedNames) :
    routingKey letters world args ∉ inheritedNames := by
  unfold routingKey
  cases world.allow with
  | true => exact requested
  | false =>
      cases world.abuse with
      | true =>
          have same : normalizeModelKey letters "abuse".toList = "abuse".toList := lawful.lowercase _ (by decide)
          simp only [Bool.false_eq_true, if_false, if_true, same]
          decide
      | false =>
          have same : normalizeModelKey letters "fake".toList = "fake".toList := lawful.lowercase _ (by decide)
          simp only [Bool.false_eq_true, if_false, same]
          decide

theorem complete_well (own : OwnIds map) (actor : Actor) (world : CompletionWorld) (args : ICompleteArguments)
    (lawful : letters.Lawful) (requested : normalizeModelKey letters (requestedModel world args) ∉ inheritedNames) :
    AttemptsWell map (routingKey letters world args) (complete letters map actor world args) := by
  have routed := routingKey_own lawful requested
  unfold routingKey at routed ⊢
  unfold complete
  dsimp only
  rcases @resolveModel_ok letters map world.unhealthy _ (intendedProvider args) requested with ⟨found, resolved⟩
  rw [resolved]
  cases found with
  | none => exact attemptsWell_none _ _ (by rintro _ ⟨⟩) (by rintro _ ⟨⟩)
  | some model =>
      cases allow : world.allow with
      | true =>
          have chain := @attemptChain_well
            ⟨map, actor, world, ⟨world.promptTokenEstimate, args.maxTokens⟩, false⟩ own _ _ (resolveModel_inBucket resolved)
          exact chain _
      | false =>
          rw [allow] at routed
          rcases @resolveModel_ok letters map world.unhealthyForBlocked _ "fake-chat".toList routed with ⟨fake, faked⟩
          simp only [Bool.false_eq_true, if_false] at faked ⊢
          rw [faked]
          cases fake with
          | none => exact attemptsWell_none _ _ (by rintro _ ⟨⟩) (by rintro _ ⟨⟩)
          | some fakeModel =>
              have chain := @attemptChain_well
                ⟨map, actor, world, ⟨world.promptTokenEstimate, args.maxTokens⟩, true⟩ own _ _ (resolveModel_inBucket faked)
              exact chain _

theorem exists_bucketAt {entry : IChatModel} (member : entry ∈ map.buckets.flatten) : ∃ index, entry ∈ map.bucketAt index := by
  rcases List.mem_flatten.mp member with ⟨bucket, isBucket, isEntry⟩
  rcases List.mem_iff_getElem.mp isBucket with ⟨index, inside, same⟩
  refine ⟨index, ?_⟩
  unfold ModelMap.bucketAt
  rwa [List.getD_eq_getElem _ _ inside, same]

end Completion

/-- What is claimed of a map that is built from some catalogs, and of the requests for a model. -/
structure RoutesWell (letters : LetterCase) (catalogs : List (Text × List IChatModel)) (requested : Text) (map : ModelMap) :
    Prop where
  once : map.buckets.flatten.Perm (offered letters (offersOf catalogs))
  alone : ∀ entry index other, entry ∈ map.bucketAt index → entry ∈ map.bucketAt other → index = other
  ownIds : OwnIds map
  sorted : ∀ index, (map.bucketAt index).Pairwise fun a b => compareModelPreference a b ≤ 0
  resolves : ∀ unhealthy provider, ∃ found, resolveModel letters map unhealthy requested provider = .ok found ∧
    ∀ model, found = some model → InBucket map (normalizeModelKey letters requested) model
  completes : ∀ actor world args, requestedModel world args = requested →
    AttemptsWell map (routingKey letters world args) (complete letters map actor world args)

def Routed (letters : LetterCase) (catalogs : List (Text × List IChatModel)) (requested : Text) : Prop :=
  ∃ map, buildModelMap letters catalogs = .ok map ∧ RoutesWell letters catalogs requested map

/-- Each entry has an id, no entry meets the name of an inherited property first, and no such name is asked for. -/
structure Usable (letters : LetterCase) (catalogs : List (Text × List IChatModel)) (requested : Text) : Prop where
  named : ∀ entry ∈ offered letters (offersOf catalogs), entry.id ≠ []
  free : FreeOfInherited letters [] (offered letters (offersOf catalogs))
  requested : normalizeModelKey letters requested ∉ inheritedNames

theorem usable_of_routed {letters : LetterCase} {catalogs : List (Text × List IChatModel)} {requested : Text}
    (routed : Routed letters catalogs requested) : Usable letters catalogs requested := by
  rcases routed with ⟨map, built, well⟩
  have free := free_of_registerAll (registered_empty letters) built
  rcases registerAll_registered (registered_empty letters) free with ⟨map', ran, registered, _⟩
  have same : map' = map := Except.ok.inj (ran.symm.trans built)
  rw [same] at registered
  refine ⟨?_, free, ?_⟩
  · intro entry member unnamed
    rcases exists_bucketAt (well.once.mem_iff.mpr member) with ⟨index, isEntry⟩
    have owner := well.ownIds index entry isEntry
    have known := ((registered.known entry.id).mp (Option.isSome_iff_exists.mpr ⟨index, owner⟩)).1
    rcases List.mem_flatMap.mp known with ⟨other, _, isKey⟩
    have long := (List.mem_filter.mp isKey).2
    rw [unnamed] at long
    exact nomatch long
  · intro inherited
    rcases well.resolves (fun _ => false) [] with ⟨found, resolved, _⟩
    rw [resolveModel_throws registered [] inherited] at resolved
    exact nomatch resolved

theorem routed_of_usable {letters : LetterCase} (lawful : letters.Lawful) {catalogs : List (Text × List IChatModel)}
    (spaceless : ∀ offer ∈ offersOf catalogs, ∀ c ∈ offer.2.id, isSpace c = false) {requested : Text}
    (usable : Usable letters catalogs requested) (alike : PricedAlike letters (offered letters (offersOf catalogs))) :
    Routed letters catalogs requested := by
  rcases registerAll_registered (registered_empty letters) usable.free with ⟨map, built, registered, ownIds⟩
  have named : ∀ entry ∈ offered letters (offersOf catalogs), Named letters entry := by
    intro entry member
    rcases List.mem_map.mp member with ⟨offer, isOffer, same⟩
    have nonempty := usable.named entry member
    rw [← same] at nonempty ⊢
    exact named_of_spaceless lawful (spaceless offer isOffer) nonempty
  have own : OwnIds map := ownIds (fun _ _ none => nomatch none) named
  rw [List.nil_append] at registered
  refine ⟨map, built, registered.once, ?_, own, registered.pairwise alike, ?_, ?_⟩
  · intro entry index other one two
    exact Option.some.inj ((own index entry one).symm.trans (own other entry two))
  · intro unhealthy provider
    rcases @resolveModel_ok letters map unhealthy requested provider usable.requested with ⟨found, resolved⟩
    refine ⟨found, resolved, ?_⟩
    intro model isModel
    rw [isModel] at resolved
    exact resolveModel_inBucket resolved
  · intro actor world args isRequested
    exact complete_well own actor world args lawful (isRequested ▸ usable.requested)

def sonnetCatalogs : List (Text × List IChatModel) :=
  [("claude".toList, [pricedModel "sonnet" "claude" 3 15]), ("openrouter".toList, [pricedModel "sonnet" "openrouter" 1 2])]

theorem sonnetCatalogs_spaceless : ∀ offer ∈ offersOf sonnetCatalogs, ∀ c ∈ offer.2.id, isSpace c = false := by
  have ids : ∀ offer ∈ offersOf sonnetCatalogs, offer.2.id = "sonnet".toList := by decide +kernel
  intro offer member
  rw [ids offer member]
  simp [isSpace]

end Puter

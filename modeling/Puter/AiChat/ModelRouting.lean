/-
Module: Puter.AiChat.ModelRouting
Purpose: The model map of drivers/ai-chat: the order of preference and the keys of utils/modelRouting.ts, the buckets
  that `#buildModelMap` groups the catalogs into, and the lookups by a requested name and for a fallback. The map is a
  plain object, so the names of the object prototype are found in it as well.
Trusted boundary: `toLowerCase` is left open; sorting is a stable merge sort
Main exports: IChatModel, ModelMap, findFallback
-/
import Puter.Fs.PosixPath

namespace Puter

/-- A model of a catalog, as far as routing and the gate read it. Numbers that are not finite are absent. -/
structure IChatModel where
  id : Text
  provider : Option Text
  puterId : Option Text
  aliases : Option (List Text)
  inputCostKey : Option Text
  outputCostKey : Option Text
  costs : List (Text × ℚ)
  maxTokens : Option ℚ
  subscriberOnly : Bool
  minimumCredits : Option ℚ
deriving DecidableEq, Repr

/-- `String.prototype.toLowerCase` -/
structure LetterCase where
  toLowerCase : Text → Text

/-- A property that is called and is no function. -/
structure TypeError where
  message : String
deriving DecidableEq, Repr

namespace IChatModel

def inputTokens : Text := "input_tokens".toList

def outputTokens : Text := "output_tokens".toList

/-- `costKeys`, of `utils/pricing.ts` -/
def costKeys (model : IChatModel) : Text × Text :=
  (model.inputCostKey.getD inputTokens, model.outputCostKey.getD outputTokens)

def inputPrice (model : IChatModel) : Option ℚ :=
  model.costs.lookup ((model.inputCostKey.filter (· ≠ [])).getD inputTokens)

def routeId (model : IChatModel) : Text := model.provider.getD [] ++ ':' :: model.id

end IChatModel

namespace ModelRouting

def togetherAi : Text := "together-ai".toList

def openrouter : Text := "openrouter".toList

def aggregatorProviders : List Text := [togetherAi, openrouter, "infron".toList, "neuralwatt".toList]

def providerRank (provider : Option Text) : ℕ :=
  if provider = some togetherAi then 3
  else if provider = some openrouter then 2
  else if provider.any (· ∈ aggregatorProviders) then 1
  else 0

/-- `compareModelPreference`. A price that is missing on one side makes the difference no number, which a sort takes for
    zero. -/
def compareModelPreference (a b : IChatModel) : ℚ :=
  let rankDiff := (providerRank a.provider : ℚ) - providerRank b.provider
  if rankDiff ≠ 0 then rankDiff
  else if a.inputPrice = b.inputPrice then (PosixPath.utf16Length a.id : ℚ) - PosixPath.utf16Length b.id
  else
    match a.inputPrice, b.inputPrice with
    | some aCost, some bCost => aCost - bCost
    | _, _ => 0

def normalizeModelKey (letters : LetterCase) (key : Text) : Text := letters.toLowerCase (PosixPath.trim key)

def isIdentityKey (key : Text) : Bool := key ≠ [] && !key.any PosixPath.isSpace

/-- `bucket.sort(compareModelPreference)` -/
def sortBucket (bucket : List IChatModel) : List IChatModel :=
  bucket.mergeSort fun a b => compareModelPreference a b ≤ 0

end ModelRouting

open ModelRouting

/-- The buckets, and which of them the own properties of the map hold. -/
structure ModelMap where
  keys : List (Text × ℕ)
  buckets : List (List IChatModel)
deriving DecidableEq, Repr

/-- What is found under a key of the map: a bucket, or a property of the object prototype. -/
inductive MapEntry where
  | bucket (index : ℕ)
  | inherited
deriving DecidableEq, Repr

/-- The properties of `Object.prototype`. -/
def inheritedNames : List Text :=
  ["constructor", "__proto__", "hasOwnProperty", "isPrototypeOf", "propertyIsEnumerable", "toLocaleString", "toString",
    "valueOf", "__defineGetter__", "__defineSetter__", "__lookupGetter__", "__lookupSetter__"].map String.toList

namespace ModelMap

def empty : ModelMap := ⟨[], []⟩

def find (map : ModelMap) (key : Text) : Option MapEntry :=
  match map.keys.lookup key with
  | some index => some (.bucket index)
  | none => if key ∈ inheritedNames then some .inherited else none

/-- `this.#modelIdMap[key] ??= bucket` -/
def claimKey (index : ℕ) (map : ModelMap) (key : Text) : ModelMap :=
  if (map.find key).isSome then map else { map with keys := map.keys ++ [(key, index)] }

def bucketAt (map : ModelMap) (index : ℕ) : List IChatModel := map.buckets.getD index []

def enter (map : ModelMap) (index : ℕ) (keys : List Text) (entry : IChatModel) : ModelMap :=
  let claimed := keys.foldl (claimKey index) map
  { claimed with buckets := claimed.buckets.modify index fun bucket => sortBucket (bucket ++ [entry]) }

end ModelMap

namespace ChatCompletionDriver

def entryOf (letters : LetterCase) (provider : Text) (model : IChatModel) : IChatModel :=
  { model with
    id := normalizeModelKey letters model.id
    provider := some provider
    aliases := match model.puterId.filter (· ≠ []) with
      | some puterId => some (model.aliases.getD [] ++ [puterId])
      | none => model.aliases }

def keysOf (letters : LetterCase) (entry : IChatModel) : List Text :=
  ((entry.id :: entry.aliases.getD []).map (normalizeModelKey letters)).filter fun key => 0 < key.length

/-- The body of the loops of `#buildModelMap`. -/
def registerModel (letters : LetterCase) (map : ModelMap) (provider : Text) (model : IChatModel) :
    Except TypeError ModelMap :=
  let entry := entryOf letters provider model
  let keys := keysOf letters entry
  match (keys.filter isIdentityKey).findSome? map.find with
  | some .inherited => .error ⟨"bucket.push is not a function"⟩
  | some (.bucket index) => .ok (map.enter index keys entry)
  | none => .ok ({ map with buckets := map.buckets ++ [[]] }.enter map.buckets.length keys entry)

def offersOf (catalogs : List (Text × List IChatModel)) : List (Text × IChatModel) :=
  catalogs.flatMap fun catalog => catalog.2.map fun model => (catalog.1, model)

def registerAll (letters : LetterCase) : ModelMap → List (Text × IChatModel) → Except TypeError ModelMap
  | map, [] => .ok map
  | map, offer :: offers => do
      let map ← registerModel letters map offer.1 offer.2
      registerAll letters map offers

def buildModelMap (letters : LetterCase) (catalogs : List (Text × List IChatModel)) : Except TypeError ModelMap :=
  registerAll letters .empty (offersOf catalogs)

def preferHealthy (unhealthy : IChatModel → Bool) (models : List IChatModel) : Option IChatModel :=
  models.find? fun model => !unhealthy model

def resolveModel (letters : LetterCase) (map : ModelMap) (unhealthy : IChatModel → Bool) (modelId provider : Text) :
    Except TypeError (Option IChatModel) :=
  match map.find (normalizeModelKey letters modelId) with
  | none => .ok none
  | some .inherited => .error ⟨"models.find is not a function"⟩
  | some (.bucket index) =>
      let models := map.bucketAt index
      if models = [] then .ok none
      else
        let pinned := if provider ≠ [] then models.find? fun model => model.provider = some provider else none
        .ok (pinned.orElse fun _ => (preferHealthy unhealthy models).orElse fun _ => models.head?)

def findFallback (map : ModelMap) (unhealthy : IChatModel → Bool) (modelId : Text) (tried : List Text) :
    Except TypeError (Option IChatModel) :=
  match map.find modelId with
  | none => .ok none
  | some .inherited => .error ⟨"models.filter is not a function"⟩
  | some (.bucket index) =>
      let untried := (map.bucketAt index).filter fun model => model.routeId ∉ tried
      .ok ((preferHealthy unhealthy untried).orElse fun _ => untried.head?)

end ChatCompletionDriver

end Puter

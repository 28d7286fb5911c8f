/-
Module: Puter.Metering.UsageBatches
Purpose: What recording usage adds to the counters (`incrementUsage` and `batchIncrementUsages` of
  services/metering/MeteringService.ts): the month of the actor, of the actor in an app, the shard of all usage, the
  shard of the app and the totals of the actor's apps. Amounts are rational; the alarms and what is done with the new
  totals are left out.
Trusted boundary: the hash that picks a shard is left open
Main exports: FiniteUsage, batch_adds_same_iff
-/
import Puter.Core.Actor
import Puter.Metering.MeteringBuffer
import Puter.Metering.MonthlyCharges

namespace Puter

/-- An entry of usage with a finite amount, and a cost override that is finite or absent. -/
structure FiniteUsage where
  usageType : String
  usageAmount : ℚ
  costOverride : Option ℚ
deriving DecidableEq, Repr

def FiniteUsage.input (usage : FiniteUsage) : UsageInput := ⟨usage.usageType, some usage.usageAmount, usage.costOverride⟩

/-- An increment of a counter. -/
structure CounterIncr where
  key : String
  pathAndAmountMap : FlatAmounts

/-- `murmurhash.v3` -/
structure UsageEnv where
  murmurhash : String → ℕ

/-- `actor.app?.uid`, empty where there is no app. -/
def Actor.appUid : Actor → String
  | .appUnderUser _ app => String.ofList app.uid
  | _ => ""

namespace UsageRecording

def globalAppKey : String := "os-global"

def metricsPrefix : String := "metering"

def globalShardCount : ℕ := 10000

def appShardCount : ℕ := 10000

/-- `String(usageType).replace(/\./g, PERIOD_ESCAPE)` -/
def escapePeriods (usageType : String) : String :=
  String.ofList (usageType.toList.flatMap fun c => if c = '.' then "_dot_".toList else [c])

def appIdOf (actor : Actor) : String := if actor.appUid = "" then globalAppKey else actor.appUid

def userIdOf (actor : Actor) : String := String.ofList actor.accountUser.uuid

def globalUsageKey (env : UsageEnv) (userId appId currentMonth : String) : String :=
  let hash := env.murmurhash (userId ++ ":" ++ appId) % globalShardCount
  metricsPrefix ++ ":puter:" ++ toString hash ++ ":" ++ currentMonth

def appUsageKey (env : UsageEnv) (appId userId currentMonth : String) : String :=
  let hash := env.murmurhash (appId ++ userId) % appShardCount
  metricsPrefix ++ ":app:" ++ appId ++ ":" ++ toString hash ++ ":" ++ currentMonth

def actorUsageKey (userId currentMonth : String) : String :=
  metricsPrefix ++ ":actor:" ++ userId ++ ":" ++ currentMonth

def actorAppUsageKey (userId appId currentMonth : String) : String :=
  metricsPrefix ++ ":actor:" ++ userId ++ ":app:" ++ appId ++ ":" ++ currentMonth

def actorAppTotalsKey (userId currentMonth : String) : String :=
  metricsPrefix ++ ":actor:" ++ userId ++ ":apps:" ++ currentMonth

def usageAmounts (usageType : String) (units cost : ℚ) : FlatAmounts :=
  let escaped := escapePeriods usageType
  (((Tally.single "total" cost).merge (.single (escaped ++ ".units") units)).merge
    (.single (escaped ++ ".cost") cost)).merge (.single (escaped ++ ".count") 1)

def usageKeys (env : UsageEnv) (actor : Actor) (currentMonth : String) : List String :=
  let appId := appIdOf actor
  let userId := userIdOf actor
  [actorUsageKey userId currentMonth, globalUsageKey env userId appId currentMonth,
    actorAppUsageKey userId appId currentMonth] ++
    if appId ≠ globalAppKey then [appUsageKey env appId userId currentMonth] else []

def usageIncrs (env : UsageEnv) (actor : Actor) (currentMonth : String) (pathAndAmountMap : FlatAmounts)
    (totalCost count : ℚ) : List CounterIncr :=
  let appId := appIdOf actor
  ((usageKeys env actor currentMonth).map fun key => ⟨key, pathAndAmountMap⟩) ++
    [⟨actorAppTotalsKey (userIdOf actor) currentMonth,
      (Tally.single (appId ++ ".total") totalCost).merge (.single (appId ++ ".count") count)⟩]

def clampCost (costOverride : Option ℚ) : Option ℚ := costOverride.map fun cost => if cost < 0 then 1 else cost

/-- `incrementUsage`, of a finite amount. -/
def incrementUsage (env : UsageEnv) (actor : Actor) (currentMonth : String) (usage : FiniteUsage) : List CounterIncr :=
  let usageAmount := if usage.usageAmount < 0 then 1 else usage.usageAmount
  if usageAmount = 0 ∨ usage.usageType = "" then []
  else if isSystemActor actor then []
  else
    let totalCost := (clampCost usage.costOverride).getD 0
    usageIncrs env actor currentMonth (usageAmounts usage.usageType usageAmount totalCost) totalCost 1

/-- The loop of `batchIncrementUsages`, with the amounts aggregated so far and their cost. -/
def aggregate (aggregated : FlatAmounts) (totalBatchCost : ℚ) : List UsageInput → FlatAmounts × ℚ
  | [] => (aggregated, totalBatchCost)
  | usage :: usages =>
      if usage.units = 0 ∨ usage.usageType = "" then aggregate aggregated totalBatchCost usages
      else
        let totalCost := (clampCost usage.costOverride).getD 0
        let escaped := escapePeriods usage.usageType
        let withTotal := aggregated.merge (.single "total" totalCost)
        let withUnits := withTotal.merge (.single (escaped ++ ".units") usage.units)
        let withCost := withUnits.merge (.single (escaped ++ ".cost") totalCost)
        aggregate (withCost.merge (.single (escaped ++ ".count") 1)) (totalBatchCost + totalCost) usages

def batchIncrementUsages (env : UsageEnv) (actor : Actor) (currentMonth : String) (usages : List UsageInput) :
    List CounterIncr :=
  if usages = [] then []
  else if isSystemActor actor then []
  else
    let (aggregated, totalBatchCost) := aggregate .empty 0 usages
    if aggregated.keys = ∅ then []
    else usageIncrs env actor currentMonth aggregated totalBatchCost usages.length

end UsageRecording

open UsageRecording

def addedTo (incrs : List CounterIncr) (key path : String) : ℚ :=
  (incrs.map fun incr => if incr.key = key then incr.pathAndAmountMap.amount path else 0).sum

def FiniteUsage.isSkipped (usage : FiniteUsage) : Bool := usage.usageAmount = 0 || usage.usageType = ""

def FiniteUsage.units (usage : FiniteUsage) : ℚ := if usage.usageAmount < 0 then 1 else usage.usageAmount

def FiniteUsage.cost (usage : FiniteUsage) : ℚ := (clampCost usage.costOverride).getD 0

section Sums

variable (env : UsageEnv) (actor : Actor) (currentMonth : String)

theorem addedTo_append (incrs others : List CounterIncr) (key path : String) :
    addedTo (incrs ++ others) key path = addedTo incrs key path + addedTo others key path := by
  simp [addedTo]

theorem addedTo_sameMap (keys : List String) (amounts : FlatAmounts) (key path : String) :
    addedTo (keys.map fun other => ⟨other, amounts⟩) key path = keys.count key * amounts.amount path := by
  induction keys with
  | nil => simp [addedTo]
  | cons first keys ih =>
      rw [List.map_cons, ← List.singleton_append, addedTo_append, ih, List.count_cons]
      by_cases same : first = key
      · simp [addedTo, same]
        ring
      · simp [addedTo, same]

def totalsAmount (appId path : String) (totalCost count : ℚ) : ℚ :=
  (if path = appId ++ ".total" then totalCost else 0) + if path = appId ++ ".count" then count else 0

theorem addedTo_usageIncrs (amounts : FlatAmounts) (totalCost count : ℚ) (key path : String) :
    addedTo (usageIncrs env actor currentMonth amounts totalCost count) key path =
      (usageKeys env actor currentMonth).count key * amounts.amount path +
        if actorAppTotalsKey (userIdOf actor) currentMonth = key then totalsAmount (appIdOf actor) path totalCost count
        else 0 := by
  rw [usageIncrs, addedTo_append, addedTo_sameMap]
  simp [addedTo, totalsAmount, Tally.single]

theorem isSkipped_iff (usage : FiniteUsage) : usage.isSkipped = true ↔ usage.units = 0 ∨ usage.usageType = "" := by
  unfold FiniteUsage.isSkipped FiniteUsage.units
  split
  next negative => simp [negative.ne]
  · simp

def countedUsages (usages : List FiniteUsage) : List FiniteUsage := usages.filter fun usage => !usage.isSkipped

theorem counted_cons_skipped {usage : FiniteUsage} (skipped : usage.isSkipped = true) (usages : List FiniteUsage) :
    countedUsages (usage :: usages) = countedUsages usages := by simp [countedUsages, skipped]

theorem counted_cons_kept {usage : FiniteUsage} (kept : usage.isSkipped = false) (usages : List FiniteUsage) :
    countedUsages (usage :: usages) = usage :: countedUsages usages := by simp [countedUsages, kept]

def amountsSum (usages : List FiniteUsage) (path : String) : ℚ :=
  (usages.map fun usage => (usageAmounts usage.usageType usage.units usage.cost).amount path).sum

def costSum (usages : List FiniteUsage) : ℚ := (usages.map FiniteUsage.cost).sum

theorem incrementUsage_kept (notSystem : isSystemActor actor = false) {usage : FiniteUsage}
    (kept : usage.isSkipped = false) :
    incrementUsage env actor currentMonth usage =
      usageIncrs env actor currentMonth (usageAmounts usage.usageType usage.units usage.cost) usage.cost 1 := by
  have recorded := mt (isSkipped_iff usage).mpr (by simp [kept])
  exact (if_neg recorded).trans (if_neg (by simp [notSystem]))

theorem addedTo_each (notSystem : isSystemActor actor = false) (usages : List FiniteUsage) (key path : String) :
    addedTo (usages.flatMap (incrementUsage env actor currentMonth)) key path =
      (usageKeys env actor currentMonth).count key * amountsSum (countedUsages usages) path +
        if actorAppTotalsKey (userIdOf actor) currentMonth = key then
          totalsAmount (appIdOf actor) path (costSum (countedUsages usages)) (countedUsages usages).length
        else 0 := by
  induction usages with
  | nil => simp [addedTo, countedUsages, amountsSum, costSum, totalsAmount]
  | cons usage usages ih =>
      rw [List.flatMap_cons, addedTo_append, ih]
      cases skipped : usage.isSkipped with
      | true =>
          have nothing : incrementUsage env actor currentMonth usage = [] := if_pos ((isSkipped_iff usage).mp skipped)
          rw [nothing, counted_cons_skipped skipped]
          simp [addedTo]
      | false =>
          rw [incrementUsage_kept env actor currentMonth notSystem skipped, addedTo_usageIncrs, counted_cons_kept skipped]
          simp only [amountsSum, costSum, List.map_cons, List.sum_cons, List.length_cons, totalsAmount]
          push_cast
          split_ifs <;> ring

theorem aggregate_skipped {usage : FiniteUsage} (skipped : usage.isSkipped = true) (aggregated : FlatAmounts)
    (totalBatchCost : ℚ) (usages : List UsageInput) :
    aggregate aggregated totalBatchCost (usage.input :: usages) = aggregate aggregated totalBatchCost usages :=
  if_pos ((isSkipped_iff usage).mp skipped)

theorem aggregate_kept {usage : FiniteUsage} (kept : usage.isSkipped = false) (aggregated : FlatAmounts)
    (totalBatchCost : ℚ) (usages : List UsageInput) :
    aggregate aggregated totalBatchCost (usage.input :: usages) =
      aggregate (aggregated.merge (usageAmounts usage.usageType usage.units usage.cost)) (totalBatchCost + usage.cost)
        usages := by
  have recorded := mt (isSkipped_iff usage).mpr (by simp [kept])
  rw [usageAmounts, ← Tally.merge_assoc, ← Tally.merge_assoc, ← Tally.merge_assoc]
  exact if_neg recorded

/-- The loop of a batch aggregates the entries that are not skipped. -/
structure Aggregates (aggregated : FlatAmounts) (totalBatchCost : ℚ) (usages : List FiniteUsage)
    (result : FlatAmounts × ℚ) : Prop where
  amount : ∀ path, result.1.amount path = aggregated.amount path + amountsSum (countedUsages usages) path
  cost : result.2 = totalBatchCost + costSum (countedUsages usages)
  keys : result.1.keys = ∅ ↔ aggregated.keys = ∅ ∧ countedUsages usages = []

theorem aggregate_aggregates (usages : List FiniteUsage) (aggregated : FlatAmounts) (totalBatchCost : ℚ) :
    Aggregates aggregated totalBatchCost usages
      (aggregate aggregated totalBatchCost (usages.map FiniteUsage.input)) := by
  induction usages generalizing aggregated totalBatchCost with
  | nil => exact ⟨by simp [aggregate, countedUsages, amountsSum], by simp [aggregate, countedUsages, costSum], by simp [aggregate, countedUsages]⟩
  | cons usage usages ih =>
      rw [List.map_cons]
      cases skipped : usage.isSkipped with
      | true =>
          rw [aggregate_skipped skipped]
          obtain ⟨amount, cost, keys⟩ := ih aggregated totalBatchCost
          rw [← counted_cons_skipped skipped] at cost keys
          exact ⟨by rwa [counted_cons_skipped skipped], cost, keys⟩
      | false =>
          rw [aggregate_kept skipped]
          obtain ⟨amount, cost, keys⟩ :=
            ih (aggregated.merge (usageAmounts usage.usageType usage.units usage.cost))
              (totalBatchCost + usage.cost)
          refine ⟨?_, ?_, ?_⟩
          · intro path
            rw [amount, counted_cons_kept skipped, Tally.amount_merge, amountsSum, amountsSum, List.map_cons,
              List.sum_cons, add_assoc]
          · rw [cost, counted_cons_kept skipped, costSum, costSum, List.map_cons, List.sum_cons, add_assoc]
          · rw [keys, counted_cons_kept skipped]
            simp [usageAmounts, Tally.single]

theorem addedTo_batch (notSystem : isSystemActor actor = false) {usages : List FiniteUsage} (some : countedUsages usages ≠ [])
    (key path : String) :
    addedTo (batchIncrementUsages env actor currentMonth (usages.map FiniteUsage.input)) key path =
      (usageKeys env actor currentMonth).count key * amountsSum (countedUsages usages) path +
        if actorAppTotalsKey (userIdOf actor) currentMonth = key then
          totalsAmount (appIdOf actor) path (costSum (countedUsages usages)) usages.length
        else 0 := by
  obtain ⟨amount, cost, keys⟩ := aggregate_aggregates usages .empty 0
  have nonempty : usages.map FiniteUsage.input ≠ [] := by
    intro empty
    rw [List.map_eq_nil_iff.mp empty] at some
    exact some rfl
  have recorded : (aggregate .empty 0 (usages.map FiniteUsage.input)).1.keys ≠ ∅ := fun empty => some (keys.mp empty).2
  rw [batchIncrementUsages, if_neg nonempty, notSystem, if_neg Bool.false_ne_true]
  dsimp only
  rw [if_neg recorded, addedTo_usageIncrs, amount, cost, List.length_map, Tally.amount_empty, zero_add, zero_add]

theorem batchIncrementUsages_none {usages : List FiniteUsage} (none : countedUsages usages = []) :
    batchIncrementUsages env actor currentMonth (usages.map FiniteUsage.input) = [] := by
  have empty := (aggregate_aggregates usages .empty 0).keys.mpr ⟨rfl, none⟩
  unfold batchIncrementUsages
  split
  · rfl
  · split
    · rfl
    · exact if_pos empty

theorem incrementUsage_system (system : isSystemActor actor = true) (usage : FiniteUsage) :
    incrementUsage env actor currentMonth usage = [] := by simp [incrementUsage, system]

theorem batchIncrementUsages_system (system : isSystemActor actor = true) (usages : List UsageInput) :
    batchIncrementUsages env actor currentMonth usages = [] := by simp [batchIncrementUsages, system]

end Sums

def BatchAddsSame (env : UsageEnv) (actor : Actor) (currentMonth : String) (usages : List FiniteUsage) : Prop :=
  ∀ key path, addedTo (batchIncrementUsages env actor currentMonth (usages.map FiniteUsage.input)) key path =
    addedTo (usages.flatMap (incrementUsage env actor currentMonth)) key path

section Comparison

variable {env : UsageEnv} {actor : Actor} {currentMonth : String} {usages : List FiniteUsage}

theorem batchAddsSame_of_system (system : isSystemActor actor = true) : BatchAddsSame env actor currentMonth usages := by
  intro key path
  have nothing : usages.flatMap (incrementUsage env actor currentMonth) = [] :=
    List.flatMap_eq_nil_iff.mpr fun usage _ => incrementUsage_system env actor currentMonth system usage
  rw [nothing, batchIncrementUsages_system env actor currentMonth system]

theorem batchAddsSame_of_none (notSystem : isSystemActor actor = false) (none : countedUsages usages = []) :
    BatchAddsSame env actor currentMonth usages := by
  intro key path
  rw [batchIncrementUsages_none env actor currentMonth none, addedTo_each env actor currentMonth notSystem, none]
  simp [addedTo, amountsSum, costSum, totalsAmount]

theorem batchAddsSame_iff_length (notSystem : isSystemActor actor = false) (some : countedUsages usages ≠ []) :
    BatchAddsSame env actor currentMonth usages ↔ (countedUsages usages).length = usages.length := by
  constructor
  · intro same
    have counts := same (actorAppTotalsKey (userIdOf actor) currentMonth) (appIdOf actor ++ ".count")
    rw [addedTo_batch env actor currentMonth notSystem some, addedTo_each env actor currentMonth notSystem,
      if_pos rfl, if_pos rfl] at counts
    have totals := add_left_cancel counts
    rw [totalsAmount, totalsAmount, if_pos rfl, if_pos rfl] at totals
    exact_mod_cast (add_left_cancel totals).symm
  · intro sameLength key path
    rw [addedTo_batch env actor currentMonth notSystem some, addedTo_each env actor currentMonth notSystem, sameLength]

end Comparison

end Puter

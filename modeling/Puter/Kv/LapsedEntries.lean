/-
Module: Puter.Kv.LapsedEntries
Purpose: An expired entry that the database has not swept yet is like one that is gone. Two tables that
  agree on what has not expired give the same answers, and stay so, over runs of calls in which no call
  builds on an expired value; a listing with a limit answers with pages of the same live listing.
Trusted boundary: none
Main exports: lapsed, Clear, lapsed_entries_are_absent
-/
import Puter.Kv.KvListing

namespace Puter

open Document StateRun

def lapsed (now : ℚ) (item : Attributes) : Bool := (readItem item).expired now

def liveItem (now : ℚ) (table : KvTable) (key : Text) : Option Attributes :=
  (table.get key).filter fun item => !lapsed now item

def SameLive (now : ℚ) (one other : KvTable) : Prop :=
  ∀ key, liveItem now one key = liveItem now other key

/-- The calls on a namespace. -/
inductive KvRequest where
  | get (keys : List Text)
  | set (key : Text) (value : Json) (expireAt : Option ℚ) (disableSharing : Bool)
  | batchPut (items : List SystemKVStore.BatchItem) (disableSharing : Bool)
  | del (key : Text)
  | take (key : Text)
  | list (opts : ListOpts)
  | incr (key : Text) (pathAndAmountMap : List (Text × ℚ)) (expireAt : Option ℚ)
  | decr (key : Text) (pathAndAmountMap : List (Text × ℚ))
  | add (key : Text) (pathAndValueMap : List (Text × Json))
  | update (key : Text) (pathAndValueMap : List (Text × Json)) (ttl : Option ℚ)
  | remove (key : Text) (paths : List Text)
  | expire (key : Text) (ttl : ℚ)
  | expireAt (key : Text) (timestamp : ℚ)

inductive KvResponse where
  | values (values : List (Option Json))
  | done (ok : Bool)
  | value (value : Option Json)
  | nothing
  | listing (result : ListResult)

namespace KvRequest

open SystemKVStore

def run (env : KvEnv) (crossApp : Bool) : KvRequest → KvRun KvResponse
  | get keys => do
      let values ← SystemKVStore.get env crossApp keys
      pure (.values values)
  | set key value deadline disableSharing => do
      let ok ← SystemKVStore.set env crossApp key value deadline disableSharing
      pure (.done ok)
  | batchPut items disableSharing => do
      let ok ← SystemKVStore.batchPut env crossApp items disableSharing
      pure (.done ok)
  | del key => do
      let ok ← SystemKVStore.del crossApp key
      pure (.done ok)
  | take key => do
      let value ← SystemKVStore.take env crossApp key
      pure (.value value)
  | list opts => do
      let result ← SystemKVStore.list env crossApp opts
      pure (.listing result)
  | incr key pathAndAmountMap deadline => do
      let value ← SystemKVStore.incr env crossApp key pathAndAmountMap deadline
      pure (.value value)
  | decr key pathAndAmountMap => do
      let value ← SystemKVStore.decr env crossApp key pathAndAmountMap
      pure (.value value)
  | add key pathAndValueMap => do
      let value ← SystemKVStore.add env crossApp key pathAndValueMap
      pure (.value value)
  | update key pathAndValueMap ttl => do
      let value ← SystemKVStore.update env crossApp key pathAndValueMap ttl
      pure (.value value)
  | remove key paths => do
      let value ← SystemKVStore.remove env crossApp key paths
      pure (.value value)
  | expire key ttl => do
      SystemKVStore.expire env crossApp key ttl
      pure .nothing
  | expireAt key timestamp => do
      SystemKVStore.expireAt env crossApp key timestamp
      pure .nothing

def buildsOn : KvRequest → Option Text
  | incr key _ _ | decr key _ | add key _ | update key _ _ | remove key _ | expire key _
  | expireAt key _ => some key
  | get _ | set .. | batchPut .. | del _ | take _ | list _ => none

def replaces : KvRequest → List Text
  | set key _ _ _ | del key | take key => [key]
  | batchPut items _ => items.map BatchItem.key
  | _ => []

end KvRequest

/-- A call, with its surroundings. -/
structure TimedCall where
  env : KvEnv
  crossApp : Bool
  request : KvRequest

namespace TimedCall

def run (call : TimedCall) : KvRun KvResponse := call.request.run call.env call.crossApp

end TimedCall

def tableAfter (calls : List TimedCall) (table : KvTable) : KvTable :=
  calls.foldl (fun table call => finalState (call.run table)) table

/-- Where the call finds no expired item that it would build on, and, from another app, no expired private
    item that it would replace. -/
def Clear (call : TimedCall) (table : KvTable) : Prop :=
  (∀ key item, call.request.buildsOn = some key → table.get key = some item →
    lapsed call.env.now item = false) ∧
  (call.crossApp = true → ∀ key ∈ call.request.replaces, ∀ item, table.get key = some item →
    lapsed call.env.now item = true → isPrivate item = false)

/-- The answers are the same, or, for a listing with a limit that is not refused, both are pages of the
    one live listing, with the same total. -/
def AlikeAnswers (call : TimedCall) (table : KvTable) (one other : Except KvError KvResponse) : Prop :=
  match call.request with
  | .list opts =>
      one = other ∨ opts.limit.isSome ∧ ∃ page page' total,
        one = .ok (.listing (.page (SystemKVStore.listItems (opts.as.getD .entries) page.1) page.2
          total)) ∧
        other = .ok (.listing (.page (SystemKVStore.listItems (opts.as.getD .entries) page'.1) page'.2
          total)) ∧
        Covers call.env table call.crossApp opts ((askedOffset opts).getD 0) page ∧
        Covers call.env table call.crossApp opts ((askedOffset opts).getD 0) page'
  | _ => one = other

section SameLive

variable {now now' : ℚ} {one other : KvTable}

theorem lapsed_mono {item : Attributes} (before : now ≤ now') (lapses : lapsed now item = true) :
    lapsed now' item = true := by
  unfold lapsed KvCachedItem.expired at *
  cases deadline : (readItem item).ttl with
  | none => simp [deadline] at lapses
  | some ttl =>
      rw [deadline] at lapses
      simp only [decide_eq_true_eq] at lapses ⊢
      exact ⟨lapses.1, lapses.2.trans before⟩

theorem liveItem_later (before : now ≤ now') (table : KvTable) (key : Text) :
    liveItem now' table key = (liveItem now table key).filter fun item => !lapsed now' item := by
  unfold liveItem
  cases table.get key with
  | none => rfl
  | some item =>
      cases lapses : lapsed now item with
      | true => simp [Option.filter, lapses, lapsed_mono before lapses]
      | false => simp [Option.filter, lapses]

theorem SameLive.later (same : SameLive now one other) (before : now ≤ now') :
    SameLive now' one other := by
  intro key
  rw [liveItem_later before, liveItem_later before, same key]

theorem SameLive.put (same : SameLive now one other) (key : Text) (item : Attributes) :
    SameLive now (one.put key item) (other.put key item) := by
  intro name
  unfold liveItem
  rw [SortedTable.get_put, SortedTable.get_put]
  split
  · rfl
  · exact same name

theorem SameLive.erase (same : SameLive now one other) (key : Text) :
    SameLive now (one.erase key) (other.erase key) := by
  intro name
  unfold liveItem
  rw [SortedTable.get_erase, SortedTable.get_erase]
  split
  · rfl
  · exact same name

theorem answer_liveItem (env : KvEnv) (crossApp : Bool) (table : KvTable) (key : Text) :
    SystemKVStore.answer env crossApp (table.get key) =
      SystemKVStore.answer env crossApp (liveItem env.now table key) := by
  unfold liveItem SystemKVStore.answer answerOf
  cases table.get key with
  | none => rfl
  | some item =>
      cases lapses : lapsed env.now item with
      | true =>
          have expired : (readItem item).expired env.now = true := lapses
          simp [Option.filter, lapses, expired]
      | false => simp [Option.filter, lapses]

theorem SameLive.answer {env : KvEnv} (same : SameLive env.now one other) (crossApp : Bool)
    (key : Text) :
    SystemKVStore.answer env crossApp (one.get key) =
      SystemKVStore.answer env crossApp (other.get key) := by
  rw [answer_liveItem, same key, ← answer_liveItem]

theorem live_of_passesFilter {crossApp : Bool} {item : Attributes}
    (passes : passesFilter now crossApp item = true) : lapsed now item = false := by
  have ttl := passesFilter_ttl passes
  unfold lapsed KvCachedItem.expired readItem
  cases deadline : itemTtl item with
  | none => rfl
  | some ttl' =>
      rw [deadline] at ttl
      simp only [Option.all_some, decide_eq_true_eq] at ttl
      simp only [decide_eq_false_iff_not, not_and, not_le]
      intro nonzero
      exact ttl.resolve_left nonzero

theorem liveListing_restrict (env : KvEnv) (table : KvTable) (crossApp : Bool)
    (pattern startKey : Option Text) :
    liveListing env table crossApp pattern startKey =
      liveListing env (table.restrict fun _ item => !lapsed env.now item) crossApp pattern startKey := by
  unfold liveListing candidates SortedTable.restrict
  simp only [List.filter_filter]
  refine List.filter_congr fun entry _ => ?_
  cases passes : passesFilter env.now crossApp entry.2 with
  | false => simp
  | true => simp [live_of_passesFilter passes]

theorem SameLive.liveListing {env : KvEnv} (same : SameLive env.now one other) (crossApp : Bool)
    (pattern startKey : Option Text) :
    liveListing env one crossApp pattern startKey = liveListing env other crossApp pattern startKey := by
  have restricted : (one.restrict fun _ item => !lapsed env.now item) =
      other.restrict fun _ item => !lapsed env.now item := by
    refine SortedTable.ext_get fun key => ?_
    rw [SortedTable.get_restrict, SortedTable.get_restrict]
    exact same key
  rw [liveListing_restrict, restricted, ← liveListing_restrict]

theorem SameLive.covers {env : KvEnv} (same : SameLive env.now one other) {crossApp : Bool}
    {opts : ListOpts} {offset : ℕ} {page : List (Text × Attributes) × Option Text}
    (covers : Covers env other crossApp opts offset page) :
    Covers env one crossApp opts offset page := by
  unfold Covers remainder at *
  simp only [same.liveListing]
  exact covers

end SameLive

def AlikeOn {γ : Type} (now : ℚ) (look : Option Attributes → γ) (keys : List Text)
    (one other : KvTable) : Prop :=
  SameLive now one other ∧ ∀ key ∈ keys, look (one.get key) = look (other.get key)

section Operations

variable {γ : Type} {now : ℚ} {look : Option Attributes → γ} {keys : List Text}
  {related : KvTable → KvTable → Prop} {env : KvEnv} {crossApp : Bool}

theorem AlikeOn.put {one other : KvTable} (alike : AlikeOn now look keys one other) (key : Text)
    (item : Attributes) : AlikeOn now look keys (one.put key item) (other.put key item) := by
  refine ⟨alike.1.put key item, fun name member => ?_⟩
  rw [SortedTable.get_put, SortedTable.get_put]
  split
  · rfl
  · exact alike.2 name member

theorem AlikeOn.erase {one other : KvTable} (alike : AlikeOn now look keys one other) (key : Text) :
    AlikeOn now look keys (one.erase key) (other.erase key) := by
  refine ⟨alike.1.erase key, fun name member => ?_⟩
  rw [SortedTable.get_erase, SortedTable.get_erase]
  split
  · rfl
  · exact alike.2 name member

open SystemKVStore

theorem assertKey_agree (key : Text) : Agree related (assertKey key) (assertKey key) :=
  Agree.bind (Agree.refuseIf _ _) fun _ => Agree.refuseIf _ _

theorem assertPaths_agree (paths : List Text) :
    Agree related (assertPaths paths) (assertPaths paths) :=
  Agree.forEach fun _ _ => Agree.forEach fun _ _ => Agree.refuseIf _ _

theorem assertValue_agree (env : KvEnv) (value : Json) :
    Agree related (assertValue env value) (assertValue env value) := by
  refine Agree.bind (Agree.refuseIf _ _) fun _ => ?_
  cases firstUnsafeKey value with
  | none => exact Agree.pure ()
  | some key => exact Agree.throw _

def privateTo (crossApp : Bool) (item : Option Attributes) : Bool := crossApp && item.any isPrivate

theorem assertNotPrivate_agree {key : Text}
    (same : ∀ one other, related one other →
      privateTo crossApp (one.get key) = privateTo crossApp (other.get key)) :
    Agree related (assertNotPrivate crossApp key) (assertNotPrivate crossApp key) := by
  refine Agree.get fun one other alike => ?_
  have looks := same one other alike
  unfold privateTo at looks
  rw [looks]
  exact Agree.refuseIf _ _ one other alike

theorem updateItem_agree (env : KvEnv) (key : Text) (expression : UpdateExpression)
    (names : AttributeNames) :
    Agree (AlikeOn now id [key]) (updateItem env key expression names)
      (updateItem env key expression names) := by
  refine Agree.get fun one other alike => ?_
  have stored : one.get key = other.get key := alike.2 key List.mem_cons_self
  rw [stored]
  cases expression.run env.tooLarge names ((other.get key).getD []) with
  | error refusal => exact ⟨rfl, alike⟩
  | ok item => exact ⟨rfl, alike.put key item⟩

theorem createPaths_agree (env : KvEnv) (key : Text) (pathList : List Text) :
    Agree (AlikeOn now id [key]) (createPaths env key pathList) (createPaths env key pathList) := by
  refine Agree.bind (assertPaths_agree pathList) fun _ => ?_
  split
  · exact Agree.pure ()
  · induction intermediatePaths pathList with
    | nil => exact Agree.pure ()
    | cons chunks rest ih =>
        refine Agree.bind (updateItem_agree env key _ _) fun item => ?_
        split
        · exact Agree.pure ()
        · exact ih

theorem builtOn_private {key : Text} {one other : KvTable} (alike : AlikeOn now id [key] one other) :
    privateTo crossApp (one.get key) = privateTo crossApp (other.get key) :=
  congrArg (privateTo crossApp) (alike.2 key List.mem_cons_self)

theorem incr_agree (env : KvEnv) (crossApp : Bool) (key : Text)
    (pathAndAmountMap : List (Text × ℚ)) (expireAt : Option ℚ) :
    Agree (AlikeOn now id [key]) (incr env crossApp key pathAndAmountMap expireAt)
      (incr env crossApp key pathAndAmountMap expireAt) := by
  refine Agree.bind (assertKey_agree key) fun _ => Agree.bind (Agree.refuseIf _ _) fun _ =>
    Agree.bind (assertPaths_agree _) fun _ =>
    Agree.bind (assertNotPrivate_agree fun _ _ => builtOn_private) fun _ =>
    Agree.bind (Agree.tryCatch (updateItem_agree env key _ _) fun error => ?_) fun _ => Agree.pure _
  cases error with
  | http refusal => exact Agree.throw _
  | validation refusal =>
      cases refusal with
      | oversized => exact Agree.throw _
      | _ => exact Agree.bind (createPaths_agree env key _) fun _ => updateItem_agree env key _ _

theorem add_agree (env : KvEnv) (crossApp : Bool) (key : Text)
    (pathAndValueMap : List (Text × Json)) :
    Agree (AlikeOn now id [key]) (add env crossApp key pathAndValueMap)
      (add env crossApp key pathAndValueMap) :=
  Agree.bind (assertKey_agree key) fun _ => Agree.bind (Agree.refuseIf _ _) fun _ =>
    Agree.bind (Agree.forEach fun _ _ => assertValue_agree env _) fun _ =>
    Agree.bind (assertPaths_agree _) fun _ =>
    Agree.bind (assertNotPrivate_agree fun _ _ => builtOn_private) fun _ =>
    Agree.bind (createPaths_agree env key _) fun _ =>
    Agree.bind (updateItem_agree env key _ _) fun _ => Agree.pure _

theorem update_agree (env : KvEnv) (crossApp : Bool) (key : Text)
    (pathAndValueMap : List (Text × Json)) (ttl : Option ℚ) :
    Agree (AlikeOn now id [key]) (update env crossApp key pathAndValueMap ttl)
      (update env crossApp key pathAndValueMap ttl) :=
  Agree.bind (assertKey_agree key) fun _ => Agree.bind (Agree.refuseIf _ _) fun _ =>
    Agree.bind (Agree.forEach fun _ _ => assertValue_agree env _) fun _ =>
    Agree.bind (assertPaths_agree _) fun _ =>
    Agree.bind (assertNotPrivate_agree fun _ _ => builtOn_private) fun _ =>
    Agree.bind (createPaths_agree env key _) fun _ =>
    Agree.bind (updateItem_agree env key _ _) fun _ => Agree.pure _

theorem remove_agree (env : KvEnv) (crossApp : Bool) (key : Text) (paths : List Text) :
    Agree (AlikeOn now id [key]) (remove env crossApp key paths)
      (remove env crossApp key paths) := by
  refine Agree.bind (assertKey_agree key) fun _ => Agree.bind (Agree.refuseIf _ _) fun _ =>
    Agree.bind (assertPaths_agree _) fun _ =>
    Agree.bind (assertNotPrivate_agree fun _ _ => builtOn_private) fun _ =>
    Agree.tryCatch (Agree.bind (updateItem_agree env key _ _) fun _ => Agree.pure _) fun error => ?_
  cases error with
  | http refusal => exact Agree.throw _
  | validation refusal =>
      dsimp only
      split
      · refine Agree.get fun one other alike => ?_
        have stored : one.get key = other.get key := alike.2 key List.mem_cons_self
        rw [stored]
        exact ⟨rfl, alike⟩
      · exact Agree.throw _

theorem rawExpireAt_agree (env : KvEnv) (key : Text) (timestamp : ℚ) :
    Agree (AlikeOn now id [key]) (rawExpireAt env key timestamp) (rawExpireAt env key timestamp) :=
  Agree.bind (updateItem_agree env key _ _) fun _ => Agree.pure _

theorem expireAt_agree (env : KvEnv) (crossApp : Bool) (key : Text) (timestamp : ℚ) :
    Agree (AlikeOn now id [key]) (expireAt env crossApp key timestamp)
      (expireAt env crossApp key timestamp) :=
  Agree.bind (assertKey_agree key) fun _ =>
    Agree.bind (assertNotPrivate_agree fun _ _ => builtOn_private) fun _ =>
    rawExpireAt_agree env key timestamp

theorem expire_agree (env : KvEnv) (crossApp : Bool) (key : Text) (ttl : ℚ) :
    Agree (AlikeOn now id [key]) (expire env crossApp key ttl) (expire env crossApp key ttl) :=
  Agree.bind (assertKey_agree key) fun _ =>
    Agree.bind (assertNotPrivate_agree fun _ _ => builtOn_private) fun _ =>
    rawExpireAt_agree env key _

theorem get_agree (env : KvEnv) (crossApp : Bool) (keys : List Text) :
    Agree (SameLive env.now) (SystemKVStore.get env crossApp keys)
      (SystemKVStore.get env crossApp keys) := by
  refine Agree.bind (Agree.forEach fun _ _ => assertKey_agree _) fun _ =>
    Agree.get fun one other same => ?_
  have answers : (keys.map fun key => answer env crossApp (one.get key)) =
      keys.map fun key => answer env crossApp (other.get key) :=
    List.map_congr_left fun key _ => same.answer crossApp key
  rw [answers]
  exact ⟨rfl, same⟩

theorem set_agree (env : KvEnv) (crossApp : Bool) (key : Text) (value : Json)
    (expireAt : Option ℚ) (disableSharing : Bool) :
    Agree (AlikeOn now (privateTo crossApp) [key])
      (SystemKVStore.set env crossApp key value expireAt disableSharing)
      (SystemKVStore.set env crossApp key value expireAt disableSharing) :=
  Agree.bind (assertKey_agree key) fun _ => Agree.bind (assertValue_agree env value) fun _ =>
    Agree.bind (assertNotPrivate_agree fun _ _ alike => alike.2 key List.mem_cons_self) fun _ =>
    Agree.bind (Agree.modify fun _ _ alike => alike.put key _) fun _ => Agree.pure _

theorem del_agree (crossApp : Bool) (key : Text) :
    Agree (AlikeOn now (privateTo crossApp) [key]) (del crossApp key) (del crossApp key) :=
  Agree.bind (assertNotPrivate_agree fun _ _ alike => alike.2 key List.mem_cons_self) fun _ =>
    Agree.bind (Agree.modify fun _ _ alike => alike.erase key) fun _ => Agree.pure _

theorem take_agree (env : KvEnv) (crossApp : Bool) (key : Text) :
    Agree (AlikeOn env.now (privateTo crossApp) [key]) (take env crossApp key)
      (take env crossApp key) := by
  refine Agree.bind (assertKey_agree key) fun _ =>
    Agree.bind (assertNotPrivate_agree fun _ _ alike => alike.2 key List.mem_cons_self) fun _ =>
    Agree.get fun one other alike => ?_
  rw [alike.1.answer false key]
  exact Agree.bind (Agree.modify fun _ _ alike => alike.erase key) (fun _ => Agree.pure _) one other
    alike

theorem lastByKey_subset (items : List BatchItem) : lastByKey items ⊆ items := by
  induction items with
  | nil => exact List.Subset.refl _
  | cons item rest ih =>
      unfold lastByKey
      split
      · exact List.subset_cons_of_subset _ ih
      · exact List.cons_subset_cons _ ih

theorem batchPut_agree (env : KvEnv) (crossApp : Bool) (items : List BatchItem)
    (disableSharing : Bool) :
    Agree (AlikeOn now (privateTo crossApp) (items.map BatchItem.key))
      (batchPut env crossApp items disableSharing) (batchPut env crossApp items disableSharing) := by
  refine Agree.bind (Agree.forEach fun item _ => Agree.bind (assertKey_agree item.key) fun _ =>
    assertValue_agree env item.value) fun _ => Agree.bind ?_ fun _ =>
    Agree.bind (Agree.forEach fun item _ => Agree.modify fun _ _ alike => alike.put item.key _)
      fun _ => Agree.pure _
  refine Agree.get fun one other alike => ?_
  have looks : (crossApp && ((lastByKey items).map BatchItem.key).any fun key =>
      (one.get key).any isPrivate) =
      (crossApp && ((lastByKey items).map BatchItem.key).any fun key =>
        (other.get key).any isPrivate) := by
    cases crossApp with
    | false => rfl
    | true =>
        rw [Bool.true_and, Bool.true_and, Bool.eq_iff_iff, List.any_eq_true, List.any_eq_true]
        refine exists_congr fun key => and_congr_right fun member => ?_
        have listed : key ∈ items.map BatchItem.key :=
          List.map_subset BatchItem.key (lastByKey_subset items) member
        have look := alike.2 key listed
        simp only [privateTo, Bool.true_and] at look
        rw [look]
  rw [looks]
  exact Agree.refuseIf _ _ one other alike

end Operations

theorem Clear.alikeOn {call : TimedCall} {one other : KvTable} {key : Text}
    (same : SameLive call.env.now one other) (clear : Clear call one) (clear' : Clear call other)
    (builds : call.request.buildsOn = some key) : AlikeOn call.env.now id [key] one other := by
  have stored : ∀ table, Clear call table → liveItem call.env.now table key = table.get key := by
    intro table clear
    unfold liveItem
    cases found : table.get key with
    | none => rfl
    | some item => simp [Option.filter, clear.1 key item builds found]
  refine ⟨same, fun name member => ?_⟩
  obtain rfl := List.mem_singleton.mp member
  calc one.get name = liveItem call.env.now one name := (stored one clear).symm
    _ = liveItem call.env.now other name := same name
    _ = other.get name := stored other clear'

theorem Clear.alikePrivate {call : TimedCall} {one other : KvTable} {keys : List Text}
    (same : SameLive call.env.now one other) (clear : Clear call one) (clear' : Clear call other)
    (replaces : call.request.replaces = keys) :
    AlikeOn call.env.now (privateTo call.crossApp) keys one other := by
  have looks : ∀ table, Clear call table → ∀ key ∈ keys,
      privateTo call.crossApp (liveItem call.env.now table key) =
        privateTo call.crossApp (table.get key) := by
    intro table clear key member
    unfold privateTo
    cases foreign : call.crossApp with
    | false => rfl
    | true =>
        unfold liveItem
        cases found : table.get key with
        | none => rfl
        | some item =>
            cases lapses : lapsed call.env.now item with
            | false => simp [Option.filter, lapses]
            | true =>
                have shown := clear.2 foreign key (replaces ▸ member) item found lapses
                simp [Option.filter, lapses, shown]
  refine ⟨same, fun key member => ?_⟩
  rw [← looks one clear key member, same key, looks other clear' key member]

theorem respond_alike {γ α : Type} {now : ℚ} {look : Option Attributes → γ} {keys : List Text}
    {one other : KvTable} {operation : KvRun α} (respond : α → KvResponse)
    (agree : Agree (AlikeOn now look keys) operation operation)
    (alike : AlikeOn now look keys one other) :
    outcome ((operation >>= fun a => pure (respond a)) one) =
        outcome ((operation >>= fun a => pure (respond a)) other) ∧
      SameLive now (finalState ((operation >>= fun a => pure (respond a)) one))
        (finalState ((operation >>= fun a => pure (respond a)) other)) := by
  have ends := Agree.bind agree (fun a => Agree.pure (respond a)) one other alike
  exact ⟨ends.1, ends.2.1⟩

open SystemKVStore in
theorem list_alike (env : KvEnv) (crossApp : Bool) (opts : ListOpts) {one other : KvTable}
    (same : SameLive env.now one other) :
    AlikeAnswers ⟨env, crossApp, .list opts⟩ one
        (outcome ((TimedCall.mk env crossApp (.list opts)).run one))
        (outcome ((TimedCall.mk env crossApp (.list opts)).run other)) ∧
      SameLive env.now (finalState ((TimedCall.mk env crossApp (.list opts)).run one))
        (finalState ((TimedCall.mk env crossApp (.list opts)).run other)) := by
  rcases list_runs env crossApp opts with ⟨refusal, fails⟩ | runs
  · have failed : ∀ table, (TimedCall.mk env crossApp (.list opts)).run table = .error refusal table :=
      fun table => bind_error.mpr (.inl (fails table))
    rw [failed, failed]
    exact ⟨.inl rfl, same⟩
  · have ran : ∀ table, (TimedCall.mk env crossApp (.list opts)).run table =
        .ok (.listing (listResult env table crossApp opts (askedLimit opts) (askedOffset opts))) table :=
      fun table => bind_ok.mpr ⟨_, table, runs table, rfl⟩
    rw [ran, ran]
    refine ⟨?_, same⟩
    have counted : ∀ table, countAll env table crossApp (normalizePattern opts.pattern)
        (table.entries.length + 1) none =
          (liveListing env table crossApp (normalizePattern opts.pattern) none).length :=
      fun table => countAll_eq (candidates_length_lt table _ none)
    cases bound : opts.limit with
    | none =>
        left
        have unlimited : askedLimit opts = none := by
          unfold askedLimit
          rw [bound]
          rfl
        simp only [outcome, listResult, unlimited, listPage_unlimited, counted, same.liveListing]
    | some limit =>
        right
        refine ⟨by rw [bound]; rfl, listPage env one crossApp opts (askedLimit opts) (askedOffset opts),
          listPage env other crossApp opts (askedLimit opts) (askedOffset opts),
          (if opts.includeTotal then
            some (liveListing env one crossApp (normalizePattern opts.pattern) none).length
          else none), ?_, ?_,
          listPage_covers env one crossApp opts _ _,
          same.covers (listPage_covers env other crossApp opts _ _)⟩
        · have paged : paginated opts = true := by simp [paginated, bound]
          simp only [outcome, listResult, if_pos paged, counted]
        · have paged : paginated opts = true := by simp [paginated, bound]
          simp only [outcome, listResult, if_pos paged, counted, same.liveListing]

theorem call_alike {call : TimedCall} {one other : KvTable} (same : SameLive call.env.now one other)
    (clear : Clear call one) (clear' : Clear call other) :
    AlikeAnswers call one (outcome (call.run one)) (outcome (call.run other)) ∧
      SameLive call.env.now (finalState (call.run one)) (finalState (call.run other)) := by
  obtain ⟨env, crossApp, request⟩ := call
  cases request with
  | get keys =>
      have ends := Agree.bind (get_agree env crossApp keys)
        (fun values => Agree.pure (KvResponse.values values)) one other same
      exact ends
  | set key value expireAt disableSharing =>
      exact respond_alike _ (set_agree env crossApp key value expireAt disableSharing)
        (Clear.alikePrivate same clear clear' rfl)
  | batchPut items disableSharing =>
      exact respond_alike _ (batchPut_agree env crossApp items disableSharing)
        (Clear.alikePrivate same clear clear' rfl)
  | del key =>
      exact respond_alike _ (del_agree crossApp key) (Clear.alikePrivate same clear clear' rfl)
  | take key =>
      exact respond_alike _ (take_agree env crossApp key) (Clear.alikePrivate same clear clear' rfl)
  | list opts => exact list_alike env crossApp opts same
  | incr key pathAndAmountMap expireAt =>
      exact respond_alike _ (incr_agree env crossApp key pathAndAmountMap expireAt)
        (Clear.alikeOn same clear clear' rfl)
  | decr key pathAndAmountMap =>
      exact respond_alike _ (incr_agree env crossApp key _ none) (Clear.alikeOn same clear clear' rfl)
  | add key pathAndValueMap =>
      exact respond_alike _ (add_agree env crossApp key pathAndValueMap)
        (Clear.alikeOn same clear clear' rfl)
  | update key pathAndValueMap ttl =>
      exact respond_alike _ (update_agree env crossApp key pathAndValueMap ttl)
        (Clear.alikeOn same clear clear' rfl)
  | remove key paths =>
      exact respond_alike _ (remove_agree env crossApp key paths)
        (Clear.alikeOn same clear clear' rfl)
  | expire key ttl =>
      exact respond_alike (fun _ => .nothing) (expire_agree env crossApp key ttl)
        (Clear.alikeOn same clear clear' rfl)
  | expireAt key timestamp =>
      exact respond_alike (fun _ => .nothing) (expireAt_agree env crossApp key timestamp)
        (Clear.alikeOn same clear clear' rfl)

theorem tableAfter_alike {start : ℚ} {calls : List TimedCall} {one other : KvTable}
    (ordered : (start :: calls.map fun call => call.env.now).Pairwise (· ≤ ·))
    (same : SameLive start one other)
    (clear : ∀ done call rest, calls = done ++ call :: rest →
      Clear call (tableAfter done one) ∧ Clear call (tableAfter done other)) :
    ∀ now, (∀ call ∈ calls, call.env.now ≤ now) → start ≤ now →
      SameLive now (tableAfter calls one) (tableAfter calls other) := by
  induction calls generalizing start one other with
  | nil => exact fun now _ reached => same.later reached
  | cons call rest ih =>
      intro now bounds reached
      rw [List.map_cons, List.pairwise_cons] at ordered
      have sameNow := same.later (ordered.1 _ List.mem_cons_self)
      have first := clear [] call rest rfl
      have step := call_alike sameNow first.1 first.2
      refine ih ordered.2 step.2 (fun done later tail split => ?_) now
        (fun later member => bounds later (List.mem_cons_of_mem _ member))
        (bounds call List.mem_cons_self)
      exact clear (call :: done) later tail (by rw [split]; rfl)

/-- Tables that differ in expired entries only are the same store: over every run of calls at advancing
    times, in which no call builds on an expired item, every call answers alike, and the tables go on to
    differ in expired entries only. -/
theorem lapsed_entries_are_absent {start : ℚ} {calls : List TimedCall} {one other : KvTable}
    (ordered : (start :: calls.map fun call => call.env.now).Pairwise (· ≤ ·))
    (same : SameLive start one other)
    (clear : ∀ done call rest, calls = done ++ call :: rest →
      Clear call (tableAfter done one) ∧ Clear call (tableAfter done other)) :
    ∀ done call rest, calls = done ++ call :: rest →
      AlikeAnswers call (tableAfter done one) (outcome (call.run (tableAfter done one)))
          (outcome (call.run (tableAfter done other))) ∧
        SameLive call.env.now (tableAfter (done ++ [call]) one) (tableAfter (done ++ [call]) other) := by
  intro done call rest split
  subst split
  have times := ordered
  rw [List.map_append, List.map_cons, ← List.cons_append, List.pairwise_append] at times
  obtain ⟨early, -, across⟩ := times
  have before : ∀ time ∈ start :: done.map (fun call => call.env.now), time ≤ call.env.now :=
    fun time member => across time member _ List.mem_cons_self
  have same' : SameLive call.env.now (tableAfter done one) (tableAfter done other) := by
    refine tableAfter_alike early same (fun front next tail split => ?_) _
      (fun earlier member => before _ (List.mem_cons_of_mem _ (List.mem_map_of_mem member)))
      (before _ List.mem_cons_self)
    exact clear front next (tail ++ call :: rest) (by rw [split, List.append_assoc]; rfl)
  have here := clear done call rest rfl
  have step := call_alike same' here.1 here.2
  refine ⟨step.1, ?_⟩
  unfold tableAfter
  rw [List.foldl_append, List.foldl_append]
  exact step.2

section Sweeping

def atTime (now : ℚ) : KvEnv := ⟨now, fun _ => false, fun _ => 0, fun found => found.length⟩

/-- `a` expired at 5, `b` does not expire. -/
def unsweptTable : KvTable :=
  (SortedTable.empty.put ['a'] (wholeItem (.number 7) (some 5) false)).put ['b']
    (wholeItem (.number 1) none false)

def sweptTable : KvTable := SortedTable.empty.put ['b'] (wholeItem (.number 1) none false)

theorem swept_sameLive : SameLive 10 unsweptTable sweptTable := by
  intro key
  unfold liveItem unsweptTable sweptTable
  rw [SortedTable.get_put, SortedTable.get_put, SortedTable.get_put]
  by_cases isB : key = ['b']
  · rw [if_pos isB, if_pos isB]
  · rw [if_neg isB, if_neg isB]
    have gone : lapsed 10 (wholeItem (.number 7) (some 5) false) = true := by decide +kernel
    split
    · simp [Option.filter, gone, SortedTable.empty, SortedTable.get, SortedTable.find]
    · rfl

def listedKeys : Except KvError KvResponse → Option (List Text)
  | .ok (.listing (.page (.keys keys) _ _)) | .ok (.listing (.items (.keys keys))) => some keys
  | _ => none

def firstKey : ListOpts := ⟨some .keys, some 1, none, none, none, false, false⟩

/-- A page of one key is empty while the expired entry is stored, and holds `b` once it is swept. -/
theorem page_depends_on_sweep :
    SameLive 10 unsweptTable sweptTable ∧
      outcome ((TimedCall.mk (atTime 10) false (.list firstKey)).run unsweptTable) ≠
        outcome ((TimedCall.mk (atTime 10) false (.list firstKey)).run sweptTable) :=
  ⟨swept_sameLive, fun same => absurd (congrArg listedKeys same) (by decide +kernel)⟩

def readBoth : TimedCall := ⟨atTime 10, false, .get [['a'], ['b']]⟩

def listFirst : TimedCall := ⟨atTime 11, false, .list firstKey⟩

def writeExpired : TimedCall := ⟨atTime 12, false, .set ['a'] (.number 2) none false⟩

/-- In a run of a read, a listing of one key and a write over the expired entry, the listing is alike. -/
theorem listFirst_alike :
    AlikeAnswers listFirst (tableAfter [readBoth] unsweptTable)
        (outcome (listFirst.run (tableAfter [readBoth] unsweptTable)))
        (outcome (listFirst.run (tableAfter [readBoth] sweptTable))) ∧
      SameLive 11 (tableAfter [readBoth, listFirst] unsweptTable)
        (tableAfter [readBoth, listFirst] sweptTable) := by
  have ordered : ((10 : ℚ) :: [readBoth, listFirst, writeExpired].map fun call =>
      call.env.now).Pairwise (· ≤ ·) := by decide +kernel
  refine lapsed_entries_are_absent ordered swept_sameLive (fun done call rest split => ?_) [readBoth]
    listFirst [writeExpired] rfl
  have member : call ∈ [readBoth, listFirst, writeExpired] := by
    rw [split]
    exact List.mem_append_right _ List.mem_cons_self
  have own : call.request.buildsOn = none ∧ call.crossApp = false := by
    simp only [List.mem_cons, List.not_mem_nil, or_false] at member
    rcases member with rfl | rfl | rfl <;> exact ⟨rfl, rfl⟩
  have clear : ∀ table, Clear call table := fun table =>
    ⟨fun key item builds => by simp [own.1] at builds, fun foreign => by simp [own.2] at foreign⟩
  exact ⟨clear _, clear _⟩

end Sweeping

end Puter

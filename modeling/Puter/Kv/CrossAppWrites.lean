/-
Module: Puter.Kv.CrossAppWrites
Purpose: What the calls of another app can do to the entries of a namespace when that app may write them
  but not delete. Every entry stays, with no earlier expiry, and what stood in its value stays except below
  a place that was assigned, unless an `update` carries `ttl: null`: the gate takes `null` for no expiry and
  the store takes it for zero seconds.
Trusted boundary: none
Main exports: KeptItem, crossApp_writes_keep
-/
import Puter.Kv.DocumentPaths
import Puter.Kv.KVStoreDriver

namespace Puter

open Document StateRun SystemKVStore

def NotEarlier : Option ℚ → Option ℚ → Prop
  | _, none => True
  | some before, some after => before ≤ after
  | none, some _ => False

/-- The expiry of an item is not earlier, and what stood in its value stands, unless it is exempt. -/
structure KeptItem (exempt : Location Text → Prop) (before after : Attributes) : Prop where
  ttl : NotEarlier (itemTtl before) (itemTtl after)
  places : ∀ loc, (lookup (.key valueName :: loc) (.map before)).isSome →
    exempt loc ∨ (lookup (.key valueName :: loc) (.map after)).isSome

def KeptEntries (exempt : Text → Location Text → Prop) (table table' : KvTable) : Prop :=
  ∀ key before, table.get key = some before →
    ∃ after, table'.get key = some after ∧ KeptItem (exempt key) before after

def noneExempt : Text → Location Text → Prop := fun _ _ => False

theorem NotEarlier.refl (expiry : Option ℚ) : NotEarlier expiry expiry := by
  cases expiry with
  | none => trivial
  | some seconds => exact le_refl seconds

theorem NotEarlier.trans {one two three : Option ℚ} (first : NotEarlier one two)
    (second : NotEarlier two three) : NotEarlier one three := by
  cases one <;> cases two <;> cases three <;> simp_all [NotEarlier]
  exact first.trans second

section Kept

variable {exempt more : Location Text → Prop} {one two three : Attributes}

theorem KeptItem.refl (item : Attributes) : KeptItem exempt item item :=
  ⟨.refl _, fun _ stands => .inr stands⟩

theorem KeptItem.trans (first : KeptItem exempt one two) (second : KeptItem exempt two three) :
    KeptItem exempt one three := by
  refine ⟨first.ttl.trans second.ttl, fun loc stands => ?_⟩
  rcases first.places loc stands with isExempt | stands
  · exact .inl isExempt
  · exact second.places loc stands

theorem KeptItem.mono (kept : KeptItem exempt one two) (covers : ∀ loc, exempt loc → more loc) :
    KeptItem more one two :=
  ⟨kept.ttl, fun loc stands => (kept.places loc stands).imp_left (covers loc)⟩

end Kept

section KeptTables

variable {exempt more : Text → Location Text → Prop} {table table' : KvTable}

instance : IsPreorder KvTable (KeptEntries exempt) where
  refl _ _ before stored := ⟨before, stored, .refl before⟩
  trans _ _ _ first second key before stored := by
    obtain ⟨between, found, kept⟩ := first key before stored
    obtain ⟨after, stands, keptAfter⟩ := second key between found
    exact ⟨after, stands, kept.trans keptAfter⟩

theorem KeptEntries.mono (kept : KeptEntries exempt table table')
    (covers : ∀ key loc, exempt key loc → more key loc) : KeptEntries more table table' := by
  intro key before stored
  obtain ⟨after, stands, keptItem⟩ := kept key before stored
  exact ⟨after, stands, keptItem.mono (covers key)⟩

theorem KeptEntries.put {key : Text} {item : Attributes}
    (kept : ∀ before, table.get key = some before → KeptItem (exempt key) before item) :
    KeptEntries exempt table (table.put key item) := by
  intro other before stored
  rw [SortedTable.get_put]
  by_cases same : other = key
  · subst same
    exact ⟨item, if_pos rfl, kept before stored⟩
  · exact ⟨before, by rw [if_neg same, stored], .refl before⟩

end KeptTables

section SetActions

variable {names : AttributeNames} {item item' : Attributes} {tooLarge : UpdateExpression → Bool}

theorem mem_evalActions {actions : List (DocumentPath × SetValue)} {document : Json}
    {puts : List (Location Text × Json)}
    (evaluated : UpdateExpression.evalActions names document actions = .ok puts)
    {put : Location Text × Json} (member : put ∈ puts) :
    ∃ action ∈ actions, resolvePath names action.1 = .ok put.1 ∧
      action.2.eval names document = .ok put.2 := by
  induction actions generalizing puts with
  | nil =>
      cases evaluated
      cases member
  | cons action rest ih =>
      obtain ⟨loc, resolved, evaluated⟩ := except_bind_ok.mp evaluated
      obtain ⟨value, evaluates, evaluated⟩ := except_bind_ok.mp evaluated
      obtain ⟨others, later, same⟩ := except_bind_ok.mp evaluated
      cases same
      rcases List.mem_cons.mp member with rfl | isLater
      · exact ⟨action, List.mem_cons_self, resolved, evaluates⟩
      · obtain ⟨other, isAction, found⟩ := ih later isLater
        exact ⟨other, List.mem_cons_of_mem _ isAction, found⟩

theorem evalActions_targets {actions : List (DocumentPath × SetValue)} {document : Json}
    {puts : List (Location Text × Json)}
    (evaluated : UpdateExpression.evalActions names document actions = .ok puts)
    {targets : List (Location Text)}
    (resolved : UpdateExpression.resolvePaths names (actions.map Prod.fst) = .ok targets) :
    puts.map Prod.fst = targets := by
  induction actions generalizing puts targets with
  | nil =>
      cases evaluated
      cases resolved
      rfl
  | cons action rest ih =>
      obtain ⟨loc, first, evaluated⟩ := except_bind_ok.mp evaluated
      obtain ⟨value, -, evaluated⟩ := except_bind_ok.mp evaluated
      obtain ⟨others, later, same⟩ := except_bind_ok.mp evaluated
      cases same
      obtain ⟨loc', first', resolved⟩ := except_bind_ok.mp resolved
      obtain ⟨others', later', same⟩ := except_bind_ok.mp resolved
      cases same
      cases first.symm.trans first'
      rw [List.map_cons, ih later later']

/-- An action whose value has everything that stood at its place, but for what is exempt. -/
def CarriesOver (names : AttributeNames) (exempt : Location Text → Prop)
    (action : DocumentPath × SetValue) : Prop :=
  ∀ item place value, resolvePath names action.1 = .ok place → action.2.eval names (.map item) = .ok value →
    ∀ below, (lookup (place ++ below) (.map item)).isSome →
      exempt (place ++ below) ∨ (lookup below value).isSome

def StartsBesideTtl (names : AttributeNames) (path : DocumentPath) : Prop :=
  ∀ place, resolvePath names path = .ok place → ∃ name rest, place = .key name :: rest ∧ name ≠ ttlName

theorem set_keeps {actions : List (DocumentPath × SetValue)} (exempt : Location Text → Prop)
    (carries : ∀ action ∈ actions, CarriesOver names exempt action)
    (beside : ∀ action ∈ actions, StartsBesideTtl names action.1)
    (ran : (UpdateExpression.set actions).run tooLarge names item = .ok item') :
    KeptItem (fun loc => exempt (.key valueName :: loc)) item item' := by
  obtain ⟨-, targets, resolved, clear, applied⟩ := UpdateExpression.run_ok ran
  obtain ⟨puts, changed, evaluated, assigned, rfl⟩ := apply_set_ok applied
  have apart : puts.Pairwise fun one other => ¬ Overlap one.1 other.1 := by
    rw [← List.pairwise_map (R := fun one other => ¬ Overlap one other),
      evalActions_targets evaluated resolved]
    exact pairwise_of_anyClash clear
  have starts : ∀ put ∈ puts, ∃ name rest, put.1 = .key name :: rest ∧ name ≠ ttlName := by
    intro put member
    obtain ⟨action, isAction, place, -⟩ := mem_evalActions evaluated member
    exact beside action isAction put.1 place
  have isMap : .map (UpdateExpression.attributesOf changed) = changed := by
    refine map_attributesOf assigned fun put member empty => ?_
    obtain ⟨name, rest, starts, -⟩ := starts put member
    rw [empty] at starts
    cases starts
  constructor
  · have same : lookup [.key ttlName] changed = lookup [.key ttlName] (.map item) := by
      refine lookup_assignAll_of_not_overlap assigned fun put member => ?_
      obtain ⟨name, rest, starts, differs⟩ := starts put member
      rw [starts]
      exact not_overlap_cons fun same => differs (Step.key.inj same)
    rw [← isMap] at same
    change (field ttlName (UpdateExpression.attributesOf changed)).bind some =
      (field ttlName item).bind some at same
    rw [Option.bind_fun_some, Option.bind_fun_some] at same
    rw [itemTtl, itemTtl, same]
    exact .refl _
  · intro loc stands
    rw [isMap]
    by_cases inside : ∃ put ∈ puts, put.1 <+: .key valueName :: loc
    · obtain ⟨put, member, below, whole⟩ := inside
      obtain ⟨action, isAction, place, evaluates⟩ := mem_evalActions evaluated member
      rw [← whole] at stands ⊢
      refine (carries action isAction item put.1 put.2 place evaluates below stands).imp_right ?_
      rw [lookup_append, (assignAll_lands apart assigned member).1]
      exact id
    · have outside : ∀ put ∈ puts, ¬ put.1 <+: .key valueName :: loc :=
        fun put member isPrefix => inside ⟨put, member, isPrefix⟩
      have kept := assignAll_kept assigned outside
      cases after : lookup (.key valueName :: loc) changed with
      | some document => exact .inr rfl
      | none =>
          obtain ⟨before, found⟩ := Option.isSome_iff_exists.mp stands
          rw [found, after] at kept
          exact kept.elim

def WellNamed (names : AttributeNames) : Prop := ∀ entry ∈ names, entry.1 = cleanAttrName entry.2

theorem namesOf_wellNamed (chunks : List Text) : WellNamed (namesOf chunks) := by
  intro entry member
  rw [namesOf, List.mem_reverse] at member
  obtain ⟨chunk, -, rfl⟩ := List.mem_map.mp member
  rfl

theorem expressionNames_wellNamed (paths : List Text) : WellNamed (expressionNames paths false) := by
  intro entry member
  rcases List.mem_cons.mp member with rfl | named
  · rfl
  · exact namesOf_wellNamed _ entry named

theorem ttlName_placeholder : cleanAttrName valueName ≠ cleanAttrName ttlName := by decide

theorem startsBesideTtl_plain (named : WellNamed names) (chunks : List Text) :
    StartsBesideTtl names ((valueName :: chunks).map plainElement) := by
  intro place resolved
  obtain ⟨first, element, resolved⟩ := except_bind_ok.mp resolved
  obtain ⟨rest, -, same⟩ := except_bind_ok.mp resolved
  cases same
  cases found : names.lookup (cleanAttrName valueName) with
  | none => simp [resolveElement, plainElement, found] at element
  | some name =>
      simp only [resolveElement, plainElement, indexes_nil, found, List.map_nil, Except.ok.injEq]
        at element
      subst element
      refine ⟨name, rest, rfl, ?_⟩
      rintro rfl
      obtain ⟨before, after, entries, -⟩ := List.lookup_eq_some_iff.mp found
      have member : (cleanAttrName valueName, ttlName) ∈ names := by
        rw [entries]
        simp
      exact ttlName_placeholder (named _ member)

theorem ifNotExists_eval {path : DocumentPath} {place : Location Text} {given value document : Json}
    (resolved : resolvePath names path = .ok place)
    (evaluates : (Operand.ifNotExists path given).eval names document = .ok value) :
    value = (lookup place document).getD given := by
  obtain ⟨loc, isPlace, same⟩ := except_bind_ok.mp evaluates
  cases resolved.symm.trans isPlace
  cases same
  rfl

theorem stands_below {place below : Location Text} {document : Json} (given : Json)
    (stands : (lookup (place ++ below) document).isSome) :
    (lookup below ((lookup place document).getD given)).isSome := by
  rw [lookup_append] at stands
  cases found : lookup place document with
  | none => simp [found] at stands
  | some value => simpa [found] using stands

theorem carries_layer {path : DocumentPath} {filling : Json} {exempt : Location Text → Prop} :
    CarriesOver names exempt (path, .operand (.ifNotExists path filling)) := by
  intro item place value resolved evaluates below stands
  rw [ifNotExists_eval resolved evaluates]
  exact .inr (stands_below filling stands)

theorem carries_incr {valPath : Text} {amount : ℚ} {exempt : Location Text → Prop} :
    CarriesOver names exempt (incrSetStatement valPath amount) := by
  intro item place value resolved evaluates below stands
  obtain ⟨one, first, evaluates⟩ := except_bind_ok.mp evaluates
  have stands' := stands_below (.number 0) stands
  rw [← ifNotExists_eval resolved first] at stands'
  cases below with
  | nil => exact .inr rfl
  | cons step rest =>
      cases one with
      | number n => cases step <;> cases stands'
      | null | bool _ | text _ | list _ | map _ => cases evaluates

theorem carries_add {valPath : Text} {more : Json} {exempt : Location Text → Prop} :
    CarriesOver names exempt (addSetStatement valPath more) := by
  intro item place value resolved evaluates below stands
  obtain ⟨one, first, evaluates⟩ := except_bind_ok.mp evaluates
  have stands' := stands_below (.list []) stands
  rw [← ifNotExists_eval resolved first] at stands'
  cases below with
  | nil => exact .inr rfl
  | cons step rest =>
      cases one with
      | list items =>
          cases evaluates
          cases step with
          | key name => cases stands'
          | index n =>
              rw [lookup_cons, child] at stands' ⊢
              cases found : items[n]? with
              | none => simp [found] at stands'
              | some element =>
                  have inside := (List.getElem?_eq_some_iff.mp found).1
                  rw [found] at stands'
                  rw [List.getElem?_append_left inside, found]
                  exact .inr stands'
      | null | bool _ | number _ | text _ | map _ => cases evaluates

def BelowPath (names : AttributeNames) (path : DocumentPath) (loc : Location Text) : Prop :=
  ∃ place below, resolvePath names path = .ok place ∧ below ≠ [] ∧ place ++ below = loc

theorem carries_update {valPath : Text} {given : Json} :
    CarriesOver names (BelowPath names (plainPath valPath)) (updateSetStatement valPath given) := by
  intro item place value resolved evaluates below stands
  by_cases whole : below = []
  · subst whole
    exact .inr rfl
  · exact .inl ⟨place, below, resolved, whole, rfl⟩

end SetActions

section StoreOperations

variable {env : KvEnv} {crossApp : Bool} {key : Text} {names : AttributeNames}

instance (exempt : Text → Location Text → Prop) : Std.Refl (KeptEntries exempt) :=
  ⟨refl_of (KeptEntries exempt)⟩

theorem noneExempt_weaker (exempt : Text → Location Text → Prop) (table table' : KvTable)
    (kept : KeptEntries noneExempt table table') : KeptEntries exempt table table' :=
  kept.mono fun _ _ nothing => nothing.elim

theorem updateItem_leaves {expression : UpdateExpression} {exempt : Location Text → Prop}
    (kept : ∀ item item', expression.run env.tooLarge names item = .ok item' →
      KeptItem exempt item item') :
    Leaves (KeptEntries fun other loc => other = key ∧ exempt loc) (KeptEntries noneExempt)
      (updateItem env key expression names) := by
  constructor
  · intro table item table' ran
    obtain ⟨run, rfl⟩ := updateItem_ok.mp ran
    refine KeptEntries.put fun before stored => ?_
    rw [itemAt, stored] at run
    exact (kept before item run).mono fun loc isExempt => ⟨rfl, isExempt⟩
  · intro table error table' ran
    obtain ⟨rfl, -⟩ := updateItem_error ran
    exact refl_of (KeptEntries noneExempt) _

theorem updateItem_keeps {expression : UpdateExpression}
    (kept : ∀ item item', expression.run env.tooLarge names item = .ok item' →
      KeptItem (fun _ => False) item item') :
    Keeps (KeptEntries noneExempt) (updateItem env key expression names) :=
  ((updateItem_leaves kept).mono (fun _ _ kept => kept.mono fun _ _ nothing => nothing.2)
    fun _ _ => id).keeps fun _ _ => id

theorem createLayers_keeps {nested : List (Text × Json)} {layers : List (List Text)}
    (fromValue : ∀ chunks ∈ layers, ∃ rest, chunks = valueName :: rest) :
    Keeps (KeptEntries noneExempt) (createLayers env key nested layers) := by
  induction layers with
  | nil => exact .pure ()
  | cons chunks rest ih =>
      obtain ⟨below, rfl⟩ := fromValue chunks List.mem_cons_self
      refine .bind (updateItem_keeps fun item item' ran => ?_) fun item => ?_
      · refine set_keeps (fun _ => False) ?_ ?_ ran
        · exact fun action member => List.mem_singleton.mp member ▸ carries_layer
        · exact fun action member => List.mem_singleton.mp member ▸
            startsBesideTtl_plain (namesOf_wellNamed _) below
      · split
        · exact .pure ()
        · exact ih fun other later => fromValue other (List.mem_cons_of_mem _ later)

theorem createPaths_keeps (pathList : List Text) :
    Keeps (KeptEntries noneExempt) (createPaths env key pathList) := by
  refine .bind (assertPaths_reads pathList).keeps fun _ => ?_
  split
  · exact .pure ()
  · refine createLayers_keeps fun chunks member => ?_
    obtain ⟨valPath, -, after, -, nonempty, whole⟩ := mem_intermediatePaths member
    cases chunks with
    | nil => exact absurd rfl nonempty
    | cons first rest =>
        rw [chunksOf_eq] at whole
        exact ⟨rest, by rw [(List.cons.inj whole).1]⟩

theorem startsBesideTtl_plainPath (paths : List Text) (valPath : Text) :
    StartsBesideTtl (expressionNames paths false) (plainPath valPath) := by
  rw [plainPath, chunksOf_eq]
  exact startsBesideTtl_plain (expressionNames_wellNamed paths) _

theorem incr_keeps (pathAndAmountMap : List (Text × ℚ)) :
    Keeps (KeptEntries noneExempt) (incr env crossApp key pathAndAmountMap none) := by
  have updates : Keeps (KeptEntries noneExempt) (updateItem env key
      (.set ((pathAndAmountMap.map fun entry => incrSetStatement entry.1 entry.2) ++ []))
      (expressionNames (pathAndAmountMap.map Prod.fst) false)) := by
    refine updateItem_keeps fun item item' ran => ?_
    rw [List.append_nil] at ran
    refine set_keeps (fun _ => False) ?_ ?_ ran
    · rintro action member
      obtain ⟨entry, -, rfl⟩ := List.mem_map.mp member
      exact carries_incr
    · rintro action member
      obtain ⟨entry, -, rfl⟩ := List.mem_map.mp member
      exact startsBesideTtl_plainPath _ _
  refine .bind (assertKey_reads key).keeps fun _ => .bind (.refuseIf _ _) fun _ =>
    .bind (assertPaths_reads _).keeps fun _ => .bind (assertNotPrivate_reads _ _).keeps fun _ =>
      .bind (Keeps.tryCatch updates fun error => ?_) fun _ => .pure _
  split
  · exact .throw _
  · exact .bind (createPaths_keeps _) fun _ => updates
  · exact .throw _

theorem add_keeps (pathAndValueMap : List (Text × Json)) :
    Keeps (KeptEntries noneExempt) (add env crossApp key pathAndValueMap) := by
  refine .bind (assertKey_reads key).keeps fun _ => .bind (.refuseIf _ _) fun _ =>
    .bind (.forEach fun _ _ => (assertValue_reads env _).keeps) fun _ =>
      .bind (assertPaths_reads _).keeps fun _ => .bind (assertNotPrivate_reads _ _).keeps fun _ =>
        .bind (createPaths_keeps _) fun _ => .bind (updateItem_keeps fun item item' ran => ?_)
          fun _ => .pure _
  refine set_keeps (fun _ => False) ?_ ?_ ran
  · rintro action member
    obtain ⟨entry, -, rfl⟩ := List.mem_map.mp member
    exact carries_add
  · rintro action member
    obtain ⟨entry, -, rfl⟩ := List.mem_map.mp member
    exact startsBesideTtl_plainPath _ _

def BelowAssigned (paths : List Text) (loc : Location Text) : Prop :=
  ∃ valPath ∈ paths, BelowPath (expressionNames paths false) (plainPath valPath) (.key valueName :: loc)

theorem update_leaves (pathAndValueMap : List (Text × Json)) :
    Leaves (KeptEntries fun other loc => other = key ∧ BelowAssigned (pathAndValueMap.map Prod.fst) loc)
      (KeptEntries noneExempt) (update env crossApp key pathAndValueMap none) := by
  refine .skip (assertKey_reads key) fun _ _ _ => .skip (.refuseIf _ _) fun _ _ _ =>
    .skip (.forEach fun _ _ => assertValue_reads env _) fun _ _ _ =>
      .skip (assertPaths_reads _) fun _ _ _ => .skip (assertNotPrivate_reads _ _) fun _ _ _ =>
        .bind (createPaths_keeps _) ?_ fun _ => .result (updateItem_leaves fun item item' ran => ?_) _
  · exact fun _ _ _ first second => trans_of _ (noneExempt_weaker _ _ _ first) second
  · rw [Option.toList_none, List.map_nil, List.append_nil] at ran
    refine set_keeps (fun loc => ∃ valPath ∈ pathAndValueMap.map Prod.fst,
      BelowPath (expressionNames (pathAndValueMap.map Prod.fst) false) (plainPath valPath) loc) ?_ ?_ ran
    · rintro action member item place value resolved evaluates below stands
      obtain ⟨entry, isEntry, rfl⟩ := List.mem_map.mp member
      exact (carries_update item place value resolved evaluates below stands).imp_left
        fun isBelow => ⟨entry.1, List.mem_map_of_mem isEntry, isBelow⟩
    · rintro action member
      obtain ⟨entry, -, rfl⟩ := List.mem_map.mp member
      exact startsBesideTtl_plainPath _ _

theorem get_reads (keys : List Text) : ReadsOnly (SystemKVStore.get env crossApp keys) :=
  .bind (.forEach fun key _ => assertKey_reads key) fun _ => .bind .get fun _ => .pure _

theorem normalizeLimit_reads (limit : Option ℚ) : ReadsOnly (normalizeLimit limit) := by
  cases limit with
  | none => exact .pure _
  | some parsed => exact .bind (.refuseIf _ _) fun _ => .pure _

theorem normalizeOffset_reads (offset : Option ℚ) : ReadsOnly (normalizeOffset offset) := by
  cases offset with
  | none => exact .pure _
  | some parsed => exact .bind (.refuseIf _ _) fun _ => .bind (.refuseIf _ _) fun _ => .pure _

theorem list_reads (opts : ListOpts) : ReadsOnly (SystemKVStore.list env crossApp opts) :=
  .bind (normalizeLimit_reads _) fun _ => .bind (normalizeOffset_reads _) fun _ =>
    .bind (.refuseIf _ _) fun _ => .bind (.refuseIf _ _) fun _ => .bind .get fun _ => .pure _

theorem assertNonePrivate_reads (keys : List Text) : ReadsOnly (assertNonePrivate crossApp keys) :=
  .bind .get fun _ => .refuseIf _ _

theorem itemTtl_givenItem {expireAt : Option Json} (absent : present expireAt = false)
    (value : Option Json) (disableSharing : Bool) :
    itemTtl (givenItem value expireAt disableSharing) = none := by
  rcases expireAt with _ | (_ | _ | _ | _ | _ | _)
  case none | some.null =>
    cases value <;> cases disableSharing <;> rfl
  all_goals cases absent

theorem put_keeps {value expireAt : Option Json} (absent : present expireAt = false)
    (disableSharing : Bool) (table : KvTable) :
    KeptEntries (fun other _ => other = key) table
      (table.put key (givenItem value expireAt disableSharing)) := by
  refine KeptEntries.put fun before _ => ⟨?_, fun _ _ => .inl rfl⟩
  rw [itemTtl_givenItem absent]
  cases itemTtl before <;> trivial

theorem setGiven_leaves (value : Json) {expireAt : Option Json} (absent : present expireAt = false)
    (disableSharing : Bool) :
    Leaves (KeptEntries fun other _ => other = key) (KeptEntries noneExempt)
      (setGiven env crossApp key value expireAt disableSharing) := by
  refine .skip (assertKey_reads key) fun _ _ _ => .skip (assertValue_reads env value) fun _ _ _ =>
    .skip (assertNotPrivate_reads _ _) fun _ _ _ => .result ⟨?_, ?_⟩ _
  · rintro table _ table' ran
    obtain rfl := modify_ok.mp ran
    exact put_keeps absent disableSharing table
  · exact fun _ _ _ ran => absurd ran modify_error

theorem lastGiven_subset (items : List GivenItem) : lastGiven items ⊆ items := by
  induction items with
  | nil => exact List.Subset.refl _
  | cons item rest ih =>
      unfold lastGiven
      split
      · exact fun _ member => List.mem_cons_of_mem _ (ih member)
      · exact List.cons_subset_cons _ ih

theorem batchPutGiven_leaves {items : List GivenItem}
    (absent : ∀ item ∈ items, present item.expireAt = false) (disableSharing : Bool) :
    Leaves (KeptEntries fun other _ => ∃ item ∈ items, item.key = other) (KeptEntries noneExempt)
      (batchPutGiven env crossApp items disableSharing) := by
  refine .skip (.forEach fun item _ => .bind (assertKey_reads _) fun _ => assertValue_reads env _)
    fun _ _ _ => .skip (assertNonePrivate_reads _) fun _ _ _ => .result ⟨?_, ?_⟩ _
  · intro table _ table' ran
    have writes : Keeps (KeptEntries fun other _ => ∃ item ∈ items, item.key = other)
        (forEach (fun item => modify fun table : KvTable =>
          table.put item.key (givenItem item.value item.expireAt disableSharing)) (lastGiven items) :
            KvRun Unit) := by
      refine .forEach fun item member table => ?_
      have isItem := lastGiven_subset items member
      exact (put_keeps (absent item isItem) disableSharing table).mono fun other _ same =>
        ⟨item, isItem, same.symm⟩
    exact writes.ok ran
  · exact fun _ _ _ ran => absurd ran (forEach_error fun _ _ _ _ => modify_error)

theorem incrGiven_keeps (pathAndAmountMap : List (Text × GivenAmount)) :
    Keeps (KeptEntries noneExempt) (incrGiven env crossApp key pathAndAmountMap) := by
  unfold incrGiven
  split
  · exact incr_keeps _
  · exact .bind (assertKey_reads key).keeps fun _ => .bind (.refuseIf _ _) fun _ =>
      .bind (assertPaths_reads _).keeps fun _ => .bind (assertNotPrivate_reads _ _).keeps fun _ =>
        .throw _

end StoreOperations

/-- A call of the driver, with its surroundings. -/
structure DriverCall where
  ctx : KvContext
  method : KvMethod
  args : KvCallArgs

namespace DriverCall

open KVStoreDriver

def run (call : DriverCall) : DriverRun KvResponse := KVStoreDriver.call call.ctx call.args call.method

/-- The call is on the entry, and a `set` or a `batchPut` of it, or an `update` that assigns a place above
    the location. -/
def Assigns (call : DriverCall) (key : Text) (loc : Location Text) : Prop :=
  match call.method with
  | .set => coerceKey call.ctx (KVStoreDriver.key call.args) = .ok key
  | .batchPut => ∃ given coerced, items call.args = some given ∧
      given.mapM (coerceItem call.ctx) = .ok coerced ∧ ∃ item ∈ coerced, item.key = key
  | .update => coerceKey call.ctx (KVStoreDriver.key call.args) = .ok key ∧
      ∃ entries, (call.args.arg valuesName).bind entriesOf = some entries ∧
        BelowAssigned (entries.map Prod.fst) loc
  | _ => False

/-- An `update` with `ttl: null`. -/
def NullTtl (call : DriverCall) : Prop :=
  call.method = .update ∧ call.args.arg "ttl".toList = some .null

/-- A call by an app on the data of another one, of which it may delete nothing: it holds neither the
    delete class nor one of the deleting operations. -/
structure WithoutDelete (actor : Actor) (target : Text) (call : DriverCall) : Prop where
  acting : call.ctx.actor = some actor
  asApp : ∃ app, actor.effectiveApp = some app ∧ app.uid ≠ [] ∧ app.uid ≠ target
  onOther : target ≠ [] ∧ call.args.appUuid = some target
  noClass : call.ctx.check (appDataPermission target deleteClass) = false
  noOps : ∀ op ∈ [AppDataKvOp.del, .remove, .expire, .expireAt],
    call.ctx.check (appDataPermission target op.name) = false

end DriverCall

def afterCalls (calls : List DriverCall) (tables : KvTables) : KvTables :=
  calls.foldl (fun tables call => finalState (call.run tables)) tables

/-- One of some calls has ended well and assigned a place above the location, or the whole value. -/
def AssignedIn : List DriverCall → KvTables → Text → Location Text → Prop
  | [], _, _, _ => False
  | call :: rest, tables, key, loc =>
      (∃ answer tables', call.run tables = .ok answer tables') ∧ call.Assigns key loc ∨
        AssignedIn rest (finalState (call.run tables)) key loc

def appNamespace (actor : Actor) (target : Text) : Text := getNamespace ⟨some actor, none, some target⟩

section Driver

open KVStoreDriver

variable {ctx : KvContext} {method : KvMethod} {args : KvCallArgs} {actor : Actor} {target : Text}

def At (namespaceName : Text) (related : KvTable → KvTable → Prop) (tables tables' : KvTables) : Prop :=
  related (tables namespaceName) (tables' namespaceName)

instance (namespaceName : Text) (exempt : Text → Location Text → Prop) :
    Std.Refl (At namespaceName (KeptEntries exempt)) :=
  ⟨fun tables => refl_of (KeptEntries exempt) (tables namespaceName)⟩

theorem orFail_reads {α : Type} (answer : Except KvError α) : ReadsOnly (orFail answer) := by
  cases answer with
  | ok a => exact .pure a
  | error error => exact .throw error

theorem orFail_ok {α : Type} {answer : Except KvError α} {a : α} {tables tables' : KvTables} :
    orFail answer tables = .ok a tables' ↔ answer = .ok a ∧ tables = tables' := by
  cases answer with
  | ok b => simp [orFail, pure_ok]
  | error error => simp [orFail, throw_ok]

theorem assertCrossAppExpiry_reads (ctx : KvContext) (target : Text) :
    ReadsOnly (assertCrossAppExpiry ctx target) := .refuseIf _ _

theorem opts_reads (ctx : KvContext) (method : KvMethod) (args : KvCallArgs) :
    ReadsOnly (opts ctx method args) := by
  refine .bind (.runIf fun _ => .refuseIf _ _) fun _ => ?_
  split
  · exact .bind (.refuseIf _ _) fun _ => .bind (.bind (.orThrow _ _) fun _ => .bind (.orThrow _ _)
      fun _ => .bind (.refuseIf _ _) fun _ => .bind (.refuseIf _ _) fun _ =>
        .runIf fun _ => assertCrossAppExpiry_reads _ _) fun _ => .pure _
  · exact .pure _

theorem onStore_reads {α : Type} {options : KVOpts} {operation : Bool → KvRun α}
    (reads : ∀ crossApp, ReadsOnly (operation crossApp)) : ReadsOnly (onStore options operation) := by
  intro tables
  rw [onStore, finalState_within, ← reads _ (tables (getNamespace options)), Function.update_eq_self]

theorem onStore_leaves {α : Type} {well thrown : KvTable → KvTable → Prop} {operation : Bool → KvRun α}
    (leaves : Leaves well thrown (operation true)) :
    Leaves (At (appNamespace actor target) well) (At (appNamespace actor target) thrown)
      (onStore ⟨some actor, none, some target⟩ operation) := by
  constructor
  · intro tables a tables' ran
    obtain ⟨table, stored, rfl⟩ := within_ok.mp ran
    change well _ (Function.update tables (appNamespace actor target) table (appNamespace actor target))
    rw [Function.update_self]
    exact leaves.ok _ a table stored
  · intro tables error tables' ran
    obtain ⟨table, stopped, rfl⟩ := within_error.mp ran
    change thrown _ (Function.update tables (appNamespace actor target) table (appNamespace actor target))
    rw [Function.update_self]
    exact leaves.error _ error table stopped

theorem opts_crossApp {tables tables' : KvTables} {options : KVOpts} {call : DriverCall}
    (without : call.WithoutDelete actor target)
    (ran : opts call.ctx method call.args tables = .ok options tables') :
    options = ⟨some actor, none, some target⟩ ∧
      (∃ op, method.op = some op ∧ call.ctx.check (appDataPermission target op.name) = true) ∧
        ∀ param ∈ ttlParams, present (call.args.arg param) = false := by
  obtain ⟨app, isApp, named, differs⟩ := without.asApp
  have isTarget : crossAppTarget call.ctx call.args = some target := by
    simp [crossAppTarget, without.acting, isApp, without.onOther, named, Ne.symm differs]
  obtain ⟨_, _, -, ran⟩ := bind_ok.mp ran
  rw [isTarget] at ran
  obtain ⟨_, _, -, ran⟩ := bind_ok.mp ran
  obtain ⟨_, _, gate, ran⟩ := bind_ok.mp ran
  obtain ⟨same, -⟩ := pure_ok.mp ran
  obtain ⟨op, _, isOp, gate⟩ := bind_ok.mp gate
  obtain ⟨_, _, -, gate⟩ := bind_ok.mp gate
  obtain ⟨_, _, -, gate⟩ := bind_ok.mp gate
  obtain ⟨_, _, checked, gate⟩ := bind_ok.mp gate
  refine ⟨by rw [← same, without.acting], ⟨op, (orThrow_ok.mp isOp).1, ?_⟩, ?_⟩
  · simpa using (refuseIf_ok.mp checked).1
  · rcases runIf_ok.mp gate with ⟨-, expiry⟩ | ⟨nothing, -⟩
    · have granted := (refuseIf_ok.mp expiry).1
      rw [without.noClass] at granted
      cases granted
    · intro param member
      rw [List.any_eq_false] at nothing
      simpa using nothing param member

theorem denied_leaves {call : DriverCall} (without : call.WithoutDelete actor target)
    (denied : ∀ op, method.op = some op → op ∈ [AppDataKvOp.del, .remove, .expire, .expireAt])
    {α : Type} {well thrown : KvTables → KvTables → Prop} [Std.Refl thrown] (rest : KVOpts → DriverRun α) :
    Leaves well thrown (opts call.ctx method call.args >>= rest) := by
  refine .skip (opts_reads _ _ _) fun options tables ran => ?_
  obtain ⟨-, ⟨op, isOp, granted⟩, -⟩ := opts_crossApp without ran
  rw [without.noOps op (denied op isOp)] at granted
  cases granted

theorem driverGet_reads (ctx : KvContext) (args : KvCallArgs) : ReadsOnly (KVStoreDriver.get ctx args) := by
  refine .bind (.refuseIf _ _) fun _ => .bind (opts_reads _ _ _) fun _ => ?_
  split
  · exact .pure _
  · exact .bind (orFail_reads _) fun _ => .bind (onStore_reads fun _ => get_reads _) fun _ => .pure _
  · exact .bind (orFail_reads _) fun _ => .bind (onStore_reads fun _ => get_reads _) fun _ => .pure _

theorem driverList_reads (ctx : KvContext) (args : KvCallArgs) : ReadsOnly (KVStoreDriver.list ctx args) :=
  .bind (opts_reads _ _ _) fun _ => .bind (.runIf fun _ => .refuseIf _ _) fun _ =>
    .bind (orFail_reads _) fun _ => .bind (onStore_reads fun _ => list_reads _) fun _ => .pure _

variable {call : DriverCall}

theorem set_leaves (without : call.WithoutDelete actor target) (isSet : call.method = .set) :
    Leaves (At (appNamespace actor target) (KeptEntries call.Assigns))
      (At (appNamespace actor target) (KeptEntries noneExempt)) (KVStoreDriver.set call.ctx call.args) := by
  refine .skip (orFail_reads _) fun key _ coerced => .skip (.orThrow _ _) fun value _ _ =>
    .skip (opts_reads _ _ _) fun options _ ran => ?_
  obtain ⟨rfl, -, absent⟩ := opts_crossApp without ran
  have noExpiry : present (call.args.arg "expireAt".toList) = false := absent _ (by simp [ttlParams])
  refine .result (onStore_leaves ?_) _
  refine (setGiven_leaves value noExpiry call.args.disableSharing).mono ?_ fun _ _ => id
  refine fun _ _ kept => kept.mono fun other _ same => ?_
  rw [DriverCall.Assigns, isSet, same]
  exact (orFail_ok.mp coerced).1

theorem batchPut_leaves (without : call.WithoutDelete actor target) (isBatch : call.method = .batchPut) :
    Leaves (At (appNamespace actor target) (KeptEntries call.Assigns))
      (At (appNamespace actor target) (KeptEntries noneExempt))
      (KVStoreDriver.batchPut call.ctx call.args) := by
  refine .skip (.orThrow _ _) fun given _ found => .skip (orFail_reads _) fun coerced _ read =>
    .skip (opts_reads _ _ _) fun options _ ran => ?_
  obtain ⟨rfl, -, -⟩ := opts_crossApp without ran
  refine .skip (.runIf fun _ => assertCrossAppExpiry_reads _ _) fun _ _ gate => ?_
  have noExpiry : ∀ item ∈ coerced, present item.expireAt = false := by
    rcases runIf_ok.mp gate with ⟨-, expiry⟩ | ⟨nothing, -⟩
    · have granted := (refuseIf_ok.mp expiry).1
      rw [without.noClass] at granted
      cases granted
    · rw [List.any_eq_false] at nothing
      simpa using nothing
  refine .result (onStore_leaves ?_) _
  refine (batchPutGiven_leaves noExpiry call.args.disableSharing).mono ?_ fun _ _ => id
  refine fun _ _ kept => kept.mono fun other _ isItem => ?_
  rw [DriverCall.Assigns, isBatch]
  exact ⟨given, coerced, (orThrow_ok.mp found).1, (orFail_ok.mp read).1, isItem⟩

theorem updateCall_leaves (without : call.WithoutDelete actor target) (isUpdate : call.method = .update)
    (notNull : call.args.arg "ttl".toList ≠ some .null) :
    Leaves (At (appNamespace actor target) (KeptEntries call.Assigns))
      (At (appNamespace actor target) (KeptEntries noneExempt))
      (KVStoreDriver.update call.ctx call.args) := by
  refine .skip (orFail_reads _) fun key _ coerced => .skip (.orThrow _ _) fun entries _ found =>
    .skip (opts_reads _ _ _) fun options _ ran => ?_
  obtain ⟨rfl, -, absent⟩ := opts_crossApp without ran
  have noTtl : call.args.arg "ttl".toList = none := by
    have gone : present (call.args.arg "ttl".toList) = false := absent _ (by simp [ttlParams])
    cases given : call.args.arg "ttl".toList with
    | none => rfl
    | some ttl =>
        rw [given] at gone notNull
        cases ttl <;> simp_all [present]
  rw [noTtl]
  refine .result (onStore_leaves ?_) _
  refine (update_leaves entries).mono ?_ fun _ _ => id
  rintro _ _ kept
  refine kept.mono ?_
  rintro other loc ⟨rfl, below⟩
  rw [DriverCall.Assigns, isUpdate]
  exact ⟨(orFail_ok.mp coerced).1, entries, (orThrow_ok.mp found).1, below⟩

theorem keeping_leaves {α : Type} {operation : Bool → KvRun α} {exempt : Text → Location Text → Prop}
    (keeps : Keeps (KeptEntries noneExempt) (operation true)) (f : α → KvResponse) :
    Leaves (At (appNamespace actor target) (KeptEntries exempt))
      (At (appNamespace actor target) (KeptEntries noneExempt))
      (onStore ⟨some actor, none, some target⟩ operation >>= fun a => pure (f a)) :=
  .result (onStore_leaves (.of_keeps keeps (noneExempt_weaker exempt))) f

theorem call_leaves (without : call.WithoutDelete actor target) (allowed : ¬ call.NullTtl) :
    Leaves (At (appNamespace actor target) (KeptEntries call.Assigns))
      (At (appNamespace actor target) (KeptEntries noneExempt)) call.run := by
  unfold DriverCall.run
  cases isMethod : call.method with
  | get => exact .of_reads (driverGet_reads _ _)
  | list => exact .of_reads (driverList_reads _ _)
  | set => exact set_leaves without isMethod
  | batchPut => exact batchPut_leaves without isMethod
  | update => exact updateCall_leaves without isMethod fun isNull => allowed ⟨isMethod, isNull⟩
  | incr =>
      refine .skip (orFail_reads _) fun _ _ _ => .skip (.orThrow _ _) fun _ _ _ =>
        .skip (opts_reads _ _ _) fun options _ ran => ?_
      obtain ⟨rfl, -, -⟩ := opts_crossApp without ran
      exact keeping_leaves (incrGiven_keeps _) _
  | decr =>
      refine .skip (orFail_reads _) fun _ _ _ => .skip (.orThrow _ _) fun _ _ _ =>
        .skip (opts_reads _ _ _) fun options _ ran => .skip (orFail_reads _) fun _ _ _ => ?_
      obtain ⟨rfl, -, -⟩ := opts_crossApp without ran
      exact keeping_leaves (incrGiven_keeps _) _
  | add =>
      refine .skip (orFail_reads _) fun _ _ _ => .skip (.orThrow _ _) fun _ _ _ =>
        .skip (opts_reads _ _ _) fun options _ ran => ?_
      obtain ⟨rfl, -, -⟩ := opts_crossApp without ran
      exact keeping_leaves (add_keeps _) _
  | flush => exact denied_leaves without (fun _ isOp => by cases isOp) _
  | del =>
      refine .skip (orFail_reads _) fun _ _ _ => denied_leaves without ?_ _
      rintro op ⟨⟩
      simp
  | expireAt =>
      refine .skip (orFail_reads _) fun _ _ _ => .skip (.orThrow _ _) fun _ _ _ =>
        denied_leaves without ?_ _
      rintro op ⟨⟩
      simp
  | expire =>
      refine .skip (orFail_reads _) fun _ _ _ => .skip (.orThrow _ _) fun _ _ _ =>
        denied_leaves without ?_ _
      rintro op ⟨⟩
      simp
  | remove =>
      refine .skip (orFail_reads _) fun _ _ _ => .skip (.orThrow _ _) fun _ _ _ =>
        denied_leaves without ?_ _
      rintro op ⟨⟩
      simp

/-- Over any calls that may not delete, of which no `update` carries `ttl: null`, every entry stays, with
    no earlier expiry, and with everything that stood in its value but for what is below a place that one
    of the calls assigned. -/
theorem crossApp_writes_keep {calls : List DriverCall} (without : ∀ call ∈ calls, call.WithoutDelete actor target)
    (allowed : ∀ call ∈ calls, ¬ call.NullTtl) (tables : KvTables) :
    KeptEntries (AssignedIn calls tables) (tables (appNamespace actor target))
      (afterCalls calls tables (appNamespace actor target)) := by
  induction calls generalizing tables with
  | nil => exact refl_of (KeptEntries _) _
  | cons call rest inductionHypothesis =>
      have later := inductionHypothesis (fun other member => without other (List.mem_cons_of_mem _ member))
        (fun other member => allowed other (List.mem_cons_of_mem _ member)) (finalState (call.run tables))
      have leaves := call_leaves (without call List.mem_cons_self) (allowed call List.mem_cons_self)
      have first : KeptEntries (AssignedIn (call :: rest) tables) (tables (appNamespace actor target))
          (finalState (call.run tables) (appNamespace actor target)) := by
        cases ran : call.run tables with
        | ok answer tables' =>
            refine (leaves.ok tables answer tables' ran).mono fun key loc assigns => ?_
            exact .inl ⟨⟨answer, tables', ran⟩, assigns⟩
        | error error tables' => exact noneExempt_weaker _ _ _ (leaves.error tables error tables' ran)
      exact trans_of (KeptEntries _) first (later.mono fun key loc assigned => Or.inr assigned)

end Driver

section Examples

def editorApp : Actor := .appUnderUser ⟨1, ['u'], ['u'], true⟩ ⟨"editor".toList, 1⟩

def notesApp : Text := "notes".toList

def readAndWrite : List Text :=
  (["read".toList, "write".toList] ++
    [AppDataKvOp.get, .list, .set, .add, .incr, .decr, .update].map AppDataKvOp.name).map
      (appDataPermission notesApp)

def editorContext : KvContext where
  toKvEnv := ⟨21 / 2, fun _ => false, fun _ => 0, fun _ => 1⟩
  actor := some editorApp
  appByUid := fun _ => some none
  check := readAndWrite.contains
  hasCredits := true
  stringOf := fun _ => none
  numberOf := fun value => match value with
    | .null => some (.finite 0)
    | .number n => some (.finite n)
    | _ => none
  listOpts := fun _ => .error internalError

/-- `update({ key: 'a', pathAndValueMap: { b: 1 } })` on the data of the other app, with more arguments. -/
def updateNotes (more : List (Text × Json)) : DriverCall :=
  ⟨editorContext, .update, ⟨some ⟨some notesApp, none⟩,
    ("key".toList, .text ['a']) :: (KVStoreDriver.valuesName, .map [(['b'], .number 1)]) :: more⟩⟩

/-- An entry `a` without an expiry, in every namespace. -/
def notes : KvTables := fun _ => SortedTable.empty.put ['a'] (wholeItem (.map [(['x'], .number 1)]) none false)

theorem readAndWrite_denies :
    readAndWrite.contains (appDataPermission notesApp deleteClass) = false ∧
      ∀ op ∈ [AppDataKvOp.del, .remove, .expire, .expireAt],
        readAndWrite.contains (appDataPermission notesApp op.name) = false := by
  decide +kernel

theorem updateNotes_withoutDelete (more : List (Text × Json)) :
    (updateNotes more).WithoutDelete editorApp notesApp where
  acting := rfl
  asApp := ⟨⟨"editor".toList, 1⟩, rfl, by decide, by decide⟩
  onOther := ⟨by decide, rfl⟩
  noClass := readAndWrite_denies.1
  noOps := readAndWrite_denies.2

/-- An `update` without an expiry keeps the entry. -/
theorem plain_update_keeps : ∃ after,
    (afterCalls [updateNotes []] notes (appNamespace editorApp notesApp)).get ['a'] = some after ∧
      KeptItem (AssignedIn [updateNotes []] notes ['a'])
        (wholeItem (.map [(['x'], .number 1)]) none false) after :=
  crossApp_writes_keep
    (fun _ member => List.mem_singleton.mp member ▸ updateNotes_withoutDelete [])
    (fun _ member isNull => by
      rw [List.mem_singleton.mp member] at isNull
      cases isNull.2)
    notes ['a'] _ rfl

/-- `null` passes the gate as no expiry and is zero seconds to the store: the entry gets the current second
    for its expiry, and has expired. -/
theorem null_ttl_expires : (updateNotes [("ttl".toList, .null)]).WithoutDelete editorApp notesApp ∧
    (∀ op ∈ [AppDataKvOp.get, .list, .set, .add, .incr, .decr, .update],
      editorContext.check (appDataPermission notesApp op.name) = true) ∧
    ((notes (appNamespace editorApp notesApp)).get ['a']).map itemTtl = some none ∧
    ((afterCalls [updateNotes [("ttl".toList, .null)]] notes (appNamespace editorApp notesApp)).get
      ['a']).map (fun item => (itemTtl item, lapsed editorContext.now item)) = some (some 10, true) ∧
    ¬ KeptEntries (AssignedIn [updateNotes [("ttl".toList, .null)]] notes)
      (notes (appNamespace editorApp notesApp))
      (afterCalls [updateNotes [("ttl".toList, .null)]] notes (appNamespace editorApp notesApp)) := by
  have expires : ((afterCalls [updateNotes [("ttl".toList, .null)]] notes
      (appNamespace editorApp notesApp)).get ['a']).map (fun item =>
        (itemTtl item, lapsed editorContext.now item)) = some (some 10, true) := by
    decide +kernel
  refine ⟨updateNotes_withoutDelete _, by decide +kernel, by decide +kernel, expires, fun kept => ?_⟩
  obtain ⟨after, stands, keptItem⟩ := kept ['a'] (wholeItem (.map [(['x'], .number 1)]) none false)
    rfl
  rw [stands, Option.map_some, Option.some_inj] at expires
  have notEarlier := keptItem.ttl
  rw [(Prod.mk.inj expires).1] at notEarlier
  exact notEarlier

end Examples

end Puter

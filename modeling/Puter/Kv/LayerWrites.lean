/-
Module: Puter.Kv.LayerWrites
Purpose: What writing the map layers above some paths leaves behind, layer by layer. A layer whose place is
  taken changes nothing, one whose place is free adds an empty map, and one that is refused ends the call; the
  root layer puts the maps above all the paths at once. From this, for any steps that come after the layers:
  when a call that stops somewhere has left the item alone.
Trusted boundary: none
Main exports: createPaths_spares
-/
import Puter.Kv.DocumentPaths
import Puter.Library.DocumentGrowth

namespace Puter

open Document StateRun SystemKVStore

def UpdateExpression.places (tooLarge : UpdateExpression → Bool) (names : AttributeNames)
    (expression : UpdateExpression) : Except UpdateError (List (Location Text)) := do
  refuse (names.any fun name => !validPlaceholder name.1) .invalidName
  refuse (tooLarge expression) .oversized
  let _ ← resolvePaths names expression.paths
  let targets ← resolvePaths names expression.targets
  refuse (anyClash targets) .invalidExpression
  refuse (expression.hasUnusedName names) .unusedName
  pure targets

theorem UpdateExpression.run_eq (tooLarge : UpdateExpression → Bool) (names : AttributeNames)
    (expression : UpdateExpression) (item : Attributes) :
    expression.run tooLarge names item =
      (expression.places tooLarge names >>= fun _ => expression.apply names item) := by
  simp [run, places]

theorem UpdateExpression.places_ok {tooLarge : UpdateExpression → Bool} {names : AttributeNames}
    {expression : UpdateExpression} {targets : List (Location Text)}
    (accepted : expression.places tooLarge names = .ok targets) :
    resolvePaths names expression.targets = .ok targets ∧ anyClash targets = false := by
  unfold places at accepted
  obtain ⟨_, -, accepted⟩ := except_bind_ok.mp accepted
  obtain ⟨_, -, accepted⟩ := except_bind_ok.mp accepted
  obtain ⟨_, -, accepted⟩ := except_bind_ok.mp accepted
  obtain ⟨targets', resolved, accepted⟩ := except_bind_ok.mp accepted
  obtain ⟨_, clash, accepted⟩ := except_bind_ok.mp accepted
  obtain ⟨_, -, accepted⟩ := except_bind_ok.mp accepted
  cases accepted
  exact ⟨resolved, refuse_ok.mp clash⟩

theorem resolvePath_keys {names : AttributeNames} {chunks : List Text} {loc : Location Text}
    (resolved : resolvePath names (chunks.map plainElement) = .ok loc) :
    ∃ keyNames : List Text, loc = keyNames.map .key ∧ keyNames.length = chunks.length := by
  induction chunks generalizing loc with
  | nil =>
      cases resolved
      exact ⟨[], rfl, rfl⟩
  | cons chunk rest ih =>
      obtain ⟨steps, one, resolved⟩ := except_bind_ok.mp resolved
      obtain ⟨others, later, same⟩ := except_bind_ok.mp resolved
      cases same
      obtain ⟨keyNames, rfl, length⟩ := ih later
      simp only [plainElement, resolveElement, indexes_nil] at one
      cases found : names.lookup (cleanAttrName chunk) with
      | none =>
          rw [found] at one
          cases one
      | some name =>
          rw [found] at one
          cases one
          exact ⟨name :: keyNames, rfl, by simp [length]⟩

theorem resolvePath_keys_concat {names : AttributeNames} {chunks : List Text} {loc : Location Text}
    (nonempty : chunks ≠ []) (resolved : resolvePath names (chunks.map plainElement) = .ok loc) :
    ∃ (above : List Text) (name : Text), loc = above.map .key ++ [.key name] := by
  obtain ⟨keyNames, rfl, length⟩ := resolvePath_keys resolved
  obtain rfl | ⟨above, name, rfl⟩ := List.eq_nil_or_concat keyNames
  · exact absurd (List.eq_nil_of_length_eq_zero length.symm) nonempty
  · exact ⟨above, name, by simp⟩

section Layer

def layerExpression (chunks : List Text) (filling : List (Text × Json)) : UpdateExpression :=
  .set [(chunks.map plainElement, .operand (.ifNotExists (chunks.map plainElement) (.map filling)))]

def layerPlace (env : KvEnv) (chunks : List Text) (filling : List (Text × Json)) : Option (Location Text) :=
  match (layerExpression chunks filling).places env.tooLarge (namesOf chunks) with
  | .ok (loc :: _) => some loc
  | _ => none

variable {env : KvEnv} {chunks : List Text} {filling : List (Text × Json)} {item : Attributes}

theorem resolvePaths_single {names : AttributeNames} {path : DocumentPath} {targets : List (Location Text)}
    (resolved : UpdateExpression.resolvePaths names [path] = .ok targets) :
    ∃ loc, resolvePath names path = .ok loc ∧ targets = [loc] := by
  obtain ⟨loc, one, resolved⟩ := except_bind_ok.mp resolved
  obtain ⟨others, rest, same⟩ := except_bind_ok.mp resolved
  cases rest
  cases same
  exact ⟨loc, one, rfl⟩

theorem layerPlace_some {loc : Location Text} (place : layerPlace env chunks filling = some loc) :
    (layerExpression chunks filling).places env.tooLarge (namesOf chunks) = .ok [loc] ∧
      resolvePath (namesOf chunks) (chunks.map plainElement) = .ok loc := by
  unfold layerPlace at place
  split at place
  next loc' others accepted =>
    cases place
    obtain ⟨loc'', resolved, same⟩ := resolvePaths_single (UpdateExpression.places_ok accepted).1
    obtain ⟨rfl, rfl⟩ := List.cons.inj same
    exact ⟨accepted, resolved⟩
  next => cases place

theorem layerPlace_none (refused : layerPlace env chunks filling = none) :
    ∃ e, (layerExpression chunks filling).run env.tooLarge (namesOf chunks) item = .error e := by
  rw [UpdateExpression.run_eq]
  cases accepted : (layerExpression chunks filling).places env.tooLarge (namesOf chunks) with
  | error e => exact ⟨e, rfl⟩
  | ok targets =>
      obtain ⟨loc, -, rfl⟩ := resolvePaths_single (UpdateExpression.places_ok accepted).1
      rw [layerPlace, accepted] at refused
      cases refused

theorem layer_run {loc : Location Text} (place : layerPlace env chunks filling = some loc) :
    (layerExpression chunks filling).run env.tooLarge (namesOf chunks) item =
      match assign ((lookup loc (.map item)).getD (.map filling)) loc (.map item) with
      | some changed => .ok (UpdateExpression.attributesOf changed)
      | none => .error .invalidPath := by
  obtain ⟨accepted, resolved⟩ := layerPlace_some place
  rw [UpdateExpression.run_eq, accepted]
  change (layerExpression chunks filling).apply (namesOf chunks) item = _
  simp only [layerExpression, UpdateExpression.apply, UpdateExpression.evalActions, SetValue.eval, Operand.eval,
    resolved, bind, Except.bind, pure, Except.pure, assignAll]
  cases assign ((lookup loc (.map item)).getD (.map filling)) loc (.map item) <;> rfl

theorem layer_run_present {loc : Location Text} {stored : Json} (place : layerPlace env chunks filling = some loc)
    (stands : lookup loc (.map item) = some stored) :
    (layerExpression chunks filling).run env.tooLarge (namesOf chunks) item = .ok item := by
  rw [layer_run place, stands, Option.getD_some, assign_same stands]
  rfl

theorem updateItem_eq (key : Text) (expression : UpdateExpression) (names : AttributeNames) (table : KvTable) :
    updateItem env key expression names table =
      match expression.run env.tooLarge names (itemAt table key) with
      | .ok item => .ok item (table.put key item)
      | .error error => .error (.validation error) table := by
  unfold updateItem itemAt
  rw [bind_of_ok (get_ok.mpr ⟨rfl, rfl⟩)]
  cases expression.run env.tooLarge names ((table.get key).getD []) <;> rfl

end Layer

section Layers

/-- The table a call has reached, which has added maps at some places of the item where nothing stood. -/
structure Reached (key : Text) (start : KvTable) (added : List (Location Text)) (table : KvTable) : Prop where
  completed : Completed (.map (itemAt start key)) added (.map (itemAt table key))
  missing : ∀ loc ∈ added, lookup loc (.map (itemAt start key)) = none
  untouched : added = [] → table.get key = start.get key

theorem Reached.refl (key : Text) (start : KvTable) : Reached key start [] start :=
  ⟨.refl _, fun _ member => (nomatch member), fun _ => rfl⟩

theorem Reached.get_eq_iff {key : Text} {start table : KvTable} {added : List (Location Text)}
    (reached : Reached key start added table) : table.get key = start.get key ↔ added = [] := by
  constructor
  · intro same
    cases added with
    | nil => rfl
    | cons loc others =>
        have sameItem : itemAt table key = itemAt start key := by rw [itemAt, itemAt, same]
        have absent := reached.missing loc List.mem_cons_self
        have alike := reached.completed loc
        rw [sameItem, absent] at alike
        have isSeen := alike.eq_none
        rw [seen, absent, if_pos List.mem_cons_self] at isSeen
        cases isSeen
  · exact reached.untouched

def SparesItem {α : Type} (key : Text) (start : KvTable) (result : EStateM.Result KvError KvTable α) : Prop :=
  ∀ e table', result = .error e table' → table'.get key = start.get key

theorem sparesItem_error {α : Type} {key : Text} {start table : KvTable} {e : KvError} :
    SparesItem (α := α) key start (.error e table) ↔ table.get key = start.get key := by
  constructor
  · exact fun spares => spares e table rfl
  · intro same e' table' ran
    cases ran
    exact same

theorem sparesItem_ok {α : Type} {key : Text} {start table : KvTable} {a : α} :
    SparesItem key start (.ok a table) := fun _ _ ran => nomatch ran

/-- When the layers below the root leave the item alone where the call stops. A layer that the database does not
    accept, or whose place has no map above it, stops the call; one whose place is free adds a map. -/
def layersSpare (env : KvEnv) (document : Json) (goesOn : List (Location Text) → Prop) :
    (added : List (Location Text)) → (layers : List (List Text)) → Prop
  | added, [] => added = [] ∨ goesOn added
  | added, chunks :: rest =>
      match layerPlace env chunks [] with
      | none => added = []
      | some loc =>
          if (seen document added loc).isSome then layersSpare env document goesOn added rest
          else if standsMap (seen document added loc.dropLast) then
            layersSpare env document goesOn (loc :: added) rest
          else added = []

variable {α : Type} {env : KvEnv} {key : Text} {start table : KvTable} {added : List (Location Text)}
  {chunks : List Text} {nested : List (Text × Json)} {loc : Location Text}

theorem createLayers_cons (notRoot : chunks ≠ [valueName]) (rest : List (List Text)) :
    createLayers env key nested (chunks :: rest) =
      (updateItem env key (layerExpression chunks []) (namesOf chunks) >>= fun _ =>
        createLayers env key nested rest) := by
  rw [createLayers]
  simp only [notRoot, decide_false, Bool.false_and]
  rfl

theorem Reached.keep (reached : Reached key start added table) {stored : Json} (nonempty : loc ≠ [])
    (stands : lookup loc (.map (itemAt table key)) = some stored) :
    Reached key start added (table.put key (itemAt table key)) := by
  refine ⟨by rw [itemAt_put]; exact reached.completed, reached.missing, fun nothing => ?_⟩
  rw [← reached.untouched nothing, SortedTable.get_put, if_pos rfl]
  cases found : table.get key with
  | some item => rw [itemAt, found, Option.getD_some]
  | none =>
      -- Nothing stands in an item that is not there.
      rw [itemAt, found, Option.getD_none] at stands
      cases loc with
      | nil => exact absurd rfl nonempty
      | cons step others => cases step <;> cases stands

theorem Reached.grow (reached : Reached key start added table) {above : List Text} {name : Text} {item : Attributes}
    (place : loc = above.map .key ++ [.key name]) (absent : lookup loc (.map (itemAt table key)) = none)
    (assigned : assign (.map []) loc (.map (itemAt table key)) = some (.map item)) :
    Reached key start (loc :: added) (table.put key item) := by
  have nothing := seen_eq_none (Alike.eq_none (absent ▸ reached.completed loc))
  refine ⟨?_, fun other member => ?_, fun empty => nomatch empty⟩
  · rw [itemAt_put]
    refine @Completed.add _ _ _ _ _ _ _ _ [loc] _ _ _ place reached.completed absent assigned ?_ ?_ ?_
    · intro below member
      have whole : below = [] := by simpa using member
      rw [whole]
      rfl
    · intro below outside
      cases below with
      | nil => exact absurd (by simp) outside
      | cons step others => cases step <;> rfl
    · intro other member
      rw [List.mem_singleton.mp member]
  · obtain rfl | later := List.mem_cons.mp member
    · exact nothing.1
    · exact reached.missing other later

theorem createLayers_spares {next : KvRun α} {goesOn : List (Location Text) → Prop}
    (after : ∀ added table, Reached key start added table →
      (SparesItem key start (next table) ↔ added = [] ∨ goesOn added))
    (reached : Reached key start added table) {layers : List (List Text)}
    (below : ∀ chunks ∈ layers, chunks ≠ [] ∧ chunks ≠ [valueName]) :
    SparesItem key start ((createLayers env key nested layers >>= fun _ => next) table) ↔
      layersSpare env (.map (itemAt start key)) goesOn added layers := by
  induction layers generalizing added table with
  | nil => exact after added table reached
  | cons chunks rest ih =>
      obtain ⟨nonempty, notRoot⟩ := below chunks List.mem_cons_self
      have others := fun {added table} (reached : Reached key start added table) =>
        ih reached fun c later => below c (List.mem_cons_of_mem _ later)
      rw [createLayers_cons notRoot, bind_assoc, layersSpare]
      have updated := @updateItem_eq env key (layerExpression chunks []) (namesOf chunks) table
      cases place : layerPlace env chunks [] with
      | none =>
          obtain ⟨e, refused⟩ := @layerPlace_none _ _ _ (itemAt table key) place
          rw [refused] at updated
          rw [bind_of_error updated, sparesItem_error]
          exact reached.get_eq_iff
      | some loc =>
          obtain ⟨above, name, isPlace⟩ := resolvePath_keys_concat nonempty (layerPlace_some place).2
          have isSeen := (reached.completed loc).isSome_eq
          dsimp only
          cases stands : lookup loc (.map (itemAt table key)) with
          | some stored =>
              rw [layer_run_present place stands] at updated
              rw [stands, Option.isSome_some] at isSeen
              rw [bind_of_ok updated, if_pos isSeen]
              exact others (reached.keep (by simp [isPlace]) stands)
          | none =>
              rw [stands, Option.isSome_none] at isSeen
              rw [if_neg (by simp [isSeen])]
              have atParent := (reached.completed loc.dropLast).standsMap_eq
              have goes := assign_key_isSome (.map []) (.map (itemAt table key)) (above.map .key) name
              have higher : loc.dropLast = above.map .key := by rw [isPlace, List.dropLast_concat]
              rw [layer_run place, stands, Option.getD_none] at updated
              rw [← isPlace, ← higher, ← atParent] at goes
              cases assigned : assign (.map []) loc (.map (itemAt table key)) with
              | none =>
                  rw [assigned] at updated goes
                  rw [bind_of_error updated, sparesItem_error, if_neg (by simp [← goes])]
                  exact reached.get_eq_iff
              | some changed =>
                  rw [assigned] at updated
                  rw [assigned, Option.isSome_some] at goes
                  rw [bind_of_ok updated, if_pos goes.symm]
                  apply others
                  apply reached.grow isPlace stands
                  rw [assigned, @map_attributesOf (itemAt table key) [(loc, .map [])] _
                    (by simp [assignAll, assigned]) (by simp [isPlace])]

end Layers

section Root

variable {α : Type} {env : KvEnv} {key : Text} {start table : KvTable} {paths : List Text}

theorem nodup_eraseDups {κ : Type} [BEq κ] [LawfulBEq κ] (items : List κ) : items.eraseDups.Nodup := by
  induction length : items.length using Nat.strong_induction_on generalizing items with
  | _ n ih =>
      cases items with
      | nil => simp
      | cons item rest =>
          rw [List.eraseDups_cons, List.nodup_cons, List.mem_eraseDups]
          constructor
          · simp
          · refine ih _ ?_ _ rfl
            have shorter := List.length_filter_le (fun other => !other == item) rest
            rw [← length, List.length_cons]
            omega

theorem chunksOf_head (valPath : Text) : ∃ rest, chunksOf valPath = valueName :: rest :=
  ⟨_, chunksOf_eq valPath⟩

theorem mem_intermediatePaths_iff {chunks : List Text} :
    chunks ∈ intermediatePaths paths ↔
      chunks ≠ [] ∧ ∃ valPath ∈ paths, ∃ after, after ≠ [] ∧ chunks ++ after = chunksOf valPath := by
  constructor
  · intro member
    obtain ⟨valPath, isPath, after, nonempty, notEmpty, whole⟩ := mem_intermediatePaths member
    exact ⟨notEmpty, valPath, isPath, after, nonempty, whole⟩
  · rintro ⟨notEmpty, valPath, isPath, after, nonempty, whole⟩
    simp only [intermediatePaths, List.mem_insertionSort, List.mem_eraseDups, List.mem_flatMap, List.mem_map,
      List.mem_range'_1]
    refine ⟨valPath, isPath, chunks.length, ⟨List.length_pos_iff.mpr notEmpty, ?_⟩, ?_⟩
    · have longer := List.length_pos_iff.mpr nonempty
      rw [← whole, List.length_append]
      omega
    · rw [← whole, List.take_left]

theorem intermediatePaths_cases (paths : List Text) :
    intermediatePaths paths = [] ∨
      ∃ rest, intermediatePaths paths = [valueName] :: rest ∧
        ∀ chunks ∈ rest, chunks ≠ [] ∧ chunks ≠ [valueName] := by
  have sorted : (intermediatePaths paths).Pairwise fun one other => one.length ≤ other.length := by
    unfold intermediatePaths
    have total : Std.Total fun one other : List Text => one.length ≤ other.length := ⟨fun _ _ => Nat.le_total _ _⟩
    have transitive : IsTrans (List Text) fun one other => one.length ≤ other.length :=
      ⟨fun _ _ _ => Nat.le_trans⟩
    exact List.pairwise_insertionSort _ _
  have once : (intermediatePaths paths).Nodup := by
    unfold intermediatePaths
    rw [(List.perm_insertionSort _ _).nodup_iff]
    apply nodup_eraseDups
  cases layers : intermediatePaths paths with
  | nil => exact .inl rfl
  | cons first rest =>
      right
      have isLayer : first ∈ intermediatePaths paths := by simp [layers]
      obtain ⟨notEmpty, valPath, isPath, after, nonempty, whole⟩ := mem_intermediatePaths_iff.mp isLayer
      obtain ⟨others, head⟩ := chunksOf_head valPath
      have root : [valueName] ∈ intermediatePaths paths := by
        apply mem_intermediatePaths_iff.mpr
        refine ⟨List.cons_ne_nil _ _, valPath, isPath, others, ?_, by rw [head]; rfl⟩
        rintro rfl
        have lengths := congrArg List.length whole
        rw [head, List.length_append, List.length_singleton] at lengths
        have := List.length_pos_iff.mpr nonempty
        have := List.length_pos_iff.mpr notEmpty
        omega
      rw [layers] at sorted once root
      rw [List.pairwise_cons] at sorted
      rw [List.nodup_cons] at once
      have isRoot : first = [valueName] := by
        obtain same | later := List.mem_cons.mp root
        · exact same.symm
        · have short := sorted.1 _ later
          cases first with
          | nil => exact absurd rfl notEmpty
          | cons chunk more =>
              have nothing : more = [] := by
                apply List.eq_nil_of_length_eq_zero
                simpa using short
              rw [nothing] at whole ⊢
              rw [head] at whole
              rw [(List.cons.inj whole).1]
      subst isRoot
      refine ⟨rest, rfl, fun chunks member => ⟨?_, ?_⟩⟩
      · exact (mem_intermediatePaths_iff.mp (by rw [layers]; exact List.mem_cons_of_mem _ member)).1
      · rintro rfl
        exact once.1 member

theorem nestPath_keeps {chunks place : List Text} {fields : List (Text × Json)}
    (stands : (lookup (keys place) (.map fields)).isSome) :
    (lookup (keys place) (.map (nestPath chunks fields))).isSome := by
  induction chunks generalizing fields place with
  | nil => exact stands
  | cons chunk rest ih =>
      cases rest with
      | nil => exact stands
      | cons next rest =>
          cases place with
          | nil => rfl
          | cons name others =>
              have cut : ∀ fields : List (Text × Json),
                  lookup (keys (name :: others)) (.map fields) = (field name fields).bind (lookup (keys others)) :=
                fun _ => rfl
              rw [cut] at stands ⊢
              rw [nestPath, field_setField]
              split
              next same =>
                subst same
                obtain ⟨below, found⟩ := Option.isSome_iff_exists.mp stands
                obtain ⟨stored, isField, found⟩ := Option.bind_eq_some_iff.mp found
                rw [Option.bind_some]
                cases stored with
                | map inside =>
                    simp only [isField]
                    apply ih
                    rw [found]
                    rfl
                | _ =>
                    cases others with
                    | nil => rfl
                    | cons other more => cases found
              next => exact stands

theorem nestPath_has {before after : List Text} (nonempty : after ≠ []) (fields : List (Text × Json)) :
    (lookup (keys before) (.map (nestPath (before ++ after) fields))).isSome := by
  induction before generalizing fields with
  | nil => rfl
  | cons chunk rest ih =>
      obtain ⟨next, others, whole⟩ : ∃ next others, rest ++ after = next :: others :=
        List.exists_cons_of_ne_nil (by simp [nonempty])
      rw [List.cons_append, whole, nestPath]
      change ((field chunk (setField chunk _ fields)).bind (lookup (keys rest))).isSome
      rw [field_setField, if_pos rfl, Option.bind_some, ← whole]
      exact ih _

theorem nestedMapValue_has {before after : List Text} {valPath : Text} (isPath : valPath ∈ paths) (nonempty : after ≠ [])
    (whole : valueName :: before ++ after = chunksOf valPath) :
    (lookup (keys before) (.map (nestedMapValue paths))).isSome := by
  have chunks : (valPath.splitOn '.').filter (· ≠ []) = before ++ after := by
    rw [chunksOf_eq] at whole
    exact (List.cons.inj whole).2.symm
  have keeps : ∀ (rest : List Text) (fields : List (Text × Json)),
      (lookup (keys before) (.map fields)).isSome →
      (lookup (keys before) (.map (rest.foldl (fun fields valPath =>
        nestPath ((valPath.splitOn '.').filter (· ≠ [])) fields) fields))).isSome := by
    intro rest
    induction rest with
    | nil => exact fun fields stands => stands
    | cons other rest ih => exact fun fields stands => ih _ (nestPath_keeps stands)
  have grows : ∀ (rest : List Text) (fields : List (Text × Json)), valPath ∈ rest →
      (lookup (keys before) (.map (rest.foldl (fun fields valPath =>
        nestPath ((valPath.splitOn '.').filter (· ≠ [])) fields) fields))).isSome := by
    intro rest
    induction rest with
    | nil => exact fun fields member => nomatch member
    | cons other rest ih =>
        intro fields member
        obtain rfl | later := List.mem_cons.mp member
        · apply keeps rest
          dsimp only
          rw [chunks]
          exact nestPath_has nonempty fields
        · exact ih _ later
  exact grows paths [] isPath

mutual
def MapTree : Json → Prop
  | .map fields => (fields.map Prod.fst).Nodup ∧ MapTreeFields fields
  | .list _ | .null | .bool _ | .number _ | .text _ => False

def MapTreeFields : List (Text × Json) → Prop
  | [] => True
  | entry :: rest => MapTree entry.2 ∧ MapTreeFields rest
end

theorem mapTreeFields_iff {fields : List (Text × Json)} : MapTreeFields fields ↔ ∀ entry ∈ fields, MapTree entry.2 := by
  induction fields with
  | nil => simp [MapTreeFields]
  | cons entry rest ih => rw [MapTreeFields, ih, List.forall_mem_cons]

theorem field_of_mem {fields : List (Text × Json)} (nodup : (fields.map Prod.fst).Nodup) {entry : Text × Json}
    (member : entry ∈ fields) : field entry.1 fields = some entry.2 := by
  induction fields with
  | nil => cases member
  | cons head rest ih =>
      rw [List.map_cons, List.nodup_cons] at nodup
      rw [field_cons head.1 entry.1 head.2 rest]
      obtain rfl | later := List.mem_cons.mp member
      · rw [if_pos rfl]
      · rw [if_neg, ih nodup.2 later]
        intro same
        exact nodup.1 (same ▸ List.mem_map_of_mem later)

theorem mem_of_field {name : Text} {value : Json} {fields : List (Text × Json)}
    (found : field name fields = some value) : (name, value) ∈ fields := by
  induction fields with
  | nil => cases found
  | cons head rest ih =>
      rw [field_cons head.1 name head.2 rest] at found
      split at found
      next same =>
        cases found
        rw [same]
        exact List.mem_cons_self
      next => exact List.mem_cons_of_mem _ (ih found)

theorem mem_setField {name : Text} {value : Json} {fields : List (Text × Json)} {entry : Text × Json}
    (member : entry ∈ setField name value fields) : entry = (name, value) ∨ entry ∈ fields := by
  induction fields with
  | nil => exact .inl (List.mem_singleton.mp member)
  | cons head rest ih =>
      unfold setField at member
      split at member
      · obtain same | later := List.mem_cons.mp member
        · exact .inl same
        · exact .inr (List.mem_cons_of_mem _ later)
      · obtain same | later := List.mem_cons.mp member
        · exact .inr (same ▸ List.mem_cons_self)
        · exact (ih later).imp_right (List.mem_cons_of_mem _)

theorem nodup_setField {name : Text} {value : Json} {fields : List (Text × Json)}
    (nodup : (fields.map Prod.fst).Nodup) : ((setField name value fields).map Prod.fst).Nodup := by
  induction fields with
  | nil => exact List.nodup_singleton _
  | cons head rest ih =>
      rw [List.map_cons, List.nodup_cons] at nodup
      unfold setField
      split
      next same =>
        rw [List.map_cons, List.nodup_cons]
        exact ⟨same ▸ nodup.1, nodup.2⟩
      next differs =>
        rw [List.map_cons, List.nodup_cons]
        refine ⟨fun member => ?_, ih nodup.2⟩
        obtain ⟨entry, isEntry, same⟩ := List.mem_map.mp member
        obtain rfl | later := mem_setField isEntry
        · exact differs same.symm
        · exact nodup.1 (same ▸ List.mem_map_of_mem later)

theorem mapTree_nestPath {chunks : List Text} {fields : List (Text × Json)} (tree : MapTree (.map fields)) :
    MapTree (.map (nestPath chunks fields)) := by
  induction chunks generalizing fields with
  | nil => exact tree
  | cons chunk rest ih =>
      cases rest with
      | nil => exact tree
      | cons next rest =>
          refine ⟨nodup_setField tree.1, mapTreeFields_iff.mpr fun entry member => ?_⟩
          obtain rfl | old := mem_setField member
          · apply ih
            split
            next inside holds =>
              exact mapTreeFields_iff.mp tree.2 _ (mem_of_field holds)
            next => exact ⟨List.nodup_nil, trivial⟩
          · exact mapTreeFields_iff.mp tree.2 entry old

theorem mapTree_nestedMapValue (paths : List Text) : MapTree (.map (nestedMapValue paths)) := by
  unfold nestedMapValue
  have grows : ∀ (rest : List Text) (fields : List (Text × Json)), MapTree (.map fields) →
      MapTree (.map (rest.foldl (fun fields valPath =>
        nestPath ((valPath.splitOn '.').filter (· ≠ [])) fields) fields)) := by
    intro rest
    induction rest with
    | nil => exact fun fields tree => tree
    | cons other rest ih => exact fun fields tree => ih _ (mapTree_nestPath tree)
  exact grows paths [] ⟨List.nodup_nil, trivial⟩

mutual
theorem objectsEqual_refl : ∀ document : Json, MapTree document → objectsEqual document document = true
  | .map fields, tree => by
      rw [objectsEqual, beq_self_eq_true, Bool.true_and]
      apply fieldsEqual_self fields fields tree.2
      intro entry member
      exact field_of_mem tree.1 member
  | .list _, tree | .null, tree | .bool _, tree | .number _, tree | .text _, tree => tree.elim

theorem fieldsEqual_self : ∀ fields others : List (Text × Json), MapTreeFields fields →
    (∀ entry ∈ fields, field entry.1 others = some entry.2) → fieldsEqual fields others = true
  | [], _, _, _ => rfl
  | entry :: rest, others, tree, found => by
      rw [fieldsEqual, found entry List.mem_cons_self]
      dsimp only
      rw [objectsEqual_refl entry.2 tree.1, Bool.true_and]
      exact fieldsEqual_self rest others tree.2 fun other later => found other (List.mem_cons_of_mem _ later)
end

theorem mem_intermediatePaths_head {chunks : List Text} (member : chunks ∈ intermediatePaths paths) :
    ∃ before, chunks = valueName :: before := by
  obtain ⟨notEmpty, valPath, -, after, -, whole⟩ := mem_intermediatePaths_iff.mp member
  obtain ⟨rest, head⟩ := chunksOf_head valPath
  cases chunks with
  | nil => exact absurd rfl notEmpty
  | cons chunk before =>
      rw [head] at whole
      exact ⟨before, by rw [(List.cons.inj whole).1]⟩

theorem nestedMapValue_layers (below : Location Text) (notEmpty : intermediatePaths paths ≠ []) :
    (.key valueName :: below ∈ (intermediatePaths paths).map keys →
      standsMap (lookup below (.map (nestedMapValue paths))) = true) ∧
    (.key valueName :: below ∉ (intermediatePaths paths).map keys →
      lookup below (.map (nestedMapValue paths)) = none) := by
  constructor
  · intro member
    obtain ⟨chunks, isLayer, same⟩ := List.mem_map.mp member
    obtain ⟨before, rfl⟩ := mem_intermediatePaths_head isLayer
    obtain ⟨-, valPath, isPath, after, nonempty, whole⟩ := mem_intermediatePaths_iff.mp isLayer
    obtain rfl : keys before = below := (List.cons.inj same).2
    obtain ⟨stands, found⟩ := Option.isSome_iff_exists.mp (nestedMapValue_has isPath nonempty whole)
    have isMap := (onlyMaps_nestedMapValue paths _ _ found).1
    rw [found]
    cases stands with
    | map fields => rfl
    | _ => cases isMap
  · intro outside
    by_contra something
    obtain ⟨stands, found⟩ := Option.ne_none_iff_exists'.mp something
    apply outside
    apply List.mem_map.mpr
    obtain ⟨-, rfl | ⟨chunks, rfl, after, nonempty, isPath⟩⟩ := onlyMaps_nestedMapValue paths _ _ found
    · obtain nothing | ⟨rest, layers, -⟩ := intermediatePaths_cases paths
      · exact absurd nothing notEmpty
      · exact ⟨[valueName], by simp [layers], rfl⟩
    · obtain ⟨valPath, member, same⟩ := List.mem_map.mp isPath
      refine ⟨valueName :: chunks, mem_intermediatePaths_iff.mpr ⟨by simp, valPath, member, ?_⟩, rfl⟩
      -- What follows the layer in the location of the path are keys too.
      obtain ⟨first, others, whole, layer, rest⟩ := List.map_eq_append_iff.mp same
      obtain rfl : first = valueName :: chunks := List.map_injective_iff.mpr (fun _ _ => Step.key.inj) layer
      exact ⟨others, by rintro rfl; exact nonempty rest.symm, whole.symm⟩

theorem layerPlace_root {filling : List (Text × Json)} {loc : Location Text}
    (place : layerPlace env [valueName] filling = some loc) : loc = [.key valueName] := by
  have resolved := (layerPlace_some place).2
  have known : resolvePath (namesOf [valueName]) ([valueName].map plainElement) = .ok [.key valueName] := by
    decide +kernel
  exact Except.ok.inj (resolved.symm.trans known)

theorem createLayers_root (nested : List (Text × Json)) (rest : List (List Text)) :
    createLayers env key nested ([valueName] :: rest) =
      (updateItem env key (layerExpression [valueName] nested) (namesOf [valueName]) >>= fun item =>
        if (field valueName item).any (objectsEqual · (.map nested)) then pure ()
        else createLayers env key nested rest) := by
  rw [createLayers]
  simp only [decide_true, Bool.true_and]
  rfl

theorem intermediatePaths_empty (empty : paths.all (· = []) = true) : intermediatePaths paths = [] := by
  apply List.eq_nil_iff_forall_not_mem.mpr
  intro chunks member
  obtain ⟨-, valPath, isPath, after, nonempty, whole⟩ := mem_intermediatePaths_iff.mp member
  obtain ⟨before, rfl⟩ := mem_intermediatePaths_head member
  have isEmpty : valPath = [] := by simpa using List.all_eq_true.mp empty valPath isPath
  rw [isEmpty] at whole
  have short := congrArg List.length whole
  have longer := List.length_pos_iff.mpr nonempty
  have chunk : (chunksOf []).length = 1 := by decide
  rw [chunk, List.length_append, List.length_cons] at short
  omega

theorem Reached.root (notEmpty : intermediatePaths paths ≠ [])
    (absent : lookup [.key valueName] (.map (itemAt start key)) = none) :
    Reached key start ((intermediatePaths paths).map keys)
      (start.put key (setField valueName (.map (nestedMapValue paths)) (itemAt start key))) := by
  have inside : ∀ other ∈ (intermediatePaths paths).map keys, [.key valueName] <+: other := by
    intro other member
    obtain ⟨chunks, isLayer, rfl⟩ := List.mem_map.mp member
    obtain ⟨before, rfl⟩ := mem_intermediatePaths_head isLayer
    exact ⟨keys before, rfl⟩
  refine ⟨?_, fun other member => ?_, fun empty => absurd (List.map_eq_nil_iff.mp empty) notEmpty⟩
  · rw [itemAt_put, ← List.append_nil ((intermediatePaths paths).map keys)]
    apply @Completed.add _ _ _ _ _ _ _ _ _ _ [] _ rfl (.refl _) absent rfl
    · exact fun below => (nestedMapValue_layers below notEmpty).1
    · exact fun below => (nestedMapValue_layers below notEmpty).2
    · exact inside
  · obtain ⟨below, rfl⟩ := inside other member
    exact lookup_append_of_none absent below

/-- When the layers of a call leave the item alone where the call stops. -/
def pathsSpare (env : KvEnv) (item : Attributes) (goesOn : List (Location Text) → Prop) (paths : List Text) :
    Prop :=
  match intermediatePaths paths with
  | [] => True
  | layers@(_ :: rest) =>
      match layerPlace env [valueName] (nestedMapValue paths) with
      | none => True
      | some _ =>
          match field valueName item with
          | none => goesOn (layers.map keys)
          | some stored =>
              objectsEqual stored (.map (nestedMapValue paths)) = true ∨ layersSpare env (.map item) goesOn [] rest

theorem createPaths_spares {next : KvRun α} {goesOn : List (Location Text) → Prop}
    (after : ∀ added table, Reached key start added table →
      (SparesItem key start (next table) ↔ added = [] ∨ goesOn added))
    (safe : assertPaths paths start = .ok () start) :
    SparesItem key start ((createPaths env key paths >>= fun _ => next) start) ↔
      pathsSpare env (itemAt start key) goesOn paths := by
  have begins := Reached.refl key start
  rw [createPaths, bind_assoc, bind_of_ok safe, pathsSpare]
  by_cases empty : paths.all (· = []) = true
  · rw [if_pos empty, pure_bind, intermediatePaths_empty empty]
    simpa using after [] start begins
  · rw [if_neg empty]
    obtain nothing | ⟨rest, layers, below⟩ := intermediatePaths_cases paths
    · rw [nothing, createLayers, pure_bind]
      simpa using after [] start begins
    · have notEmpty : intermediatePaths paths ≠ [] := by simp [layers]
      rw [layers, createLayers_root, bind_assoc]
      dsimp only
      have updated := @updateItem_eq env key (layerExpression [valueName] (nestedMapValue paths))
        (namesOf [valueName]) start
      cases place : layerPlace env [valueName] (nestedMapValue paths) with
      | none =>
          obtain ⟨e, refused⟩ := @layerPlace_none _ _ _ (itemAt start key) place
          rw [refused] at updated
          rw [bind_of_error updated, sparesItem_error]
          exact iff_of_true rfl trivial
      | some loc =>
          obtain rfl := layerPlace_root place
          have atRoot : lookup [.key valueName] (.map (itemAt start key)) = field valueName (itemAt start key) := by
            change (field valueName (itemAt start key)).bind _ = _
            cases field valueName (itemAt start key) <;> rfl
          dsimp only
          cases stands : field valueName (itemAt start key) with
          | some stored =>
              have present := atRoot.trans stands
              have kept := begins.keep (List.cons_ne_nil _ _) present
              rw [layer_run_present place present] at updated
              rw [bind_of_ok updated, stands, Option.any_some]
              by_cases equal : objectsEqual stored (.map (nestedMapValue paths)) = true
              · rw [if_pos equal, pure_bind, after [] _ kept]
                simp [equal]
              · rw [if_neg equal, createLayers_spares after kept below]
                simp [equal]
          | none =>
              have absent := atRoot.trans stands
              have reached := Reached.root notEmpty absent
              have written : updateItem env key (layerExpression [valueName] (nestedMapValue paths))
                  (namesOf [valueName]) start =
                    .ok (setField valueName (.map (nestedMapValue paths)) (itemAt start key))
                      (start.put key (setField valueName (.map (nestedMapValue paths)) (itemAt start key))) := by
                rw [updated, layer_run place, absent]
                rfl
              rw [bind_of_ok written, field_setField, if_pos rfl, Option.any_some,
                if_pos (objectsEqual_refl _ (mapTree_nestedMapValue paths)), pure_bind, after _ _ reached, ← layers]
              simp [notEmpty]

end Root

end Puter

/-
Module: Puter.Kv.DocumentPaths
Purpose: What the document operations of the KV store do to the stored document. A placeholder keeps the
  letters, digits and underscores of a segment only, and all paths of a call share one table, so a path
  is read as it is written only when no placeholder of the call stands for two names. Where that is so,
  incr, add, update and remove change exactly the locations that their paths name.
Trusted boundary: none
Main exports: namedLocation, documentCall_addresses
-/
import Puter.Kv.SystemKVStore

namespace Puter

open Document StateRun SystemKVStore

def itemAt (table : KvTable) (key : Text) : Attributes := (table.get key).getD []

def namedSteps (chunk : Text) : Location Text :=
  .key (cleanedChunk chunk) :: ((indexes (indexSuffix chunk)).getD []).map .index

def namedLocation (valPath : Text) : Location Text := (chunksOf valPath).flatMap namedSteps

def Unambiguous (names : AttributeNames) : Prop :=
  ∀ one ∈ names, ∀ other ∈ names, one.1 = other.1 → one.2 = other.2

def Plain (valPath : Text) : Prop := ∀ chunk ∈ chunksOf valPath, cleanedChunk chunk = chunk

section Resolution

variable {names : AttributeNames}

theorem Unambiguous.lookup (unambiguous : Unambiguous names) {placeholder name : Text}
    (member : (placeholder, name) ∈ names) : names.lookup placeholder = some name := by
  cases found : names.lookup placeholder with
  | none =>
      have differs := List.lookup_eq_none_iff.mp found _ member
      simp at differs
  | some other =>
      obtain ⟨before, after, same, -⟩ := List.lookup_eq_some_iff.mp found
      have isEntry : (placeholder, other) ∈ names := by
        rw [same]
        simp
      exact congrArg some (unambiguous _ isEntry _ member rfl)

theorem Unambiguous.subset {fewer : AttributeNames} (unambiguous : Unambiguous names)
    (subset : fewer ⊆ names) : Unambiguous fewer :=
  fun _ one _ other => unambiguous _ (subset one) _ (subset other)

theorem mem_namesOf {chunks : List Text} {chunk : Text} (member : chunk ∈ chunks) :
    (cleanAttrName (cleanedChunk chunk), cleanedChunk chunk) ∈ namesOf chunks := by
  rw [namesOf, List.mem_reverse]
  exact List.mem_map_of_mem member

theorem namesOf_subset {fewer chunks : List Text} (subset : fewer ⊆ chunks) :
    namesOf fewer ⊆ namesOf chunks := by
  intro entry member
  simp only [namesOf, List.mem_reverse, List.mem_map] at member ⊢
  obtain ⟨chunk, isChunk, same⟩ := member
  exact ⟨chunk, subset isChunk, same⟩

theorem namesOf_subset_expressionNames {chunks paths : List Text} {withTtl : Bool}
    (subset : chunks ⊆ paths.flatMap chunksOf) : namesOf chunks ⊆ expressionNames paths withTtl := by
  intro entry member
  exact List.mem_append_right _ (namesOf_subset subset member)

theorem resolvePath_eq {chunks : List Text} {element : Text → PathElement} {steps : Text → Location Text}
    (resolves : ∀ chunk ∈ chunks, resolveElement names (element chunk) = .ok (steps chunk)) :
    resolvePath names (chunks.map element) = .ok (chunks.flatMap steps) := by
  induction chunks with
  | nil => rfl
  | cons chunk rest ih =>
      rw [List.map_cons, resolvePath, resolves chunk List.mem_cons_self,
        ih fun other later => resolves other (List.mem_cons_of_mem _ later)]
      rfl

theorem resolvePath_plain {chunks : List Text} (unambiguous : Unambiguous names)
    (defined : namesOf chunks ⊆ names) (plain : ∀ chunk ∈ chunks, cleanedChunk chunk = chunk) :
    resolvePath names (chunks.map plainElement) = .ok (chunks.map .key) := by
  have resolves : ∀ chunk ∈ chunks, resolveElement names (plainElement chunk) = .ok [.key chunk] := by
    intro chunk member
    have entry := defined (mem_namesOf member)
    rw [plain chunk member] at entry
    simp [resolveElement, plainElement, unambiguous.lookup entry]
  rw [resolvePath_eq resolves, List.map_eq_flatMap]

theorem resolvePath_indexed {chunks : List Text} (unambiguous : Unambiguous names)
    (defined : namesOf chunks ⊆ names)
    (indexed : ∀ chunk ∈ chunks, (indexes (indexSuffix chunk)).isSome) :
    resolvePath names (chunks.map indexedElement) = .ok (chunks.flatMap namedSteps) := by
  refine resolvePath_eq fun chunk member => ?_
  obtain ⟨numbers, read⟩ := Option.isSome_iff_exists.mp (indexed chunk member)
  simp [resolveElement, indexedElement, namedSteps, read,
    unambiguous.lookup (defined (mem_namesOf member))]

theorem namedLocation_plain {valPath : Text} (plain : Plain valPath) :
    namedLocation valPath = (chunksOf valPath).map .key := by
  have steps : ∀ chunk ∈ chunksOf valPath, namedSteps chunk = [.key chunk] := by
    intro chunk member
    have isPlain := plain chunk member
    have noSuffix : indexSuffix chunk = [] := by simp [indexSuffix, isPlain]
    simp [namedSteps, isPlain, noSuffix]
  rw [namedLocation, List.flatMap_congr steps, List.map_eq_flatMap]

end Resolution

section SetClause

variable {names : AttributeNames} {tooLarge : UpdateExpression → Bool} {item item' : Attributes}

abbrev DocumentEdit := Location Text × (Option Json → Option Json)

/-- An action of a SET clause makes an edit: its target is the place of the edit, and its value is what
    the edit makes of what stands there. -/
def Renders (names : AttributeNames) (action : DocumentPath × SetValue) (edit : DocumentEdit) : Prop :=
  resolvePath names action.1 = .ok edit.1 ∧
    ∀ item value, action.2.eval names item = .ok value → edit.2 (lookup edit.1 item) = some value

theorem Renders.targets {actions : List (DocumentPath × SetValue)} {edits : List DocumentEdit}
    (renders : List.Forall₂ (Renders names) actions edits) {targets : List (Location Text)}
    (resolved : UpdateExpression.resolvePaths names (actions.map Prod.fst) = .ok targets) :
    targets = edits.map Prod.fst := by
  induction renders generalizing targets with
  | nil =>
      cases resolved
      rfl
  | cons first _ ih =>
      obtain ⟨loc, one, resolved⟩ := except_bind_ok.mp resolved
      obtain ⟨others, rest, same⟩ := except_bind_ok.mp resolved
      cases same
      cases first.1.symm.trans one
      rw [ih rest]
      rfl

theorem Renders.puts {actions : List (DocumentPath × SetValue)} {edits : List DocumentEdit}
    (renders : List.Forall₂ (Renders names) actions edits) {document : Json}
    {puts : List (Location Text × Json)}
    (evaluated : UpdateExpression.evalActions names document actions = .ok puts) :
    Puts document edits puts := by
  induction renders generalizing puts with
  | nil =>
      cases evaluated
      exact .nil
  | cons first _ ih =>
      obtain ⟨loc, resolved, evaluated⟩ := except_bind_ok.mp evaluated
      obtain ⟨value, evaluates, evaluated⟩ := except_bind_ok.mp evaluated
      obtain ⟨others, rest, same⟩ := except_bind_ok.mp evaluated
      cases same
      cases first.1.symm.trans resolved
      exact .cons ⟨rfl, first.2 document value evaluates⟩ (ih rest)

theorem apply_set_ok {actions : List (DocumentPath × SetValue)}
    (applied : (UpdateExpression.set actions).apply names item = .ok item') :
    ∃ puts changed, UpdateExpression.evalActions names (.map item) actions = .ok puts ∧
      assignAll puts (.map item) = some changed ∧ item' = UpdateExpression.attributesOf changed := by
  obtain ⟨puts, evaluated, applied⟩ := except_bind_ok.mp applied
  cases assigned : assignAll puts (.map item) with
  | none =>
      rw [assigned] at applied
      cases applied
  | some changed =>
      rw [assigned] at applied
      cases applied
      exact ⟨puts, changed, evaluated, assigned, rfl⟩

theorem map_attributesOf {puts : List (Location Text × Json)} {changed : Json}
    (assigned : assignAll puts (.map item) = some changed) (inside : ∀ put ∈ puts, put.1 ≠ []) :
    .map (UpdateExpression.attributesOf changed) = changed := by
  have outside : ∀ put ∈ puts, ¬ put.1 <+: [] := fun put member isPrefix =>
    inside put member (List.prefix_nil.mp isPrefix)
  have kept : Kept (some (.map item)) (some changed) := assignAll_kept assigned outside
  rcases kept with same | kind
  · rw [← same]
    rfl
  · have isMap := kind.isMap trivial
    cases changed <;> simp_all [IsMap, UpdateExpression.attributesOf]

theorem set_edits {actions : List (DocumentPath × SetValue)} {edits : List DocumentEdit} {old : Json}
    (renders : List.Forall₂ (Renders names) actions edits) (inside : ∀ edit ∈ edits, edit.1 ≠ [])
    (fills : Filled (edits.map Prod.fst) old (.map item))
    (ran : (UpdateExpression.set actions).run tooLarge names item = .ok item') :
    Edited old (.map item') edits := by
  obtain ⟨-, targets, resolved, clear, applied⟩ := UpdateExpression.run_ok ran
  obtain ⟨puts, changed, evaluated, assigned, rfl⟩ := apply_set_ok applied
  have evaluates := Renders.puts renders evaluated
  have apart := pairwise_of_anyClash clear
  rw [Renders.targets renders resolved] at apart
  have putsInside : ∀ put ∈ puts, put.1 ≠ [] := by
    intro put member
    have isLocation : put.1 ∈ edits.map Prod.fst := evaluates.locations ▸ List.mem_map_of_mem member
    obtain ⟨edit, isEdit, same⟩ := List.mem_map.mp isLocation
    exact same ▸ inside edit isEdit
  rw [map_attributesOf assigned putsInside]
  exact edited_of_filled fills apart evaluates assigned

end SetClause

section Layers

def keys (chunks : List Text) : Location Text := chunks.map .key

def OnlyMaps (allowed : List Text → Prop) (fields : List (Text × Json)) : Prop :=
  ∀ below stands, lookup below (.map fields) = some stands →
    stands.IsMap ∧ (below = [] ∨ ∃ chunks, below = keys chunks ∧ allowed chunks)

theorem onlyMaps_nil (allowed : List Text → Prop) : OnlyMaps allowed [] := by
  intro below stands found
  cases below with
  | nil =>
      obtain rfl := Option.some.inj found
      exact ⟨trivial, .inl rfl⟩
  | cons step rest =>
      cases step <;> cases found

theorem OnlyMaps.nestPath {allowed : List Text → Prop} {chunks : List Text} {fields : List (Text × Json)}
    (only : OnlyMaps allowed fields)
    (above : ∀ before after, before ≠ [] → after ≠ [] → chunks = before ++ after → allowed before) :
    OnlyMaps allowed (nestPath chunks fields) := by
  induction chunks generalizing fields allowed with
  | nil => exact only
  | cons chunk rest ih =>
      cases rest with
      | nil => exact only
      | cons next rest =>
          intro below stands found
          rcases below with _ | ⟨step, below⟩
          · obtain rfl := Option.some.inj found
            exact ⟨trivial, .inl rfl⟩
          rw [lookup_cons, SystemKVStore.nestPath] at found
          cases step with
          | index n => cases found
          | key name =>
              simp only [child, field_setField] at found
              by_cases same : name = chunk
              · subst same
                rw [if_pos rfl] at found
                -- The map that is there already is entered, or an empty one.
                have inner : ∀ inside : List (Text × Json),
                    (inside = [] ∨ field name fields = some (.map inside)) →
                    OnlyMaps (fun chunks => allowed (name :: chunks))
                      (SystemKVStore.nestPath (next :: rest) inside) := by
                  intro inside entered
                  refine ih ?_ ?_
                  · rcases entered with rfl | holds
                    · exact onlyMaps_nil _
                    · intro below' stands' found'
                      obtain ⟨isMap, place⟩ := only (.key name :: below') stands'
                        (by rw [lookup_cons, child, holds]; exact found')
                      refine ⟨isMap, .inr ?_⟩
                      rcases place with nothing | ⟨chunks, path, isAllowed⟩
                      · cases nothing
                      · cases chunks with
                        | nil => cases path
                        | cons first others =>
                            cases path
                            exact ⟨others, rfl, isAllowed⟩
                  · intro before after _ nonempty same
                    exact above (name :: before) after (by simp) nonempty (by rw [same]; rfl)
                obtain ⟨isMap, place⟩ :
                    IsMap stands ∧ (below = [] ∨ ∃ chunks, below = keys chunks ∧
                      allowed (name :: chunks)) := by
                  split at found
                  · next inside holds => exact inner inside (.inr holds) below stands found
                  · exact inner [] (.inl rfl) below stands found
                refine ⟨isMap, .inr ?_⟩
                rcases place with rfl | ⟨chunks, rfl, isAllowed⟩
                · exact ⟨[name], rfl, above [name] (next :: rest) (by simp) (by simp) rfl⟩
                · exact ⟨name :: chunks, rfl, isAllowed⟩
              · rw [if_neg same] at found
                exact only (.key name :: below) stands found

theorem mem_intermediatePaths {pathList : List Text} {chunks : List Text}
    (member : chunks ∈ intermediatePaths pathList) :
    ∃ valPath ∈ pathList, ∃ after, after ≠ [] ∧ chunks ≠ [] ∧ chunks ++ after = chunksOf valPath := by
  simp only [intermediatePaths, List.mem_insertionSort, List.mem_eraseDups, List.mem_flatMap,
    List.mem_map, List.mem_range'_1] at member
  obtain ⟨valPath, isPath, n, ⟨first, last⟩, rfl⟩ := member
  refine ⟨valPath, isPath, (chunksOf valPath).drop n, ?_, ?_, List.take_append_drop _ _⟩
  · rw [Ne, List.drop_eq_nil_iff]
    omega
  · rw [Ne, List.take_eq_nil_iff]
    rintro (zero | empty)
    · omega
    · rw [empty] at last
      simp at last
      omega

theorem chunksOf_eq (valPath : Text) :
    chunksOf valPath = valueName :: (valPath.splitOn '.').filter (· ≠ []) := by
  rw [chunksOf, List.filter_cons_of_pos (by decide)]

def plainLocations (pathList : List Text) : List (Location Text) :=
  pathList.map fun valPath => keys (chunksOf valPath)

theorem onlyMaps_nestedMapValue (pathList : List Text) :
    OnlyMaps (fun chunks => Above (plainLocations pathList) (keys (valueName :: chunks)))
      (nestedMapValue pathList) := by
  have grows : ∀ (paths : List Text), paths ⊆ pathList → ∀ fields,
      OnlyMaps (fun chunks => Above (plainLocations pathList) (keys (valueName :: chunks))) fields →
      OnlyMaps (fun chunks => Above (plainLocations pathList) (keys (valueName :: chunks)))
        (paths.foldl (fun fields valPath =>
          SystemKVStore.nestPath ((valPath.splitOn '.').filter (· ≠ [])) fields) fields) := by
    intro paths subset
    induction paths with
    | nil => exact fun fields only => only
    | cons valPath rest ih =>
        intro fields only
        refine ih (fun _ later => subset (List.mem_cons_of_mem _ later)) _
          (only.nestPath fun before after _ nonempty same => ?_)
        refine ⟨keys after, by simpa [keys] using nonempty, ?_⟩
        refine List.mem_map.mpr ⟨valPath, subset List.mem_cons_self, ?_⟩
        rw [chunksOf_eq, same]
        simp [keys]
  exact grows pathList (List.Subset.refl _) [] (onlyMaps_nil _)

theorem updateItem_ok {env : KvEnv} {key : Text} {expression : UpdateExpression}
    {names : AttributeNames} {table table' : KvTable} {item : Attributes} :
    updateItem env key expression names table = .ok item table' ↔
      expression.run env.tooLarge names (itemAt table key) = .ok item ∧ table' = table.put key item := by
  unfold updateItem itemAt
  rw [bind_ok]
  constructor
  · rintro ⟨_, _, got, ran⟩
    obtain ⟨rfl, rfl⟩ := get_ok.mp got
    cases run : expression.run env.tooLarge names ((table.get key).getD []) with
    | error error =>
        rw [run] at ran
        exact absurd ran throw_ok
    | ok changed =>
        rw [run] at ran
        obtain ⟨_, _, stored, ran⟩ := bind_ok.mp ran
        obtain rfl := set_ok.mp stored
        obtain ⟨rfl, rfl⟩ := pure_ok.mp ran
        exact ⟨rfl, rfl⟩
  · rintro ⟨run, rfl⟩
    refine ⟨table, table, rfl, ?_⟩
    rw [run]
    rfl

@[simp] theorem itemAt_put (table : KvTable) (key : Text) (item : Attributes) :
    itemAt (table.put key item) key = item := by
  simp [itemAt, SortedTable.get_put]

theorem layer_fills {tooLarge : UpdateExpression → Bool} {names : AttributeNames}
    {item item' : Attributes} {path : DocumentPath} {loc : Location Text} {locs : List (Location Text)}
    {filling : List (Text × Json)} (resolved : resolvePath names path = .ok loc) (above : Above locs loc)
    (inside : loc ≠ []) (only : OnlyMaps (fun chunks => Above locs (loc ++ keys chunks)) filling)
    (ran : (UpdateExpression.set [(path, .operand (.ifNotExists path (.map filling)))]).run tooLarge
      names item = .ok item') :
    Filled locs (.map item) (.map item') := by
  obtain ⟨-, -, -, -, applied⟩ := UpdateExpression.run_ok ran
  obtain ⟨puts, changed, evaluated, assigned, rfl⟩ := apply_set_ok applied
  have put : puts = [(loc, (lookup loc (.map item)).getD (.map filling))] := by
    simp [UpdateExpression.evalActions, SetValue.eval, Operand.eval, resolved, bind, Except.bind, pure,
      Except.pure] at evaluated
    exact evaluated.symm
  subst put
  rw [map_attributesOf assigned (by simpa using inside)]
  simp only [assignAll, Option.bind_fun_some] at assigned
  cases stands : lookup loc (.map item) with
  | some value =>
      rw [stands, Option.getD_some, assign_same stands] at assigned
      obtain rfl := Option.some.inj assigned
      exact .refl _ _
  | none =>
      rw [stands, Option.getD_none] at assigned
      refine filled_of_assign stands assigned (fun below _ stands' found => (only below stands' found).1) ?_
      intro below apart
      by_contra found
      obtain ⟨stands', found⟩ := Option.ne_none_iff_exists'.mp found
      rcases (only below stands' found).2 with rfl | ⟨chunks, rfl, isAbove⟩
      · exact apart (by simpa using above)
      · exact apart isAbove

theorem createLayers_fills {env : KvEnv} {key : Text} {pathList : List Text} {names : AttributeNames}
    (unambiguous : Unambiguous names) (defined : namesOf (pathList.flatMap chunksOf) ⊆ names)
    (plain : ∀ valPath ∈ pathList, Plain valPath) {layers : List (List Text)}
    (intermediate : layers ⊆ intermediatePaths pathList) {table table' : KvTable}
    (ran : createLayers env key (nestedMapValue pathList) layers table = .ok () table') :
    Filled (plainLocations pathList) (.map (itemAt table key)) (.map (itemAt table' key)) := by
  induction layers generalizing table with
  | nil =>
      obtain ⟨-, rfl⟩ := pure_ok.mp ran
      exact .refl _ _
  | cons chunks rest ih =>
      obtain ⟨valPath, isPath, after, nonempty, notEmpty, whole⟩ :=
        mem_intermediatePaths (intermediate List.mem_cons_self)
      have subset : chunks ⊆ pathList.flatMap chunksOf := by
        intro chunk member
        exact List.mem_flatMap.mpr ⟨valPath, isPath, whole ▸ List.mem_append_left _ member⟩
      have resolved : resolvePath (namesOf chunks) (chunks.map plainElement) = .ok (keys chunks) := by
        refine resolvePath_plain (unambiguous.subset (List.Subset.trans (namesOf_subset subset) defined))
          (List.Subset.refl _) fun chunk member => ?_
        exact plain valPath isPath chunk (whole ▸ List.mem_append_left _ member)
      have above : Above (plainLocations pathList) (keys chunks) := by
        refine ⟨keys after, by simpa [keys] using nonempty, ?_⟩
        refine List.mem_map.mpr ⟨valPath, isPath, ?_⟩
        rw [← whole]
        simp [keys]
      obtain ⟨item, between, updated, ran⟩ := bind_ok.mp ran
      obtain ⟨run, rfl⟩ := updateItem_ok.mp updated
      have fills : Filled (plainLocations pathList) (.map (itemAt table key)) (.map item) := by
        by_cases isRoot : chunks = [valueName]
        · subst isRoot
          rw [if_pos (by simp)] at run
          exact layer_fills resolved above (by simp [keys]) (onlyMaps_nestedMapValue pathList) run
        · rw [if_neg (by simpa using isRoot)] at run
          exact layer_fills resolved above (by simpa [keys] using notEmpty) (onlyMaps_nil _) run
      split at ran
      · obtain ⟨-, rfl⟩ := pure_ok.mp ran
        rwa [itemAt_put]
      · have others := ih (fun _ later => intermediate (List.mem_cons_of_mem _ later)) ran
        rw [itemAt_put] at others
        exact fills.trans others

end Layers

section Checks

variable {env : KvEnv} {key : Text} {crossApp : Bool}

theorem assertKey_reads (key : Text) : ReadsOnly (assertKey key) :=
  .bind (.refuseIf _ _) fun _ => .refuseIf _ _

theorem assertPath_reads (valPath : Text) : ReadsOnly (assertPath valPath) :=
  .forEach fun _ _ => .refuseIf _ _

theorem assertPaths_reads (paths : List Text) : ReadsOnly (assertPaths paths) :=
  .forEach fun valPath _ => assertPath_reads valPath

theorem assertValue_reads (env : KvEnv) (value : Json) : ReadsOnly (assertValue env value) := by
  refine .bind (.refuseIf _ _) fun _ => ?_
  split
  · exact .throw _
  · exact .pure _

theorem assertNotPrivate_reads (crossApp : Bool) (key : Text) :
    ReadsOnly (assertNotPrivate crossApp key) :=
  .bind .get fun _ => .refuseIf _ _

theorem createPaths_fills {pathList : List Text} {names : AttributeNames}
    (unambiguous : Unambiguous names) (defined : namesOf (pathList.flatMap chunksOf) ⊆ names)
    (plain : ∀ valPath ∈ pathList, Plain valPath) {table table' : KvTable}
    (ran : createPaths env key pathList table = .ok () table') :
    Filled (plainLocations pathList) (.map (itemAt table key)) (.map (itemAt table' key)) := by
  obtain ⟨_, between, checked, ran⟩ := bind_ok.mp ran
  obtain rfl := (assertPaths_reads pathList).ok checked
  split at ran
  · obtain ⟨-, rfl⟩ := pure_ok.mp ran
    exact .refl _ _
  · exact createLayers_fills unambiguous defined plain (List.Subset.refl _) ran

end Checks

/-- A call of one of the document operations, on the document of one key. -/
inductive DocumentCall where
  | incr (pathAndAmountMap : List (Text × ℚ)) (expireAt : Option ℚ)
  | add (pathAndValueMap : List (Text × Json))
  | update (pathAndValueMap : List (Text × Json)) (ttl : Option ℚ)
  | remove (paths : List Text)

def incremented (amount : ℚ) (old : Option Json) : Option Json :=
  match old.getD (.number 0) with
  | .number n => some (.number (n + amount))
  | _ => none

/-- A list that an `add` makes of what stands at its place. -/
def extended (value : Json) (old : Option Json) : Option Json :=
  match old.getD (.list []) with
  | .list items => some (.list (items ++ appended value))
  | _ => none

namespace DocumentCall

def run (env : KvEnv) (crossApp : Bool) (key : Text) : DocumentCall → KvRun (Option Json)
  | .incr pathAndAmountMap expireAt => SystemKVStore.incr env crossApp key pathAndAmountMap expireAt
  | .add pathAndValueMap => SystemKVStore.add env crossApp key pathAndValueMap
  | .update pathAndValueMap ttl => SystemKVStore.update env crossApp key pathAndValueMap ttl
  | .remove paths => SystemKVStore.remove env crossApp key paths

def paths : DocumentCall → List Text
  | .incr pathAndAmountMap _ => pathAndAmountMap.map Prod.fst
  | .add pathAndValueMap | .update pathAndValueMap _ => pathAndValueMap.map Prod.fst
  | .remove paths => paths

def withTtl : DocumentCall → Bool
  | .incr _ expireAt => expireAt.isSome
  | .update _ ttl => ttl.isSome
  | .add _ | .remove _ => false

def edits (env : KvEnv) : DocumentCall → List DocumentEdit
  | .incr pathAndAmountMap expireAt =>
      (pathAndAmountMap.map fun entry => (namedLocation entry.1, incremented entry.2)) ++
        expireAt.toList.map fun ttl =>
          ([.key ttlName], fun old : Option Json => some (old.getD (.number ttl)))
  | .add pathAndValueMap =>
      pathAndValueMap.map fun entry => (namedLocation entry.1, extended entry.2)
  | .update pathAndValueMap ttl =>
      (pathAndValueMap.map fun entry => (namedLocation entry.1, fun _ : Option Json => some entry.2)) ++
        ttl.toList.map fun seconds =>
          ([.key ttlName], fun _ : Option Json => some (.number (⌊env.now⌋ + seconds)))
  | .remove paths => paths.map fun valPath => (namedLocation valPath, fun _ : Option Json => none)

/-- The item afterwards is the item before with exactly the named locations incremented, set, appended to
    or removed. Of a list the elements after a removed one move up. -/
def Changed (env : KvEnv) (call : DocumentCall) (before after : Attributes) : Prop :=
  match call with
  | .remove paths =>
      (.map after : Json) = prune (fun loc => (paths.map namedLocation).contains loc) (.map before)
  | call => Edited (.map before) (.map after) (call.edits env)

/-- Dotted paths with optional indexes that do not overlap. -/
structure InDomain (call : DocumentCall) : Prop where
  apart : (call.paths.map namedLocation).Pairwise fun one other => ¬ Overlap one other
  indexed : ∀ valPath ∈ call.paths, ∀ chunk ∈ chunksOf valPath, (indexes (indexSuffix chunk)).isSome

/-- The call addresses what it names. No placeholder of the call stands for two names. Beyond that a path
    of incr, add and update carries no index; and a remove finds the container of every location it names,
    in an expression within the size limit, or finds nothing at any of them. -/
def Addressed (env : KvEnv) (call : DocumentCall) (before : Attributes) : Prop :=
  Unambiguous (expressionNames call.paths call.withTtl) ∧
    match call with
    | .remove paths =>
        (∀ valPath ∈ paths, removable (.map before) (namedLocation valPath)) ∧
            env.tooLarge (.remove (paths.map indexedPath)) = false ∨
          ∀ valPath ∈ paths, lookup (namedLocation valPath) (.map before) = none
    | call => ∀ valPath ∈ call.paths, Plain valPath

end DocumentCall

section SetCalls

variable {names : AttributeNames} {env : KvEnv} {key : Text} {crossApp : Bool} {table table' : KvTable}

theorem plainPath_resolves {paths : List Text} {withTtl : Bool}
    (unambiguous : Unambiguous (expressionNames paths withTtl)) (plain : ∀ valPath ∈ paths, Plain valPath)
    {valPath : Text} (member : valPath ∈ paths) :
    resolvePath (expressionNames paths withTtl) (plainPath valPath) = .ok (namedLocation valPath) := by
  rw [namedLocation_plain (plain valPath member)]
  refine resolvePath_plain unambiguous ?_ (plain valPath member)
  exact namesOf_subset_expressionNames fun chunk isChunk => List.mem_flatMap.mpr ⟨valPath, member, isChunk⟩

theorem ttl_resolves {paths : List Text} (unambiguous : Unambiguous (expressionNames paths true)) :
    resolvePath (expressionNames paths true) [plainElement ttlName] = .ok [.key ttlName] := by
  have entry : (cleanAttrName ttlName, ttlName) ∈ expressionNames paths true := by
    simp [expressionNames]
  rw [resolvePath, resolvePath, resolveElement, plainElement, unambiguous.lookup entry]
  rfl

theorem incr_renders {valPath : Text} {amount : ℚ}
    (resolved : resolvePath names (plainPath valPath) = .ok (namedLocation valPath)) :
    Renders names (incrSetStatement valPath amount) (namedLocation valPath, incremented amount) := by
  refine ⟨resolved, fun item value evaluated => ?_⟩
  simp only [incrSetStatement, SetValue.eval, Operand.eval, resolved] at evaluated
  simp only [incremented]
  cases stands : (lookup (namedLocation valPath) item).getD (.number 0) <;>
    simp_all [bind, Except.bind, pure, Except.pure, throw, throwThe, MonadExceptOf.throw]

theorem add_renders {valPath : Text} {value : Json}
    (resolved : resolvePath names (plainPath valPath) = .ok (namedLocation valPath)) :
    Renders names (addSetStatement valPath value) (namedLocation valPath, extended value) := by
  refine ⟨resolved, fun item made evaluated => ?_⟩
  simp only [addSetStatement, SetValue.eval, Operand.eval, resolved] at evaluated
  simp only [extended]
  cases stands : (lookup (namedLocation valPath) item).getD (.list []) <;>
    simp_all [bind, Except.bind, pure, Except.pure, throw, throwThe, MonadExceptOf.throw]

theorem update_renders {valPath : Text} {value : Json}
    (resolved : resolvePath names (plainPath valPath) = .ok (namedLocation valPath)) :
    Renders names (updateSetStatement valPath value) (namedLocation valPath, fun _ => some value) := by
  refine ⟨resolved, fun item made evaluated => ?_⟩
  cases evaluated
  rfl

theorem plainLocations_eq {paths : List Text} (plain : ∀ valPath ∈ paths, Plain valPath) :
    plainLocations paths = paths.map namedLocation := by
  refine List.map_congr_left fun valPath member => ?_
  rw [namedLocation_plain (plain valPath member)]
  rfl

theorem namedLocation_ne_nil (valPath : Text) : namedLocation valPath ≠ [] := by
  simp [namedLocation, chunksOf_eq, namedSteps]

theorem ttlName_ne_nil : ([.key ttlName] : Location Text) ≠ [] := by simp

theorem renders_map {ε : Type} {entries : List ε} {statement : ε → DocumentPath × SetValue}
    {edit : ε → DocumentEdit} (renders : ∀ entry ∈ entries, Renders names (statement entry) (edit entry)) :
    List.Forall₂ (Renders names) (entries.map statement) (entries.map edit) := by
  rw [List.forall₂_map_left_iff, List.forall₂_map_right_iff, List.forall₂_same]
  exact renders

theorem updateItem_edits {paths : List Text} {actions : List (DocumentPath × SetValue)}
    {edits : List DocumentEdit} {old : Json} {item : Attributes}
    (renders : List.Forall₂ (Renders names) actions edits) (inside : ∀ edit ∈ edits, edit.1 ≠ [])
    (named : paths.map namedLocation ⊆ edits.map Prod.fst) (plain : ∀ valPath ∈ paths, Plain valPath)
    (fills : Filled (plainLocations paths) old (.map (itemAt table key)))
    (updated : updateItem env key (.set actions) names table = .ok item table') :
    Edited old (.map (itemAt table' key)) edits := by
  obtain ⟨run, rfl⟩ := updateItem_ok.mp updated
  rw [itemAt_put]
  rw [plainLocations_eq plain] at fills
  exact set_edits renders inside (fills.mono named) run

theorem named_subset_edits (env : KvEnv) (call : DocumentCall) :
    call.paths.map namedLocation ⊆ (call.edits env).map Prod.fst := by
  cases call <;> simp [DocumentCall.paths, DocumentCall.edits, Function.comp_def]

theorem add_changes {pathAndValueMap : List (Text × Json)} {res : Option Json}
    (unambiguous : Unambiguous (expressionNames (pathAndValueMap.map Prod.fst) false))
    (plain : ∀ valPath ∈ pathAndValueMap.map Prod.fst, Plain valPath)
    (ran : add env crossApp key pathAndValueMap table = .ok res table') :
    Edited (.map (itemAt table key)) (.map (itemAt table' key))
      (DocumentCall.edits env (.add pathAndValueMap)) := by
  obtain ⟨_, -, ran⟩ := (assertKey_reads key).skip ran
  obtain ⟨_, -, ran⟩ := ReadsOnly.skip (.refuseIf _ _) ran
  obtain ⟨_, -, ran⟩ := ReadsOnly.skip (.forEach fun _ _ => assertValue_reads env _) ran
  obtain ⟨_, -, ran⟩ := (assertPaths_reads _).skip ran
  obtain ⟨_, -, ran⟩ := (assertNotPrivate_reads crossApp key).skip ran
  obtain ⟨_, between, created, ran⟩ := bind_ok.mp ran
  obtain ⟨item, _, updated, ran⟩ := bind_ok.mp ran
  obtain ⟨-, rfl⟩ := pure_ok.mp ran
  have fills := createPaths_fills unambiguous
    (namesOf_subset_expressionNames (List.Subset.refl _)) plain created
  refine updateItem_edits (renders_map fun entry member => add_renders ?_) ?_ ?_ plain fills updated
  · exact plainPath_resolves unambiguous plain (List.mem_map_of_mem member)
  · intro edit member
    obtain ⟨entry, -, rfl⟩ := List.mem_map.mp member
    exact namedLocation_ne_nil _
  · exact named_subset_edits env (.add pathAndValueMap)

theorem update_changes {pathAndValueMap : List (Text × Json)} {ttl : Option ℚ} {res : Option Json}
    (unambiguous : Unambiguous (expressionNames (pathAndValueMap.map Prod.fst) ttl.isSome))
    (plain : ∀ valPath ∈ pathAndValueMap.map Prod.fst, Plain valPath)
    (ran : update env crossApp key pathAndValueMap ttl table = .ok res table') :
    Edited (.map (itemAt table key)) (.map (itemAt table' key))
      (DocumentCall.edits env (.update pathAndValueMap ttl)) := by
  obtain ⟨_, -, ran⟩ := (assertKey_reads key).skip ran
  obtain ⟨_, -, ran⟩ := ReadsOnly.skip (.refuseIf _ _) ran
  obtain ⟨_, -, ran⟩ := ReadsOnly.skip (.forEach fun _ _ => assertValue_reads env _) ran
  obtain ⟨_, -, ran⟩ := (assertPaths_reads _).skip ran
  obtain ⟨_, -, ran⟩ := (assertNotPrivate_reads crossApp key).skip ran
  obtain ⟨_, between, created, ran⟩ := bind_ok.mp ran
  obtain ⟨item, _, updated, ran⟩ := bind_ok.mp ran
  obtain ⟨-, rfl⟩ := pure_ok.mp ran
  have fills := createPaths_fills unambiguous
    (namesOf_subset_expressionNames (List.Subset.refl _)) plain created
  refine updateItem_edits (List.rel_append (renders_map fun entry member => update_renders ?_)
    (renders_map fun seconds member => ?_)) ?_ ?_ plain fills updated
  · exact plainPath_resolves unambiguous plain (List.mem_map_of_mem member)
  · obtain rfl := Option.mem_toList.mp member
    refine ⟨ttl_resolves unambiguous, fun item value evaluated => ?_⟩
    cases evaluated
    rfl
  · intro edit member
    rcases List.mem_append.mp member with isValue | isTtl
    · obtain ⟨entry, -, rfl⟩ := List.mem_map.mp isValue
      exact namedLocation_ne_nil _
    · obtain ⟨seconds, -, rfl⟩ := List.mem_map.mp isTtl
      exact ttlName_ne_nil
  · exact named_subset_edits env (.update pathAndValueMap ttl)

theorem incr_update_changes {pathAndAmountMap : List (Text × ℚ)} {expireAt : Option ℚ} {old : Json}
    {item : Attributes}
    (unambiguous : Unambiguous (expressionNames (pathAndAmountMap.map Prod.fst) expireAt.isSome))
    (plain : ∀ valPath ∈ pathAndAmountMap.map Prod.fst, Plain valPath)
    (fills : Filled (plainLocations (pathAndAmountMap.map Prod.fst)) old (.map (itemAt table key)))
    (updated : updateItem env key
      (.set ((pathAndAmountMap.map fun entry => incrSetStatement entry.1 entry.2) ++
        expireAt.toList.map fun ttl =>
          ([plainElement ttlName], .operand (.ifNotExists [plainElement ttlName] (.number ttl)))))
      (expressionNames (pathAndAmountMap.map Prod.fst) expireAt.isSome) table = .ok item table') :
    Edited old (.map (itemAt table' key)) (DocumentCall.edits env (.incr pathAndAmountMap expireAt)) := by
  refine updateItem_edits (List.rel_append (renders_map fun entry member => incr_renders ?_)
    (renders_map fun ttl member => ?_)) ?_ ?_ plain fills updated
  · exact plainPath_resolves unambiguous plain (List.mem_map_of_mem member)
  · obtain rfl := Option.mem_toList.mp member
    refine ⟨ttl_resolves unambiguous, fun item value evaluated => ?_⟩
    simp only [SetValue.eval, Operand.eval, ttl_resolves unambiguous, bind, Except.bind, pure,
      Except.pure, Except.ok.injEq, Option.isSome_some] at evaluated
    rw [← evaluated]
  · intro edit member
    rcases List.mem_append.mp member with isAmount | isTtl
    · obtain ⟨entry, -, rfl⟩ := List.mem_map.mp isAmount
      exact namedLocation_ne_nil _
    · obtain ⟨ttl, -, rfl⟩ := List.mem_map.mp isTtl
      exact ttlName_ne_nil
  · exact named_subset_edits env (.incr pathAndAmountMap expireAt)

theorem updateItem_error {expression : UpdateExpression} {error : KvError} {names : AttributeNames}
    (ran : updateItem env key expression names table = .error error table') :
    table' = table ∧ ∃ refusal, error = .validation refusal ∧
      expression.run env.tooLarge names (itemAt table key) = .error refusal := by
  obtain failed | ⟨_, _, got, ran⟩ := bind_error.mp ran
  · exact absurd failed get_error
  · obtain ⟨rfl, rfl⟩ := get_ok.mp got
    cases run : expression.run env.tooLarge names ((table.get key).getD []) with
    | ok item =>
        rw [run] at ran
        obtain failed | ⟨_, _, -, failed⟩ := bind_error.mp ran
        · exact absurd failed set_error
        · exact absurd failed pure_error
    | error refusal =>
        rw [run] at ran
        obtain ⟨rfl, rfl⟩ := throw_error.mp ran
        exact ⟨rfl, refusal, rfl, run⟩

theorem incr_changes {pathAndAmountMap : List (Text × ℚ)} {expireAt : Option ℚ} {res : Option Json}
    (unambiguous : Unambiguous (expressionNames (pathAndAmountMap.map Prod.fst) expireAt.isSome))
    (plain : ∀ valPath ∈ pathAndAmountMap.map Prod.fst, Plain valPath)
    (ran : incr env crossApp key pathAndAmountMap expireAt table = .ok res table') :
    Edited (.map (itemAt table key)) (.map (itemAt table' key))
      (DocumentCall.edits env (.incr pathAndAmountMap expireAt)) := by
  obtain ⟨_, -, ran⟩ := (assertKey_reads key).skip ran
  obtain ⟨_, -, ran⟩ := ReadsOnly.skip (.refuseIf _ _) ran
  obtain ⟨_, -, ran⟩ := (assertPaths_reads _).skip ran
  obtain ⟨_, -, ran⟩ := (assertNotPrivate_reads crossApp key).skip ran
  obtain ⟨item, _, updated, ran⟩ := bind_ok.mp ran
  obtain ⟨-, rfl⟩ := pure_ok.mp ran
  obtain updated | ⟨error, stopped, failed, handled⟩ := tryCatch_ok.mp updated
  · exact incr_update_changes unambiguous plain (.refl _ _) updated
  · obtain ⟨rfl, -⟩ := updateItem_error failed
    rcases error with _ | refusal
    · exact absurd handled throw_ok
    · cases refusal with
      | oversized => exact absurd handled throw_ok
      | invalidName | invalidExpression | unusedName | invalidPath | operandType =>
          obtain ⟨_, between, created, updated⟩ := bind_ok.mp handled
          have fills := createPaths_fills unambiguous
            (namesOf_subset_expressionNames (List.Subset.refl _)) plain created
          exact incr_update_changes unambiguous plain fills updated

end SetCalls

section RemoveClause

theorem removable_head {item : Json} {step : Step Text} {rest : Location Text}
    (able : removable item (step :: rest) = true) :
    match step with
    | .key _ => item.IsMap
    | .index _ => item.IsList := by
  cases rest with
  | nil => cases step <;> cases item <;> trivial
  | cons next rest =>
      have stands : item.child step ≠ none := by
        intro absent
        simp [removable, lookup_cons, absent] at able
      cases step <;> cases item <;> simp_all [child, IsMap, IsList]

theorem removable_tail {item : Json} {step next : Step Text} {rest : Location Text}
    (able : removable item (step :: next :: rest) = true) :
    ∃ below, item.child step = some below ∧ removable below (next :: rest) = true := by
  cases found : item.child step with
  | none => simp [removable, lookup_cons, found] at able
  | some below =>
      refine ⟨below, rfl, ?_⟩
      simpa [removable, lookup_cons, found] using able

theorem overlap_of_clashes {item : Json} {one other : Location Text} (clash : clashes one other = true)
    (oneAble : removable item one = true) (otherAble : removable item other = true) :
    Overlap one other := by
  induction one generalizing item other with
  | nil => exact .inl List.nil_prefix
  | cons step rest ih =>
      cases other with
      | nil => exact .inr List.nil_prefix
      | cons step' rest' =>
          by_cases same : step = step'
          · subst same
            rw [Overlap.cons]
            cases rest with
            | nil => exact .inl List.nil_prefix
            | cons next rest =>
                cases rest' with
                | nil => exact .inr List.nil_prefix
                | cons next' rest' =>
                    obtain ⟨below, found, oneBelow⟩ := removable_tail oneAble
                    obtain ⟨below', found', otherBelow⟩ := removable_tail otherAble
                    obtain rfl := Option.some.inj (found.symm.trans found')
                    exact ih (by simpa [clashes] using clash) oneBelow otherBelow
          · -- One goes on by a key and the other by an index, so the item is a map and a list.
            have oneKind := removable_head oneAble
            have otherKind := removable_head otherAble
            cases step <;> cases step' <;> cases item <;> simp_all [clashes, IsMap, IsList]

theorem anyClash_of_removable {item : Json} {locs : List (Location Text)}
    (apart : locs.Pairwise fun one other => ¬ Overlap one other)
    (able : ∀ loc ∈ locs, removable item loc = true) : anyClash locs = false := by
  induction locs with
  | nil => rfl
  | cons loc rest ih =>
      rw [List.pairwise_cons] at apart
      simp only [anyClash, Bool.or_eq_false_iff, List.any_eq_false]
      refine ⟨fun other member clash => apart.1 other member ?_,
        ih apart.2 fun other member => able other (List.mem_cons_of_mem _ member)⟩
      exact overlap_of_clashes clash (able loc List.mem_cons_self)
        (able other (List.mem_cons_of_mem _ member))

variable {names : AttributeNames} {tooLarge : UpdateExpression → Bool} {item item' : Attributes}

theorem resolvePaths_eq {paths : List DocumentPath} {locs : List (Location Text)}
    (resolves : List.Forall₂ (fun path loc => resolvePath names path = .ok loc) paths locs) :
    UpdateExpression.resolvePaths names paths = .ok locs := by
  induction resolves with
  | nil => rfl
  | cons first _ ih =>
      rw [UpdateExpression.resolvePaths, first, ih]
      rfl

theorem apply_remove_ok {paths : List DocumentPath} {locs : List (Location Text)}
    (resolved : UpdateExpression.resolvePaths names paths = .ok locs)
    (applied : (UpdateExpression.remove paths).apply names item = .ok item') :
    (.map item' : Json) = prune (fun loc => locs.contains loc) (.map item) := by
  simp only [UpdateExpression.apply, resolved, bind, Except.bind] at applied
  split at applied
  · cases applied
    simp [prune, UpdateExpression.attributesOf]
  · cases applied

theorem run_remove_error {paths : List DocumentPath} {locs : List (Location Text)} {refusal : UpdateError}
    (resolved : UpdateExpression.resolvePaths names paths = .ok locs)
    (apart : locs.Pairwise fun one other => ¬ Overlap one other)
    (able : ∀ loc ∈ locs, removable (.map item) loc = true)
    (small : tooLarge (.remove paths) = false)
    (ran : (UpdateExpression.remove paths).run tooLarge names item = .error refusal) :
    isPathError refusal = false := by
  have applies : ∃ item', (UpdateExpression.remove paths).apply names item = .ok item' := by
    simp only [UpdateExpression.apply, resolved, bind, Except.bind]
    rw [if_pos (List.all_eq_true.mpr able)]
    exact ⟨_, rfl⟩
  obtain ⟨item', applied⟩ := applies
  unfold UpdateExpression.run at ran
  rcases except_bind_error.mp ran with failed | ⟨_, -, ran⟩
  · obtain ⟨-, rfl⟩ := refuse_error.mp failed
    rfl
  rcases except_bind_error.mp ran with failed | ⟨_, -, ran⟩
  · simp [refuse_error, small] at failed
  rcases except_bind_error.mp ran with failed | ⟨_, -, ran⟩
  · exact absurd (resolved.symm.trans failed) (by simp)
  rcases except_bind_error.mp ran with failed | ⟨targets, again, ran⟩
  · exact absurd (resolved.symm.trans failed) (by simp)
  obtain rfl := Except.ok.inj (resolved.symm.trans again)
  rcases except_bind_error.mp ran with failed | ⟨_, -, ran⟩
  · simp [refuse_error, anyClash_of_removable apart able] at failed
  rcases except_bind_error.mp ran with failed | ⟨_, -, ran⟩
  · obtain ⟨-, rfl⟩ := refuse_error.mp failed
    rfl
  · exact absurd (applied.symm.trans ran) (by simp)

theorem remove_changes {env : KvEnv} {key : Text} {crossApp : Bool} {table table' : KvTable}
    {paths : List Text} {res : Option Json} (domain : (DocumentCall.remove paths).InDomain)
    (distinct : (Document.map (itemAt table key)).Distinct)
    (addressed : (DocumentCall.remove paths).Addressed env (itemAt table key))
    (ran : remove env crossApp key paths table = .ok res table') :
    (DocumentCall.remove paths).Changed env (itemAt table key) (itemAt table' key) := by
  obtain ⟨unambiguous, found⟩ := addressed
  have resolved : UpdateExpression.resolvePaths (expressionNames paths false) (paths.map indexedPath) =
      .ok (paths.map namedLocation) := by
    refine resolvePaths_eq ?_
    rw [List.forall₂_map_left_iff, List.forall₂_map_right_iff, List.forall₂_same]
    intro valPath member
    refine resolvePath_indexed unambiguous ?_ (domain.indexed valPath member)
    exact namesOf_subset_expressionNames fun chunk isChunk =>
      List.mem_flatMap.mpr ⟨valPath, member, isChunk⟩
  obtain ⟨_, -, ran⟩ := (assertKey_reads key).skip ran
  obtain ⟨_, -, ran⟩ := ReadsOnly.skip (.refuseIf _ _) ran
  obtain ⟨_, -, ran⟩ := (assertPaths_reads _).skip ran
  obtain ⟨_, -, ran⟩ := (assertNotPrivate_reads crossApp key).skip ran
  obtain removed | ⟨error, stopped, failed, handled⟩ := tryCatch_ok.mp ran
  · obtain ⟨item, _, updated, ran⟩ := bind_ok.mp removed
    obtain ⟨-, rfl⟩ := pure_ok.mp ran
    obtain ⟨run, rfl⟩ := updateItem_ok.mp updated
    obtain ⟨-, -, -, -, applied⟩ := UpdateExpression.run_ok run
    rw [itemAt_put]
    exact apply_remove_ok resolved applied
  · obtain failed | ⟨_, _, -, failed⟩ := bind_error.mp failed
    · obtain ⟨rfl, refusal, rfl, refused⟩ := updateItem_error failed
      by_cases pathError : isPathError refusal = true
      · simp only [pathError, if_true] at handled
        obtain ⟨_, _, got, handled⟩ := bind_ok.mp handled
        obtain ⟨rfl, rfl⟩ := get_ok.mp got
        obtain ⟨-, rfl⟩ := pure_ok.mp handled
        rcases found with ⟨able, small⟩ | absent
        · have notPath := run_remove_error resolved domain.apart
            (by simpa using able) small refused
          rw [pathError] at notPath
          cases notPath
        · refine (prune_of_absent _ _ distinct fun loc isGone => ?_).symm
          obtain ⟨valPath, member, rfl⟩ := List.mem_map.mp (List.contains_iff_mem.mp isGone)
          exact absent valPath member
      · simp only [pathError, Bool.false_eq_true, if_false] at handled
        exact absurd handled throw_ok
    · exact absurd failed pure_error

end RemoveClause

/-- Where no placeholder of a call stands for two names, and the call meets the limits on list indexes and
    missing paths, a successful call changes exactly what its paths name. -/
theorem documentCall_addresses {env : KvEnv} {crossApp : Bool} {key : Text} {call : DocumentCall}
    {table table' : KvTable} {res : Option Json} (domain : call.InDomain)
    (distinct : (Document.map (itemAt table key)).Distinct)
    (addressed : call.Addressed env (itemAt table key))
    (ran : call.run env crossApp key table = .ok res table') :
    call.Changed env (itemAt table key) (itemAt table' key) := by
  cases call with
  | incr pathAndAmountMap expireAt => exact incr_changes addressed.1 addressed.2 ran
  | add pathAndValueMap => exact add_changes addressed.1 addressed.2 ran
  | update pathAndValueMap ttl => exact update_changes addressed.1 addressed.2 ran
  | remove paths => exact remove_changes domain distinct addressed ran

section Collision

def plainEnv : KvEnv := ⟨0, fun _ => false, fun _ => 0, fun _ => 0⟩

/-- One document, with counters under `a-b` and under `ab`. -/
def twoCounters : KvTable :=
  SortedTable.empty.put ['k'] [(valueName, .map
    [(['a', '-', 'b'], .map [(['x'], .number 0)]), (['a', 'b'], .map [(['x'], .number 0)])])]

/-- Increment `a-b.x` and `ab.y`. -/
def incrBoth : DocumentCall :=
  .incr [(['a', '-', 'b', '.', 'x'], 1), (['a', 'b', '.', 'y'], 1)] none

/-- Where `a-b.x` is. -/
def counterPlace : Location Text := [.key valueName, .key ['a', '-', 'b'], .key ['x']]

def holdsNumber (item : Attributes) (loc : Location Text) (n : ℚ) : Bool :=
  match lookup loc (.map item) with
  | some (.number m) => m == n
  | _ => false

theorem holdsNumber_iff {item : Attributes} {loc : Location Text} {n : ℚ} :
    holdsNumber item loc n = true ↔ lookup loc (.map item) = some (.number n) := by
  unfold holdsNumber
  split
  · next m stands => simp [stands]
  · next differs =>
      constructor
      · intro impossible
        cases impossible
      · intro stands
        exact absurd stands (differs n)

/-- The placeholders of `a-b` and `ab` are the same, so both paths are read under `ab`: the call succeeds
    and the counter at `a-b.x` is not incremented. -/
theorem incr_misses_counter :
    incrBoth.InDomain ∧ (Document.map (itemAt twoCounters ['k'])).Distinct ∧
      ∃ res table', incrBoth.run plainEnv false ['k'] twoCounters = .ok res table' ∧
        ¬ incrBoth.Changed plainEnv (itemAt twoCounters ['k']) (itemAt table' ['k']) := by
  refine ⟨⟨by decide +kernel, by decide +kernel⟩, ?_, ?_⟩
  · simp [twoCounters, Distinct, DistinctFields]
  · have succeeds : succeedsWith (fun _ after => holdsNumber (itemAt after ['k']) counterPlace 0)
        (incrBoth.run plainEnv false ['k'] twoCounters) = true := by decide +kernel
    obtain ⟨res, table', ran, stays⟩ := exists_of_succeedsWith succeeds
    refine ⟨res, table', ran, fun changed => ?_⟩
    have stood : lookup counterPlace (.map (itemAt twoCounters ['k'])) = some (.number 0) :=
      holdsNumber_iff.mp (by decide +kernel)
    have place : namedLocation ['a', '-', 'b', '.', 'x'] = counterPlace := by decide +kernel
    have named := changed.named (namedLocation ['a', '-', 'b', '.', 'x'], incremented 1)
      List.mem_cons_self
    rw [place, holdsNumber_iff.mp stays, stood] at named
    simp [incremented] at named

/-- Set `a.b` of a document that is not there. -/
def setNested : DocumentCall := .update [(['a', '.', 'b'], .number 5)] none

/-- With one path there is nothing to confuse: the map `a` is created and `a.b` set in it. -/
theorem update_creates_path :
    ∃ res table', setNested.run plainEnv false ['k'] SortedTable.empty = .ok res table' ∧
      setNested.Changed plainEnv [] (itemAt table' ['k']) := by
  have succeeds : succeedsWith (fun _ after =>
      holdsNumber (itemAt after ['k']) [.key valueName, .key ['a'], .key ['b']] 5)
      (setNested.run plainEnv false ['k'] SortedTable.empty) = true := by decide +kernel
  obtain ⟨res, table', ran, -⟩ := exists_of_succeedsWith succeeds
  refine ⟨res, table', ran, ?_⟩
  refine documentCall_addresses ⟨by decide +kernel, by decide +kernel⟩ ?_ ⟨?_, ?_⟩ ran
  · exact ⟨List.nodup_nil, trivial⟩
  · unfold Unambiguous
    decide +kernel
  · change ∀ valPath ∈ [['a', '.', 'b']], ∀ chunk ∈ chunksOf valPath, cleanedChunk chunk = chunk
    decide +kernel

end Collision

end Puter

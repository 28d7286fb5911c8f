/-
Module: Puter.Kv.MainExpressions
Purpose: When the database accepts the main expression of a call, on the stored item or on one that the layers of
  the call were written into: it has to accept the text whatever the item is, and then each assignment needs a map
  above its place and at the place a value of the kind that it works on.
Trusted boundary: none
Main exports: Statement, main_spares
-/
import Puter.Kv.LayerWrites

namespace Puter

open Document StateRun SystemKVStore

/-- One assignment of a main expression: the chunks of its place, the value as it is rendered, and what that
    makes of what stands at the place. -/
structure Statement where
  chunks : List Text
  value : SetValue
  change : Option Json → Option Json

def Statement.render (statement : Statement) : DocumentPath × SetValue :=
  (statement.chunks.map plainElement, statement.value)

/-- The rendered value comes to what the change makes of what stands there, and one map is as good as another. -/
structure Statement.Sound (names : AttributeNames) (statement : Statement) : Prop where
  nonempty : statement.chunks ≠ []
  evaluates : ∀ loc item, resolvePath names (statement.chunks.map plainElement) = .ok loc →
    statement.value.eval names item =
      match statement.change (lookup loc item) with
      | some value => .ok value
      | none => .error .operandType
  mapBlind : ∀ fields others : List (Text × Json),
    (statement.change (some (.map fields))).isSome = (statement.change (some (.map others))).isSome

/-- The main expression goes through on a document with maps added: the database accepts it, a map stands above
    each place, and what stands at the place is of the kind that the assignment wants. -/
def GoesOn (env : KvEnv) (names : AttributeNames) (statements : List Statement) (document : Json)
    (added : List (Location Text)) : Prop :=
  match (UpdateExpression.set (statements.map Statement.render)).places env.tooLarge names with
  | .ok targets =>
      ∀ put ∈ targets.zip (statements.map Statement.change),
        standsMap (seen document added put.1.dropLast) = true ∧ (put.2 (seen document added put.1)).isSome
  | .error _ => False

variable {env : KvEnv} {names : AttributeNames} {statements : List Statement} {item : Attributes}
  {targets : List (Location Text)}

theorem resolvePaths_cons {path : DocumentPath} {paths : List DocumentPath}
    (resolved : UpdateExpression.resolvePaths names (path :: paths) = .ok targets) :
    ∃ loc others, resolvePath names path = .ok loc ∧ UpdateExpression.resolvePaths names paths = .ok others ∧
      targets = loc :: others := by
  obtain ⟨loc, one, resolved⟩ := except_bind_ok.mp resolved
  obtain ⟨others, rest, same⟩ := except_bind_ok.mp resolved
  cases same
  exact ⟨loc, others, one, rest, rfl⟩

theorem Statement.targets_atKeys (sound : ∀ statement ∈ statements, statement.Sound names)
    (resolved : UpdateExpression.resolvePaths names ((statements.map render).map Prod.fst) = .ok targets) :
    targets.length = statements.length ∧
      ∀ loc ∈ targets, ∃ above name, loc = above ++ [.key name] := by
  induction statements generalizing targets with
  | nil =>
      cases resolved
      exact ⟨rfl, fun _ member => nomatch member⟩
  | cons statement rest ih =>
      obtain ⟨loc, others, one, later, rfl⟩ := resolvePaths_cons resolved
      obtain ⟨length, atKeys⟩ :=
        ih (fun other member => sound other (List.mem_cons_of_mem _ member)) later
      refine ⟨by simp [length], List.forall_mem_cons.mpr ⟨?_, atKeys⟩⟩
      obtain ⟨above, name, place⟩ := resolvePath_keys_concat (sound statement List.mem_cons_self).nonempty one
      exact ⟨above.map .key, name, place⟩

theorem evalActions_places {document : Json} {actions : List (DocumentPath × SetValue)}
    {puts : List (Location Text × Json)}
    (evaluated : UpdateExpression.evalActions names document actions = .ok puts) :
    UpdateExpression.resolvePaths names (actions.map Prod.fst) = .ok (puts.map Prod.fst) := by
  induction actions generalizing puts with
  | nil =>
      cases evaluated
      rfl
  | cons action rest ih =>
      obtain ⟨loc, resolved, evaluated⟩ := except_bind_ok.mp evaluated
      obtain ⟨value, -, evaluated⟩ := except_bind_ok.mp evaluated
      obtain ⟨others, later, same⟩ := except_bind_ok.mp evaluated
      cases same
      exact except_bind_ok.mpr ⟨loc, resolved, except_bind_ok.mpr ⟨_, ih later, rfl⟩⟩

theorem Statement.evalActions_iff (sound : ∀ statement ∈ statements, statement.Sound names)
    (resolved : UpdateExpression.resolvePaths names ((statements.map render).map Prod.fst) = .ok targets)
    (document : Json) :
    (∀ put ∈ targets.zip (statements.map change), (put.2 (lookup put.1 document)).isSome) ↔
      ∃ puts, UpdateExpression.evalActions names document (statements.map render) = .ok puts := by
  induction statements generalizing targets with
  | nil =>
      cases resolved
      simp [UpdateExpression.evalActions]
  | cons statement rest ih =>
      obtain ⟨loc, others, one, later, rfl⟩ := resolvePaths_cons resolved
      have evaluates := (sound statement List.mem_cons_self).evaluates loc document one
      have tail := ih (fun other member => sound other (List.mem_cons_of_mem _ member)) later
      rw [List.map_cons, List.zip_cons_cons, List.forall_mem_cons, tail, List.map_cons]
      dsimp only
      constructor
      · rintro ⟨finds, puts, evaluated⟩
        obtain ⟨value, makes⟩ := Option.isSome_iff_exists.mp finds
        rw [makes] at evaluates
        refine ⟨(loc, value) :: puts, ?_⟩
        exact except_bind_ok.mpr ⟨loc, one, except_bind_ok.mpr ⟨value, evaluates,
          except_bind_ok.mpr ⟨puts, evaluated, rfl⟩⟩⟩
      · rintro ⟨all, evaluated⟩
        obtain ⟨loc', one', evaluated⟩ := except_bind_ok.mp evaluated
        obtain ⟨value, makes, evaluated⟩ := except_bind_ok.mp evaluated
        obtain ⟨puts, inner, -⟩ := except_bind_ok.mp evaluated
        obtain rfl := Except.ok.inj (one.symm.trans one')
        refine ⟨?_, puts, inner⟩
        cases made : statement.change (lookup loc document) with
        | some value => rfl
        | none =>
            rw [made] at evaluates
            cases evaluates.symm.trans makes

theorem Statement.evalActions_ne_oversized (sound : ∀ statement ∈ statements, statement.Sound names)
    (resolved : UpdateExpression.resolvePaths names ((statements.map render).map Prod.fst) = .ok targets)
    {document : Json} :
    ¬ UpdateExpression.evalActions names document (statements.map render) = .error .oversized := by
  intro failed
  induction statements generalizing targets with
  | nil => cases failed
  | cons statement rest ih =>
      obtain ⟨loc, others, one, later, rfl⟩ := resolvePaths_cons resolved
      have evaluates := (sound statement List.mem_cons_self).evaluates loc document one
      have notLater := ih (fun other member => sound other (List.mem_cons_of_mem _ member)) later
      change resolvePath names (statement.chunks.map plainElement) = .ok loc at one
      simp only [List.map_cons, UpdateExpression.evalActions, render, one, evaluates] at failed
      cases made : statement.change (lookup loc document) with
      | none =>
          rw [made] at failed
          cases failed
      | some value =>
          rw [made] at failed
          cases tail : UpdateExpression.evalActions names document (rest.map render) with
          | error e =>
              change (UpdateExpression.evalActions names document (rest.map render) >>= _) = _ at failed
              rw [tail] at failed
              cases failed
              exact notLater tail
          | ok puts =>
              change (UpdateExpression.evalActions names document (rest.map render) >>= _) = _ at failed
              rw [tail] at failed
              cases failed

theorem Statement.run_iff (sound : ∀ statement ∈ statements, statement.Sound names)
    (accepted : (UpdateExpression.set (statements.map render)).places env.tooLarge names = .ok targets) :
    (∃ item', (UpdateExpression.set (statements.map render)).run env.tooLarge names item = .ok item') ↔
      ∀ put ∈ targets.zip (statements.map change),
        standsMap (lookup put.1.dropLast (.map item)) = true ∧ (put.2 (lookup put.1 (.map item))).isSome := by
  obtain ⟨resolved, clear⟩ := UpdateExpression.places_ok accepted
  obtain ⟨length, atKeys⟩ := targets_atKeys sound resolved
  have above : (∀ put ∈ targets.zip (statements.map change), standsMap (lookup put.1.dropLast (.map item)) = true) ↔
      ∀ loc ∈ targets, standsMap (lookup loc.dropLast (.map item)) = true := by
    have firsts : (targets.zip (statements.map change)).map Prod.fst = targets :=
      List.map_fst_zip (by simp [length])
    conv_rhs => rw [← firsts]
    rw [List.forall_mem_map]
  have assigns {puts : List (Location Text × Json)}
      (evaluated : UpdateExpression.evalActions names (.map item) (statements.map render) = .ok puts) :
      (assignAll puts (.map item)).isSome ↔ ∀ loc ∈ targets, standsMap (lookup loc.dropLast (.map item)) = true := by
    have same := Except.ok.inj ((evalActions_places evaluated).symm.trans resolved)
    subst same
    rw [List.forall_mem_map]
    apply assignAll_isSome
    · intro put member
      exact atKeys put.1 (List.mem_map_of_mem member)
    · exact List.pairwise_map.mp (pairwise_of_anyClash clear)
  have splits : (∀ put ∈ targets.zip (statements.map change),
      standsMap (lookup put.1.dropLast (.map item)) = true ∧ (put.2 (lookup put.1 (.map item))).isSome) ↔
      (∀ loc ∈ targets, standsMap (lookup loc.dropLast (.map item)) = true) ∧
        ∃ puts, UpdateExpression.evalActions names (.map item) (statements.map render) = .ok puts := by
    rw [← above, ← evalActions_iff sound resolved]
    simp only [forall_and]
  rw [UpdateExpression.run_eq, accepted, splits]
  change (∃ item', (UpdateExpression.set (statements.map render)).apply names item = .ok item') ↔ _
  constructor
  · rintro ⟨item', ran⟩
    obtain ⟨puts, changed, evaluated, assigned, -⟩ := apply_set_ok ran
    exact ⟨(assigns evaluated).mp (by rw [assigned]; rfl), puts, evaluated⟩
  · rintro ⟨maps, puts, evaluated⟩
    obtain ⟨changed, assigned⟩ := Option.isSome_iff_exists.mp ((assigns evaluated).mpr maps)
    refine ⟨UpdateExpression.attributesOf changed, except_bind_ok.mpr ⟨puts, evaluated, ?_⟩⟩
    rw [assigned]
    rfl

variable {key : Text} {start table : KvTable} {added : List (Location Text)}

theorem Statement.Sound.alike {statement : Statement} (sound : statement.Sound names) {one other : Option Json}
    (alike : Alike one other) : (statement.change one).isSome = (statement.change other).isSome := by
  obtain rfl | ⟨isMap, isMap'⟩ := alike
  · rfl
  · cases one with
    | none => cases isMap
    | some value =>
        cases other with
        | none => cases isMap'
        | some value' =>
            cases value with
            | map fields =>
                cases value' with
                | map others => exact sound.mapBlind fields others
                | _ => cases isMap'
            | _ => cases isMap

theorem Statement.goesOn_iff (sound : ∀ statement ∈ statements, statement.Sound names)
    (reached : Reached key start added table) :
    (∃ item, (UpdateExpression.set (statements.map render)).run env.tooLarge names (itemAt table key) = .ok item) ↔
      GoesOn env names statements (.map (itemAt start key)) added := by
  unfold GoesOn
  cases accepted : (UpdateExpression.set (statements.map render)).places env.tooLarge names with
  | error e =>
      rw [UpdateExpression.run_eq, accepted]
      exact iff_of_false (fun ⟨_, ran⟩ => nomatch ran) id
  | ok targets =>
      rw [run_iff sound accepted]
      apply forall₂_congr
      intro put member
      obtain ⟨statement, isStatement, same⟩ := List.mem_map.mp (List.of_mem_zip member).2
      rw [(reached.completed put.1.dropLast).standsMap_eq, ← same,
        (sound statement isStatement).alike (reached.completed put.1)]

theorem main_spares (sound : ∀ statement ∈ statements, statement.Sound names)
    (reached : Reached key start added table) :
    SparesItem key start
      ((updateItem env key (.set (statements.map Statement.render)) names >>= fun item =>
        (pure (field valueName item) : KvRun (Option Json))) table) ↔
      added = [] ∨ GoesOn env names statements (.map (itemAt start key)) added := by
  have updated := @updateItem_eq env key (.set (statements.map Statement.render)) names table
  rw [← Statement.goesOn_iff sound reached]
  cases ran : (UpdateExpression.set (statements.map Statement.render)).run env.tooLarge names (itemAt table key) with
  | ok item =>
      rw [ran] at updated
      rw [bind_of_ok updated]
      exact iff_of_true sparesItem_ok (.inr ⟨item, rfl⟩)
  | error e =>
      rw [ran] at updated
      rw [bind_of_error updated, sparesItem_error, reached.get_eq_iff]
      simp

end Puter

/-
Module: Puter.Kv.FailedMutations
Purpose: What a mutation that throws has done to the stored item (incr, add and update of
  stores/systemKv/SystemKVStore.ts). The layers above the paths are written one by one before the main
  expression is built and sent, and nothing takes them back. So a call that throws has left the item alone only
  when it was refused before any layer, or when every layer that it reached was there already.
Trusted boundary: the coercions of the language
Main exports: Mutation, failed_mutation_iff
-/
import Puter.Kv.KVStoreDriver
import Puter.Kv.MainExpressions

namespace Puter

open Document StateRun SystemKVStore

namespace SystemKVStore

/-- What `Number(expireAt)` comes to in `incr`: a timestamp, or how the call fails. -/
def expireAtSeconds (numberOf : Json → Option JsNumber) (expireAt : Json) : Except KvError ℚ :=
  match numberOf expireAt with
  | some (.finite n) => .ok n
  | some .nan => .error (badRequest "kv: expireAt must be a number".toList)
  | some .infinite | none => .error internalError

def storedAmounts (pathAndAmountMap : List (Text × GivenAmount)) : Option (List (Text × ℚ)) :=
  pathAndAmountMap.mapM fun entry => entry.2.amount?.map (entry.1, ·)

/-- `incr` with amounts and an expiry of any value. Nothing has been sent where one of them is no number. -/
def incrExpiring (env : KvEnv) (numberOf : Json → Option JsNumber) (crossApp : Bool) (key : Text)
    (pathAndAmountMap : List (Text × GivenAmount)) (expireAt : Option Json) : KvRun (Option Json) :=
  match expireAt with
  | none => incrGiven env crossApp key pathAndAmountMap
  | some expireAt =>
      match storedAmounts pathAndAmountMap, expireAtSeconds numberOf expireAt with
      | some amounts, .ok timestamp => incr env crossApp key amounts (some timestamp)
      | _, timestamp => do
          assertKey key
          refuseIf pathAndAmountMap.isEmpty incrRequiresMap
          refuseIf (!pathAndAmountMap.all (·.2.isNumber))
            (badRequest "kv: all values in pathAndAmountMap must be numbers".toList)
          assertPaths (pathAndAmountMap.map Prod.fst)
          assertNotPrivate crossApp key
          match timestamp with
          | .error error => throw error
          | .ok _ => throw internalError

end SystemKVStore

/-- A call that changes the document of a key, with its arguments as they were given. -/
inductive Mutation where
  | incr (pathAndAmountMap : List (Text × GivenAmount)) (expireAt : Option Json)
  | add (pathAndValueMap : List (Text × Json))
  | update (pathAndValueMap : List (Text × Json)) (ttl : Option Json)

namespace Mutation

def run (env : KvEnv) (numberOf : Json → Option JsNumber) (crossApp : Bool) (key : Text) :
    Mutation → KvRun (Option Json)
  | .incr pathAndAmountMap expireAt => incrExpiring env numberOf crossApp key pathAndAmountMap expireAt
  | .add pathAndValueMap => SystemKVStore.add env crossApp key pathAndValueMap
  | .update pathAndValueMap ttl => updateGiven env numberOf crossApp key pathAndValueMap ttl

end Mutation

section Calls

def incrStatements (amounts : List (Text × ℚ)) (expireAt : Option ℚ) : List Statement :=
  (amounts.map fun entry => ⟨chunksOf entry.1, (incrSetStatement entry.1 entry.2).2, incremented entry.2⟩) ++
    expireAt.toList.map fun ttl =>
      ⟨[ttlName], .operand (.ifNotExists [plainElement ttlName] (.number ttl)),
        fun old => some (old.getD (.number ttl))⟩

def addStatements (pathAndValueMap : List (Text × Json)) : List Statement :=
  pathAndValueMap.map fun entry => ⟨chunksOf entry.1, (addSetStatement entry.1 entry.2).2, extended entry.2⟩

def updateStatements (env : KvEnv) (pathAndValueMap : List (Text × Json)) (ttl : Option ℚ) : List Statement :=
  (pathAndValueMap.map fun entry =>
    ⟨chunksOf entry.1, (updateSetStatement entry.1 entry.2).2, fun _ => some entry.2⟩) ++
    ttl.toList.map fun seconds =>
      ⟨[ttlName], .operand (.value (.number (⌊env.now⌋ + seconds))), fun _ => some (.number (⌊env.now⌋ + seconds))⟩

theorem chunksOf_ne_nil (valPath : Text) : chunksOf valPath ≠ [] := by simp [chunksOf_eq]

theorem incrStatements_sound (names : AttributeNames) (amounts : List (Text × ℚ)) (expireAt : Option ℚ) :
    ∀ statement ∈ incrStatements amounts expireAt, statement.Sound names := by
  intro statement member
  obtain isAmount | isTtl := List.mem_append.mp member
  · obtain ⟨entry, -, rfl⟩ := List.mem_map.mp isAmount
    refine ⟨chunksOf_ne_nil _, fun loc item resolved => ?_, fun _ _ => rfl⟩
    change resolvePath names (plainPath entry.1) = .ok loc at resolved
    simp only [incrSetStatement, SetValue.eval, Operand.eval, resolved, incremented, bind, Except.bind, pure,
      Except.pure]
    cases (lookup loc item).getD (.number 0) <;> rfl
  · obtain ⟨ttl, -, rfl⟩ := List.mem_map.mp isTtl
    refine ⟨List.cons_ne_nil _ _, fun loc item resolved => ?_, fun _ _ => rfl⟩
    change resolvePath names [plainElement ttlName] = .ok loc at resolved
    simp only [SetValue.eval, Operand.eval, resolved, bind, Except.bind, pure, Except.pure]

theorem addStatements_sound (names : AttributeNames) (pathAndValueMap : List (Text × Json)) :
    ∀ statement ∈ addStatements pathAndValueMap, statement.Sound names := by
  intro statement member
  obtain ⟨entry, -, rfl⟩ := List.mem_map.mp member
  refine ⟨chunksOf_ne_nil _, fun loc item resolved => ?_, fun _ _ => rfl⟩
  change resolvePath names (plainPath entry.1) = .ok loc at resolved
  simp only [addSetStatement, SetValue.eval, Operand.eval, resolved, extended, bind, Except.bind, pure, Except.pure]
  cases (lookup loc item).getD (.list []) <;> rfl

theorem updateStatements_sound (env : KvEnv) (names : AttributeNames) (pathAndValueMap : List (Text × Json))
    (ttl : Option ℚ) : ∀ statement ∈ updateStatements env pathAndValueMap ttl, statement.Sound names := by
  intro statement member
  obtain isValue | isTtl := List.mem_append.mp member
  · obtain ⟨entry, -, rfl⟩ := List.mem_map.mp isValue
    exact ⟨chunksOf_ne_nil _, fun _ _ _ => rfl, fun _ _ => rfl⟩
  · obtain ⟨seconds, -, rfl⟩ := List.mem_map.mp isTtl
    exact ⟨List.cons_ne_nil _ _, fun _ _ _ => rfl, fun _ _ => rfl⟩

def writeChecks (crossApp : Bool) (key : Text) (missing : Bool) (requires : KvError) (values : KvRun Unit)
    (paths : List Text) : KvRun Unit := do
  assertKey key
  refuseIf missing requires
  values
  assertPaths paths
  assertNotPrivate crossApp key

def Refused (checks : KvRun Unit) (table : KvTable) : Prop := failsWith (fun _ _ => true) (checks table) = true

def incrChecks (crossApp : Bool) (key : Text) (amounts : List (Text × ℚ)) : KvRun Unit :=
  writeChecks crossApp key amounts.isEmpty incrRequiresMap (pure ()) (amounts.map Prod.fst)

def valueChecks (env : KvEnv) (crossApp : Bool) (key : Text) (requires : KvError)
    (pathAndValueMap : List (Text × Json)) : KvRun Unit :=
  writeChecks crossApp key pathAndValueMap.isEmpty requires
    (forEach (fun entry => assertValue env entry.2) pathAndValueMap) (pathAndValueMap.map Prod.fst)

def incrExpiry (numberOf : Json → Option JsNumber) : Option Json → Except KvError (Option ℚ)
  | none => .ok none
  | some expireAt => (expireAtSeconds numberOf expireAt).map some

def updateExpiry (numberOf : Json → Option JsNumber) : Option Json → Except KvError (Option ℚ)
  | none => .ok none
  | some ttl => (ttlSeconds numberOf ttl).map some

/-- An increment of amounts that can be stored. It sends its main expression before it writes any layer, and gives
    up where that is oversized. -/
def IncrSpared (env : KvEnv) (crossApp : Bool) (key : Text) (table : KvTable) (amounts : List (Text × ℚ))
    (expireAt : Option ℚ) : Prop :=
  let paths := amounts.map Prod.fst
  let names := expressionNames paths expireAt.isSome
  let statements := incrStatements amounts expireAt
  let goesOn := GoesOn env names statements (.map (itemAt table key))
  Refused (incrChecks crossApp key amounts) table ∨ goesOn [] ∨
    (UpdateExpression.set (statements.map Statement.render)).places env.tooLarge names = .error .oversized ∨
    pathsSpare env (itemAt table key) goesOn paths

/-- The condition under which a call that throws has left the item alone. It is refused by a check, or each layer
    that it reaches is there already, or no later step of it fails. -/
def Mutation.Spared (env : KvEnv) (numberOf : Json → Option JsNumber) (crossApp : Bool) (key : Text)
    (table : KvTable) : Mutation → Prop
  | .incr pathAndAmountMap expireAt =>
      match storedAmounts pathAndAmountMap, incrExpiry numberOf expireAt with
      | some amounts, .ok expireAt => IncrSpared env crossApp key table amounts expireAt
      | _, _ => True
  | .add pathAndValueMap =>
      let paths := pathAndValueMap.map Prod.fst
      Refused (valueChecks env crossApp key (badRequest "kv: add requires pathAndValueMap".toList) pathAndValueMap)
          table ∨
        pathsSpare env (itemAt table key)
          (GoesOn env (expressionNames paths false) (addStatements pathAndValueMap) (.map (itemAt table key))) paths
  | .update pathAndValueMap ttl =>
      let paths := pathAndValueMap.map Prod.fst
      Refused (valueChecks env crossApp key (badRequest "kv: update requires pathAndValueMap".toList) pathAndValueMap)
          table ∨
        pathsSpare env (itemAt table key)
          (fun added =>
            match updateExpiry numberOf ttl with
            | .ok ttl =>
                GoesOn env (expressionNames paths ttl.isSome) (updateStatements env pathAndValueMap ttl)
                  (.map (itemAt table key)) added
            | .error _ => False) paths

variable {α : Type} {env : KvEnv} {numberOf : Json → Option JsNumber} {crossApp : Bool} {key : Text} {table : KvTable}

theorem writeChecks_reads {missing : Bool} {requires : KvError} {values : KvRun Unit} (reads : ReadsOnly values)
    (paths : List Text) : ReadsOnly (writeChecks crossApp key missing requires values paths) :=
  .bind (assertKey_reads key) fun _ => .bind (.refuseIf _ _) fun _ => .bind reads fun _ =>
    .bind (assertPaths_reads paths) fun _ => assertNotPrivate_reads crossApp key

theorem sparesItem_of_reads {body : KvRun α} (reads : ReadsOnly body) : SparesItem key table (body table) := by
  intro e table' ran
  rw [reads.error ran]

theorem writeChecks_spares {missing : Bool} {requires : KvError} {values : KvRun Unit} (reads : ReadsOnly values)
    {paths : List Text} {next : KvRun α} {goes : Prop}
    (after : assertPaths paths table = .ok () table → (SparesItem key table (next table) ↔ goes)) :
    SparesItem key table ((writeChecks crossApp key missing requires values paths >>= fun _ => next) table) ↔
      Refused (writeChecks crossApp key missing requires values paths) table ∨ goes := by
  unfold Refused
  cases checked : writeChecks crossApp key missing requires values paths table with
  | error e table' =>
      obtain rfl := (writeChecks_reads reads paths).error checked
      rw [bind_of_error checked]
      exact iff_of_true (sparesItem_error.mpr rfl) (.inl rfl)
  | ok u table' =>
      obtain rfl := (writeChecks_reads reads paths).ok checked
      obtain ⟨_, -, checked'⟩ := (assertKey_reads key).skip checked
      obtain ⟨_, -, checked'⟩ := ReadsOnly.skip (.refuseIf _ _) checked'
      obtain ⟨_, -, checked'⟩ := reads.skip checked'
      obtain ⟨_, safe, -⟩ := (assertPaths_reads paths).skip checked'
      rw [bind_of_ok checked, after safe]
      simp [failsWith]

theorem values_read (env : KvEnv) (pathAndValueMap : List (Text × Json)) :
    ReadsOnly (forEach (fun entry => assertValue env entry.2) pathAndValueMap) :=
  .forEach fun entry _ => assertValue_reads env entry.2

theorem add_spares (pathAndValueMap : List (Text × Json)) :
    SparesItem key table (SystemKVStore.add env crossApp key pathAndValueMap table) ↔
      Mutation.Spared env numberOf crossApp key table (.add pathAndValueMap) := by
  have whole : SystemKVStore.add env crossApp key pathAndValueMap =
      (valueChecks env crossApp key (badRequest "kv: add requires pathAndValueMap".toList) pathAndValueMap >>=
        fun _ => createPaths env key (pathAndValueMap.map Prod.fst) >>= fun _ =>
          updateItem env key (.set ((addStatements pathAndValueMap).map Statement.render))
            (expressionNames (pathAndValueMap.map Prod.fst) false) >>= fun item => pure (field valueName item)) := by
    have rendered : (addStatements pathAndValueMap).map Statement.render =
        pathAndValueMap.map fun entry => addSetStatement entry.1 entry.2 := by
      simp only [addStatements, List.map_map]
      rfl
    rw [rendered]
    simp only [SystemKVStore.add, valueChecks, writeChecks, bind_assoc]
  rw [whole]
  apply writeChecks_spares (values_read env pathAndValueMap)
  intro safe
  apply createPaths_spares _ safe
  intro added between reached
  exact main_spares (addStatements_sound _ _) reached

theorem update_spares (pathAndValueMap : List (Text × Json)) (ttl : Option Json) :
    SparesItem key table (updateGiven env numberOf crossApp key pathAndValueMap ttl table) ↔
      Mutation.Spared env numberOf crossApp key table (.update pathAndValueMap ttl) := by
  let checks := valueChecks env crossApp key (badRequest "kv: update requires pathAndValueMap".toList) pathAndValueMap
  let paths := pathAndValueMap.map Prod.fst
  have known (seconds : Option ℚ) : SystemKVStore.update env crossApp key pathAndValueMap seconds =
      (checks >>= fun _ => createPaths env key paths >>= fun _ =>
        updateItem env key (.set ((updateStatements env pathAndValueMap seconds).map Statement.render))
          (expressionNames paths seconds.isSome) >>= fun item => pure (field valueName item)) := by
    have rendered : (updateStatements env pathAndValueMap seconds).map Statement.render =
        (pathAndValueMap.map fun entry => updateSetStatement entry.1 entry.2) ++
          seconds.toList.map fun seconds =>
            ([plainElement ttlName], .operand (.value (.number (⌊env.now⌋ + seconds)))) := by
      simp only [updateStatements, List.map_append, List.map_map]
      rfl
    rw [rendered]
    simp only [SystemKVStore.update, checks, valueChecks, writeChecks, bind_assoc, paths]
  have whole : updateGiven env numberOf crossApp key pathAndValueMap ttl =
      (checks >>= fun _ => createPaths env key paths >>= fun _ =>
        match updateExpiry numberOf ttl with
        | .ok seconds =>
            updateItem env key (.set ((updateStatements env pathAndValueMap seconds).map Statement.render))
              (expressionNames paths seconds.isSome) >>= fun item => pure (field valueName item)
        | .error error => throw error) := by
    cases ttl with
    | none => exact known none
    | some ttl =>
        unfold updateGiven updateExpiry
        dsimp only
        cases ttlSeconds numberOf ttl with
        | ok seconds => exact known (some seconds)
        | error error => simp only [checks, valueChecks, writeChecks, bind_assoc, paths, Except.map]
  rw [whole]
  apply writeChecks_spares (values_read env pathAndValueMap)
  intro safe
  apply createPaths_spares _ safe
  intro added between reached
  cases updateExpiry numberOf ttl with
  | ok seconds => exact main_spares (updateStatements_sound env _ _ _) reached
  | error error =>
      dsimp only
      rw [or_false]
      exact sparesItem_error.trans reached.get_eq_iff

section Increment

variable {names : AttributeNames} {statements : List Statement} {item : Attributes} {paths : List Text}

theorem oversized_iff (sound : ∀ statement ∈ statements, statement.Sound names) :
    (UpdateExpression.set (statements.map Statement.render)).run env.tooLarge names item = .error .oversized ↔
      (UpdateExpression.set (statements.map Statement.render)).places env.tooLarge names = .error .oversized := by
  rw [UpdateExpression.run_eq]
  cases accepted : (UpdateExpression.set (statements.map Statement.render)).places env.tooLarge names with
  | error e =>
      change Except.error e = _ ↔ _
      constructor
      · intro same
        cases same
        rfl
      · intro same
        cases same
        rfl
  | ok targets =>
      refine iff_of_false (fun ran => ?_) (by rintro ⟨⟩)
      have resolved := (UpdateExpression.places_ok accepted).1
      change (UpdateExpression.set (statements.map Statement.render)).apply names item = .error .oversized at ran
      unfold UpdateExpression.apply at ran
      dsimp only at ran
      cases evaluated : UpdateExpression.evalActions names (.map item) (statements.map Statement.render) with
      | ok puts =>
          rw [evaluated] at ran
          simp only [bind, Except.bind] at ran
          cases assigned : assignAll puts (.map item) with
          | some changed =>
              rw [assigned] at ran
              cases ran
          | none =>
              rw [assigned] at ran
              cases ran
      | error e =>
          rw [evaluated] at ran
          cases ran
          exact Statement.evalActions_ne_oversized sound resolved evaluated

def retried (env : KvEnv) (key : Text) (names : AttributeNames) (statements : List Statement) (paths : List Text) :
    KvRun (Option Json) := do
  let runUpdate := updateItem env key (.set (statements.map Statement.render)) names
  let item ← tryCatch runUpdate fun error =>
    match error with
    | .validation .oversized => throw error
    | .validation _ => do
        createPaths env key paths
        runUpdate
    | .http _ => throw error
  pure (field valueName item)

theorem retried_spares (sound : ∀ statement ∈ statements, statement.Sound names)
    (safe : assertPaths paths table = .ok () table) :
    SparesItem key table (retried env key names statements paths table) ↔
      GoesOn env names statements (.map (itemAt table key)) [] ∨
        (UpdateExpression.set (statements.map Statement.render)).places env.tooLarge names = .error .oversized ∨
        pathsSpare env (itemAt table key) (GoesOn env names statements (.map (itemAt table key))) paths := by
  have updated := @updateItem_eq env key (.set (statements.map Statement.render)) names table
  rw [← Statement.goesOn_iff sound (Reached.refl key table), ← @oversized_iff _ _ _ (itemAt table key) sound]
  unfold retried
  cases ran : (UpdateExpression.set (statements.map Statement.render)).run env.tooLarge names (itemAt table key) with
  | ok item =>
      rw [ran] at updated
      rw [bind_of_ok (tryCatch_of_ok updated)]
      exact iff_of_true sparesItem_ok (.inl ⟨item, rfl⟩)
  | error refusal =>
      rw [ran] at updated
      rw [bind_tryCatch_of_error updated]
      cases refusal with
      | oversized => exact iff_of_true (sparesItem_error.mpr rfl) (.inr (.inl rfl))
      | invalidName | invalidExpression | unusedName | invalidPath | operandType =>
          simp only [reduceCtorEq, exists_const, Except.error.injEq, false_or]
          rw [bind_assoc]
          apply createPaths_spares _ safe
          intro added between reached
          exact main_spares sound reached

theorem incr_eq (amounts : List (Text × ℚ)) (expireAt : Option ℚ) :
    SystemKVStore.incr env crossApp key amounts expireAt =
      (incrChecks crossApp key amounts >>= fun _ =>
        retried env key (expressionNames (amounts.map Prod.fst) expireAt.isSome) (incrStatements amounts expireAt)
          (amounts.map Prod.fst)) := by
  have rendered : (incrStatements amounts expireAt).map Statement.render =
      (amounts.map fun entry => incrSetStatement entry.1 entry.2) ++ expireAt.toList.map fun ttl =>
        ([plainElement ttlName], .operand (.ifNotExists [plainElement ttlName] (.number ttl))) := by
    simp only [incrStatements, List.map_append, List.map_map]
    rfl
  unfold retried
  rw [rendered]
  simp only [SystemKVStore.incr, incrChecks, writeChecks, bind_assoc, pure_bind] <;> rfl

theorem stored_incr_spares (amounts : List (Text × ℚ)) (expireAt : Option ℚ) :
    SparesItem key table (SystemKVStore.incr env crossApp key amounts expireAt table) ↔
      IncrSpared env crossApp key table amounts expireAt := by
  rw [incr_eq]
  apply writeChecks_spares (.pure _)
  intro safe
  exact retried_spares (incrStatements_sound _ _ _) safe

theorem unstored_incr_reads {pathAndAmountMap : List (Text × GivenAmount)} {expireAt : Option Json}
    (unstored : storedAmounts pathAndAmountMap = none ∨ ∃ e, incrExpiry numberOf expireAt = .error e) :
    ReadsOnly (incrExpiring env numberOf crossApp key pathAndAmountMap expireAt) := by
  unfold incrExpiring
  cases expireAt with
  | none =>
      obtain missing | ⟨e, failed⟩ := unstored
      · unfold incrGiven
        rw [storedAmounts] at missing
        rw [missing]
        exact .bind (assertKey_reads key) fun _ => .bind (.refuseIf _ _) fun _ =>
          .bind (assertPaths_reads _) fun _ => .bind (assertNotPrivate_reads crossApp key) fun _ => .throw _
      · cases failed
  | some expireAt =>
      have checks (timestamp : Except KvError ℚ) : ReadsOnly (do
          assertKey key
          refuseIf pathAndAmountMap.isEmpty incrRequiresMap
          refuseIf (!pathAndAmountMap.all (·.2.isNumber))
            (badRequest "kv: all values in pathAndAmountMap must be numbers".toList)
          assertPaths (pathAndAmountMap.map Prod.fst)
          assertNotPrivate crossApp key
          match timestamp with
          | .error error => throw error
          | .ok _ => (throw internalError : KvRun (Option Json))) := by
        refine .bind (assertKey_reads key) fun _ => .bind (.refuseIf _ _) fun _ => .bind (.refuseIf _ _) fun _ =>
          .bind (assertPaths_reads _) fun _ => .bind (assertNotPrivate_reads crossApp key) fun _ => ?_
        cases timestamp <;> exact .throw _
      dsimp only
      split
      next amounts timestamp isStored isNumber =>
        obtain missing | ⟨e, failed⟩ := unstored
        · rw [isStored] at missing
          cases missing
        · rw [incrExpiry, isNumber] at failed
          cases failed
      next => exact checks _

theorem incr_spares (pathAndAmountMap : List (Text × GivenAmount)) (expireAt : Option Json) :
    SparesItem key table (incrExpiring env numberOf crossApp key pathAndAmountMap expireAt table) ↔
      Mutation.Spared env numberOf crossApp key table (.incr pathAndAmountMap expireAt) := by
  unfold Mutation.Spared
  dsimp only
  split
  next amounts timestamp isStored isNumber =>
    rw [← stored_incr_spares]
    unfold incrExpiring
    cases expireAt with
    | none =>
        cases isNumber
        unfold incrGiven
        rw [storedAmounts] at isStored
        rw [isStored]
    | some expireAt =>
        rw [incrExpiry] at isNumber
        cases seconds : expireAtSeconds numberOf expireAt with
        | error e =>
            rw [seconds] at isNumber
            cases isNumber
        | ok seconds' =>
            rw [seconds] at isNumber
            cases isNumber
            dsimp only
            rw [isStored, seconds]
  next unstored =>
    refine iff_of_true (sparesItem_of_reads (unstored_incr_reads ?_)) trivial
    cases isStored : storedAmounts pathAndAmountMap with
    | none => exact .inl rfl
    | some amounts =>
        cases expiry : incrExpiry numberOf expireAt with
        | error e => exact .inr ⟨e, rfl⟩
        | ok timestamp => exact absurd expiry (unstored amounts timestamp isStored)

end Increment

end Calls

/-- A call that throws has changed nothing: the stored item is as it was before, and so what a read has cached of
    it is still what a read answers. -/
def ChangesNothing {α : Type} (key : Text) (start : KvTable) (result : EStateM.Result KvError KvTable α) : Prop :=
  ∀ e table', result = .error e table' →
    table'.get key = start.get key ∧
      ∀ cached, (start.get key).map readItem = cached → (table'.get key).map readItem = cached

theorem changesNothing_iff {α : Type} {key : Text} {start : KvTable} {result : EStateM.Result KvError KvTable α} :
    ChangesNothing key start result ↔ SparesItem key start result := by
  constructor
  · intro nothing e table' ran
    exact (nothing e table' ran).1
  · intro spares e table' ran
    have same := spares e table' ran
    exact ⟨same, fun cached isCached => same ▸ isCached⟩

/-- A mutation that throws has changed nothing exactly where no layer was written before it threw. -/
theorem failed_mutation_iff (env : KvEnv) (numberOf : Json → Option JsNumber) (crossApp : Bool) (key : Text)
    (call : Mutation) (table : KvTable) :
    ChangesNothing key table (call.run env numberOf crossApp key table) ↔
      call.Spared env numberOf crossApp key table := by
  rw [changesNothing_iff]
  cases call with
  | incr pathAndAmountMap expireAt => exact incr_spares pathAndAmountMap expireAt
  | add pathAndValueMap => exact add_spares pathAndValueMap
  | update pathAndValueMap ttl => exact update_spares pathAndValueMap ttl

def numberOfWord : Json → Option JsNumber
  | .number n => some (.finite n)
  | _ => some .nan

/-- `a.b` is set with a word for the expiry: the map `a` has been written when the word is refused. -/
theorem refused_expiry_changes_item :
    ¬ ChangesNothing ['k'] SortedTable.empty
      (Mutation.run plainEnv numberOfWord false ['k']
        (.update [(['a', '.', 'b'], .number 1)] (some (.text ['s', 'o', 'o', 'n']))) SortedTable.empty) := by
  intro nothing
  have fails : failsWith (fun e table' =>
      e = badRequest "kv: ttl must be a number".toList && (table'.get ['k']).isSome)
      (Mutation.run plainEnv numberOfWord false ['k']
        (.update [(['a', '.', 'b'], .number 1)] (some (.text ['s', 'o', 'o', 'n']))) SortedTable.empty) = true := by
    decide +kernel
  obtain ⟨e, table', ran, changed⟩ := exists_of_failsWith fails
  have same := (nothing e table' ran).1
  rw [same] at changed
  cases (Bool.and_eq_true_iff.mp changed).2

end Puter

/-
Module: Puter.App.RefusedWrites
Purpose: What a call of the driver of apps that it refuses has changed. The checks come before the writes, but for the
  calls that join the app with a row that has its `index_url`: these claim and write the row before the last check.
Trusted boundary: none
Main exports: AppDriver.Unchanged, AppDriver.Joins, AppDriver.refused_writes_change_nothing
-/
import Puter.App.DriverRuns

namespace Puter

open PosixPath StateRun

namespace AppDriver

variable {μ : Type} {env : AppDriverEnv μ} {caller : AppCaller} {s₀ s s' : AppDriverState μ} {row app : AppRecord μ}
  {ref : AppRef} {object : AppFields μ} {inv : AppDriverState μ → Prop} {error : HttpError}
  {texts : List (Text × Text)}

/-- Rows, filetypes and aliases are as they were. -/
structure Unchanged (s₀ s : AppDriverState μ) : Prop where
  table : s.store.table = s₀.store.table
  filetypes : s.store.filetypes = s₀.store.filetypes
  aliases : s.canonicalUidAlias = s₀.canonicalUidAlias
  reverse : s.canonicalUidAliasReverse = s₀.canonicalUidAliasReverse

structure Still (s₀ s : AppDriverState μ) : Prop extends Unchanged s₀ s where
  sound : StoreSound s.store

/-- The caller may join an app with the row: nobody owns it, or the caller does and it was made from its origin. -/
def joinable (caller : AppCaller) (row : AppRecord μ) : Bool :=
  row.ownerUserId.getD 0 = 0 || (row.ownerUserId = some caller.userId && isOriginBootstrapApp row)

/-- The call changes the `index_url`, or gives one, and there is a row with it that the caller may join. -/
def Joins [DecidableEq μ] (env : AppDriverEnv μ) (s : AppDriverState μ) : AppDriverCall μ → Prop
  | .create caller _ _ _ object =>
      ∃ row, findIndexUrlConflictRow env s.store.table object.indexUrl 0 = some row ∧ joinable caller row = true
  | .update caller _ ref object =>
      ∃ app s', resolve env ref s = .ok (some app) s' ∧ object.columns .indexUrl ≠ some (app.columns .indexUrl) ∧
        ∃ row, findIndexUrlConflictRow env s.store.table object.indexUrl app.id = some row ∧ joinable caller row = true
  | .delete _ _ => False

/-- The call throws an error of the driver. -/
def RefusedWith [DecidableEq μ] (env : AppDriverEnv μ) (s s' : AppDriverState μ) (error : AppDriverError) :
    AppDriverCall μ → Prop
  | .create caller turns draw dedupeName object => create env caller turns draw dedupeName object s = .error error s'
  | .update caller turns ref object => update env caller turns ref object s = .error error s'
  | .delete caller ref => delete env caller ref s = .error error s'

section Refusals

/-- Where the computation throws an error of the driver, what held before it holds. -/
def Refuses {α : Type} (inv : AppDriverState μ → Prop) (body : DriverM μ α) : Prop :=
  ∀ s, inv s → ∀ error texts s', body s = .error (.http error texts) s' → inv s'

theorem Refuses.of_stays {α : Type} {body : DriverM μ α} (stays : StateRun.Keeps (Stays inv) body) : Refuses inv body :=
  fun _ holds _ _ _ ran => stays.error ran holds

theorem Refuses.bind {α β : Type} {first : DriverM μ α} {next : α → DriverM μ β}
    (stays : StateRun.Keeps (Stays inv) first) (rest : ∀ a, Refuses inv (next a)) : Refuses inv (first >>= next) := by
  intro s holds error texts s' ran
  rcases bind_error.mp ran with refused | ⟨a, between, first, refused⟩
  · exact stays.error refused holds
  · exact rest a between (stays.ok first holds) error texts s' refused

theorem Refuses.written {α : Type} {call : AppStoreState μ → AppStoreState μ × α} {β : Type} {next : α → DriverM μ β}
    (rest : ∀ a s error texts s', next a s ≠ .error (.http error texts) s') : Refuses inv (inStore call >>= next) := by
  intro s _ error texts s' ran
  rcases bind_error.mp ran with refused | ⟨a, between, -, refused⟩
  · cases refused
  · exact absurd refused (rest a between error texts s')

theorem orThrow_database {α β : Type} {found : Option α} {next : α → DriverM μ β} (s : AppDriverState μ)
    (rest : ∀ a error texts s', next a s ≠ .error (.http error texts) s') (error : HttpError)
    (texts : List (Text × Text)) (s' : AppDriverState μ) :
    (orThrow .database found >>= next) s ≠ .error (.http error texts) s' := by
  cases found with
  | none => rintro ⟨⟩
  | some a => exact rest a error texts s'

theorem setFiletypes_runs (env : AppDriverEnv μ) (appId : ℕ) (types : Option (List Text)) (s : AppDriverState μ) :
    ∃ s', setFiletypes env appId types s = .ok () s' := by
  cases types <;> exact ⟨_, rfl⟩

theorem lookup_still (key : AppKey) : StateRun.Keeps (Stays (Still s₀)) (lookup env key) := by
  intro s same
  refine ⟨⟨(getByProperty_table _ _ _).trans same.table, Eq.trans ?_ same.filetypes, same.aliases, same.reverse⟩,
    same.sound.getByProperty env.store key⟩
  change (s.store.getByProperty env.store key).1.filetypes = s.store.filetypes
  have read : (s.store.readFromDb env.store key).1.filetypes = s.store.filetypes := by
    unfold AppStoreState.readFromDb AppStoreState.resolveByOldName
    split <;> rfl
  rcases getByProperty_cases env.store (s := s.store) key with ⟨cached, -, isState⟩ | ⟨-, -, isState⟩ | ⟨-, row, -, -, isState⟩
  · rw [isState]
  · rw [isState]
    exact read
  · rw [isState]
    exact read

variable [DecidableEq μ]

theorem writeFields_refuses (app : AppRecord μ) (fields : AppFields μ) : Refuses inv (writeFields env app fields) := by
  refine .bind .get fun s => .bind (.refuseIf _ _) fun _ => .bind (.orThrow _ _) fun patch => .written ?_
  intro written s
  refine orThrow_database s fun updated error texts s' ran => ?_
  obtain ⟨between, typed⟩ := setFiletypes_runs env app.id fields.filetypeAssociations s
  rw [bind_of_ok typed] at ran
  cases updated <;> cases ran

theorem insertApp_refuses (draw : AppDraw) (dedupeName : Bool) (fields : AppFields μ) :
    Refuses inv (insertApp env caller draw dedupeName fields) := by
  refine .bind .get fun s => ?_
  cases freeName s fields.nameText dedupeName draw.suffixes with
  | error error => exact .of_stays (.throw _)
  | ok name =>
      refine .written fun created s => orThrow_database s fun app error texts s' ran => ?_
      obtain ⟨between, typed⟩ := setFiletypes_runs env app.id fields.filetypeAssociations s
      rw [bind_of_ok typed] at ran
      cases ran

end Refusals

section Joining

theorem mem_of_conflict {indexUrl : Text} {excludeAppId : ℕ} {table : List (AppRecord μ)}
    (conflict : findIndexUrlConflictRow env table indexUrl excludeAppId = some row) : row ∈ table := by
  unfold findIndexUrlConflictRow at conflict
  dsimp only at conflict
  split at conflict
  · cases conflict
  · split at conflict
    · cases conflict
    · have listed := List.mem_of_mem_head? conflict
      exact List.mem_of_mem_filter ((List.perm_insertionSort _ _).mem_iff.mp listed)

theorem bootstrap_of_stands (stands : StandsFor SameTexts app row) :
    isOriginBootstrapApp app = isOriginBootstrapApp row := by
  unfold isOriginBootstrapApp
  rw [stands.uid, stands.name, stands.form.texts .title rfl (by simp), stands.form.texts .description rfl (by simp)]

variable [DecidableEq μ]

theorem appToJoin_refused {indexUrl : Text} (sound : StoreSound s.store) (member : row ∈ s.store.table)
    (apart : joinable caller row = false) :
    ∃ error s', appToJoin env caller indexUrl row s = .error error s' ∧ (Still s₀ s → Still s₀ s') := by
  unfold joinable at apart
  rw [Bool.or_eq_false_iff, decide_eq_false_iff_not] at apart
  obtain ⟨isOwned, notBoth⟩ := apart
  have positive : 0 < row.ownerUserId.getD 0 := Nat.pos_of_ne_zero isOwned
  unfold appToJoin
  by_cases others : row.ownerUserId.getD 0 = caller.userId
  · have owner : row.ownerUserId = some caller.userId := by
      cases isOwner : row.ownerUserId with
      | none =>
          rw [isOwner] at isOwned
          exact absurd rfl isOwned
      | some id =>
          rw [isOwner] at others
          exact congrArg some others
    have plain : isOriginBootstrapApp row = false := by simpa [owner] using notBoth
    have isKey : row.matches (.uid row.uid) = true := by simp [AppRecord.matches]
    obtain ⟨found, isFound, stands⟩ := sound.finds env.store (by simp) member isKey
    have isOwner : found.ownerUserId = some caller.userId := stands.form.owner.trans owner
    have notMade := (bootstrap_of_stands stands).trans plain
    have passes : ∀ refused e (t : AppDriverState μ), refused = false →
        (refuseIf refused e : DriverM μ Unit) t = .ok () t := fun _ _ _ isFalse => refuseIf_ok.mpr ⟨isFalse, rfl⟩
    have skips : ∀ wanted body (t : AppDriverState μ), wanted = false → (runIf wanted body : DriverM μ Unit) t = .ok () t :=
      fun _ _ _ isFalse => runIf_ok.mpr (.inr ⟨isFalse, rfl⟩)
    rw [bind_of_ok (passes _ _ s (by simp [others])), bind_of_ok (skips _ _ s (by simp [isOwned])),
      bind_of_ok (lookup_eq _ _), isFound, bind_of_ok (orThrow_ok.mpr ⟨rfl, rfl⟩),
      bind_of_ok (passes _ _ _ (by simp [stands.uid])), bind_of_ok (passes _ _ _ (by simp [isOwner])),
      bind_of_error (refuseIf_error.mpr ⟨by simp [positive, notMade], rfl, rfl⟩)]
    exact ⟨_, _, rfl, (lookup_still _).ok (lookup_eq _ _)⟩
  · rw [bind_of_error (refuseIf_error.mpr ⟨by simp [positive, others], rfl, rfl⟩)]
    exact ⟨_, _, rfl, id⟩

theorem maybeJoin_unjoined {again : AppRef → AppFields μ → DriverM μ (AppRecord μ)} {source : Option Text}
    {excludeAppId : ℕ} (sound : StoreSound s.store)
    (apart : ∀ row, findIndexUrlConflictRow env s.store.table object.indexUrl excludeAppId = some row →
      joinable caller row = false) :
    maybeJoinOwnedHostedIndexUrlApp env caller again object source excludeAppId s = .ok none s ∨
      ∃ error s', maybeJoinOwnedHostedIndexUrlApp env caller again object source excludeAppId s = .error error s' ∧
        (Still s₀ s → Still s₀ s') := by
  unfold maybeJoinOwnedHostedIndexUrlApp
  rw [bind_of_ok (get_ok.mpr ⟨rfl, rfl⟩)]
  cases conflict : findIndexUrlConflictRow env s.store.table object.indexUrl excludeAppId with
  | none => exact .inl rfl
  | some row =>
      obtain ⟨error, s', refused, same⟩ := @appToJoin_refused _ env caller s₀ s row _ object.indexUrl sound
        (mem_of_conflict conflict) (apart row conflict)
      right
      refine ⟨error, s', ?_, same⟩
      exact bind_of_error refused

end Joining

section Calls

theorem validateString_ok {value validated : Option (ColumnValue μ)} {key : String} {maxLen : ℕ}
    {format : Text → Bool} {required allowEmpty : Bool}
    (ran : validateString value key maxLen format required allowEmpty = .ok validated) : validated = value := by
  unfold validateString at ran
  dsimp only at ran
  repeat' split at ran
  all_goals cases ran
  all_goals rfl

theorem validateUrl_ok {value validated : Option (ColumnValue μ)} {key : String} {required : Bool}
    (ran : validateUrl env value key required = .ok validated) : validated = value := by
  unfold validateUrl at ran
  split at ran
  · split at ran
    · cases ran
    · split at ran
      · exact (Except.ok.inj ran).symm
      · cases ran
  · exact validateString_ok ran

variable [DecidableEq μ]

theorem validateInput_indexUrl {existing : Option (AppRecord μ)} {fields : AppFields μ}
    (ran : validateInput env object existing = .ok fields) : fields.columns .indexUrl = object.columns .indexUrl := by
  unfold validateInput at ran
  simp only [bind, Except.bind] at ran
  split at ran
  · cases ran
  split at ran
  · cases ran
  split at ran
  · cases ran
  split at ran
  · cases ran
  next url isUrl =>
    split at ran
    · cases ran
    split at ran
    · cases ran
    cases ran
    exact validateUrl_ok isUrl

theorem joins_refuses {again : AppRef → AppFields μ → DriverM μ (AppRecord μ)} {source : Option Text}
    {excludeAppId : ℕ} {rest : DriverM μ (AppRecord μ)} (restRefuses : Refuses (Still s₀) rest)
    (apart : ∀ row, findIndexUrlConflictRow env s₀.store.table object.indexUrl excludeAppId = some row →
      joinable caller row = false) (indexUrl : Text) :
    Refuses (Still s₀) (do
      ensurePuterSiteSubdomainIsOwned env caller indexUrl
      let joined ← maybeJoinOwnedHostedIndexUrlApp env caller again object source excludeAppId
      match joined with
      | some joinedApp => pure joinedApp
      | none => rest) := by
  refine .bind (ensurePuterSiteSubdomainIsOwned_stays _) fun _ s still error texts s' ran => ?_
  rw [← still.table] at apart
  rcases @maybeJoin_unjoined _ env caller s₀ s object _ again source excludeAppId still.sound apart with
    none | ⟨thrown, between, refused, same⟩
  · rw [bind_of_ok none] at ran
    exact restRefuses s still error texts s' ran
  · rw [bind_of_error refused] at ran
    cases ran
    exact same still

theorem update_refuses {turns : ℕ} (still : Still s s)
    (apart : ¬ Joins env s (.update caller turns ref object))
    (ran : update env caller turns ref object s = .error (.http error texts) s') : Still s s' := by
  cases turns with
  | zero => cases ran
  | succ turns =>
      rcases bind_error.mp ran with refused | ⟨app, between, written, refused⟩
      · exact (writableApp_stays lookup_still ref).error refused still
      · have writable : StateRun.Keeps (Stays (Still s)) (writableApp env caller ref) := writableApp_stays lookup_still ref
        have stays := writable.ok written still
        have resolved := (writableApp_ok written).1
        clear ran written
        cases validated : validateInput env object (some app) with
        | error invalid =>
            rw [validated] at refused
            cases refused
            exact stays
        | ok fields =>
            rw [validated] at refused
            dsimp only at refused
            revert refused
            split
            · exact writeFields_refuses app fields between stays error texts s'
            next changes =>
              rw [validateInput_indexUrl validated, not_or] at changes
              refine joins_refuses (.bind (ensureIndexUrlNotAlreadyInUse_stays _ _) fun _ => writeFields_refuses app fields)
                (fun row conflict => ?_) _ between stays error texts s'
              rw [← Bool.not_eq_true]
              exact fun joins => apart ⟨app, between, resolved, changes.2, row, conflict, joins⟩

theorem create_refuses {turns : ℕ} {draw : AppDraw} {dedupeName : Bool} (still : Still s s)
    (apart : ¬ Joins env s (.create caller turns draw dedupeName object))
    (ran : create env caller turns draw dedupeName object s = .error (.http error texts) s') : Still s s' := by
  unfold create at ran
  cases validated : validateInput env object none with
  | error invalid =>
      rw [validated] at ran
      cases ran
      exact still
  | ok fields =>
      rw [validated] at ran
      refine joins_refuses (.bind (ensureIndexUrlNotAlreadyInUse_stays _ _) fun _ => insertApp_refuses draw dedupeName fields)
        (fun row conflict => ?_) _ s still error texts s' ran
      rw [← Bool.not_eq_true]
      exact fun joins => apart ⟨row, conflict, joins⟩

theorem delete_refuses (still : Still s s) (ran : delete env caller ref s = .error (.http error texts) s') :
    Still s s' := by
  have refuses : Refuses (Still s) (delete env caller ref) := by
    refine .bind (resolve_stays lookup_still ref) fun _ => .bind (.orThrow _ _) fun app => .bind (.refuseIf _ _) fun _ => ?_
    refine .bind (.refuseIf _ _) fun _ => .written ?_
    rintro _ _ _ _ _ ⟨⟩
  exact refuses s still error texts s' ran

end Calls

section Examples

/-- An update of the first app to the name of the third one, with or without the URL of the second. -/
def nameTaken (fields : AppColumn → Option (ColumnValue ℕ)) : AppDriverCall ℕ :=
  .update ⟨7, none, false, fun _ => some 7⟩ 3 ⟨some "app-a".toList, none⟩ ⟨some (.text ['c']), fields, none⟩

def isHttp : AppDriverError → Bool
  | .http _ _ => true
  | _ => false

end Examples

end AppDriver

end Puter

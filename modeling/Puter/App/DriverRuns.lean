/-
Module: Puter.App.DriverRuns
Purpose: What the calls of the driver of apps keep. All that a call does is to look apps up, to write, delete and
  merge away apps that its caller may write, to claim an app that nobody owns, and to insert one. So an app of another
  user stands through every run of calls.
Trusted boundary: none
Main exports: Stays, DriverKeeps, update_stays, delete_stays, create_ends, LeadsTo, foreign_apps_stand
-/
import Puter.App.AppDriver
import Puter.App.BatchedLookups
import Puter.App.SoundStore
import Puter.Hosting.IndexUrlCandidates

namespace Puter

open PosixPath StateRun

def AppDriverCall.caller {μ : Type} : AppDriverCall μ → AppCaller
  | .create caller _ _ _ _ | .update caller _ _ _ | .delete caller _ => caller

namespace AppDriver

variable {μ : Type} {env : AppDriverEnv μ} {caller : AppCaller} {s s' : AppDriverState μ} {row app : AppRecord μ}
  {ref : AppRef} {uid : Text} {inv : AppDriverState μ → Prop} {granted : AppRecord μ → Prop}

/-- What holds of the one state holds of the other. -/
def Stays (inv : AppDriverState μ → Prop) (s s' : AppDriverState μ) : Prop := inv s → inv s'

instance : IsPreorder (AppDriverState μ) (Stays inv) where
  refl _ := id
  trans _ _ _ first second := second ∘ first

section Lookups

theorem lookup_eq (key : AppKey) (s : AppDriverState μ) :
    lookup env key s =
      .ok (s.store.getByProperty env.store key).2 { s with store := (s.store.getByProperty env.store key).1 } := rfl

theorem resolve_cases (env : AppDriverEnv μ) (ref : AppRef) :
    (∃ uid, resolve env ref = getByUidWithAlias env uid) ∨ (∃ key, resolve env ref = lookup env key) ∨
      resolve env ref = pure none := by
  unfold resolve
  split
  · exact .inl ⟨_, rfl⟩
  · split
    · exact .inl ⟨_, rfl⟩
    · exact .inr (.inl ⟨_, rfl⟩)
    · exact .inr (.inl ⟨_, rfl⟩)
    · exact .inr (.inr rfl)
  · exact .inr (.inl ⟨_, rfl⟩)
  · exact .inl ⟨_, rfl⟩
  · exact .inr (.inr rfl)

theorem resolve_stays (looks : ∀ key, StateRun.Keeps (Stays inv) (lookup env key)) (ref : AppRef) :
    StateRun.Keeps (Stays inv) (resolve env ref) := by
  rcases resolve_cases env ref with ⟨uid, same⟩ | ⟨key, same⟩ | same
  · rw [same]
    unfold getByUidWithAlias
    refine .bind .get fun s => .bind (looks _) fun direct => ?_
    split
    · exact .pure _
    · exact looks _
    · exact .pure _
  · rw [same]
    exact looks _
  · rw [same]
    exact .pure _

/-- From this state, an app that is answered is a form of a row of the store. -/
def AnswersRow (s : AppDriverState μ) (body : DriverM μ (Option (AppRecord μ))) : Prop :=
  ∀ app s', body s = .ok (some app) s' → ∃ row ∈ s.store.table, StandsFor SameTexts app row

theorem lookup_answersRow (sound : StoreSound s.store) (key : AppKey) : AnswersRow s (lookup env key) := by
  intro app s' ran
  rw [lookup_eq] at ran
  injection ran with isFound
  obtain ⟨row, member, stands, -⟩ := sound.found isFound
  exact ⟨row, member, stands⟩

theorem getByUidWithAlias_answersRow (sound : StoreSound s.store) (uid : Text) :
    AnswersRow s (getByUidWithAlias env uid) := by
  intro app s' ran
  unfold getByUidWithAlias at ran
  obtain ⟨_, _, got, ran⟩ := bind_ok.mp ran
  obtain ⟨rfl, rfl⟩ := get_ok.mp got
  obtain ⟨direct, between, looked, ran⟩ := bind_ok.mp ran
  rw [lookup_eq] at looked
  injection looked with isDirect isState
  rw [← isState] at ran
  cases direct with
  | some found =>
      cases (pure_ok.mp ran).1
      exact lookup_answersRow sound _ _ _ (by rw [lookup_eq, isDirect])
  | none =>
      cases leads : (readCanonicalAppUidAlias s uid).filter (· ≠ uid) with
      | some canonicalUid =>
          simp only [leads] at ran
          obtain ⟨row, member, stands⟩ := lookup_answersRow (sound.getByProperty env.store _) _ _ _ ran
          rw [getByProperty_table] at member
          exact ⟨row, member, stands⟩
      | none =>
          simp only [leads] at ran
          cases (pure_ok.mp ran).1

theorem resolve_answersRow (sound : StoreSound s.store) (ref : AppRef) : AnswersRow s (resolve env ref) := by
  rcases resolve_cases env ref with ⟨uid, same⟩ | ⟨key, same⟩ | same
  · rw [same]
    exact getByUidWithAlias_answersRow sound _
  · rw [same]
    exact lookup_answersRow sound _
  · intro app s' ran
    rw [same] at ran
    cases (pure_ok.mp ran).1

theorem writableApp_ok (ran : writableApp env caller ref s = .ok app s') :
    resolve env ref s = .ok (some app) s' ∧ mayWrite caller app = true := by
  obtain ⟨found, between, resolved, ran⟩ := bind_ok.mp ran
  obtain ⟨_, _, isFound, ran⟩ := bind_ok.mp ran
  obtain ⟨rfl, rfl⟩ := orThrow_ok.mp isFound
  obtain ⟨_, _, allowed, ran⟩ := bind_ok.mp ran
  obtain ⟨isAllowed, rfl⟩ := refuseIf_ok.mp allowed
  obtain ⟨rfl, rfl⟩ := pure_ok.mp ran
  exact ⟨resolved, by simpa using isAllowed⟩

theorem writableApp_stays (looks : ∀ key, StateRun.Keeps (Stays inv) (lookup env key)) (ref : AppRef) :
    StateRun.Keeps (Stays inv) (writableApp env caller ref) :=
  .bind (resolve_stays looks ref) fun _ => .bind (.orThrow _ _) fun _ => .bind (.refuseIf _ _) fun _ => .pure _

end Lookups

section Calls

theorem ensureIndexUrlNotAlreadyInUse_stays (indexUrl : Text) (excludeAppId : ℕ) :
    StateRun.Keeps (Stays inv) (ensureIndexUrlNotAlreadyInUse env indexUrl excludeAppId) := by
  refine .bind .get fun s => ?_
  split
  · exact .throw _
  · exact .pure _

theorem ensurePuterSiteSubdomainIsOwned_stays (indexUrl : Text) :
    StateRun.Keeps (Stays inv) (ensurePuterSiteSubdomainIsOwned env caller indexUrl) := by
  unfold ensurePuterSiteSubdomainIsOwned
  split
  · exact .pure _
  · exact .refuseIf _ _

theorem refuseIf_stays {α : Type} {refused : Bool} {e : AppDriverError} {next : Unit → DriverM μ α}
    (rest : refused = false → StateRun.Keeps (Stays inv) (next ())) :
    StateRun.Keeps (Stays inv) (refuseIf refused e >>= next) := by
  cases refused with
  | true => exact fun s holds => holds
  | false => exact rest rfl

theorem then_ends {α β : Type} {first : DriverM μ α} {next : α → DriverM μ β} {after : AppDriverState μ → Prop}
    (weaker : ∀ s, inv s → after s) (holds : inv s) (keeps : StateRun.Keeps (Stays inv) first)
    (rest : ∀ a s', inv s' → after (finalState (next a s'))) : after (finalState ((first >>= next) s)) := by
  apply finalState_bind
  · intro e s' refused
    exact weaker s' (keeps.error refused holds)
  · intro a s' ran
    exact rest a s' (keeps.ok ran holds)

variable [DecidableEq μ]

/-- What the steps keep that the driver takes for a caller, where `granted` holds of the apps the caller may write. -/
structure DriverKeeps (env : AppDriverEnv μ) (caller : AppCaller) (inv : AppDriverState μ → Prop)
    (granted : AppRecord μ → Prop) : Prop where
  looks : ∀ key, StateRun.Keeps (Stays inv) (lookup env key)
  grants : ∀ ref s app s', inv s → resolve env ref s = .ok (some app) s' → mayWrite caller app = true → granted app
  edits : ∀ app patch, granted app →
    StateRun.Keeps (Stays inv) (inStore fun store => store.update env.store app.id patch)
  types : ∀ appId types,
    StateRun.Keeps (Stays inv) (inStore fun store => (store.setFiletypeAssociations env.store appId types, ()))
  claims : ∀ appId,
    StateRun.Keeps (Stays inv) (inStore fun store => ((store.claimOwnership env.store appId caller.userId).1, ()))
  deletes : ∀ app, granted app →
    StateRun.Keeps (Stays inv) (inStore fun store => ((store.delete env.store app.id).1, ()))
  retires : ∀ app target, granted app → StateRun.Keeps (Stays inv) (retireSource env app.uid target)

variable (kept : DriverKeeps env caller inv granted)

include kept

theorem writableApp_granted (holds : inv s) (ran : writableApp env caller ref s = .ok app s') :
    granted app ∧ inv s' := by
  obtain ⟨resolved, allowed⟩ := writableApp_ok ran
  exact ⟨kept.grants ref s app s' holds resolved allowed, (resolve_stays kept.looks ref).ok resolved holds⟩

theorem writeFields_stays (isGranted : granted app) (fields : AppFields μ) :
    StateRun.Keeps (Stays inv) (writeFields env app fields) := by
  refine .bind .get fun s => .bind (.refuseIf _ _) fun _ => .bind (.orThrow _ _) fun patch => ?_
  refine .bind (kept.edits app patch isGranted) fun written => .bind (.orThrow _ _) fun updated => ?_
  refine .bind ?_ fun _ => .orThrow _ _
  cases fields.filetypeAssociations with
  | none => exact .pure _
  | some types => exact kept.types app.id types

theorem appToJoin_stays (indexUrl : Text) (conflictRow : AppRecord μ) :
    StateRun.Keeps (Stays inv) (appToJoin env caller indexUrl conflictRow) := by
  refine .bind (.refuseIf _ _) fun _ => .bind (.runIf fun _ => kept.claims _) fun _ => .bind (kept.looks _) fun _ => ?_
  refine .bind (.orThrow _ _) fun app => .bind (.refuseIf _ _) fun _ => .bind (.refuseIf _ _) fun _ => ?_
  exact .bind (.refuseIf _ _) fun _ => .pure _

theorem maybeJoin_stays {again : AppRef → AppFields μ → DriverM μ (AppRecord μ)}
    (againStays : ∀ ref object, StateRun.Keeps (Stays inv) (again ref object)) {source : Option Text}
    (retires : ∀ uid target, source = some uid → StateRun.Keeps (Stays inv) (retireSource env uid target))
    (object : AppFields μ) (excludeAppId : ℕ) :
    StateRun.Keeps (Stays inv) (maybeJoinOwnedHostedIndexUrlApp env caller again object source excludeAppId) := by
  refine .bind .get fun s => ?_
  cases findIndexUrlConflictRow env s.store.table object.indexUrl excludeAppId with
  | none => exact .pure _
  | some conflictRow =>
      refine .bind (appToJoin_stays kept _ _) fun joined => ?_
      cases isSource : source.filter (· ≠ []) with
      | none => exact .bind (againStays _ _) fun app => .pure _
      | some uid =>
          have ends := retires uid joined.uid (Option.filter_eq_some_iff.mp isSource).1
          refine .bind (againStays _ _) fun app => .bind (.runIf fun _ => ends) fun _ => ?_
          split
          · exact .pure _
          · exact .bind (againStays _ _) fun renamed => .pure _

theorem updateWith_stays {again : AppRef → AppFields μ → DriverM μ (AppRecord μ)}
    (againStays : ∀ ref object, StateRun.Keeps (Stays inv) (again ref object)) (ref : AppRef) (object : AppFields μ) :
    StateRun.Keeps (Stays inv) (updateWith env caller again ref object) := by
  intro s holds
  apply finalState_bind
  · intro e s' refused
    exact (writableApp_stays kept.looks ref).error refused holds
  intro app s' ran
  obtain ⟨isGranted, still⟩ := writableApp_granted kept holds ran
  have merges :
      StateRun.Keeps (Stays inv) (maybeJoinOwnedHostedIndexUrlApp env caller again object (some app.uid) app.id) :=
    maybeJoin_stays kept againStays (by rintro _ target ⟨⟩; exact kept.retires app target isGranted) object app.id
  cases validateInput env object (some app) with
  | error error => exact still
  | ok fields =>
      dsimp only
      refine (?_ : StateRun.Keeps (Stays inv) _) s' still
      split
      · exact writeFields_stays kept isGranted fields
      · refine .bind (ensurePuterSiteSubdomainIsOwned_stays _) fun _ => .bind merges fun joined => ?_
        cases joined with
        | some joinedApp => exact .pure _
        | none =>
            exact .bind (ensureIndexUrlNotAlreadyInUse_stays _ _) fun _ => writeFields_stays kept isGranted fields

theorem update_stays (turns : ℕ) (ref : AppRef) (object : AppFields μ) :
    StateRun.Keeps (Stays inv) (update env caller turns ref object) := by
  induction turns generalizing ref object with
  | zero => exact .throw _
  | succ turns ih => exact updateWith_stays kept ih ref object

theorem delete_stays (ref : AppRef) : StateRun.Keeps (Stays inv) (delete env caller ref) := by
  intro s holds
  have resolves := resolve_stays kept.looks ref
  apply finalState_bind
  · intro e s' refused
    exact resolves.error refused holds
  intro found s₁ resolved
  have still := resolves.ok resolved holds
  cases found with
  | none => exact still
  | some app =>
      rw [bind_of_ok (orThrow_ok.mpr ⟨rfl, rfl⟩)]
      refine (refuseIf_stays fun _ => refuseIf_stays fun allowed => ?_ : StateRun.Keeps (Stays inv) _) s₁ still
      have isGranted := kept.grants ref s app s₁ holds resolved (by simpa using allowed)
      exact .bind (kept.deletes app isGranted) fun _ => .pure _

theorem create_ends {after : AppDriverState μ → Prop} {draw : AppDraw} (weaker : ∀ s, inv s → after s)
    (inserts : ∀ s patch, inv s → after
      { s with store := (s.store.create env.store draw.id draw.uuid patch caller.userId caller.appId).1 })
    (types : ∀ appId types,
      StateRun.Keeps (Stays after) (inStore fun store => (store.setFiletypeAssociations env.store appId types, ())))
    (turns : ℕ) (dedupeName : Bool) (object : AppFields μ) (holds : inv s) :
    after (finalState (create env caller turns draw dedupeName object s)) := by
  unfold create
  cases validateInput env object none with
  | error error => exact weaker s holds
  | ok fields =>
      refine then_ends weaker holds (ensurePuterSiteSubdomainIsOwned_stays _) fun _ s₁ holds₁ => ?_
      have merges : StateRun.Keeps (Stays inv)
          (maybeJoinOwnedHostedIndexUrlApp env caller (update env caller turns) object none 0) :=
        maybeJoin_stays kept (update_stays kept turns) (by rintro _ _ ⟨⟩) object 0
      refine then_ends weaker holds₁ merges fun joined s₂ holds₂ => ?_
      cases joined with
      | some joinedApp => exact weaker s₂ holds₂
      | none =>
      refine then_ends weaker holds₂ (ensureIndexUrlNotAlreadyInUse_stays _ _) fun _ s₃ holds₃ => ?_
      unfold insertApp
      rw [bind_of_ok (get_ok.mpr ⟨rfl, rfl⟩)]
      cases freeName s₃ fields.nameText dedupeName draw.suffixes with
      | error error => exact weaker s₃ holds₃
      | ok name =>
          apply finalState_bind
          · rintro e s' ⟨⟩
          rintro _ _ ⟨⟩
          refine (.bind (.orThrow _ _) fun app => .bind ?_ fun _ => .pure _ : StateRun.Keeps (Stays after) _) _
            (inserts s₃ _ holds₃)
          cases fields.filetypeAssociations with
          | none => exact .pure _
          | some given => exact types app.id given

end Calls

section Resolving

/-- What a uid is resolved to. -/
def resolved (env : AppDriverEnv μ) (s : AppDriverState μ) (uid : Text) : Option (AppRecord μ) :=
  match resolve env ⟨some uid, none⟩ s with
  | .ok app _ => app
  | .error _ _ => none

/-- A uid is resolved to a form of a row. -/
def LeadsTo (env : AppDriverEnv μ) (s : AppDriverState μ) (uid : Text) (row : AppRecord μ) : Prop :=
  ∃ app, resolved env s uid = some app ∧ StandsFor SameTexts app row

theorem resolved_eq (given : uid ≠ []) :
    resolved env s uid =
      match (s.store.getByProperty env.store (.uid uid)).2, (readCanonicalAppUidAlias s uid).filter (· ≠ uid) with
      | some app, _ => some app
      | none, some target =>
          ((s.store.getByProperty env.store (.uid uid)).1.getByProperty env.store (.uid target)).2
      | none, none => none := by
  have isUid : (some uid).filter (· ≠ []) = some uid := by simp [given]
  simp only [resolved, resolve, isUid]
  unfold getByUidWithAlias
  rw [bind_of_ok (get_ok.mpr ⟨rfl, rfl⟩), bind_of_ok (lookup_eq _ _)]
  cases (s.store.getByProperty env.store (.uid uid)).2 with
  | some app => rfl
  | none =>
      cases (readCanonicalAppUidAlias s uid).filter (· ≠ uid) with
      | some target => rfl
      | none => rfl

theorem leadsTo_own (sound : StoreSound s.store) (member : row ∈ s.store.table) : LeadsTo env s row.uid row := by
  have isKey : row.matches (.uid row.uid) = true := by simp [AppRecord.matches]
  obtain ⟨app, isFound, stands⟩ := sound.finds env.store (by simp) member isKey
  refine ⟨app, ?_, stands⟩
  rw [resolved_eq (sound.named row member), isFound]

end Resolving

section Foreign

/-- The app is there, up to the app that owns it. -/
structure Stands (row : AppRecord μ) (s : AppDriverState μ) : Prop where
  sound : StoreSound s.store
  there : ∃ left ∈ s.store.table, SameApp left row

theorem inStore_stands {α : Type} {call : AppStoreState μ → AppStoreState μ × α}
    (keeps : ∀ store, StoreSound store → StoreSound (call store).1 ∧
      ∀ other ∈ store.table, SameApp other row → ∃ left ∈ (call store).1.table, SameApp left row) :
    StateRun.Keeps (Stays (Stands row)) (inStore call) := by
  rintro s ⟨sound, other, member, same⟩
  exact ⟨(keeps s.store sound).1, (keeps s.store sound).2 other member same⟩

theorem remains {other : AppRecord μ} {table : List (AppRecord μ)} {appId : ℕ} (same : SameApp other row)
    (member : other ∈ table) (apart : row.id ≠ appId) : ∃ left ∈ remainingTable table appId, SameApp left row := by
  obtain ⟨left, isLeft, isOther⟩ := mem_remainingTable member (same.id ▸ apart)
  exact ⟨left, isLeft, isOther.id.trans same.id, isOther.uid.trans same.uid, isOther.name.trans same.name,
    isOther.owner.trans same.owner, isOther.columns.trans same.columns, isOther.createdAt.trans same.createdAt⟩

variable [DecidableEq μ]

theorem retireSource_final (env : AppDriverEnv μ) (sound : StoreSound s.store) (source target : Text) :
    ∃ store : AppStoreState μ, ∃ reverse,
      finalState (retireSource env source target s) =
        ⟨store, (writeCanonicalAppUidAlias source target s).canonicalUidAlias, reverse⟩ ∧ StoreSound store ∧
      (source ∉ s.store.table.map (·.uid) ∧ store.table = s.store.table ∨
        ∃ row ∈ s.store.table, row.uid = source ∧ store.table = remainingTable s.store.table row.id) := by
  have looked := sound.getByProperty env.store (.uid source)
  have table := getByProperty_table env.store s.store (.uid source)
  have sameStore : (writeCanonicalAppUidAlias source target s).store = s.store := by
    unfold writeCanonicalAppUidAlias
    split <;> rfl
  have ran : (modify (writeCanonicalAppUidAlias source target) : DriverM μ PUnit) s =
      .ok ⟨⟩ (writeCanonicalAppUidAlias source target s) := rfl
  unfold retireSource
  rw [bind_of_ok ran, bind_of_ok (lookup_eq _ _), sameStore]
  cases isFound : (s.store.getByProperty env.store (.uid source)).2 with
  | none =>
      refine ⟨_, _, rfl, looked, .inl ⟨fun there => ?_, table⟩⟩
      obtain ⟨row, member, rfl⟩ := List.mem_map.mp there
      have isKey : row.matches (.uid row.uid) = true := by simp [AppRecord.matches]
      obtain ⟨app, found, -⟩ := sound.finds env.store (by simp) member isKey
      rw [isFound] at found
      cases found
  | some sourceApp =>
      obtain ⟨row, member, stands, isKey⟩ := sound.found isFound
      obtain ⟨deleted, left⟩ := looked.delete env.store sourceApp.id
      rw [table, if_pos ⟨row, member, stands.id.symm⟩] at left
      have isUid : row.uid = source := by simpa [AppRecord.matches] using isKey (by simp)
      exact ⟨_, _, rfl, deleted, .inr ⟨row, member, isUid, left.trans (by rw [stands.id])⟩⟩

theorem foreign_keeps (apart : some caller.userId ≠ row.ownerUserId) (owned : row.ownerUserId ≠ none)
    (plain : caller.writesAll = false) :
    DriverKeeps env caller (Stands row) fun app => row.id ≠ app.id ∧ row.uid ≠ app.uid where
  looks key := by
    refine inStore_stands fun store sound => ⟨sound.getByProperty env.store key, fun other member same => ?_⟩
    rw [getByProperty_table]
    exact ⟨other, member, same⟩
  grants ref s app s' holds resolved allowed := by
    obtain ⟨other, member, same⟩ := holds.there
    obtain ⟨found, isFound, stands⟩ := resolve_answersRow holds.sound ref _ _ resolved
    have isOwner : app.ownerUserId = some caller.userId := by
      unfold mayWrite at allowed
      rw [plain, Bool.or_false] at allowed
      split at allowed
      · simpa using allowed
      · exact (by simpa using allowed : _ ∧ _).2
    have differ : other ≠ found := by
      rintro rfl
      apply apart
      rw [← isOwner, stands.form.owner, same.owner]
    rw [stands.id, stands.uid]
    refine ⟨fun isId => differ ?_, fun isUid => differ ?_⟩
    · exact List.inj_on_of_nodup_map holds.sound.unique.ids member isFound (same.id.trans isId)
    · exact List.inj_on_of_nodup_map holds.sound.unique.uids member isFound (same.uid.trans isUid)
  edits app patch isGranted := by
    refine inStore_stands fun store sound => ?_
    obtain ⟨updated, -, others⟩ := sound.update app.id patch
    refine ⟨updated, fun other member same => ⟨other, others other member ?_, same⟩⟩
    rw [same.id]
    exact isGranted.1
  types appId types := inStore_stands fun store sound =>
    ⟨sound.same rfl rfl, fun other member same => ⟨other, member, same⟩⟩
  claims appId := by
    refine inStore_stands fun store sound => ?_
    obtain ⟨claimed, -, others⟩ := sound.claimOwnership appId caller.userId
    refine ⟨claimed, fun other member same => ⟨other, others other member ?_, same⟩⟩
    rw [same.owner]
    exact owned
  deletes app isGranted := by
    refine inStore_stands fun store sound => ?_
    obtain ⟨deleted, left⟩ := sound.delete env.store app.id
    refine ⟨deleted, fun other member same => ?_⟩
    rw [left]
    split
    · exact remains same member isGranted.1
    · exact ⟨other, member, same⟩
  retires app target isGranted := by
    rintro s ⟨sound, other, member, same⟩
    obtain ⟨store, reverse, final, still, ⟨-, table⟩ | ⟨source, isSource, isUid, table⟩⟩ :=
      retireSource_final env sound app.uid target
    · rw [final]
      exact ⟨still, other, table ▸ member, same⟩
    · rw [final]
      refine ⟨still, ?_⟩
      rw [table]
      apply remains same member
      intro isId
      apply isGranted.2
      rw [← isUid, ← List.inj_on_of_nodup_map sound.unique.ids member isSource (same.id.trans isId)]
      exact same.uid.symm

theorem inserted_stands (holds : Stands row s) (id : ℕ) (uuid : Text) (patch : AppPatch μ) (userId : ℕ)
    (appId : Option ℕ) : Stands row { s with store := (s.store.create env.store id uuid patch userId appId).1 } := by
  obtain ⟨other, member, same⟩ := holds.there
  obtain ⟨sound, created⟩ := holds.sound.create env.store id uuid patch userId appId
  refine ⟨sound, other, ?_, same⟩
  rcases created with table | ⟨new, -, table⟩
  · exact table ▸ member
  · exact table ▸ List.mem_append_left _ member

/-- No run of calls by other users, who may not write every app, changes or deletes the app of a user: it keeps its id,
    uid, name, owner and columns, and its uid leads to it. -/
theorem foreign_apps_stand {start : AppDriverState μ} {calls : List (AppDriverCall μ)} (sound : StoreSound start.store)
    (member : row ∈ start.store.table) (owned : row.ownerUserId ≠ none)
    (others : ∀ call ∈ calls, call.caller.writesAll = false ∧ some call.caller.userId ≠ row.ownerUserId) :
    ∃ left ∈ (start.run env calls).store.table, SameApp left row ∧ LeadsTo env (start.run env calls) row.uid left := by
  have ends : Stands row (start.run env calls) := by
    have holds : Stands row start := ⟨sound, row, member, rfl, rfl, rfl, rfl, rfl, rfl⟩
    clear sound member
    induction calls generalizing start with
    | nil => exact holds
    | cons call calls ih =>
        obtain ⟨⟨plain, apart⟩, rest⟩ := List.forall_mem_cons.mp others
        have kept : DriverKeeps env call.caller (Stands row) _ := foreign_keeps apart owned plain
        refine ih rest ?_
        cases call with
        | create caller turns draw dedupeName object =>
            exact create_ends kept (fun _ => id) (fun s patch holds => inserted_stands holds _ _ _ _ _) kept.types turns
              dedupeName object holds
        | update caller turns ref object => exact update_stays kept turns ref object start holds
        | delete caller ref => exact delete_stays kept ref start holds
  obtain ⟨left, isLeft, same⟩ := ends.there
  refine ⟨left, isLeft, same, ?_⟩
  rw [← same.uid]
  exact leadsTo_own ends.sound isLeft

end Foreign

section Examples

/-- URLs are the ones of hosts under `https`. -/
def sampleDriver : AppDriverEnv ℕ where
  store := sqliteApps
  parseHost := plainHosts
  readUrl url := some ⟨"https:".toList, url.drop 8, url.drop 8, ['/']⟩
  hosting := sampleHosting
  appOriginAliases := []
  reservedUrls := []
  validateRest := .ok
  timeOf _ := 0

def siteUrl (site : Char) : Text := "https://".toList ++ site :: ".p.io".toList

def siteApp (id : ℕ) (site : Char) (ownerUserId : Option ℕ) : AppRecord ℕ where
  id := id
  uid := "app-".toList ++ [site]
  name := [site]
  ownerUserId := ownerUserId
  appOwner := none
  columns column := if column = .indexUrl then .text (siteUrl site) else .text [site]
  createdAt := none

/-- The app of a user, and two apps of sites that nobody owns yet. -/
def threeSites : AppDriverState ℕ :=
  ⟨{ noApps with table := [siteApp 1 'a' (some 7), siteApp 2 'b' none, siteApp 3 'c' none] }, fun _ => none,
    fun _ => []⟩

/-- An update by the user, who owns the sites, to the URL of another site. -/
def moveTo (app site : Char) : AppDriverCall ℕ :=
  .update ⟨7, none, false, fun _ => some 7⟩ 3 ⟨some ("app-".toList ++ [app]), none⟩
    ⟨none, fun column => if column = .indexUrl then some (.text (siteUrl site)) else none, none⟩

theorem threeSites_sound : StoreSound threeSites.store :=
  ⟨⟨by decide +kernel, by decide +kernel, by decide +kernel⟩, (fun _ _ held => by cases held), by decide +kernel⟩

/-- Another user deletes the app in vain. -/
theorem foreign_apps_stand_delete :
    ∃ left ∈ (threeSites.run sampleDriver
        [.delete ⟨8, none, false, fun _ => none⟩ ⟨some (siteApp 1 'a' (some 7)).uid, none⟩]).store.table,
      SameApp left (siteApp 1 'a' (some 7)) ∧
        LeadsTo sampleDriver (threeSites.run sampleDriver
          [.delete ⟨8, none, false, fun _ => none⟩ ⟨some (siteApp 1 'a' (some 7)).uid, none⟩])
          (siteApp 1 'a' (some 7)).uid left :=
  foreign_apps_stand threeSites_sound (by decide +kernel) (by decide +kernel) (by simp [AppDriverCall.caller, siteApp])

end Examples

end AppDriver

end Puter

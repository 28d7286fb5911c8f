/-
Module: Puter.App.OldNames
Purpose: Names of apps over a run of the store. A name leads to the app that has it, and without one to the app that
  had it last, as long as that app exists; for each name the redirects hold that app and no other.
Trusted boundary: none
Main exports: formerHolders, names_resolve
-/
import Puter.App.BatchedLookups

namespace Puter

open FanOutCache AppStoreState

variable {μ : Type} {env : AppEnv μ} {s : AppStoreState μ} {row : AppRecord μ} {former : Text → Option Text}
  {deadline : ℕ}

/-- The uid of the app that gave up a name last, behind a change of the table: none where an app has the name or that
    app is gone. -/
def formerHolders (before after : List (AppRecord μ)) (former : Text → Option Text) (name : Text) : Option Text :=
  if ∃ row ∈ after, row.name = name then none
  else
    (((before.find? (·.matches (.name name))).map AppRecord.uid).or (former name)).filter fun uid =>
      ∃ row ∈ after, row.uid = uid

def formerHoldersOver [DecidableEq μ] (env : AppEnv μ) : AppStoreState μ → (Text → Option Text) →
    List (AppCall μ) → Text → Option Text
  | _, former, [] => former
  | s, former, call :: calls =>
      let next := s.perform env call
      formerHoldersOver env next (formerHolders s.table next.table former) calls

def NamesResolve (env : AppEnv μ) (s : AppStoreState μ) (former : Text → Option Text) : Prop :=
  ∀ name, (s.getByProperty env (.name name)).2 =
    ((s.select (.name name)).or ((former name).bind fun uid => s.select (.uid uid))).map (normalizeAppRow env)

/-- What is cached of an app reads as its current row, and the redirects of a name are one to its former holder, and
    in time until the deadline. -/
structure NamesKept (env : AppEnv μ) (deadline : ℕ) (s : AppStoreState μ) (former : Text → Option Text) : Prop where
  unique : UniqueApps s.table
  settled : ∀ row ∈ s.table, Settled env row
  named : ∀ row ∈ s.table, row.uid ≠ [] ∧ row.name ≠ []
  rows : RowsKept (fun cached row => normalizeAppRow env cached = normalizeAppRow env row) s
  live : ∀ row ∈ s.table, former row.name = none
  exist : ∀ name uid, former name = some uid → ∃ row ∈ s.table, row.uid = uid
  redirects : ∀ name, (s.oldNames.filter (·.name = name)).map (·.appUid) = (former name).toList
  timely : ∀ old ∈ s.oldNames, deadline ≤ old.timestamp + env.oldNameLifetime
  inTime : s.now ≤ deadline
  lasting : deadline ≤ s.now + env.oldNameLifetime

namespace NamesKept

theorem same {t : AppStoreState μ} (kept : NamesKept env deadline s former) (sameTable : t.table = s.table)
    (sameNames : t.oldNames = s.oldNames) (now : s.now ≤ t.now) (inTime : t.now ≤ deadline)
    (rows : RowsKept (fun cached row => normalizeAppRow env cached = normalizeAppRow env row) t) :
    NamesKept env deadline t former where
  unique := by rw [sameTable]; exact kept.unique
  settled := by rw [sameTable]; exact kept.settled
  named := by rw [sameTable]; exact kept.named
  rows := rows
  live := by rw [sameTable]; exact kept.live
  exist := by rw [sameTable]; exact kept.exist
  redirects := by rw [sameNames]; exact kept.redirects
  timely := by rw [sameNames]; exact kept.timely
  inTime := inTime
  lasting := by
    have lasting := kept.lasting
    omega

theorem no_redirect (kept : NamesKept env deadline s former) {name : Text} (free : former name = none) :
    ∀ old ∈ s.oldNames, old.name ≠ name := by
  intro old member isName
  have listed : old.appUid ∈ (s.oldNames.filter (·.name = name)).map (·.appUid) :=
    List.mem_map_of_mem (List.mem_filter.mpr ⟨member, decide_eq_true isName⟩)
  rw [kept.redirects name, free] at listed
  cases listed

theorem resolveByOldName_eq (kept : NamesKept env deadline s former) (name : Text) :
    s.resolveByOldName env name =
      (s, ((former name).bind fun uid => s.select (.uid uid)).map (normalizeAppRow env)) := by
  have inTime : (s.oldNames.filter fun old =>
      ¬ (old.name = name ∧ old.timestamp + env.oldNameLifetime < s.now)) = s.oldNames := by
    apply List.filter_eq_self.mpr
    intro old member
    have lasts := kept.timely old member
    have now := kept.inTime
    apply decide_eq_true
    rintro ⟨-, tooOld⟩
    omega
  have redirected : s.redirected name = ((s.oldNames.filter (·.name = name)).filterMap fun old =>
      (s.select (.uid old.appUid)).map fun row => (old.timestamp, row)).insertionSort
        fun one other => other.1 ≤ one.1 := rfl
  have held := kept.redirects name
  simp only [resolveByOldName, inTime, redirected]
  generalize s.oldNames.filter (·.name = name) = entries at held
  cases isFormer : former name with
  | none =>
      rw [isFormer] at held
      rw [List.map_eq_nil_iff.mp held]
      rfl
  | some uid =>
      rw [isFormer] at held
      obtain ⟨old, rfl, rfl⟩ := List.map_eq_singleton_iff.mp held
      cases selected : s.select (.uid old.appUid) <;> simp [selected]

theorem resolves (kept : NamesKept env deadline s former) : NamesResolve env s former := by
  intro name
  have read : (s.readFromDb env (.name name)).2 =
      ((s.select (.name name)).or ((former name).bind fun uid => s.select (.uid uid))).map (normalizeAppRow env) := by
    cases selected : s.select (.name name) with
    | some row => simp only [readFromDb, selected, Option.some_or, Option.map_some]
    | none => simp only [readFromDb, selected, Option.none_or, kept.resolveByOldName_eq]
  rcases getByProperty_cases env (s := s) (.name name) with
    ⟨cached, held, isState⟩ | ⟨-, isRead, isState⟩ | ⟨-, row, -, isRead, isState⟩
  · obtain ⟨⟨row, member, stands⟩, isKey⟩ := kept.rows _ _ held
    rw [stands.keys, ← matches_iff_mem_cacheKeys] at isKey
    rw [isState, (select_eq_some kept.unique).mpr ⟨member, isKey⟩]
    exact congrArg some stands.form
  · rw [isState, ← read, isRead]
  · rw [isState, ← read, isRead]

theorem getByProperty (kept : NamesKept env deadline s former) (key : AppKey) :
    NamesKept env deadline (s.getByProperty env key).1 former := by
  have sameNames : (s.readFromDb env key).1.oldNames = s.oldNames := by
    unfold readFromDb
    split
    · rfl
    · rw [kept.resolveByOldName_eq]
    · rfl
  have state := getByProperty_state env s key
  apply kept.same (getByProperty_table env s key)
  · rcases getByProperty_cases env (s := s) key with ⟨cached, -, isState⟩ | ⟨-, -, isState⟩ | ⟨-, row, -, -, isState⟩
    · rw [isState]
    · rw [isState]
      exact sameNames
    · rw [isState]
      exact sameNames
  · rw [state]
  · rw [state]
    exact kept.inTime
  · exact kept.rows.getByProperty kept.settled key

end NamesKept

section Holders

variable {before after : List (AppRecord μ)} {name : Text}

theorem formerHolders_taken (taken : ∃ row ∈ after, row.name = name) : formerHolders before after former name = none :=
  if_pos taken

theorem formerHolders_free (free : ∀ row ∈ before, row.name ≠ name) (stays : ∀ row ∈ after, row.name ≠ name) :
    formerHolders before after former name = (former name).filter fun uid => ∃ row ∈ after, row.uid = uid := by
  have absent : before.find? (·.matches (.name name)) = none := by
    rw [List.find?_eq_none]
    simpa [AppRecord.matches] using free
  rw [formerHolders, if_neg (by simpa using stays), absent]
  rfl

theorem formerHolders_given (unique : UniqueApps before) (member : row ∈ before)
    (given : ∀ other ∈ after, other.name ≠ row.name) :
    formerHolders before after former row.name =
      (some row.uid).filter fun uid => ∃ other ∈ after, other.uid = uid := by
  have found : before.find? (·.matches (.name row.name)) = some row :=
    (select_eq_some (s := ⟨before, [], [], fun _ => none, fun _ => none, fun _ => none, 0⟩) unique).mpr
      ⟨member, by simp [AppRecord.matches]⟩
  rw [formerHolders, if_neg (by simpa using given), found]
  rfl

theorem exists_of_map_eq {β : Type} {property : AppRecord μ → β} {value : β}
    (same : after.map property = before.map property) :
    (∃ row ∈ after, property row = value) ↔ ∃ row ∈ before, property row = value := by
  rw [← List.mem_map, ← List.mem_map, same]

theorem formerHolders_congr (before : List (AppRecord μ)) {other : List (AppRecord μ)} (names : after.map (·.name) = other.map (·.name))
    (uids : after.map (·.uid) = other.map (·.uid)) :
    formerHolders before after former = formerHolders before other former := by
  funext name
  simp only [formerHolders, exists_of_map_eq names, exists_of_map_eq uids]

theorem NamesKept.filter_former (kept : NamesKept env deadline s former)
    (remain : ∀ row ∈ s.table, ∃ other ∈ after, other.uid = row.uid) (name : Text) :
    ((former name).filter fun uid => ∃ other ∈ after, other.uid = uid) = former name := by
  cases isFormer : former name with
  | none => rfl
  | some uid =>
      obtain ⟨row, member, rfl⟩ := kept.exist name uid isFormer
      have isThere := remain row member
      simp [isThere]

theorem NamesKept.formerHolders_same (kept : NamesKept env deadline s former)
    (names : after.map (·.name) = s.table.map (·.name)) (uids : after.map (·.uid) = s.table.map (·.uid)) :
    formerHolders s.table after former = former := by
  rw [formerHolders_congr _ names uids]
  funext name
  by_cases live : ∃ row ∈ s.table, row.name = name
  · rw [formerHolders_taken live]
    obtain ⟨row, member, rfl⟩ := live
    exact (kept.live row member).symm
  · push Not at live
    rw [formerHolders_free live live, kept.filter_former fun row member => ⟨row, member, rfl⟩]

theorem NamesKept.formerHolders_inserted (kept : NamesKept env deadline s former) (row : AppRecord μ) :
    formerHolders s.table (s.table ++ [row]) former = fun name => if row.name = name then none else former name := by
  have remain : ∀ other ∈ s.table, ∃ found ∈ s.table ++ [row], found.uid = other.uid :=
    fun other member => ⟨other, List.mem_append_left _ member, rfl⟩
  funext name
  by_cases isName : row.name = name
  · rw [if_pos isName, formerHolders_taken ⟨row, by simp, isName⟩]
  · rw [if_neg isName]
    by_cases live : ∃ other ∈ s.table, other.name = name
    · obtain ⟨other, member, rfl⟩ := live
      rw [formerHolders_taken ⟨other, List.mem_append_left _ member, rfl⟩, kept.live other member]
    · push Not at live
      have notLive : ∀ other ∈ s.table ++ [row], other.name ≠ name := by
        intro other member
        rcases List.mem_append.mp member with isOld | isNew
        · exact live other isOld
        · rw [List.mem_singleton.mp isNew]
          exact isName
      rw [formerHolders_free live notLive, kept.filter_former remain]

theorem NamesKept.formerHolders_renamed (kept : NamesKept env deadline s former) {allowed : AppPatch μ}
    (member : row ∈ s.table) (isName : allowed.name = some name) (renames : name ≠ row.name) :
    formerHolders s.table (s.updatedTable row.id allowed) former =
      fun other => if name = other then none else if row.name = other then some row.uid else former other := by
  have isPatched : row.patched allowed ∈ s.updatedTable row.id allowed :=
    mem_updatedTable.mpr (.inr ⟨row, member, rfl, rfl⟩)
  have newName : (row.patched allowed).name = name := by simp [AppRecord.patched, isName]
  have holders : ∀ holder ∈ s.updatedTable row.id allowed,
      holder.name = name ∨ holder ∈ s.table ∧ holder.id ≠ row.id := by
    intro holder isHolder
    rcases mem_updatedTable.mp isHolder with others | ⟨old, isOld, sameId, rfl⟩
    · exact .inr others
    · rw [List.inj_on_of_nodup_map kept.unique.ids isOld member sameId]
      exact .inl newName
  have others : ∀ other ∈ s.table, other.id ≠ row.id → other ∈ s.updatedTable row.id allowed :=
    fun other isOther differs => mem_updatedTable.mpr (.inl ⟨isOther, differs⟩)
  have remain : ∀ other ∈ s.table, ∃ found ∈ s.updatedTable row.id allowed, found.uid = other.uid := by
    intro other isOther
    by_cases sameId : other.id = row.id
    · rw [List.inj_on_of_nodup_map kept.unique.ids isOther member sameId]
      exact ⟨_, isPatched, rfl⟩
    · exact ⟨other, others other isOther sameId, rfl⟩
  funext other
  by_cases isNew : name = other
  · rw [if_pos isNew, formerHolders_taken ⟨_, isPatched, newName.trans isNew⟩]
  rw [if_neg isNew]
  by_cases isOld : row.name = other
  · rw [if_pos isOld, ← isOld, formerHolders_given kept.unique member]
    · have isThere := remain row member
      simp [isThere]
    · intro holder isHolder isHeld
      rcases holders holder isHolder with isNewName | ⟨inTable, differs⟩
      · exact renames (isNewName.symm.trans isHeld)
      · exact differs (congrArg AppRecord.id
          (List.inj_on_of_nodup_map kept.unique.names inTable member isHeld))
  · rw [if_neg isOld]
    by_cases live : ∃ holder ∈ s.table, holder.name = other
    · obtain ⟨holder, isHolder, rfl⟩ := live
      have differs : holder.id ≠ row.id := by
        intro sameId
        rw [List.inj_on_of_nodup_map kept.unique.ids isHolder member sameId] at isOld
        exact isOld rfl
      rw [formerHolders_taken ⟨holder, others holder isHolder differs, rfl⟩, kept.live holder isHolder]
    · push Not at live
      have notLive : ∀ holder ∈ s.updatedTable row.id allowed, holder.name ≠ other := by
        intro holder isHolder isHeld
        rcases holders holder isHolder with isNewName | ⟨inTable, -⟩
        · exact isNew (isNewName.symm.trans isHeld)
        · exact live holder inTable isHeld
      rw [formerHolders_free live notLive, kept.filter_former remain]

theorem NamesKept.formerHolders_deleted (kept : NamesKept env deadline s former) (member : row ∈ s.table)
    (remain : ∀ other, other ∈ after ↔ other ∈ s.table ∧ other.id ≠ row.id) :
    formerHolders s.table after former = fun name => (former name).filter (· ≠ row.uid) := by
  have uidsRemain : ∀ uid, (∃ other ∈ after, other.uid = uid) ↔
      (∃ other ∈ s.table, other.uid = uid) ∧ uid ≠ row.uid := by
    intro uid
    constructor
    · rintro ⟨other, isOther, rfl⟩
      obtain ⟨inTable, differs⟩ := (remain other).mp isOther
      refine ⟨⟨other, inTable, rfl⟩, fun same => differs ?_⟩
      exact congrArg AppRecord.id (List.inj_on_of_nodup_map kept.unique.uids inTable member same)
    · rintro ⟨⟨other, inTable, rfl⟩, differs⟩
      refine ⟨other, (remain other).mpr ⟨inTable, fun same => differs ?_⟩, rfl⟩
      exact congrArg AppRecord.uid (List.inj_on_of_nodup_map kept.unique.ids inTable member same)
  funext name
  by_cases live : ∃ other ∈ after, other.name = name
  · rw [formerHolders_taken live]
    obtain ⟨other, isOther, rfl⟩ := live
    rw [kept.live other ((remain other).mp isOther).1]
    rfl
  push Not at live
  by_cases isName : row.name = name
  · -- The name was the app's own, so nobody had given it up.
    subst isName
    rw [formerHolders_given kept.unique member live, kept.live row member]
    simp only [uidsRemain]
    simp
  · have free : ∀ other ∈ s.table, other.name ≠ name := by
      intro other isOther isHeld
      have differs : other.id ≠ row.id := by
        intro sameId
        rw [List.inj_on_of_nodup_map kept.unique.ids isOther member sameId] at isHeld
        exact isName isHeld
      exact live other ((remain other).mpr ⟨isOther, differs⟩) isHeld
    rw [formerHolders_free free live]
    simp only [uidsRemain]
    cases isFormer : former name with
    | none => rfl
    | some uid =>
        have isThere := kept.exist name uid isFormer
        simp [isThere, Option.filter_some]

end Holders

section Calls

/-- What is asked of the calls: names are not empty, columns read the same a second time, nothing is cached of the rows
    that lose their owner with an app that is deleted, and the time is in the lifetime of the redirects. Names that are
    not created or renamed, and owners and filetypes, are no part of this. -/
def KeepsNames (env : AppEnv μ) (deadline : ℕ) (s : AppStoreState μ) : AppCall μ → Prop
  | .lookup _ | .getByIds _ | .getByUids _ | .expire _ => True
  | .elapse time => s.now + time ≤ deadline
  | .create _ _ fields _ _ => fields.name ≠ some [] ∧ ReadsAgain env (filterEditable env fields)
  | .update appId patch =>
      ∀ row, s.select (.id appId) = some row → patch.name ≠ some [] ∧ ReadsAgain env (filterEditable env patch)
  | .delete appId =>
      ∀ row ∈ s.table, row.appOwner = some appId → row.id ≠ appId → ∀ key ∈ cacheKeysForApp row, s.rows key = none
  | _ => False

theorem merged_reads_same {allowed : AppPatch μ} (settled : Settled env row) :
    normalizeAppRow env (mergedRow env row allowed) = normalizeAppRow env (row.patched allowed) := by
  have columns : (normalizeAppRow env (mergedRow env row allowed)).columns =
      (normalizeAppRow env (row.patched allowed)).columns := by
    funext column
    simp only [mergedRow, AppRecord.patched, normalizeAppRow]
    cases given : allowed.columns column with
    | some value => rfl
    | none => exact settled_iff.mp settled column
  have isName : (mergedRow env row allowed).name = (row.patched allowed).name := by
    simp only [mergedRow, AppRecord.patched, normalizeAppRow]
    cases allowed.name <;> rfl
  have parts : normalizeAppRow env (mergedRow env row allowed) =
      { normalizeAppRow env (row.patched allowed) with
        name := (mergedRow env row allowed).name
        columns := (normalizeAppRow env (mergedRow env row allowed)).columns } := rfl
  rw [parts, columns, isName]
  rfl

theorem NamesKept.getManyByProperty (kept : NamesKept env deadline s former) (keyOf : AppRecord μ → AppKey)
    (keys : List AppKey) : NamesKept env deadline (s.getManyByProperty env keyOf keys).1 former := by
  rw [AppStoreState.getManyByProperty]
  have chunks := fun missing result => kept.rows.readChunks keyOf kept.settled (List.length missing) missing result
  apply kept.same (chunks _ _).1
  · rw [readChunks_state]
  · rw [readChunks_state]
  · rw [readChunks_state]
    exact kept.inTime
  · exact (chunks _ _).2

theorem NamesKept.inserted (kept : NamesKept env deadline s former) {t : AppStoreState μ}
    (unique : UniqueApps (s.table ++ [row])) (settled : Settled env row) (named : row.uid ≠ [] ∧ row.name ≠ [])
    (isTable : t.table = s.table ++ [row]) (isNames : t.oldNames = s.oldNames.filter (·.name ≠ row.name))
    (now : t.now = s.now)
    (rows : RowsKept (fun cached row => normalizeAppRow env cached = normalizeAppRow env row) t) :
    NamesKept env deadline t (formerHolders s.table t.table former) := by
  have isFormer := kept.formerHolders_inserted row
  rw [← isTable] at unique isFormer
  have split : ∀ other ∈ t.table, other ∈ s.table ∨ other = row := by
    intro other member
    rw [isTable] at member
    simpa using member
  rw [isFormer]
  exact {
    unique := unique
    settled := by
      intro other member
      rcases split other member with isOld | rfl
      · exact kept.settled other isOld
      · exact settled
    named := by
      intro other member
      rcases split other member with isOld | rfl
      · exact kept.named other isOld
      · exact named
    rows := rows
    live := by
      intro other member
      rcases split other member with isOld | rfl
      · simp [kept.live other isOld]
      · simp
    exist := by
      intro name uid isUid
      simp only [ite_eq_iff, reduceCtorEq, and_false, false_or] at isUid
      obtain ⟨other, member, isOther⟩ := kept.exist name uid isUid.2
      rw [isTable]
      exact ⟨other, List.mem_append_left _ member, isOther⟩
    redirects := by
      intro name
      rw [isNames, List.filter_filter]
      by_cases isName : row.name = name
      · subst isName
        simp
      · rw [if_neg isName, ← kept.redirects name]
        congr 1
        apply List.filter_congr
        intro old _
        have differs : old.name = name → old.name ≠ row.name := fun same taken => isName (taken.symm.trans same)
        simpa using differs
    timely := by
      intro old member
      rw [isNames] at member
      exact kept.timely old (List.mem_filter.mp member).1
    inTime := by
      rw [now]
      exact kept.inTime
    lasting := by
      rw [now]
      exact kept.lasting }

theorem NamesKept.oldNamesAfter_eq (kept : NamesKept env deadline s former) {allowed : AppPatch μ} {name : Text}
    (member : row ∈ s.table) (named : name ≠ []) (renames : renamedTo row allowed = some name) :
    oldNamesAfter s row allowed = (s.oldNames ++ [OldAppName.mk row.uid row.name s.now]).filter (·.name ≠ name) := by
  have isNamed := kept.named row member
  have unrecorded : ¬ (s.oldNames.any fun old => old.appUid = row.uid ∧ old.name = row.name) = true := by
    rw [Bool.not_eq_true, List.any_eq_false]
    intro old isOld
    have differs := kept.no_redirect (kept.live row member) old isOld
    simp [differs]
  have recorded : s.recordOldAppName row.uid row.name =
      { s with oldNames := s.oldNames ++ [OldAppName.mk row.uid row.name s.now] } := by
    rw [recordOldAppName, if_neg (by simp [isNamed]), if_neg unrecorded]
  rw [oldNamesAfter, renames]
  simp only [recorded, clearOldAppNamesForName, if_neg named]

variable [DecidableEq μ]

theorem NamesKept.updated (kept : NamesKept env deadline s former) {allowed : AppPatch μ} (member : row ∈ s.table)
    (unique : UniqueApps (s.updatedTable row.id allowed)) (named : allowed.name ≠ some [])
    (again : ReadsAgain env allowed) :
    NamesKept env deadline (updatedState env s row allowed)
      (formerHolders s.table (updatedState env s row allowed).table former) := by
  have settledRow := kept.settled row member
  have rows := kept.rows.updated allowed member kept.unique (merged_reads_same settledRow)
  have isTable : (updatedState env s row allowed).table = s.updatedTable row.id allowed := rfl
  have split : ∀ other ∈ s.updatedTable row.id allowed,
      other ∈ s.table ∧ other.id ≠ row.id ∨ other = row.patched allowed := by
    intro other isOther
    rcases mem_updatedTable.mp isOther with others | ⟨old, isOld, sameId, rfl⟩
    · exact .inl others
    · rw [List.inj_on_of_nodup_map kept.unique.ids isOld member sameId]
      exact .inr rfl
  have settled : ∀ other ∈ s.updatedTable row.id allowed, Settled env other := by
    intro other isOther
    rcases split other isOther with ⟨isOld, -⟩ | rfl
    · exact kept.settled other isOld
    · exact patched_settled settledRow again
  have isNamed : ∀ other ∈ s.updatedTable row.id allowed, other.uid ≠ [] ∧ other.name ≠ [] := by
    intro other isOther
    rcases split other isOther with ⟨isOld, -⟩ | rfl
    · exact kept.named other isOld
    · refine ⟨(kept.named row member).1, ?_⟩
      cases given : allowed.name with
      | none => simpa [AppRecord.patched, given] using (kept.named row member).2
      | some name => simpa [AppRecord.patched, given] using fun same => named (given.trans (congrArg some same))
  have uids : (s.updatedTable row.id allowed).map (·.uid) = s.table.map (·.uid) := by
    rw [updatedTable, List.map_map]
    apply List.map_congr_left
    intro other _
    simp only [Function.comp]
    split <;> rfl
  have remain : ∀ other ∈ s.table, ∃ found ∈ s.updatedTable row.id allowed, found.uid = other.uid := by
    intro other isOther
    have isUid : other.uid ∈ (s.updatedTable row.id allowed).map (·.uid) := by
      rw [uids]
      exact List.mem_map_of_mem isOther
    exact List.mem_map.mp isUid
  rw [isTable]
  cases renames : renamedTo row allowed with
  | none =>
      have sameName : (row.patched allowed).name = row.name := by
        rw [renamedTo, Option.filter_eq_none_iff] at renames
        cases given : allowed.name with
        | none => simp [AppRecord.patched, given]
        | some name => simpa [AppRecord.patched, given] using renames name given
      have names : (s.updatedTable row.id allowed).map (·.name) = s.table.map (·.name) := by
        rw [updatedTable, List.map_map]
        apply List.map_congr_left
        intro other isOther
        simp only [Function.comp]
        split
        · next sameId =>
            rw [List.inj_on_of_nodup_map kept.unique.ids isOther member sameId]
            exact sameName
        · rfl
      have sameRedirects : (updatedState env s row allowed).oldNames = s.oldNames := by
        simp [updatedState, oldNamesAfter, renames]
      rw [kept.formerHolders_same names uids]
      exact {
        unique := unique
        settled := settled
        named := isNamed
        rows := rows
        live := by
          intro other isOther
          rcases split other isOther with ⟨isOld, -⟩ | rfl
          · exact kept.live other isOld
          · rw [sameName]
            exact kept.live row member
        exist := by
          intro name uid isUid
          obtain ⟨other, isOther, rfl⟩ := kept.exist name uid isUid
          exact remain other isOther
        redirects := by
          rw [sameRedirects]
          exact kept.redirects
        timely := by
          rw [sameRedirects]
          exact kept.timely
        inTime := kept.inTime
        lasting := kept.lasting }
  | some name =>
      obtain ⟨given, differs⟩ := Option.filter_eq_some_iff.mp renames
      have differs : name ≠ row.name := by simpa using differs
      have notEmpty : name ≠ [] := fun same => named (given.trans (congrArg some same))
      have isRedirects : (updatedState env s row allowed).oldNames =
          (s.oldNames ++ [OldAppName.mk row.uid row.name s.now]).filter (·.name ≠ name) :=
        kept.oldNamesAfter_eq member notEmpty renames
      have newName : (row.patched allowed).name = name := by simp [AppRecord.patched, given]
      rw [kept.formerHolders_renamed member given differs]
      exact {
        unique := unique
        settled := settled
        named := isNamed
        rows := rows
        live := by
          intro other isOther
          rcases split other isOther with ⟨isOld, others⟩ | rfl
          · have notRow : row.name ≠ other.name := fun same => others
              (congrArg AppRecord.id (List.inj_on_of_nodup_map kept.unique.names isOld member same.symm))
            simp [kept.live other isOld, notRow]
          · simp [newName]
        exist := by
          intro other uid isUid
          simp only [ite_eq_iff, reduceCtorEq, and_false, false_or, Option.some.injEq] at isUid
          rcases isUid.2 with ⟨-, rfl⟩ | ⟨-, isUid⟩
          · exact remain row member
          · obtain ⟨found, isFound, rfl⟩ := kept.exist other uid isUid
            exact remain found isFound
        redirects := by
          intro other
          have held := kept.redirects other
          rw [isRedirects, List.filter_filter]
          by_cases isNew : name = other
          · subst isNew
            simp
          · have sameFilter : ∀ old : OldAppName, (decide (old.name = other) && decide (old.name ≠ name)) =
                decide (old.name = other) := by
              intro old
              have notNew : old.name = other → old.name ≠ name := fun same taken => isNew (taken.symm.trans same)
              simpa using notNew
            simp only [sameFilter, List.filter_append, List.map_append, held, if_neg isNew]
            by_cases isOld : row.name = other
            · rw [if_pos isOld, ← isOld, kept.live row member]
              simp
            · simp [isOld]
        timely := by
          intro old isOld
          rw [isRedirects] at isOld
          rcases List.mem_append.mp (List.mem_filter.mp isOld).1 with before | isNew
          · exact kept.timely old before
          · rw [List.mem_singleton.mp isNew]
            exact kept.lasting
        inTime := kept.inTime
        lasting := kept.lasting }

theorem NamesKept.deleted (kept : NamesKept env deadline s former) (member : row ∈ s.table) (app : AppRecord μ)
    (isId : app.id = row.id) (isUid : app.uid = row.uid) (isName : app.name = row.name)
    (uncached : ∀ other ∈ s.table, other.appOwner = some row.id → other.id ≠ row.id →
      ∀ key ∈ cacheKeysForApp other, s.rows key = none) :
    NamesKept env deadline ((s.deleteRow app).invalidate app)
      (formerHolders s.table ((s.deleteRow app).invalidate app).table former) := by
  let remaining := s.table.filter (·.id ≠ app.id)
  have isTable : ((s.deleteRow app).invalidate app).table = remaining.map fun row =>
      if row.appOwner = some app.id then { row with appOwner := none } else row := rfl
  have remain : ∀ other, other ∈ remaining ↔ other ∈ s.table ∧ other.id ≠ row.id := by
    intro other
    rw [List.mem_filter, isId, decide_eq_true_eq]
  have rows := kept.rows.deleted kept.unique member isId isUid isName fun other isOther owned differs key isKey
    cached held _ => absurd (held.symm.trans (uncached other isOther owned differs key isKey)) (by simp)
  have names := map_owners AppRecord.name (fun _ => rfl) remaining app.id
  have uids := map_owners AppRecord.uid (fun _ => rfl) remaining app.id
  have ids := map_owners AppRecord.id (fun _ => rfl) remaining app.id
  rw [← isTable] at names uids ids
  have isFormer : formerHolders s.table _ former = _ := formerHolders_congr s.table names uids
  rw [kept.formerHolders_deleted member remain] at isFormer
  have split : ∀ other ∈ ((s.deleteRow app).invalidate app).table, ∃ old ∈ s.table, old.id ≠ row.id ∧
      other.uid = old.uid ∧ other.name = old.name ∧ (Settled env old → Settled env other) := by
    intro other isOther
    rw [isTable] at isOther
    obtain ⟨old, isOld, rfl⟩ := List.mem_map.mp isOther
    obtain ⟨inTable, differs⟩ := (remain old).mp isOld
    refine ⟨old, inTable, differs, ?_⟩
    split
    · refine ⟨rfl, rfl, fun settled => ?_⟩
      have normal := settled_iff.mp settled
      exact settled_iff.mpr normal
    · exact ⟨rfl, rfl, id⟩
  have nodup : ∀ {β : Type} {property : AppRecord μ → β}, (s.table.map property).Nodup →
      (remaining.map property).Nodup :=
    fun once => once.sublist (List.filter_sublist.map _)
  rw [isFormer]
  exact {
    unique := ⟨ids ▸ nodup kept.unique.ids, uids ▸ nodup kept.unique.uids, names ▸ nodup kept.unique.names⟩
    settled := by
      intro other isOther
      obtain ⟨old, isOld, -, -, -, settled⟩ := split other isOther
      exact settled (kept.settled old isOld)
    named := by
      intro other isOther
      obtain ⟨old, isOld, -, sameUid, sameName, -⟩ := split other isOther
      rw [sameUid, sameName]
      exact kept.named old isOld
    rows := rows
    live := by
      intro other isOther
      obtain ⟨old, isOld, -, -, sameName, -⟩ := split other isOther
      rw [sameName, kept.live old isOld]
      rfl
    exist := by
      intro name uid isUid
      obtain ⟨isHolder, differs⟩ := Option.filter_eq_some_iff.mp isUid
      obtain ⟨other, isOther, rfl⟩ := kept.exist name uid isHolder
      have stays : other ∈ remaining := by
        rw [remain]
        refine ⟨isOther, fun sameId => ?_⟩
        rw [List.inj_on_of_nodup_map kept.unique.ids isOther member sameId] at differs
        simp at differs
      have isListed : other.uid ∈ ((s.deleteRow app).invalidate app).table.map (·.uid) := by
        rw [uids]
        exact List.mem_map_of_mem stays
      exact List.mem_map.mp isListed
    redirects := by
      intro name
      have held := congrArg (List.filter (· ≠ row.uid)) (kept.redirects name)
      have isRedirects : ((s.deleteRow app).invalidate app).oldNames = s.oldNames.filter (·.appUid ≠ row.uid) := by
        rw [← isUid]
        rfl
      rw [isRedirects, List.filter_comm, Option.toList_filter, ← held, List.filter_map]
      rfl
    timely := fun old isOld => kept.timely old (List.mem_filter.mp isOld).1
    inTime := kept.inTime
    lasting := kept.lasting }

theorem perform_keepsNames (call : AppCall μ) (kept : NamesKept env deadline s former)
    (meets : KeepsNames env deadline s call) :
    NamesKept env deadline (s.perform env call) (formerHolders s.table (s.perform env call).table former) := by
  have unchanged : formerHolders s.table s.table former = former := kept.formerHolders_same rfl rfl
  cases call with
  | lookup key =>
      rw [perform, getByProperty_table, unchanged]
      exact kept.getByProperty key
  | getByIds ids =>
      have after := kept.getManyByProperty (fun app => AppKey.id app.id) (ids.map .id)
      have sameTable : (s.getByIds env ids).1.table = s.table := by
        rw [getByIds, AppStoreState.getManyByProperty, readChunks_state]
      rw [perform, sameTable, unchanged]
      exact after
  | getByUids uids =>
      have after := kept.getManyByProperty (fun app => AppKey.uid app.uid) (uids.map .uid)
      have sameTable : (s.getByUids env uids).1.table = s.table := by
        rw [getByUids, AppStoreState.getManyByProperty, readChunks_state]
      rw [perform, sameTable, unchanged]
      exact after
  | expire keys =>
      rw [perform, unchanged]
      exact kept.same rfl rfl le_rfl kept.inTime (kept.rows.drop_same keys)
  | elapse time =>
      rw [perform, unchanged]
      exact kept.same rfl rfl (Nat.le_add_right _ _) meets kept.rows
  | create id uuid fields ownerUserId appOwner =>
      rw [perform]
      rcases create_eq kept.rows id uuid fields ownerUserId appOwner with
        isState | ⟨row, name, given, isRow, accepted, isState⟩
      · rw [isState, unchanged]
        exact kept
      · have settled : Settled env row := by
          rw [isRow]
          exact created_settled _ _ _ _ _ meets.2
        have isName : row.name = name := by rw [isRow]; rfl
        have named : row.uid ≠ [] ∧ row.name ≠ [] := by
          refine ⟨by rw [isRow]; simp [createdRow], ?_⟩
          rw [isName]
          exact fun same => meets.1 (given.trans (congrArg some same))
        rw [isState]
        apply kept.inserted (accepts_unique accepted) settled named
        · rw [clearOldAppNamesForName_state]
          rfl
        · rw [isName] at named ⊢
          simp [clearOldAppNamesForName, named.2, invalidateListCachesForApps, writeCache]
        · rw [clearOldAppNamesForName_state]
          rfl
        · rw [clearOldAppNamesForName_state]
          exact (kept.rows.inserted row (settled)).same rfl rfl
  | update appId patch =>
      rw [perform]
      rcases update_cases env kept.unique appId patch with isState | isState | ⟨row, selected, unique, isState⟩
      · rw [isState, getByProperty_table, unchanged]
        exact kept.getByProperty _
      · rw [isState, unchanged]
        exact kept
      · have member := ((select_eq_some kept.unique).mp selected).1
        rw [isState]
        exact kept.updated member unique (meets row selected).1 (meets row selected).2
  | delete appId =>
      rw [perform]
      rcases delete_cases kept.rows kept.unique appId with isState | ⟨row, member, found, isId, stands, isState⟩
      · rw [isState, getByProperty_table, unchanged]
        exact kept.getByProperty _
      · subst isId
        have after := kept.getByProperty (.id row.id)
        have sameTable := getByProperty_table env s (.id row.id)
        have keys : found.id = row.id ∧ found.uid = row.uid ∧ found.name = row.name := by
          rcases stands with stands | rfl
          · exact ⟨stands.id, stands.uid, stands.name⟩
          · exact ⟨rfl, rfl, rfl⟩
        have uncached : ∀ other ∈ (s.getByProperty env (.id row.id)).1.table, other.appOwner = some row.id →
            other.id ≠ row.id → ∀ key ∈ cacheKeysForApp other, (s.getByProperty env (.id row.id)).1.rows key = none := by
          intro other isOther owned differs
          rw [sameTable] at isOther
          exact getByProperty_uncached kept.unique isOther differs (meets other isOther owned differs)
        have isMember : row ∈ (s.getByProperty env (.id row.id)).1.table := by
          rw [sameTable]
          exact member
        have deleted := after.deleted isMember (normalizeAppRow env found) keys.1 keys.2.1 keys.2.2 uncached
        rw [sameTable] at deleted
        rw [isState]
        exact deleted
  | createFromOrigin => cases meets
  | claimOwnership => cases meets
  | list => cases meets
  | getAppsByFiletype => cases meets
  | setFiletypeAssociations => cases meets

/-- In a run of such calls, names resolve to their holders and then to their last holders. -/
theorem names_resolve (env : AppEnv μ) (s : AppStoreState μ) (cold : s.rows = fun _ => none)
    (unique : UniqueApps s.table) (settled : ∀ row ∈ s.table, Settled env row)
    (named : ∀ row ∈ s.table, row.uid ≠ [] ∧ row.name ≠ []) (first : s.oldNames = []) (calls : List (AppCall μ))
    (meets : EachMeets env (KeepsNames env (s.now + env.oldNameLifetime)) s calls) :
    NamesResolve env (s.run env calls) (formerHoldersOver env s (fun _ => none) calls) := by
  have kept : NamesKept env (s.now + env.oldNameLifetime) s fun _ => none := {
    unique := unique
    settled := settled
    named := named
    rows := by
      rw [RowsKept, cold]
      exact Cache.Faithful.empty
    live := fun _ _ => rfl
    exist := fun _ _ isUid => by cases isUid
    redirects := fun _ => by rw [first]; rfl
    timely := fun _ member => by rw [first] at member; cases member
    inTime := Nat.le_add_right _ _
    lasting := le_rfl }
  generalize s.now + env.oldNameLifetime = deadline at kept meets
  generalize (fun _ => none : Text → Option Text) = former at kept ⊢
  clear cold unique settled named first
  induction calls generalizing s former with
  | nil => exact kept.resolves
  | cons call calls inductionHypothesis =>
      exact inductionHypothesis _ meets.2 _ (perform_keepsNames call kept meets.1)

end Calls

section Examples

def onlyName (name : String) : AppPatch ℕ := ⟨some name.toList, fun _ => none⟩

theorem names_resolve_renamed :
    NamesResolve sqliteApps (noApps.run sqliteApps [.create 1 "1".toList (titledApp "editor") 7 none,
      .update 1 (onlyName "writer"), .lookup (.name "editor".toList), .elapse 3])
      (formerHoldersOver sqliteApps noApps (fun _ => none) [.create 1 "1".toList (titledApp "editor") 7 none,
        .update 1 (onlyName "writer"), .lookup (.name "editor".toList), .elapse 3]) := by
  apply names_resolve sqliteApps noApps rfl ⟨by simp [noApps], by simp [noApps], by simp [noApps]⟩
  · simp [noApps]
  · simp [noApps]
  · rfl
  · refine ⟨⟨by simp [titledApp], titledApp_readsAgain _⟩, ?_, trivial, ?_, trivial⟩
    · intro row _
      refine ⟨by simp [onlyName], ?_⟩
      intro column value given
      cases column <;> cases given
    · change _ ≤ _
      decide +kernel

/-- The app that an app had as its owner is deleted, and a lookup by name still answers it as the owner. -/
theorem deleted_owner_stays :
    ¬ NamesResolve sqliteApps (noApps.run sqliteApps [.create 1 "1".toList (titledApp "editor") 7 none,
      .create 2 "2".toList (titledApp "plugin") 7 (some 1), .delete 1])
      (formerHoldersOver sqliteApps noApps (fun _ => none) [.create 1 "1".toList (titledApp "editor") 7 none,
        .create 2 "2".toList (titledApp "plugin") 7 (some 1), .delete 1]) := by
  intro resolves
  have same := congrArg (Option.map AppRecord.appOwner) (resolves "plugin".toList)
  have differ : (((noApps.run sqliteApps [.create 1 "1".toList (titledApp "editor") 7 none,
      .create 2 "2".toList (titledApp "plugin") 7 (some 1), .delete 1]).getByProperty sqliteApps
        (.name "plugin".toList)).2.map AppRecord.appOwner) = some (some 1) := by decide +kernel
  rw [differ] at same
  revert same
  decide +kernel

end Examples

end Puter

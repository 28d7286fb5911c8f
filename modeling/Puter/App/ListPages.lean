/-
Module: Puter.App.ListPages
Purpose: Pages of apps and lists of apps by filetype against the tables. A cached page goes when an app is presented
  that its clause selects, so each change of the table has to present the row before and behind it; lists by filetype
  go with the associations of their type only.
Trusted boundary: none
Main exports: ListingsAgree, PagesKept, listings_agree
-/
import Puter.App.BatchedLookups

namespace Puter

open FanOutCache AppStoreState PosixPath

variable {μ : Type} {env : AppEnv μ} {s : AppStoreState μ} {row app : AppRecord μ} {filters other : ListFilters}

section Keys

namespace ListFilters

def clauseTexts (owner creator name after : Bool) : List Text :=
  (if owner then ["`owner_user_id` = ?".toList] else []) ++ (if creator then ["`app_owner` = ?".toList] else []) ++
    (if name then ["`name` = ?".toList] else []) ++ (if after then ["`id` > ?".toList] else [])

def comparedColumns (owner creator name after : Bool) : List (Option Text) :=
  (if owner then [some "owner_user_id".toList] else []) ++ (if creator then [some "app_owner".toList] else []) ++
    (if name then [some "name".toList] else []) ++ (if after then [none] else [])

theorem conditions_texts (filters : ListFilters) :
    (filters.conditions (μ := μ)).map Prod.fst =
      clauseTexts filters.ownerUserId.isSome filters.appOwner.isSome filters.name.isSome filters.afterId.isSome := by
  rcases filters with ⟨_ | owner, _ | creator, _ | name, _ | after, limit, offset⟩ <;> rfl

theorem clause_reparsed : ∀ owner creator name after : Bool, clauseTexts owner creator name after ≠ [] →
    "WHERE ".toList.isPrefixOf (whereClause (clauseTexts owner creator name after)) = true ∧
    (splitText " AND ".toList
      (((whereClause (clauseTexts owner creator name after)).drop 5).dropWhile isSpace)).map ListKey.equalColumn =
        comparedColumns owner creator name after := by
  decide +kernel

theorem whereClause_eq_nil : ∀ owner creator name after : Bool,
    whereClause (clauseTexts owner creator name after) = [] ↔ clauseTexts owner creator name after = [] := by
  decide +kernel

theorem whereClause_injective : ∀ owner creator name after owner' creator' name' after' : Bool,
    whereClause (clauseTexts owner creator name after) = whereClause (clauseTexts owner' creator' name' after') →
      owner = owner' ∧ creator = creator' ∧ name = name' ∧ after = after' := by
  decide +kernel

end ListFilters

open ListFilters

theorem given_alike {α : Type} {one two : Option α} (same : one.isSome = two.isSome) :
    (one = none ∧ two = none) ∨ ∃ a b, one = some a ∧ two = some b := by
  cases one <;> cases two <;> simp_all

theorem select_of_cacheKey (same : filters.cacheKey (μ := μ) = other.cacheKey) (table : List (AppRecord μ)) :
    filters.select table = other.select table := by
  have clauses : whereClause ((filters.conditions (μ := μ)).map Prod.fst) =
      whereClause ((other.conditions (μ := μ)).map Prod.fst) := congrArg ListKey.whereClause same
  have params : (filters.conditions (μ := μ)).map Prod.snd = other.conditions.map Prod.snd :=
    congrArg ListKey.params same
  have limits : filters.limit.getD 500 = other.limit.getD 500 := congrArg ListKey.limit same
  have offsets : filters.offset.getD 0 = other.offset.getD 0 := congrArg ListKey.offset same
  rw [conditions_texts, conditions_texts] at clauses
  obtain ⟨owners, creators, names, afters⟩ := whereClause_injective _ _ _ _ _ _ _ _ clauses
  have alike : filters.ownerUserId = other.ownerUserId ∧ filters.appOwner = other.appOwner ∧
      filters.name = other.name ∧ filters.afterId = other.afterId := by
    simp only [conditions] at params
    rcases given_alike owners with ⟨one, two⟩ | ⟨_, _, one, two⟩ <;>
    rcases given_alike creators with ⟨oneCreator, twoCreator⟩ | ⟨_, _, oneCreator, twoCreator⟩ <;>
    rcases given_alike names with ⟨oneName, twoName⟩ | ⟨_, _, oneName, twoName⟩ <;>
    rcases given_alike afters with ⟨oneAfter, twoAfter⟩ | ⟨_, _, oneAfter, twoAfter⟩ <;>
    simp_all
  have selected : filters.selects (μ := μ) = other.selects := by
    funext row
    simp only [selects, alike]
  rw [ListFilters.select, ListFilters.select, selected, limits, offsets]

variable [DecidableEq μ]

theorem matchesApp_iff (filters : ListFilters) (app : AppRecord μ) :
    filters.cacheKey.matchesApp app = true ↔ filters.afterId ≠ none ∨ filters.selects app = true := by
  have texts := conditions_texts (μ := μ) filters
  have parsed := clause_reparsed filters.ownerUserId.isSome filters.appOwner.isSome filters.name.isSome
    filters.afterId.isSome
  have empty := whereClause_eq_nil filters.ownerUserId.isSome filters.appOwner.isSome filters.name.isSome
    filters.afterId.isSome
  simp only [ListKey.matchesApp, cacheKey, texts, empty]
  by_cases none_given : clauseTexts filters.ownerUserId.isSome filters.appOwner.isSome filters.name.isSome
      filters.afterId.isSome = []
  · rw [if_pos none_given]
    rcases filters with ⟨_ | owner, _ | creator, _ | name, _ | after, limit, offset⟩ <;>
      simp_all [clauseTexts, selects]
  · obtain ⟨isClause, columns⟩ := parsed none_given
    rw [if_neg none_given, if_pos isClause, columns]
    have field_owner : app.field "owner_user_id".toList = some (.ofId app.ownerUserId) := rfl
    have field_creator : app.field "app_owner".toList = some (.ofId app.appOwner) := rfl
    have field_name : app.field "name".toList = some (.text app.name) := rfl
    have ofId_eq : ∀ (id : Option ℕ) (n : ℕ), ColumnValue.ofId (μ := μ) id = .number n ↔ id = some n := by
      intro id n
      cases id <;> simp [ColumnValue.ofId]
    clear texts parsed empty none_given isClause columns
    simp only [comparedColumns]
    generalize "owner_user_id".toList = ownerColumn at field_owner ⊢
    generalize "app_owner".toList = creatorColumn at field_creator ⊢
    generalize "name".toList = nameColumn at field_name ⊢
    rcases filters with ⟨_ | owner, _ | creator, _ | name, _ | after, limit, offset⟩ <;>
      simp [conditions, selects, field_owner, field_creator, field_name, ofId_eq, and_assoc]

end Keys

section Pages

variable {table table' : List (AppRecord μ)} {pages pages' : Cache (ListKey μ) (List (AppRecord μ))}

def PagesHold (env : AppEnv μ) (table : List (AppRecord μ)) (pages : Cache (ListKey μ) (List (AppRecord μ))) : Prop :=
  ∀ filters : ListFilters, ∀ cached, pages filters.cacheKey = some cached →
    cached = (filters.select table).map (normalizeAppRow env)

theorem selects_normalize : filters.selects (normalizeAppRow env row) = filters.selects row := rfl

theorem filter_map_selects {change : AppRecord μ → AppRecord μ}
    (others : ∀ row ∈ table, change row ≠ row → filters.selects row = false ∧ filters.selects (change row) = false) :
    (table.map change).filter filters.selects = table.filter filters.selects := by
  induction table with
  | nil => rfl
  | cons row table ih =>
      have rest := ih fun other member => others other (List.mem_cons_of_mem _ member)
      rw [List.map_cons, List.filter_cons, List.filter_cons, rest]
      by_cases same : change row = row
      · rw [same]
      · obtain ⟨before, behind⟩ := others row List.mem_cons_self same
        simp [before, behind]

variable [DecidableEq μ]

theorem PagesHold.presented (hold : PagesHold env table pages) (apps : List (AppRecord μ))
    (dropped : ∀ key cached, pages' key = some cached →
      pages key = some cached ∧ ∀ app ∈ apps, key.matchesApp app = false)
    (stays : ∀ filters : ListFilters, pages filters.cacheKey ≠ none →
      (∀ app ∈ apps, filters.cacheKey.matchesApp app = false) →
        table'.filter filters.selects = table.filter filters.selects) : PagesHold env table' pages' := by
  intro filters cached held
  obtain ⟨before, unmatched⟩ := dropped _ _ held
  have isThere : pages filters.cacheKey ≠ none := by simp [before]
  rw [hold filters cached before, ListFilters.select, ListFilters.select, stays filters isThere unmatched]

theorem invalidateListCachesForApps_some {key : ListKey μ} {cached : List (AppRecord μ)}
    (held : (s.invalidateListCachesForApps [some app]).lists key = some cached) :
    s.lists key = some cached ∧ ∀ presented ∈ [app], key.matchesApp presented = false := by
  simp only [invalidateListCachesForApps, List.any_cons, List.any_nil, Option.any_some, Bool.or_false] at held
  split at held
  · cases held
  · next unmatched => exact ⟨held, by simpa using unmatched⟩

theorem not_selects (unmatched : filters.cacheKey.matchesApp app = false) :
    filters.afterId = none ∧ filters.selects app = false := by
  have isMatched := (matchesApp_iff filters app).not.mp (by simp [unmatched])
  push Not at isMatched
  exact ⟨isMatched.1, by simpa using isMatched.2⟩

end Pages

section Types

/-- A type in normal form, with and without a dot before it. -/
structure NormalType (env : AppEnv μ) (ext : Text) : Prop where
  notEmpty : ext ≠ []
  bare : normalizeFiletype env ext = ext
  dotted : normalizeFiletype env ('.' :: ext) = ext

def appsOfType (env : AppEnv μ) (s : AppStoreState μ) (ext : Text) : List (AppRecord μ) :=
  (distinctApps (s.selectByFiletype ext)).map (normalizeAppRow env)

def ofType (ext : Text) (association : ℕ × Text) : Bool := association.2 = ext ∨ association.2 = '.' :: ext

def TypesHold (env : AppEnv μ) (s : AppStoreState μ) : Prop :=
  ∀ ext cached, s.byFiletype ext = some cached → NormalType env ext ∧ cached = appsOfType env s ext

def Unlisted (s : AppStoreState μ) (id : ℕ) : Prop :=
  ∀ ext cached, s.byFiletype ext = some cached → ∀ app ∈ cached, app.id ≠ id

theorem selectByFiletype_eq (s : AppStoreState μ) (ext : Text) :
    s.selectByFiletype ext = (s.filetypes.filter (ofType ext)).filterMap fun association => s.select (.id association.1) := by
  rw [selectByFiletype, List.filterMap_filter]
  apply List.filterMap_congr
  intro association _
  simp only [ofType, decide_eq_true_eq]

theorem mem_distinctApps {rows : List (AppRecord μ)} (member : row ∈ rows) : ∃ app ∈ distinctApps rows, app.id = row.id := by
  induction rows with
  | nil => cases member
  | cons first rows ih =>
      rw [distinctApps]
      by_cases same : row.id = first.id
      · exact ⟨first, List.mem_cons_self, same.symm⟩
      · rcases List.mem_cons.mp member with rfl | isLater
        · exact absurd rfl same
        · obtain ⟨app, isApp, isId⟩ := ih isLater
          refine ⟨app, List.mem_cons_of_mem _ (List.mem_filter.mpr ⟨isApp, ?_⟩), isId⟩
          rw [isId]
          exact decide_eq_true same

theorem map_distinctApps (rows : List (AppRecord μ)) :
    (distinctApps rows).map (normalizeAppRow env) = distinctApps (rows.map (normalizeAppRow env)) := by
  induction rows with
  | nil => rfl
  | cons row rows ih =>
      rw [distinctApps, List.map_cons, List.map_cons, distinctApps, ← ih, List.filter_map]
      rfl

theorem appsOfType_congr (env : AppEnv μ) {t : AppStoreState μ} {ext : Text}
    (associations : t.filetypes.filter (ofType ext) = s.filetypes.filter (ofType ext))
    (apps : ∀ association ∈ s.filetypes, ofType ext association = true →
      (t.select (.id association.1)).map (normalizeAppRow env) =
        (s.select (.id association.1)).map (normalizeAppRow env)) :
    appsOfType env t ext = appsOfType env s ext := by
  rw [appsOfType, appsOfType, map_distinctApps, map_distinctApps, selectByFiletype_eq, selectByFiletype_eq,
    associations, List.map_filterMap, List.map_filterMap]
  congr 1
  apply List.filterMap_congr
  intro association member
  obtain ⟨isThere, isOfType⟩ := List.mem_filter.mp member
  exact apps association isThere isOfType

theorem ofType_self_of_normal {ext : Text} {association : ℕ × Text} (normal : NormalType env ext)
    (isOfType : ofType ext association = true) : normalizeFiletype env association.2 = ext := by
  simp only [ofType, decide_eq_true_eq] at isOfType
  rcases isOfType with same | dotted
  · rw [same]
    exact normal.bare
  · rw [dotted]
    exact normal.dotted

theorem TypesHold.listed (hold : TypesHold env s) {ext : Text} {cached : List (AppRecord μ)}
    (held : s.byFiletype ext = some cached) {association : ℕ × Text} (member : association ∈ s.filetypes)
    (isOfType : ofType ext association = true) (selected : s.select (.id association.1) = some row) :
    ∃ app ∈ cached, app.id = row.id := by
  have inQuery : row ∈ s.selectByFiletype ext := by
    rw [selectByFiletype_eq]
    exact List.mem_filterMap.mpr ⟨association, List.mem_filter.mpr ⟨member, isOfType⟩, selected⟩
  obtain ⟨app, isApp, isId⟩ := mem_distinctApps inQuery
  rw [(hold ext cached held).2]
  exact ⟨normalizeAppRow env app, List.mem_map_of_mem isApp, isId⟩

theorem TypesHold.changed (hold : TypesHold env s) {t : AppStoreState μ} (lists : t.byFiletype = s.byFiletype)
    (associations : ∀ ext, s.byFiletype ext ≠ none →
      t.filetypes.filter (ofType ext) = s.filetypes.filter (ofType ext))
    (apps : ∀ ext, s.byFiletype ext ≠ none → ∀ association ∈ s.filetypes, ofType ext association = true →
      (t.select (.id association.1)).map (normalizeAppRow env) =
        (s.select (.id association.1)).map (normalizeAppRow env)) : TypesHold env t := by
  intro ext cached held
  rw [lists] at held
  have isThere : s.byFiletype ext ≠ none := by simp [held]
  obtain ⟨normal, isList⟩ := hold ext cached held
  refine ⟨normal, isList.trans (appsOfType_congr env (associations ext isThere) (apps ext isThere)).symm⟩

end Types

section Calls

def SameOwners (cached row : AppRecord μ) : Prop :=
  cached.ownerUserId = row.ownerUserId ∧ (cached.appOwner = row.appOwner ∨ row.appOwner = none)

/-- Lists and pages answer what their queries select from the tables. -/
structure ListingsAgree [DecidableEq μ] (env : AppEnv μ) (s : AppStoreState μ) : Prop where
  pages : ∀ filters, (s.list env filters).2 = (filters.select s.table).map (normalizeAppRow env)
  types : ∀ extension, (s.getAppsByFiletype env extension).2 =
    if normalizeFiletype env extension = [] then [] else appsOfType env s (normalizeFiletype env extension)

/-- The caches hold what the queries select, and the apps of associations are there. -/
structure PagesKept [DecidableEq μ] (env : AppEnv μ) (s : AppStoreState μ) : Prop where
  unique : UniqueApps s.table
  settled : ∀ row ∈ s.table, Settled env row
  rows : RowsKept SameOwners s
  pages : PagesHold env s.table s.lists
  types : TypesHold env s
  known : ∀ association ∈ s.filetypes, ∃ row ∈ s.table, row.id = association.1

def claimed (row : AppRecord μ) (userId : ℕ) : AppRecord μ := { row with ownerUserId := some userId }

/-- What is asked of the calls: columns read the same a second time; an app that changes, for an update that does not
    read the same, is in no cached list of a type, and neither is one that loses its owner with an app that is
    deleted; pages that select such a one select the deleted app too; an app that is claimed is not cached, or no
    cached page of its new owner selects it; types are in normal form, and associations are of apps that are there. -/
def KeepsPages [DecidableEq μ] (env : AppEnv μ) (s : AppStoreState μ) : AppCall μ → Prop
  | .create _ _ fields _ _ => ReadsAgain env (filterEditable env fields)
  | .update appId patch =>
      ∀ row, s.select (.id appId) = some row → ReadsAgain env (filterEditable env patch) ∧
        (normalizeAppRow env (row.patched (filterEditable env patch)) = normalizeAppRow env row ∨ Unlisted s appId)
  | .delete appId =>
      ∀ row, s.select (.id appId) = some row → Unlisted s appId ∧
        ∀ child ∈ s.table, child.appOwner = some appId → child.id ≠ appId → Unlisted s child.id ∧
          ∀ filters : ListFilters, s.lists filters.cacheKey ≠ none → filters.selects child = true →
            filters.afterId ≠ none ∨ filters.selects row = true
  | .claimOwnership appId userId =>
      ∀ row, s.select (.id appId) = some row → row.ownerUserId = none → appId ≠ 0 → userId ≠ 0 → Unlisted s appId ∧
        (s.rows (.id appId) = none ∨ ∀ filters : ListFilters, s.lists filters.cacheKey ≠ none →
          filters.ownerUserId = some userId → filters.afterId = none → filters.selects (claimed row userId) = false)
  | .getAppsByFiletype extension =>
      normalizeFiletype env extension ≠ [] → NormalType env (normalizeFiletype env extension)
  | .setFiletypeAssociations appId _ => ∃ row ∈ s.table, row.id = appId
  | _ => True

section Lookups

variable {form : AppRecord μ → AppRecord μ → Prop}

theorem sameOwners_normalize (env : AppEnv μ) (row : AppRecord μ) : SameOwners (normalizeAppRow env row) row := ⟨rfl, .inl rfl⟩

theorem selects_of_stands {cached : AppRecord μ} (stands : StandsFor SameOwners cached row)
    (after : filters.afterId = none) (selects : filters.selects row = true) : filters.selects cached = true := by
  simp only [ListFilters.selects, after, Option.all_none, Bool.and_true, Bool.and_eq_true] at selects ⊢
  obtain ⟨⟨owner, creator⟩, name⟩ := selects
  refine ⟨⟨?_, ?_⟩, ?_⟩
  · rw [stands.form.1]
    exact owner
  · rcases stands.form.2 with same | gone
    · rw [same]
      exact creator
    · rw [gone] at creator
      cases given : filters.appOwner with
      | none => rfl
      | some id => simp [given] at creator
  · rw [stands.name]
    exact name

variable [DecidableEq μ]

theorem PagesKept.listings (kept : PagesKept env s) : ListingsAgree env s where
  pages := by
    intro filters
    rw [list]
    split
    · next cached held =>
        rw [kept.pages filters cached held, List.map_map]
        apply List.map_congr_left
        intro row selected
        have member : row ∈ s.table := by
          have isFound := List.mem_of_mem_drop (List.mem_of_mem_take selected)
          rw [List.mem_insertionSort] at isFound
          exact (List.mem_filter.mp isFound).1
        exact kept.settled row member
    · rfl
  types := by
    intro extension
    rw [getAppsByFiletype]
    split
    · rfl
    · split
      · next cached held => exact (kept.types _ cached held).2
      · rfl

theorem PagesKept.looked (kept : PagesKept env s) {t : AppStoreState μ}
    (state : t = { s with oldNames := t.oldNames, rows := t.rows, now := t.now }) (rows : RowsKept SameOwners t) :
    PagesKept env t where
  unique := by rw [state]; exact kept.unique
  settled := by rw [state]; exact kept.settled
  rows := rows
  pages := by rw [state]; exact kept.pages
  types := by rw [state]; exact kept.types
  known := by rw [state]; exact kept.known

theorem PagesKept.getByProperty (kept : PagesKept env s) (key : AppKey) : PagesKept env (s.getByProperty env key).1 := by
  apply kept.looked
  · rw [getByProperty_state]
  · exact kept.rows.getByProperty (fun row _ => sameOwners_normalize env row) key

theorem PagesKept.getManyByProperty (kept : PagesKept env s) (keyOf : AppRecord μ → AppKey) (keys : List AppKey) :
    PagesKept env (s.getManyByProperty env keyOf keys).1 := by
  rw [AppStoreState.getManyByProperty]
  apply kept.looked
  · rw [readChunks_state]
  · exact (kept.rows.readChunks keyOf (fun row _ => sameOwners_normalize env row) _ _ _).2

end Lookups

section Changes

variable [DecidableEq μ]

theorem PagesKept.inserted (kept : PagesKept env s) {t : AppStoreState μ} (unique : UniqueApps (s.table ++ [row]))
    (settled : Settled env row) (isTable : t.table = s.table ++ [row]) (filetypes : t.filetypes = s.filetypes)
    (byFiletype : t.byFiletype = s.byFiletype)
    (lists : t.lists = (s.invalidateListCachesForApps [some (normalizeAppRow env row)]).lists)
    (rows : RowsKept SameOwners t) : PagesKept env t where
  unique := by rw [isTable]; exact unique
  settled := by
    intro other member
    rw [isTable] at member
    rcases List.mem_append.mp member with isOld | isNew
    · exact kept.settled other isOld
    · rw [List.mem_singleton.mp isNew]
      exact settled
  rows := rows
  pages := by
    apply kept.pages.presented [normalizeAppRow env row]
    · intro key cached held
      rw [lists] at held
      exact invalidateListCachesForApps_some held
    · intro filters _ unmatched
      have unselected := (not_selects (unmatched _ (List.mem_singleton_self _))).2
      rw [selects_normalize] at unselected
      rw [isTable, List.filter_append]
      simp [unselected]
  types := by
    apply kept.types.changed byFiletype
    · intro ext _
      rw [filetypes]
    · intro ext _ association member _
      obtain ⟨old, isOld, isId⟩ := kept.known association member
      have found : old.matches (.id association.1) = true := by simpa [AppRecord.matches] using isId
      have before : s.select (.id association.1) = some old := (select_eq_some kept.unique).mpr ⟨isOld, found⟩
      have behind : t.select (.id association.1) = some old := by
        apply (select_eq_some (by rw [isTable]; exact unique)).mpr
        rw [isTable]
        exact ⟨List.mem_append_left _ isOld, found⟩
      rw [before, behind]
  known := by
    intro association member
    rw [filetypes] at member
    obtain ⟨old, isOld, isId⟩ := kept.known association member
    rw [isTable]
    exact ⟨old, List.mem_append_left _ isOld, isId⟩

theorem PagesKept.mapped (kept : PagesKept env s) {t : AppStoreState μ} (change : AppRecord μ → AppRecord μ)
    (isTable : t.table = s.table.map change) (ids : ∀ row, (change row).id = row.id)
    (unique : UniqueApps t.table) (settled : ∀ row ∈ s.table, Settled env (change row))
    (filetypes : t.filetypes = s.filetypes) (byFiletype : t.byFiletype = s.byFiletype)
    (rows : RowsKept SameOwners t) (pages : PagesHold env t.table t.lists)
    (unlisted : ∀ row ∈ s.table, normalizeAppRow env (change row) = normalizeAppRow env row ∨ Unlisted s row.id) :
    PagesKept env t where
  unique := unique
  settled := by
    intro other member
    rw [isTable] at member
    obtain ⟨row, isRow, rfl⟩ := List.mem_map.mp member
    exact settled row isRow
  rows := rows
  pages := pages
  types := by
    apply kept.types.changed byFiletype
    · intro ext _
      rw [filetypes]
    · intro ext isThere association member isOfType
      obtain ⟨old, isOld, isId⟩ := kept.known association member
      have before : s.select (.id association.1) = some old :=
        (select_eq_some kept.unique).mpr ⟨isOld, by simpa [AppRecord.matches] using isId⟩
      have behind : t.select (.id association.1) = some (change old) := by
        apply (select_eq_some unique).mpr
        rw [isTable]
        exact ⟨List.mem_map_of_mem isOld, by simpa [AppRecord.matches, ids] using isId⟩
      rw [before, behind]
      rcases unlisted old isOld with same | notListed
      · exact congrArg some same
      · obtain ⟨cached, held⟩ := Option.ne_none_iff_exists'.mp isThere
        obtain ⟨app, isApp, sameId⟩ := kept.types.listed held member isOfType before
        exact absurd sameId (notListed ext cached held app isApp)
  known := by
    intro association member
    rw [filetypes] at member
    obtain ⟨old, isOld, isId⟩ := kept.known association member
    rw [isTable]
    exact ⟨change old, List.mem_map_of_mem isOld, (ids old).trans isId⟩

theorem PagesKept.updated (kept : PagesKept env s) {allowed : AppPatch μ} (member : row ∈ s.table)
    (unique : UniqueApps (s.updatedTable row.id allowed)) (again : ReadsAgain env allowed)
    (unlisted : normalizeAppRow env (row.patched allowed) = normalizeAppRow env row ∨ Unlisted s row.id) :
    PagesKept env (updatedState env s row allowed) := by
  have isRow : ∀ other ∈ s.table, other.id = row.id → other = row := fun other isOther sameId =>
    List.inj_on_of_nodup_map kept.unique.ids isOther member sameId
  apply kept.mapped (fun other => if other.id = row.id then other.patched allowed else other) rfl
  · intro other
    split <;> rfl
  · exact unique
  · intro other isOther
    split
    · exact patched_settled (kept.settled other isOther) again
    · exact kept.settled other isOther
  · rfl
  · rfl
  · exact kept.rows.updated _ member kept.unique ⟨rfl, .inl rfl⟩
  · apply kept.pages.presented [normalizeAppRow env row, normalizeAppRow env (row.patched allowed)]
    · intro key cached held
      simp only [updatedState] at held
      split at held
      · cases held
      · next unmatched => exact ⟨held, by simpa using unmatched⟩
    · intro filters _ unmatched
      apply filter_map_selects
      intro other isOther changes
      have sameId : other.id = row.id := by
        by_contra differs
        exact changes (if_neg differs)
      rw [if_pos sameId, isRow other isOther sameId]
      exact ⟨(not_selects (unmatched (normalizeAppRow env row) (by simp))).2,
        (not_selects (unmatched (normalizeAppRow env (row.patched allowed)) (by simp))).2⟩
  · intro other isOther
    split
    · next sameId =>
        rw [isRow other isOther sameId]
        exact unlisted
    · exact .inl rfl

theorem PagesKept.claimed (kept : PagesKept env s) {appId userId : ℕ} (member : row ∈ s.table)
    (isId : row.id = appId) (noOwner : row.ownerUserId = none) (unlisted : Unlisted s appId) {fresh : AppRecord μ}
    (uncached : s.rows (.id appId) = none ∨ ∀ filters : ListFilters, s.lists filters.cacheKey ≠ none →
      filters.ownerUserId = some userId → filters.afterId = none → filters.selects (claimed row userId) = false)
    (presented : (∃ cached, s.rows (.id appId) = some cached ∧ StandsFor SameOwners cached row ∧
        fresh = normalizeAppRow env cached) ∨
      s.rows (.id appId) = none ∧ fresh = normalizeAppRow env (Puter.claimed row userId)) :
    PagesKept env { s with
      table := claimedTable s appId userId
      rows := s.rows.drop (cacheKeysForApp fresh)
      lists := (s.invalidateListCachesForApps [some fresh]).lists } := by
  have keys : cacheKeysForApp fresh = cacheKeysForApp row := by
    rcases presented with ⟨cached, -, stands, rfl⟩ | ⟨-, rfl⟩
    · exact stands.keys
    · rfl
  have isRow : ∀ other ∈ s.table, other.id = appId → other = row := fun other isOther sameId =>
    List.inj_on_of_nodup_map kept.unique.ids isOther member (sameId.trans isId.symm)
  apply kept.mapped (fun other =>
    if other.id = appId ∧ other.ownerUserId = none then { other with ownerUserId := some userId } else other) rfl
  · intro other
    split <;> rfl
  · exact claimedTable_unique kept.unique appId userId
  · intro other isOther
    have normal := settled_iff.mp (kept.settled other isOther)
    split
    · exact settled_iff.mpr normal
    · exact settled_iff.mpr normal
  · rfl
  · rfl
  · exact kept.rows.claimed kept.unique member isId keys rfl rfl
  · apply kept.pages.presented [fresh]
    · intro key cached held
      exact invalidateListCachesForApps_some held
    · intro filters isThere unmatched
      obtain ⟨after, unselected⟩ := not_selects (unmatched fresh (List.mem_singleton_self _))
      -- Without a condition on the owner the row is selected before and behind, and with one not before.
      have alike : filters.ownerUserId = none → filters.selects row = filters.selects (Puter.claimed row userId) := by
        intro free
        simp only [ListFilters.selects, free, Option.all_none, Bool.true_and]
        rfl
      have notBefore : filters.ownerUserId ≠ none → filters.selects row = false := by
        intro given
        obtain ⟨owner, isOwner⟩ := Option.ne_none_iff_exists'.mp given
        simp [ListFilters.selects, isOwner, noOwner]
      have notBehind : filters.ownerUserId ≠ some userId → filters.ownerUserId ≠ none →
          filters.selects (Puter.claimed row userId) = false := by
        intro differs given
        obtain ⟨owner, isOwner⟩ := Option.ne_none_iff_exists'.mp given
        rw [isOwner] at differs
        have notUser : userId ≠ owner := fun same => differs (congrArg some same.symm)
        simp [ListFilters.selects, isOwner, Puter.claimed, notUser]
      have neither : filters.selects row = false ∧ filters.selects (Puter.claimed row userId) = false := by
        rcases presented with ⟨cached, held, stands, rfl⟩ | ⟨-, rfl⟩
        · rw [selects_normalize] at unselected
          have before : filters.selects row = false := by
            cases isSelected : filters.selects row with
            | false => rfl
            | true => exact absurd (selects_of_stands stands after isSelected) (by simp [unselected])
          refine ⟨before, ?_⟩
          by_cases free : filters.ownerUserId = none
          · rw [← alike free]
            exact before
          by_cases isUser : filters.ownerUserId = some userId
          · rcases uncached with notHeld | spared
            · exact absurd (held.symm.trans notHeld) (by simp)
            · exact spared filters isThere isUser after
          · exact notBehind isUser free
        · rw [selects_normalize] at unselected
          refine ⟨?_, unselected⟩
          by_cases free : filters.ownerUserId = none
          · rw [alike free]
            exact unselected
          · exact notBefore free
      apply filter_map_selects
      intro other isOther changes
      have claims : other.id = appId ∧ other.ownerUserId = none := by
        by_contra differs
        exact changes (if_neg differs)
      rw [if_pos claims, isRow other isOther claims.1]
      exact neither
  · intro other isOther
    split
    · next claims =>
        rw [claims.1]
        exact .inr unlisted
    · exact .inl rfl

theorem PagesKept.deleted (kept : PagesKept env s) (member : row ∈ s.table) {found : AppRecord μ}
    (stands : StandsFor SameOwners found row) (unlisted : Unlisted s row.id)
    (orphans : ∀ child ∈ s.table, child.appOwner = some row.id → child.id ≠ row.id → Unlisted s child.id ∧
      ∀ filters : ListFilters, s.lists filters.cacheKey ≠ none → filters.selects child = true →
        filters.afterId ≠ none ∨ filters.selects row = true) :
    PagesKept env ((s.deleteRow (normalizeAppRow env found)).invalidate (normalizeAppRow env found)) := by
  let app := normalizeAppRow env found
  let remaining := s.table.filter (·.id ≠ app.id)
  let orphan : AppRecord μ → AppRecord μ := fun row =>
    if row.appOwner = some app.id then { row with appOwner := none } else row
  have isId : app.id = row.id := stands.id
  have isTable : ((s.deleteRow app).invalidate app).table = remaining.map orphan := rfl
  have remain : ∀ other, other ∈ remaining ↔ other ∈ s.table ∧ other.id ≠ row.id := by
    intro other
    rw [List.mem_filter, isId, decide_eq_true_eq]
  have isOrphan : ∀ other, orphan other ≠ other → other.appOwner = some row.id ∧
      orphan other = { other with appOwner := none } := by
    intro other changes
    have owned : other.appOwner = some app.id := by
      by_contra differs
      exact changes (if_neg differs)
    exact ⟨isId ▸ owned, if_pos owned⟩
  have ids := map_owners AppRecord.id (fun _ => rfl) remaining app.id
  have uids := map_owners AppRecord.uid (fun _ => rfl) remaining app.id
  have names := map_owners AppRecord.name (fun _ => rfl) remaining app.id
  rw [← isTable] at names uids ids
  have nodup : ∀ {β : Type} {property : AppRecord μ → β}, (s.table.map property).Nodup →
      (remaining.map property).Nodup :=
    fun once => once.sublist (List.filter_sublist.map _)
  have unique : UniqueApps ((s.deleteRow app).invalidate app).table :=
    ⟨ids ▸ nodup kept.unique.ids, uids ▸ nodup kept.unique.uids, names ▸ nodup kept.unique.names⟩
  have notListed : ∀ ext, s.byFiletype ext ≠ none → ∀ association ∈ s.filetypes, ofType ext association = true →
      association.1 ≠ row.id ∧ ∀ other ∈ s.table, other.id = association.1 → orphan other = other := by
    intro ext isThere association isAssociation isOfType
    obtain ⟨cached, held⟩ := Option.ne_none_iff_exists'.mp isThere
    obtain ⟨old, isOld, sameId⟩ := kept.known association isAssociation
    have selected : s.select (.id association.1) = some old :=
      (select_eq_some kept.unique).mpr ⟨isOld, by simpa [AppRecord.matches] using sameId⟩
    obtain ⟨listed, isListed, isOldId⟩ := kept.types.listed held isAssociation isOfType selected
    have notRow : old.id ≠ row.id := fun same => unlisted ext cached held listed isListed (isOldId.trans same)
    refine ⟨fun same => notRow (sameId.trans same), ?_⟩
    intro other isOther isAssociated
    have isSame : other = old := List.inj_on_of_nodup_map kept.unique.ids isOther isOld (isAssociated.trans sameId.symm)
    rw [isSame]
    by_contra changes
    exact (orphans old isOld (isOrphan old changes).1 notRow).1 ext cached held listed isListed isOldId
  exact {
    unique := unique
    settled := by
      intro other isOther
      rw [isTable] at isOther
      obtain ⟨old, isOld, rfl⟩ := List.mem_map.mp isOther
      have normal := settled_iff.mp (kept.settled old ((remain old).mp isOld).1)
      simp only [orphan]
      split
      · exact settled_iff.mpr normal
      · exact settled_iff.mpr normal
    rows := by
      apply kept.rows.deleted kept.unique member isId stands.uid stands.name
      intro other _ _ _ _ _ cached _ same
      exact ⟨same.1, .inr rfl⟩
    pages := by
      apply kept.pages.presented [app]
      · intro key cached held
        exact invalidateListCachesForApps_some held
      · intro filters isThere unmatched
        obtain ⟨after, unselected⟩ := not_selects (unmatched app (List.mem_singleton_self _))
        rw [selects_normalize] at unselected
        have notRow : filters.selects row = false := by
          cases isSelected : filters.selects row with
          | false => rfl
          | true => exact absurd (selects_of_stands stands after isSelected) (by simp [unselected])
        have remains : remaining.filter filters.selects = s.table.filter filters.selects := by
          rw [List.filter_filter]
          apply List.filter_congr
          intro other isOther
          by_cases sameId : other.id = app.id
          · have isRow := List.inj_on_of_nodup_map kept.unique.ids isOther member (sameId.trans isId)
            simp [isRow, notRow]
          · simp [sameId]
        rw [isTable, ← remains]
        apply filter_map_selects
        intro other isOther changes
        obtain ⟨isOld, differs⟩ := (remain other).mp isOther
        obtain ⟨owned, isBehind⟩ := isOrphan other changes
        have before : filters.selects other = false := by
          cases isSelected : filters.selects other with
          | false => rfl
          | true =>
              rcases (orphans other isOld owned differs).2 filters isThere isSelected with late | selectsRow
              · exact absurd after late
              · exact absurd selectsRow (by simp [notRow])
        refine ⟨before, ?_⟩
        rw [isBehind]
        cases given : filters.appOwner with
        | some id => simp [ListFilters.selects, given]
        | none => simpa [ListFilters.selects, given] using before
    types := by
      apply kept.types.changed (t := (s.deleteRow app).invalidate app) rfl
      · intro ext isThere
        have isFiletypes : ((s.deleteRow app).invalidate app).filetypes = s.filetypes.filter (·.1 ≠ row.id) := by
          rw [← isId]
          rfl
        rw [isFiletypes, List.filter_filter]
        apply List.filter_congr
        intro association isAssociation
        cases isOfType : ofType ext association with
        | false => rfl
        | true =>
            have differs := (notListed ext isThere association isAssociation isOfType).1
            simp [differs]
      · intro ext isThere association isAssociation isOfType
        obtain ⟨differs, unchanged⟩ := notListed ext isThere association isAssociation isOfType
        obtain ⟨old, isOld, sameId⟩ := kept.known association isAssociation
        have matched : old.matches (.id association.1) = true := by simpa [AppRecord.matches] using sameId
        have before : s.select (.id association.1) = some old := (select_eq_some kept.unique).mpr ⟨isOld, matched⟩
        have behind : ((s.deleteRow app).invalidate app).select (.id association.1) = some old := by
          apply (select_eq_some unique).mpr
          rw [isTable]
          refine ⟨List.mem_map.mpr ⟨old, (remain old).mpr ⟨isOld, ?_⟩, unchanged old isOld sameId⟩, matched⟩
          rw [sameId]
          exact differs
        rw [before]
        exact congrArg (Option.map (normalizeAppRow env)) behind
    known := by
      intro association isAssociation
      obtain ⟨isThere, differs⟩ := List.mem_filter.mp isAssociation
      obtain ⟨old, isOld, sameId⟩ := kept.known association isThere
      have notRow : old.id ≠ row.id := by
        rw [sameId, ← isId]
        exact of_decide_eq_true differs
      have listed : old.id ∈ ((s.deleteRow app).invalidate app).table.map (·.id) := by
        rw [ids]
        exact List.mem_map_of_mem ((remain old).mpr ⟨isOld, notRow⟩)
      obtain ⟨other, isOther, isSame⟩ := List.mem_map.mp listed
      exact ⟨other, isOther, isSame.trans sameId⟩ }

theorem PagesKept.associated (kept : PagesKept env s) {appId : ℕ} (isThere : ∃ row ∈ s.table, row.id = appId)
    (types : List Text) : PagesKept env (s.setFiletypeAssociations env appId types) where
  unique := kept.unique
  settled := kept.settled
  rows := kept.rows.same rfl rfl
  pages := kept.pages
  types := by
    intro ext cached held
    obtain ⟨unaffected, before⟩ := Cache.drop_some.mp held
    obtain ⟨normal, isList⟩ := kept.types ext cached before
    let newTypes := ((types.map (normalizeFiletype env)).filter (· ≠ [])).eraseDups
    have noNew : (newTypes.map fun type => (appId, type)).filter (ofType ext) = [] := by
      apply List.filter_eq_nil_iff.mpr
      intro association member isOfType
      obtain ⟨type, isNew, rfl⟩ := List.mem_map.mp member
      obtain ⟨isNormal, notEmpty⟩ := List.mem_filter.mp (List.mem_eraseDups.mp isNew)
      obtain ⟨given, -, isType⟩ := List.mem_map.mp isNormal
      simp only [ofType, decide_eq_true_eq] at isOfType
      rcases isOfType with same | dotted
      · apply unaffected
        rw [List.mem_filter, ← same]
        exact ⟨List.mem_append_right _ isNew, notEmpty⟩
      · -- A type in normal form does not start with a dot.
        have head := List.head?_dropWhile_not (· = '.') (env.lower (trim given))
        rw [normalizeFiletype] at isType
        rw [isType, dotted] at head
        simp at head
    have others : (s.filetypes.filter (·.1 ≠ appId)).filter (ofType ext) = s.filetypes.filter (ofType ext) := by
      rw [List.filter_filter]
      apply List.filter_congr
      intro association member
      cases isOfType : ofType ext association with
      | false => rfl
      | true =>
          have isNormal := ofType_self_of_normal normal isOfType
          have differs : association.1 ≠ appId := by
            intro isApp
            have isPrevious : association.2 ∈ (s.filetypes.filter (·.1 = appId)).map Prod.snd :=
              List.mem_map_of_mem (List.mem_filter.mpr ⟨member, decide_eq_true isApp⟩)
            apply unaffected
            refine List.mem_filter.mpr ⟨List.mem_append_left _ ?_, decide_eq_true normal.notEmpty⟩
            rw [← isNormal]
            exact List.mem_map_of_mem isPrevious
          simp [differs]
    have associations : (s.setFiletypeAssociations env appId types).filetypes.filter (ofType ext) =
        s.filetypes.filter (ofType ext) := by
      rw [setFiletypeAssociations, List.filter_append, others, noNew, List.append_nil]
    have sameApps := appsOfType_congr env associations fun _ _ _ => rfl
    exact ⟨normal, isList.trans sameApps.symm⟩
  known := by
    intro association member
    rcases List.mem_append.mp member with isOld | isNew
    · exact kept.known association (List.mem_filter.mp isOld).1
    · obtain ⟨type, -, rfl⟩ := List.mem_map.mp isNew
      exact isThere

theorem PagesKept.listed (kept : PagesKept env s) (filters : ListFilters) :
    PagesKept env { s with
      lists := s.lists.put [filters.cacheKey] ((filters.select s.table).map (normalizeAppRow env)) } where
  unique := kept.unique
  settled := kept.settled
  rows := kept.rows.same rfl rfl
  pages := by
    intro other cached held
    simp only at held
    by_cases same : other.cacheKey (μ := μ) = filters.cacheKey
    · rw [Cache.put_of_mem (List.mem_singleton.mpr same)] at held
      rw [← Option.some.inj held, select_of_cacheKey same]
    · rw [Cache.put_of_notMem (List.mem_singleton.not.mpr same)] at held
      exact kept.pages other cached held
  types := kept.types
  known := kept.known

theorem PagesKept.typed (kept : PagesKept env s) {ext : Text} (normal : NormalType env ext) :
    PagesKept env { s with byFiletype := s.byFiletype.put [ext] (appsOfType env s ext) } where
  unique := kept.unique
  settled := kept.settled
  rows := kept.rows.same rfl rfl
  pages := kept.pages
  types := by
    intro other cached held
    simp only at held
    by_cases same : other = ext
    · rw [Cache.put_of_mem (List.mem_singleton.mpr same)] at held
      rw [← Option.some.inj held, same]
      exact ⟨normal, rfl⟩
    · rw [Cache.put_of_notMem (List.mem_singleton.not.mpr same)] at held
      exact kept.types other cached held
  known := kept.known

theorem perform_keepsPages (call : AppCall μ) (kept : PagesKept env s) (meets : KeepsPages env s call) :
    PagesKept env (s.perform env call) := by
  cases call with
  | lookup key => exact kept.getByProperty key
  | getByIds ids => exact kept.getManyByProperty _ _
  | getByUids uids => exact kept.getManyByProperty _ _
  | expire keys => exact kept.looked rfl (kept.rows.drop_same keys)
  | elapse time => exact kept.looked rfl kept.rows
  | create id uuid fields ownerUserId appOwner =>
      rw [perform]
      rcases create_eq kept.rows id uuid fields ownerUserId appOwner with
        isState | ⟨row, name, -, isRow, accepted, isState⟩
      · rw [isState]
        exact kept
      · have settled : Settled env row := by
          rw [isRow]
          exact created_settled _ _ _ _ _ meets
        have rows := kept.rows.inserted row (sameOwners_normalize env row)
        rw [isState, clearOldAppNamesForName_state]
        exact kept.inserted (accepts_unique accepted) settled rfl rfl rfl rfl (rows.same rfl rfl)
  | createFromOrigin id uid origin ownerUserId =>
      rw [perform]
      rcases createFromOrigin_eq kept.rows id uid origin ownerUserId with isState | ⟨row, isRow, accepted, isState⟩
      · rw [isState]
        exact kept
      · have settled : Settled env row := by
          rw [isRow]
          apply settled_iff.mpr
          intro column
          cases column <;> rfl
        have rows := kept.rows.inserted row (sameOwners_normalize env row)
        rw [isState]
        exact kept.inserted (accepts_unique accepted) settled rfl rfl rfl rfl (rows.same rfl rfl)
  | update appId patch =>
      rw [perform]
      rcases update_cases env kept.unique appId patch with isState | isState | ⟨row, selected, unique, isState⟩
      · rw [isState]
        exact kept.getByProperty _
      · rw [isState]
        exact kept
      · obtain ⟨member, found⟩ := (select_eq_some kept.unique).mp selected
        obtain rfl : row.id = appId := by simpa [AppRecord.matches] using found
        obtain ⟨again, unlisted⟩ := meets row selected
        rw [isState]
        exact kept.updated member unique again unlisted
  | delete appId =>
      rw [perform]
      rcases delete_cases kept.rows kept.unique appId with isState | ⟨row, member, found, isId, stands, isState⟩
      · rw [isState]
        exact kept.getByProperty _
      · subst isId
        have selected : s.select (.id row.id) = some row :=
          (select_eq_some kept.unique).mpr ⟨member, by simp [AppRecord.matches]⟩
        obtain ⟨unlisted, orphans⟩ := meets row selected
        have stands : StandsFor SameOwners found row := by
          rcases stands with stands | rfl
          · exact stands
          · exact ⟨rfl, rfl, rfl, rfl, .inl rfl⟩
        have after := kept.getByProperty (.id row.id)
        have state := getByProperty_state env s (.id row.id)
        rw [isState]
        apply after.deleted (by rw [state]; exact member) stands
        · rw [state]
          exact unlisted
        · rw [state]
          exact orphans
  | claimOwnership appId userId =>
      rw [perform]
      rcases claimOwnership_cases kept.rows kept.unique appId userId with
        isState | ⟨row, member, isId, noOwner, notZero, isUser, fresh, isState, presented⟩
      · rw [isState]
        exact kept
      · have selected : s.select (.id appId) = some row :=
          (select_eq_some kept.unique).mpr ⟨member, by simpa [AppRecord.matches] using isId⟩
        obtain ⟨unlisted, uncached⟩ := meets row selected noOwner notZero isUser
        rw [isState]
        exact kept.claimed member isId noOwner unlisted uncached presented
  | list filters =>
      rw [perform, list]
      split
      · exact kept
      · exact kept.listed filters
  | getAppsByFiletype extension =>
      rw [perform, getAppsByFiletype]
      split
      · exact kept
      · next notEmpty =>
          split
          · exact kept
          · exact kept.typed (meets notEmpty)
  | setFiletypeAssociations appId types => exact kept.associated meets types

/-- In a run of such calls, pages and lists answer what their queries select. -/
theorem listings_agree (env : AppEnv μ) (s : AppStoreState μ) (coldRows : s.rows = fun _ => none)
    (coldLists : s.lists = fun _ => none) (coldTypes : s.byFiletype = fun _ => none) (unique : UniqueApps s.table)
    (settled : ∀ row ∈ s.table, Settled env row)
    (known : ∀ association ∈ s.filetypes, ∃ row ∈ s.table, row.id = association.1) (calls : List (AppCall μ))
    (meets : EachMeets env (KeepsPages env) s calls) : ListingsAgree env (s.run env calls) := by
  have kept : PagesKept env s := {
    unique := unique
    settled := settled
    rows := by
      rw [RowsKept, coldRows]
      exact Cache.Faithful.empty
    pages := by
      rw [coldLists]
      intro _ _ held
      cases held
    types := by
      intro _ _ held
      rw [coldTypes] at held
      cases held
    known := known }
  exact (run_keeps (fun _ call kept meets => perform_keepsPages call kept meets) kept meets).listings

end Changes

end Calls

section Examples

def ownedBy (userId : ℕ) : ListFilters := ⟨some userId, none, none, none, none, none⟩

theorem listings_agree_created :
    ListingsAgree sqliteApps (noApps.run sqliteApps [.create 1 "1".toList (titledApp "editor") 7 none,
      .list (ownedBy 7), .lookup (.name "editor".toList),
      .createFromOrigin 2 "app-2".toList "https://example.com".toList (some 7)]) := by
  apply listings_agree sqliteApps noApps rfl rfl rfl ⟨by simp [noApps], by simp [noApps], by simp [noApps]⟩
  · simp [noApps]
  · simp [noApps]
  · exact ⟨titledApp_readsAgain _, trivial, trivial, trivial, trivial⟩

/-- A page of a user's apps stays empty where the user claims an app that is cached without an owner. -/
theorem claimed_app_unlisted :
    ¬ ListingsAgree sqliteApps (noApps.run sqliteApps [
      .createFromOrigin 1 "app-1".toList "https://example.com".toList none, .list (ownedBy 7),
      .claimOwnership 1 7]) := by
  intro agree
  have same := congrArg List.length (agree.pages (ownedBy 7))
  revert same
  decide +kernel

end Examples

end Puter

/-
Module: Puter.Fs.LegacyTables
Purpose: Tables of entries in which old rows have no path (stores/fs/FSEntryStore.ts). A walk up from a row meets
  the rows of its lineage, a walk down along some names finds the row that they spell, and the paths that both
  write back are the ones that the lineages spell, so that the table stays one of the kind.
Trusted boundary: none
Main exports: SpellsPath, lineage_cases
-/
import Puter.Fs.LineageLookups
import Puter.Fs.MaskedPaths
import Puter.Fs.NormalPath
import Puter.Library.Lineage

namespace Puter

open PosixPath Lineage LineageLookups

variable {γ : Type}

def rowLinks : Links (FSEntryRow γ) Nat Text := ⟨FSEntryRow.uuid, FSEntryRow.parentUid, FSEntryRow.name⟩

def SpellsPath (table : List (FSEntryRow γ)) (row : FSEntryRow γ) (path : Text) : Prop :=
  ∃ names, Spells rowLinks table names row.uuid ∧ path = pathOf names

/-- Rows that form trees by their parents, with names unique among siblings and homes. A path is missing or the
    one that the lineage spells. -/
structure LegacyTable (table : List (FSEntryRow γ)) : Prop where
  uuids : (table.map FSEntryRow.uuid).Nodup
  ids : (table.map FSEntryRow.id).Nodup
  rooted : ∀ row ∈ table, ∃ names, Spells rowLinks table names row.uuid
  siblings : ∀ row ∈ table, ∀ other ∈ table, row.parentUid = other.parentUid → row.name = other.name →
    row.uuid = other.uuid
  names : ∀ row ∈ table, row.name ≠ [] ∧ '/' ∉ row.name
  paths : ∀ row ∈ table, ∀ path, row.path = some path → SpellsPath table row path

def HealedRow (table : List (FSEntryRow γ)) (row row' : FSEntryRow γ) : Prop :=
  row' = row ∨ ∃ path, SpellsPath table row path ∧ row' = { row with path := some path }

def Healed (table table' : List (FSEntryRow γ)) : Prop :=
  ∃ heal : FSEntryRow γ → FSEntryRow γ, table' = table.map heal ∧ ∀ row ∈ table, HealedRow table row (heal row)

section Tables

variable {table table' : List (FSEntryRow γ)} {row row' : FSEntryRow γ} {path : Text} {names : List Text} {uuid : Nat}

theorem LegacyTable.row_of_uuid (legacy : LegacyTable table) (member : row ∈ table) (member' : row' ∈ table)
    (same : row.uuid = row'.uuid) : row = row' :=
  List.inj_on_of_nodup_map legacy.uuids member member' same

theorem LegacyTable.row_of_id (legacy : LegacyTable table) (member : row ∈ table) (member' : row' ∈ table)
    (same : row.id = row'.id) : row = row' :=
  List.inj_on_of_nodup_map legacy.ids member member' same

theorem LegacyTable.forest (legacy : LegacyTable table) : Forest rowLinks table where
  keys _ member _ member' same := legacy.row_of_uuid member member' same
  rooted := legacy.rooted
  siblings := legacy.siblings

theorem LegacyTable.segments (legacy : LegacyTable table) (spells : Spells rowLinks table names uuid) :
    ∀ name ∈ names, name ≠ [] ∧ '/' ∉ name := by
  induction spells with
  | home member _ =>
      intro name isName
      rw [List.mem_singleton.mp isName]
      exact legacy.names _ member
  | child _ member _ ih =>
      intro name isName
      obtain higher | last := List.mem_append.mp isName
      · exact ih name higher
      · rw [List.mem_singleton.mp last]
        exact legacy.names _ member

theorem LegacyTable.pathOf_iff (legacy : LegacyTable table) (spells : Spells rowLinks table names uuid)
    {others : List Text} (noSlash : ∀ name ∈ others, '/' ∉ name) : pathOf others = pathOf names ↔ others = names := by
  constructor
  · intro same
    exact pathOf_injective noSlash (fun name member => (legacy.segments spells name member).2) same
  · exact congrArg pathOf

theorem LegacyTable.path_eq (legacy : LegacyTable table) {path' : Text} (spells : SpellsPath table row path)
    (spells' : SpellsPath table row path') : path = path' := by
  obtain ⟨names, spells, rfl⟩ := spells
  obtain ⟨names', spells', rfl⟩ := spells'
  rw [legacy.forest.names_eq spells spells']

theorem LegacyTable.row_eq (legacy : LegacyTable table) (member : row ∈ table) (member' : row' ∈ table)
    (spells : SpellsPath table row path) (spells' : SpellsPath table row' path) : row = row' := by
  obtain ⟨names, spells, rfl⟩ := spells
  obtain ⟨names', spells', same⟩ := spells'
  have noSlash := fun name isName => (legacy.segments spells name isName).2
  rw [legacy.pathOf_iff spells' noSlash] at same
  subst same
  exact legacy.row_of_uuid member member' (legacy.forest.key_eq spells spells')

theorem SpellsPath.ne_nil (spells : SpellsPath table row path) : path ≠ [] := by
  obtain ⟨names, spells, rfl⟩ := spells
  obtain ⟨name, others, rfl⟩ := List.exists_cons_of_ne_nil spells.ne_nil
  simp [pathOf]

theorem HealedRow.links (healed : HealedRow table row row') :
    row'.id = row.id ∧ row'.uuid = row.uuid ∧ row'.parentUid = row.parentUid ∧ row'.name = row.name := by
  obtain rfl | ⟨path, -, rfl⟩ := healed <;> exact ⟨rfl, rfl, rfl, rfl⟩

theorem HealedRow.withPath (healed : HealedRow table row row') (path : Option Text) :
    { row' with path := path } = { row with path := path } := by
  obtain rfl | ⟨-, -, rfl⟩ := healed <;> rfl

theorem Healed.refl (table : List (FSEntryRow γ)) : Healed table table :=
  ⟨id, (List.map_id table).symm, fun _ _ => .inl rfl⟩

theorem Healed.spells_iff (healed : Healed table table') :
    Spells rowLinks table' names uuid ↔ Spells rowLinks table names uuid := by
  obtain ⟨heal, rfl, heals⟩ := healed
  constructor
  · apply Spells.mono
    intro row' member
    obtain ⟨row, isRow, rfl⟩ := List.mem_map.mp member
    obtain ⟨-, key, parent, name⟩ := (heals row isRow).links
    exact ⟨row, isRow, key.symm, parent.symm, name.symm⟩
  · apply Spells.mono
    intro row member
    obtain ⟨-, links⟩ := (heals row member).links
    exact ⟨heal row, List.mem_map_of_mem member, links⟩

theorem Healed.spellsPath_iff (healed : Healed table table') (same : row'.uuid = row.uuid) :
    SpellsPath table' row' path ↔ SpellsPath table row path := by
  unfold SpellsPath
  rw [same]
  simp only [healed.spells_iff]

theorem Healed.trans {table'' : List (FSEntryRow γ)} (first : Healed table table') (second : Healed table' table'') :
    Healed table table'' := by
  have links {names : List Text} {uuid : Nat} : Spells rowLinks table' names uuid ↔ Spells rowLinks table names uuid :=
    first.spells_iff
  obtain ⟨heal, rfl, heals⟩ := first
  obtain ⟨heal', rfl, heals'⟩ := second
  refine ⟨heal' ∘ heal, List.map_map .., fun row member => ?_⟩
  obtain same | ⟨path, ⟨names, spells, isPath⟩, same⟩ := heals' (heal row) (List.mem_map_of_mem member)
  · rw [Function.comp_apply, same]
    exact heals row member
  · right
    refine ⟨path, ⟨names, ?_, isPath⟩, ?_⟩
    · rw [(heals row member).links.2.1] at spells
      exact links.mp spells
    · rw [Function.comp_apply, same]
      exact (heals row member).withPath _

theorem LegacyTable.healed (legacy : LegacyTable table) (healed : Healed table table') : LegacyTable table' := by
  have links {names : List Text} {uuid : Nat} : Spells rowLinks table' names uuid ↔ Spells rowLinks table names uuid :=
    healed.spells_iff
  have same {row row' : FSEntryRow γ} {path : Text} (sameUuid : row'.uuid = row.uuid) :
      SpellsPath table' row' path ↔ SpellsPath table row path := healed.spellsPath_iff sameUuid
  obtain ⟨heal, rfl, heals⟩ := healed
  have column {β : Type} (column : FSEntryRow γ → β) (kept : ∀ row ∈ table, column (heal row) = column row) :
      (table.map heal).map column = table.map column := by
    rw [List.map_map]
    exact List.map_congr_left kept
  refine ⟨?_, ?_, ?_, ?_, ?_, ?_⟩
  · rw [column _ fun row member => (heals row member).links.2.1]
    exact legacy.uuids
  · rw [column _ fun row member => (heals row member).links.1]
    exact legacy.ids
  · intro row' member
    obtain ⟨row, isRow, rfl⟩ := List.mem_map.mp member
    obtain ⟨names, spells⟩ := legacy.rooted row isRow
    exact ⟨names, by rw [(heals row isRow).links.2.1]; exact links.mpr spells⟩
  · intro row' member other' memberOther sameParent sameName
    obtain ⟨row, isRow, rfl⟩ := List.mem_map.mp member
    obtain ⟨other, isOther, rfl⟩ := List.mem_map.mp memberOther
    obtain ⟨-, uuid, parent, name⟩ := (heals row isRow).links
    obtain ⟨-, uuid', parent', name'⟩ := (heals other isOther).links
    rw [uuid, uuid']
    exact legacy.siblings row isRow other isOther (by rw [← parent, ← parent', sameParent])
      (by rw [← name, ← name', sameName])
  · intro row' member
    obtain ⟨row, isRow, rfl⟩ := List.mem_map.mp member
    rw [(heals row isRow).links.2.2.2]
    exact legacy.names row isRow
  · intro row' member path isPath
    obtain ⟨row, isRow, rfl⟩ := List.mem_map.mp member
    rw [same (heals row isRow).links.2.1]
    obtain kept | ⟨path', spells, new⟩ := heals row isRow
    · rw [kept] at isPath
      exact legacy.paths row isRow path isPath
    · rw [new] at isPath
      cases isPath
      exact spells

end Tables

section Writes

variable {table t : List (FSEntryRow γ)} {row row' : FSEntryRow γ} {segments : List Text}

theorem expectedPath_eq {depth : Nat} (nonempty : segments.take depth ≠ []) :
    expectedPath segments depth = pathOf (segments.take depth) :=
  (intercalate_nil_cons _ nonempty).2

theorem Healed.writePath (healed : Healed table t) {id : Nat} {expected : Text}
    (spells : ∀ row ∈ table, row.id = id → SpellsPath table row expected) :
    Healed table (writePath id expected t) := by
  obtain ⟨heal, rfl, heals⟩ := healed
  refine ⟨_, List.map_map .., fun row member => ?_⟩
  rw [Function.comp_apply]
  split
  next writes =>
    rw [(heals row member).links.1] at writes
    exact .inr ⟨expected, spells row member writes.1, (heals row member).withPath _⟩
  next => exact heals row member

theorem path_writePath {id : Nat} {expected : Text} (member : row ∈ writePath id expected t) (same : row.id = id) :
    row.path = some expected := by
  obtain ⟨old, isRow, rfl⟩ := List.mem_map.mp member
  split at same
  next writes => rw [if_pos writes]
  next kept =>
    rw [if_neg kept]
    rw [not_and_or, not_or] at kept
    obtain differs | ⟨-, stands⟩ := kept
    · exact absurd same differs
    · exact not_not.mp stands

variable {trail : List (FSEntryRow γ)} {target : FSEntryRow γ}

theorem backfill_heals (legacy : LegacyTable table) (line : Trail rowLinks table segments trail) :
    Healed table (backfillLineagePaths trail segments table) := by
  have grows : ∀ (entries : List (FSEntryRow γ × Nat)) (t : List (FSEntryRow γ)), Healed table t →
      (∀ entry ∈ entries, entry.1 ∈ table ∧ Spells rowLinks table (segments.take entry.2) entry.1.uuid) →
      Healed table (entries.foldl (fun t entry => writePath entry.1.id (expectedPath segments entry.2) t) t) := by
    intro entries
    induction entries with
    | nil => exact fun t healed _ => healed
    | cons entry rest ih =>
        intro t healed placed
        obtain ⟨stored, spells⟩ := placed entry List.mem_cons_self
        refine ih _ (healed.writePath fun row member same => ?_)
          fun other later => placed other (List.mem_cons_of_mem _ later)
        rw [legacy.row_of_id member stored same, expectedPath_eq spells.ne_nil]
        exact ⟨_, spells, rfl⟩
  exact grows _ table (.refl table) line.spells

theorem path_backfill (line : Trail rowLinks table segments trail) (isLast : trail.getLast? = some target)
    (member : row ∈ backfillLineagePaths trail segments table) (same : row.id = target.id) :
    row.path = some (pathOf segments) := by
  have spells := (line.last isLast).2
  obtain ⟨front, rfl⟩ := List.getLast?_eq_some_iff.mp isLast
  have length := line.length_eq
  rw [List.length_append, List.length_singleton] at length
  have whole : segments.take (1 + front.length) = segments := List.take_of_length_le (by omega)
  rw [backfillLineagePaths, List.zipIdx_append, List.foldl_append] at member
  have written := path_writePath member same
  rw [expectedPath_eq (by rw [whole]; exact spells.ne_nil), whole] at written
  exact written

end Writes

section Upwards

variable {table : List (FSEntryRow γ)} {row : FSEntryRow γ} {names : List Text}

theorem filter_eq_singleton {α β : Type} [DecidableEq β] {column : α → β} {rows : List α} {a : α}
    (nodup : (rows.map column).Nodup) (member : a ∈ rows) : rows.filter (column · = column a) = [a] := by
  induction rows with
  | nil => cases member
  | cons first rest ih =>
      rw [List.map_cons, List.nodup_cons] at nodup
      obtain rfl | later := List.mem_cons.mp member
      · rw [List.filter_cons_of_pos (by simp), List.filter_eq_nil_iff.mpr]
        intro other isRow
        rw [decide_eq_true_iff]
        intro same
        exact nodup.1 (same ▸ List.mem_map_of_mem isRow)
      · rw [List.filter_cons_of_neg, ih nodup.2 later]
        rw [decide_eq_true_iff]
        intro same
        exact nodup.1 (same ▸ List.mem_map_of_mem later)

theorem ancestors_nil (table : List (FSEntryRow γ)) (levels : Nat) : ancestors table levels [] = [] := by
  cases levels <;> rfl

theorem ancestors_eq (legacy : LegacyTable table) {uuid levels : Nat} (spells : Spells rowLinks table names uuid)
    (enough : names.length ≤ levels) (member : row ∈ table) (isRow : row.uuid = uuid) :
    ∃ trail root, ancestors table levels [row] = trail.reverse ∧ Trail rowLinks table names trail ∧
      trail.map FSEntryRow.name = names ∧ trail.getLast? = some row ∧ trail.head? = some root ∧
      root.parentUid = none := by
  induction spells generalizing row levels with
  | @home e stored root =>
      obtain rfl := legacy.row_of_uuid member stored isRow
      obtain ⟨fewer, rfl⟩ : ∃ fewer, levels = fewer + 1 := ⟨levels - 1, by simp at enough; omega⟩
      have noParent : row.parentUid = none := root
      refine ⟨[row], row, ?_, ⟨rfl, fun entry isEntry => ?_⟩, rfl, rfl, rfl, root⟩
      · simp [ancestors, noParent, ancestors_nil]
      · rw [List.mem_singleton.mp isEntry]
        exact ⟨stored, .home stored root⟩
  | @child names above e spells stored parent ih =>
      obtain rfl := legacy.row_of_uuid member stored isRow
      obtain ⟨fewer, rfl⟩ : ∃ fewer, levels = fewer + 1 := ⟨levels - 1, by simp at enough; omega⟩
      obtain ⟨higher, isHigher, rfl⟩ := spells.exists_row
      have up : row.parentUid = some higher.uuid := parent
      have found : table.filter (fun f => decide (some f.uuid = row.parentUid)) = [higher] := by
        rw [← filter_eq_singleton legacy.uuids isHigher]
        simp [up]
      obtain ⟨trail, root, walked, line, named, isLast, first, noParent⟩ :=
        ih (by simpa using enough) isHigher rfl
      refine ⟨trail ++ [row], root, ?_, line.concat stored (.child spells stored parent), ?_, ?_, ?_, noParent⟩
      · rw [List.reverse_concat, ← walked]
        simp only [ancestors, List.flatMap_singleton, found, List.singleton_append]
      · rw [List.map_append, named]
        rfl
      · rw [List.getLast?_concat]
      · rw [List.head?_append, first]
        rfl

theorem find?_of_unique {α β : Type} [DecidableEq β] {column : α → β} {rows : List α} {a : α} {b : β}
    (nodup : (rows.map column).Nodup) (member : a ∈ rows) (isColumn : column a = b) :
    rows.find? (column · = b) = some a := by
  subst isColumn
  rw [← List.head?_filter, filter_eq_singleton nodup member]
  rfl

theorem healEntryPathByLineageUp_eq (legacy : LegacyTable table) (member : row ∈ table) :
    ∃ path t, SpellsPath table row path ∧ Healed table t ∧
      healEntryPathByLineageUp row.uuid table = (some { row with path := some path }, t) := by
  obtain ⟨names, spells⟩ := legacy.rooted row member
  obtain ⟨trail, root, walked, line, named, isLast, first, noParent⟩ :=
    ancestors_eq legacy spells (legacy.forest.length_le spells) member rfl
  have heals := backfill_heals legacy line
  have written {row' : FSEntryRow γ} := @path_backfill γ table row' names trail row line isLast
  refine ⟨pathOf names, backfillLineagePaths trail names table, ⟨names, spells, rfl⟩, heals, ?_⟩
  have refetched : (backfillLineagePaths trail names table).find? (·.uuid = row.uuid) =
      some { row with path := some (pathOf names) } := by
    have healedLegacy := legacy.healed heals
    obtain ⟨heal, same, healsRow⟩ := heals
    have stored : heal row ∈ backfillLineagePaths trail names table := by
      rw [same]
      exact List.mem_map_of_mem member
    obtain ⟨isId, isUuid, -⟩ := (healsRow row member).links
    have isHealed : heal row = { row with path := some (pathOf names) } := by
      rw [← (healsRow row member).withPath, ← written stored isId]
    rw [← isHealed]
    exact find?_of_unique healedLegacy.uuids stored isUuid
  rw [healEntryPathByLineageUp, filter_eq_singleton legacy.uuids member, walked]
  simp only [List.getLast?_reverse, first, noParent, ne_eq, not_true_eq_false, if_false, List.reverse_reverse, named,
    refetched]

end Upwards

section Downwards

variable {table level : List (FSEntryRow γ)} {row : FSEntryRow γ} {above rest names : List Text} {uuid : Nat}

def LevelOf (table : List (FSEntryRow γ)) (names : List Text) (level : List (FSEntryRow γ)) : Prop :=
  ∀ row, row ∈ level ↔ row ∈ table ∧ Spells rowLinks table names row.uuid

theorem mem_of_lowest (isLowest : lowest level = some row) : row ∈ level :=
  (List.mem_insertionSort _).mp (List.mem_of_mem_head? isLowest)

theorem exists_lowest (member : row ∈ level) : ∃ least, lowest level = some least := by
  unfold lowest
  cases sorted : level.insertionSort fun one other => one.id ≤ other.id with
  | nil =>
      have stays := (List.mem_insertionSort fun one other : FSEntryRow γ => one.id ≤ other.id).mpr member
      rw [sorted] at stays
      cases stays
  | cons least others => exact ⟨least, rfl⟩

theorem levelOf_homes (legacy : LegacyTable table) (segment : Text) :
    LevelOf table [segment] (table.filter fun f => f.parentUid = none ∧ f.name = segment) := by
  intro row
  rw [List.mem_filter, decide_eq_true_iff, spells_single]
  constructor
  · rintro ⟨member, root, name⟩
    exact ⟨member, row, member, rfl, root, name⟩
  · rintro ⟨member, row', member', same, root, name⟩
    obtain rfl := legacy.row_of_uuid member' member same
    exact ⟨member, root, name⟩

theorem LevelOf.below (legacy : LegacyTable table) (isLevel : LevelOf table above level) (nonempty : above ≠ [])
    (segment : Text) : LevelOf table (above ++ [segment])
      (level.flatMap fun l => table.filter fun f => f.parentUid = some l.uuid ∧ f.name = segment) := by
  intro row
  simp only [List.mem_flatMap, List.mem_filter, decide_eq_true_iff]
  rw [spells_concat nonempty]
  constructor
  · rintro ⟨l, isAbove, member, parent, name⟩
    exact ⟨member, row, member, rfl, name, l.uuid, parent, ((isLevel l).mp isAbove).2⟩
  · rintro ⟨member, row', member', same, name, higher, parent, spells⟩
    obtain rfl := legacy.row_of_uuid member' member same
    obtain ⟨l, isRow, rfl⟩ := spells.exists_row
    exact ⟨l, (isLevel l).mpr ⟨isRow, spells⟩, member, parent, name⟩

theorem lineageBelow_trail (legacy : LegacyTable table) {trail rows : List (FSEntryRow γ)}
    (isLevel : LevelOf table above level) (nonempty : above ≠ []) (line : Trail rowLinks table above trail)
    (walked : (lineageBelow table level rest).mapM lowest = some rows) :
    Trail rowLinks table (above ++ rest) (trail ++ rows) := by
  induction rest generalizing above level trail rows with
  | nil =>
      cases walked
      simpa using line
  | cons segment rest ih =>
      rw [lineageBelow, List.mapM_cons] at walked
      obtain ⟨row, isLowest, walked⟩ := Option.bind_eq_some_iff.mp walked
      obtain ⟨others, later, same⟩ := Option.bind_eq_some_iff.mp walked
      cases same
      have next := isLevel.below legacy nonempty segment
      obtain ⟨member, spells⟩ := (next row).mp (mem_of_lowest isLowest)
      have whole := ih next (by simp) (line.concat member spells) later
      simpa using whole

theorem lineageBelow_reaches (legacy : LegacyTable table) (isLevel : LevelOf table above level) (nonempty : above ≠ [])
    (spells : Spells rowLinks table (above ++ rest) uuid) :
    ∃ rows, (lineageBelow table level rest).mapM lowest = some rows := by
  induction rest generalizing above level with
  | nil => exact ⟨[], rfl⟩
  | cons segment rest ih =>
      rw [← List.singleton_append, ← List.append_assoc] at spells
      have next := isLevel.below legacy nonempty segment
      obtain ⟨higher, spelled⟩ := spells.of_append (by simp)
      obtain ⟨l, isRow, rfl⟩ := spelled.exists_row
      obtain ⟨least, isLowest⟩ := exists_lowest ((next l).mpr ⟨isRow, spelled⟩)
      obtain ⟨others, later⟩ := ih next (by simp) spells
      exact ⟨least :: others, by rw [lineageBelow, List.mapM_cons, isLowest, later]; rfl⟩

theorem lineage_cases (legacy : LegacyTable table) (names : List Text) (nonempty : names ≠ []) :
    (∃ trail target, (lineage table names).mapM lowest = some trail ∧ Trail rowLinks table names trail ∧
        trail.getLast? = some target) ∨
      (lineage table names).mapM lowest = none ∧ ∀ uuid, ¬ Spells rowLinks table names uuid := by
  obtain ⟨segment, rest, rfl⟩ := List.exists_cons_of_ne_nil nonempty
  have homes := levelOf_homes legacy segment
  have begins (row : FSEntryRow γ) (isLowest : lowest (table.filter fun f => f.parentUid = none ∧ f.name = segment) =
      some row) : Trail rowLinks table [segment] [row] := by
    obtain ⟨member, spells⟩ := (homes row).mp (mem_of_lowest isLowest)
    refine ⟨rfl, fun entry isEntry => ?_⟩
    rw [List.mem_singleton.mp isEntry]
    exact ⟨member, spells⟩
  cases walked : (lineage table (segment :: rest)).mapM lowest with
  | some trail =>
      left
      have reached := walked
      rw [lineage, List.mapM_cons] at reached
      obtain ⟨row, isLowest, reached⟩ := Option.bind_eq_some_iff.mp reached
      obtain ⟨others, later, same⟩ := Option.bind_eq_some_iff.mp reached
      cases same
      have line := lineageBelow_trail legacy homes (List.cons_ne_nil _ _) (begins row isLowest) later
      exact ⟨_, _, rfl, line, List.getLast?_eq_some_getLast (List.cons_ne_nil _ _)⟩
  | none =>
      right
      refine ⟨rfl, fun uuid spells => ?_⟩
      have spells' : Spells rowLinks table ([segment] ++ rest) uuid := spells
      obtain ⟨higher, spelled⟩ := spells'.of_append (List.cons_ne_nil _ _)
      obtain ⟨l, isRow, rfl⟩ := spelled.exists_row
      obtain ⟨least, isLowest⟩ := exists_lowest ((homes l).mpr ⟨isRow, spelled⟩)
      obtain ⟨others, later⟩ := lineageBelow_reaches legacy homes (List.cons_ne_nil _ _) spells'
      rw [lineage, List.mapM_cons, isLowest, later] at walked
      cases walked

theorem NormalPath.segments {path : Text} (normal : NormalPath path) :
    path = ['/'] ∨ ∃ names, names ≠ [] ∧ (∀ name ∈ names, name ≠ [] ∧ '/' ∉ name) ∧ path = pathOf names ∧
      path ≠ ['/'] := by
  by_cases isRoot : path = ['/']
  · exact .inl isRoot
  · right
    obtain ⟨above, name, segments, plain, rfl⟩ := normal.cases isRoot
    refine ⟨above ++ [name], by simp, fun segment member => ?_, (pathOf_concat above name).symm, isRoot⟩
    obtain higher | last := List.mem_append.mp member
    · exact ⟨(segments segment higher).nonempty, (segments segment higher).noSlash⟩
    · rw [List.mem_singleton.mp last]
      exact ⟨plain.nonempty, plain.noSlash⟩

theorem not_spellsPath_root (legacy : LegacyTable table) : ¬ SpellsPath table row ['/'] := by
  rintro ⟨names, spells, same⟩
  obtain ⟨name, others, rfl⟩ := List.exists_cons_of_ne_nil spells.ne_nil
  have nonempty := (legacy.segments spells name List.mem_cons_self).1
  have lengths := congrArg List.length same
  rw [pathOf, List.flatMap_cons, List.length_append, List.length_cons, List.length_cons] at lengths
  have := List.length_pos_iff.mpr nonempty
  simp only [List.length_nil] at lengths
  omega

end Downwards

end Puter

/-
Module: Puter.Fs.LineageLookups
Purpose: The lookups of entries by path, uuid and id over a table in which old rows may have no path
  (stores/fs/FSEntryStore.ts): the walk down the links from a home, the walk up to it, and the paths that both
  write back. The cache is cold: a lookup finds nothing in it, and what it puts there is not read again by the
  same lookup.
Trusted boundary: text comparison tells upper and lower case apart; a recursive query ends when it finds no more
Main exports: FSEntryRow, getEntryById
-/
import Puter.Fs.FSEntryStore

namespace Puter

open PosixPath

/-- A row of `fsentries` as it is stored, with its path where that was ever written. -/
structure FSEntryRow (γ : Type) where
  id : Nat
  uuid : Nat
  parentUid : Option Nat
  name : Text
  path : Option Text
  columns : γ
deriving DecidableEq, Repr

namespace LineageLookups

open FSEntryStore

variable {γ : Type}

/-- `UPDATE fsentries SET path = ? WHERE id = ? AND (path IS NULL OR path <> ?)` -/
def writePath (id : Nat) (expected : Text) (table : List (FSEntryRow γ)) : List (FSEntryRow γ) :=
  table.map fun row =>
    if row.id = id ∧ (row.path = none ∨ row.path ≠ some expected) then { row with path := some expected } else row

/-- `'/' + segments.slice(0, depth).join('/')` -/
def expectedPath (segments : List Text) (depth : Nat) : Text := '/' :: ['/'].intercalate (segments.take depth)

/-- `#backfillLineagePaths`. The rows are those of the lineage, the home first. -/
def backfillLineagePaths (byDepth : List (FSEntryRow γ)) (segments : List Text) (table : List (FSEntryRow γ)) :
    List (FSEntryRow γ) :=
  (byDepth.zipIdx 1).foldl (fun table entry => writePath entry.1.id (expectedPath segments entry.2) table) table

def ancestors (table : List (FSEntryRow γ)) : (levels : Nat) → (level : List (FSEntryRow γ)) → List (FSEntryRow γ)
  | 0, _ => []
  | _ + 1, [] => []
  | levels + 1, level =>
      level ++ ancestors table levels (level.flatMap fun a => table.filter fun f => some f.uuid = a.parentUid)

def healEntryPathByLineageUp (targetUuid : Nat) (table : List (FSEntryRow γ)) :
    Option (FSEntryRow γ) × List (FSEntryRow γ) :=
  let rows := ancestors table table.length (table.filter (·.uuid = targetUuid))
  match rows.getLast? with
  | none => (none, table)
  | some root =>
      if root.parentUid ≠ none then (none, table)
      else
        let ordered := rows.reverse
        let healed := backfillLineagePaths ordered (ordered.map FSEntryRow.name) table
        (healed.find? (·.uuid = targetUuid), healed)

def healed (row : FSEntryRow γ) (table : List (FSEntryRow γ)) : FSEntryRow γ × List (FSEntryRow γ) :=
  if isPresent row.path then (row, table)
  else
    match healEntryPathByLineageUp row.uuid table with
    | (some entry, table) => (entry, table)
    | (none, table) => (row, table)

def getEntryByUuid (uuid : Nat) (table : List (FSEntryRow γ)) : Option (FSEntryRow γ) × List (FSEntryRow γ) :=
  match table.find? (·.uuid = uuid) with
  | none => (none, table)
  | some row =>
      let (entry, table) := healed row table
      (some entry, table)

def getEntryById (id : Nat) (table : List (FSEntryRow γ)) : Option (FSEntryRow γ) × List (FSEntryRow γ) :=
  match table.find? (·.id = id) with
  | none => (none, table)
  | some row =>
      let (entry, table) := healed row table
      (some entry, table)

def lineageBelow (table : List (FSEntryRow γ)) (level : List (FSEntryRow γ)) : List Text → List (List (FSEntryRow γ))
  | [] => []
  | segment :: rest =>
      let next := level.flatMap fun l => table.filter fun f => f.parentUid = some l.uuid ∧ f.name = segment
      next :: lineageBelow table next rest

def lineage (table : List (FSEntryRow γ)) : List Text → List (List (FSEntryRow γ))
  | [] => []
  | segment :: rest =>
      let homes := table.filter fun f => f.parentUid = none ∧ f.name = segment
      homes :: lineageBelow table homes rest

def lowest (level : List (FSEntryRow γ)) : Option (FSEntryRow γ) :=
  (level.insertionSort fun one other => one.id ≤ other.id).head?

def resolveEntryByPathLineage (normalizedPath : Text) (table : List (FSEntryRow γ)) :
    Option (FSEntryRow γ) × List (FSEntryRow γ) :=
  if normalizedPath = ['/'] then (none, table)
  else
    let segments := (normalizedPath.splitOn '/').filter (· ≠ [])
    match (lineage table segments).mapM lowest with
    | none => (none, table)
    | some byDepth =>
        match byDepth.getLast? with
        | none => (none, table)
        | some target => getEntryByUuid target.uuid (backfillLineagePaths byDepth segments table)

def bulkQueryChunkSize : Nat := 200

def chunk {α : Type} (values : List α) (size : Nat) : List (List α) :=
  (List.range ((values.length + (size - 1)) / size)).map fun i => (values.drop (i * size)).take size

/-- `SELECT .. FROM fsentries WHERE path IN (..)` for each chunk of the paths, as a table by path in which a later
    row replaces an earlier one. -/
def selectPaths (paths : List Text) (table : List (FSEntryRow γ)) : List (Text × FSEntryRow γ) :=
  let rows := (chunk paths bulkQueryChunkSize).flatMap fun chunk =>
    table.filter fun row => row.path.any chunk.contains
  rows.foldl (fun entriesByPath entry => (entry.path.getD [], entry) :: entriesByPath) []

def normalizedPaths (paths : List Text) : Except FsError (List Text) := do
  let normalizedPaths ← paths.mapM normalizePath
  pure (normalizedPaths.filter (0 < ·.length)).eraseDups

def resolveMissing : (missing : List Text) → (entriesByPath : List (Text × FSEntryRow γ)) →
    (table : List (FSEntryRow γ)) → List (Text × FSEntryRow γ) × List (FSEntryRow γ)
  | [], entriesByPath, table => (entriesByPath, table)
  | path :: missing, entriesByPath, table =>
      match resolveEntryByPathLineage path table with
      | (some entry, table) => resolveMissing missing ((path, entry) :: entriesByPath) table
      | (none, table) => resolveMissing missing entriesByPath table

def readEntriesByPathsForUser (paths : List Text) (table : List (FSEntryRow γ)) :
    Except FsError (List (Text × FSEntryRow γ) × List (FSEntryRow γ)) := do
  let paths ← normalizedPaths paths
  let entriesByPath := selectPaths paths table
  pure (resolveMissing (paths.filter fun path => (entriesByPath.lookup path).isNone) entriesByPath table)

/-- `getEntryByPath`. A caller may ask it to leave the cache and the replicas out. -/
def getEntryByPath (path : Text) (direct : Bool) (table : List (FSEntryRow γ)) :
    Except FsError (Option (FSEntryRow γ) × List (FSEntryRow γ)) := do
  let normalizedPath ← normalizePath path
  if direct then
    let (entriesByPath, table) ← readEntriesByPathsForUser [normalizedPath] table
    pure (entriesByPath.lookup normalizedPath, table)
  else
    match table.find? (·.path = some normalizedPath) with
    | some row => pure (some row, table)
    | none => pure (resolveEntryByPathLineage normalizedPath table)

/-- `getEntriesByPaths`, which has no fallback. -/
def getEntriesByPaths (paths : List Text) (table : List (FSEntryRow γ)) :
    Except FsError (List (Text × FSEntryRow γ)) := do
  let paths ← normalizedPaths paths
  pure (selectPaths paths table)

end LineageLookups

end Puter

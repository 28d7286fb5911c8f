/-
Module: Puter.Fs.FSEntryStore
Purpose: The filesystem tables and the object store, with the reads and writes of
  stores/fs/FSEntryStore.ts and stores/fs/S3ObjectStore.ts that the filesystem service makes on them.
  Every row has its path; the entry cache, and the resolver for old rows whose path was never written,
  take no part. Rows and uuids are numbered in the order in which they are drawn.
Trusted boundary: text comparison and LIKE tell upper and lower case apart, as PostgreSQL does
Main exports: FSEntry, updateEntry, deleteEntries
-/
import Puter.Core.Actor
import Puter.Fs.PosixPath
import Puter.Library.SqlLike
import Puter.Library.StateRun

namespace Puter

open PosixPath StateRun

/-- The columns of a row that are carried along and decide nothing here. -/
structure FSEntryDetails where
  metadata : Option Text
  thumbnail : Option Text
  associatedAppId : Option Nat
  isPublic : Option Bool
  immutable : Bool
  created : Nat
  modified : Nat
  accessed : Nat
deriving DecidableEq, Repr

/-- A row of `fsentries`. A size that is null counts as 0. -/
structure FSEntry where
  id : Nat
  uuid : Nat
  userId : Nat
  parentId : Option Nat
  parentUid : Option Nat
  name : Text
  path : Text
  isDir : Bool
  isShortcut : Bool
  shortcutTo : Option Nat
  isSymlink : Bool
  symlinkPath : Option Text
  bucket : Option Text
  bucketRegion : Option Text
  size : Nat
  details : FSEntryDetails
deriving DecidableEq, Repr

/-- Where an object is stored. The key of a file's object is the uuid of its row. -/
structure S3Address where
  region : Text
  bucket : Text
  key : Nat
deriving DecidableEq, Repr

/-- A stored object. -/
structure S3Object where
  address : S3Address
  body : Text
deriving DecidableEq, Repr

/-- The state that filesystem calls read and write. -/
structure FsState where
  entries : List FSEntry
  objects : List S3Object
  nextId : Nat
  nextUuid : Nat
deriving DecidableEq, Repr

/-- What the calls of one request find around them. `uniqueNames` says that the database has the unique
    key on `(parent_id, name)`: MySQL and PostgreSQL do, SQLite does not. -/
structure FsEnv where
  now : Nat
  uniqueNames : Bool
  s3Bucket : Text
  s3Region : Text
  s3Fails : S3Address → Bool
  storageMax : Nat → Nat → Nat
  crossAppDeleteAllowed : FsState → Text → Bool
  actorMayWrite : FsState → Text → Bool
  stripReservedMetadataKeys : Text → Text
  serializeMetadata : Option Text → Option Text → Option Text → Option Text

/-- What a call can throw: an answer to the client with its extra fields, a violated unique key, a
    missing object, or any other error. -/
inductive FsError where
  | http (error : HttpError) (fields : List (Text × Text))
  | duplicateEntry
  | noSuchKey
  | failure (message : Text)
deriving DecidableEq, Repr

/-- An `HttpError` without extra fields. -/
def FsError.ofHttp (statusCode : Nat) (message : Text) (legacyCode : String) : FsError :=
  .http ⟨statusCode, message, legacyCode.toList⟩ []

abbrev FsRun := EStateM FsError FsState

def isPresent (column : Option Text) : Bool := column.any (· != [])

def resolveBucket (env : FsEnv) (bucket : Option Text) : Text :=
  if isPresent bucket then bucket.getD [] else env.s3Bucket

def resolveRegion (env : FsEnv) (region : Option Text) : Text :=
  if isPresent region then region.getD [] else env.s3Region

def hasNoBackingS3Object (entry : FSEntry) : Bool := entry.size == 0 && entry.bucket == none

def backingAddress (env : FsEnv) (entry : FSEntry) : Option S3Address :=
  if entry.isDir || entry.isShortcut || entry.isSymlink || hasNoBackingS3Object entry then none
  else some ⟨resolveRegion env entry.bucketRegion, resolveBucket env entry.bucket, entry.uuid⟩

def childPath (parentPath name : Text) : Text :=
  if parentPath = ['/'] then '/' :: name else parentPath ++ '/' :: name

namespace FSEntryStore

/-- `#normalizePath`: an absolute path without a trailing slash, or a refusal. -/
def normalizePath (path : Text) : Except FsError Text :=
  let trimmed := trim path
  if trimmed = [] then .error (.ofHttp 400 "Path cannot be empty".toList "bad_request")
  else if normalize trimmed ≠ trimmed then
    .error (.ofHttp 400 "Invalid path".toList "bad_request")
  else
    let rooted := if trimmed.head? = some '/' then trimmed else '/' :: trimmed
    .ok (if 1 < rooted.length ∧ rooted.getLast? = some '/' then rooted.dropLast else rooted)

def normalized (path : Text) : FsRun Text :=
  match normalizePath path with
  | .ok normalizedPath => pure normalizedPath
  | .error error => throw error

/-- `SELECT … WHERE path = ? LIMIT 1`. -/
def entryAt (entries : List FSEntry) (path : Text) : Option FSEntry :=
  entries.find? (·.path == path)

/-- `SELECT … WHERE uuid = ? LIMIT 1`. -/
def entryOf (entries : List FSEntry) (uuid : Nat) : Option FSEntry :=
  entries.find? (·.uuid == uuid)

def getEntryByPath (path : Text) : FsRun (Option FSEntry) := do
  let normalizedPath ← normalized path
  return entryAt (← get).entries normalizedPath

/-- `path LIKE '<prefix>/%' ESCAPE '!'`. -/
def pathLike (normalizedPrefix path : Text) : Bool :=
  SqlLike.like '!' (SqlLike.escapeLiteral '!' normalizedPrefix ++ (['/'] ++ ['%'])) path

def nameTaken (env : FsEnv) (others : List FSEntry) (row : FSEntry) : Bool :=
  env.uniqueNames && row.parentId.isSome &&
    others.any fun other => other.parentId == row.parentId && other.name == row.name

def uuidv4 : FsRun Nat := do
  let s ← get
  set { s with nextUuid := s.nextUuid + 1 }
  return s.nextUuid

def drawId : FsRun Nat := do
  let s ← get
  set { s with nextId := s.nextId + 1 }
  return s.nextId

def keyTaken (env : FsEnv) (others : List FSEntry) (row : FSEntry) : Bool :=
  others.any (·.uuid == row.uuid) || nameTaken env others row

/-- `INSERT INTO fsentries`. -/
def insertEntry (env : FsEnv) (row : FSEntry) : FsRun Unit := do
  refuseIf (keyTaken env (← get).entries row) .duplicateEntry
  modify fun s => { s with entries := s.entries ++ [row] }

/-- `INSERT IGNORE INTO fsentries`: a row that violates a key is dropped. -/
def insertIgnoreEntry (env : FsEnv) (row : FSEntry) : FsRun Unit :=
  modify fun s =>
    if keyTaken env s.entries row then s else { s with entries := s.entries ++ [row] }

/-- What `createNonFileEntry` makes. -/
inductive NonFileKind where
  | directory
  | shortcut
  | symlink
  | emptyFile
deriving DecidableEq, Repr

/-- The input of `createNonFileEntry`; an optional column left out is null. -/
structure NonFileInput where
  parent : FSEntry
  name : Text
  kind : NonFileKind
  shortcutTo : Option Nat := none
  symlinkPath : Option Text := none
  associatedAppId : Option Nat := none
  metadata : Option Text := none
  immutable : Bool := false
  isPublic : Option Bool := none
  thumbnail : Option Text := none

/-- The row `createNonFileEntry` inserts. -/
def nonFileRow (env : FsEnv) (input : NonFileInput) (parentPath : Text) (id uuid : Nat) : FSEntry where
  id := id
  uuid := uuid
  userId := input.parent.userId
  parentId := some input.parent.id
  parentUid := some input.parent.uuid
  name := input.name
  path := childPath parentPath input.name
  isDir := input.kind == .directory
  isShortcut := input.kind == .shortcut
  shortcutTo := input.shortcutTo
  isSymlink := input.kind == .symlink
  symlinkPath := input.symlinkPath
  bucket := none
  bucketRegion := none
  size := 0
  details := ⟨input.metadata, input.thumbnail, input.associatedAppId, input.isPublic,
    input.immutable, env.now, env.now, env.now⟩

def createNonFileEntry (env : FsEnv) (input : NonFileInput) : FsRun FSEntry := do
  let uuid ← uuidv4
  let parentPath ← normalized input.parent.path
  let id ← drawId
  insertEntry env (nonFileRow env input parentPath id uuid)
  orThrow (.ofHttp 500 "Failed to read created entry".toList "internal_error")
    (entryOf (← get).entries uuid)

/-- Which timestamps a touch sets; none asked for means all three. -/
structure TouchOptions where
  setAccessed : Bool := false
  setModified : Bool := false
  setCreated : Bool := false
deriving DecidableEq, Repr

def touched (env : FsEnv) (options : TouchOptions) (entry : FSEntry) : FSEntry :=
  let all := !options.setAccessed && !options.setModified && !options.setCreated
  { entry with details :=
      { entry.details with
          accessed := if all || options.setAccessed then env.now else entry.details.accessed
          modified := if all || options.setModified then env.now else entry.details.modified
          created := if all || options.setCreated then env.now else entry.details.created } }

def updateWhere (selects : FSEntry → Bool) (change : FSEntry → FSEntry) (entries : List FSEntry) :
    List FSEntry :=
  entries.map fun entry => if selects entry then change entry else entry

def readBack (uuid : Nat) (message : String) : FsRun FSEntry := do
  orThrow (.ofHttp 404 message.toList "not_found") (entryOf (← get).entries uuid)

def touchEntryTimestamps (env : FsEnv) (uuid : Nat) (options : TouchOptions) : FsRun FSEntry := do
  modify fun s =>
    { s with entries := updateWhere (·.uuid == uuid) (touched env options) s.entries }
  readBack uuid "Entry not found after touch"

def listDescendantsByPath (pathPrefix : Text) : FsRun (List FSEntry) := do
  let normalizedPrefix ← normalized pathPrefix
  refuseIf (normalizedPrefix == ['/'])
    (.ofHttp 400 "Refusing to list descendants of root".toList "bad_request")
  let rows := (← get).entries.filter fun entry => pathLike normalizedPrefix entry.path
  return rows.mergeSort fun a b => decide (a.path ≤ b.path)

def subtreeRows (entries : List FSEntry) (userId : Nat) (normalizedPrefix : Text) : List FSEntry :=
  entries.filter fun entry =>
    entry.userId == userId && (entry.path == normalizedPrefix ||
      pathLike (if normalizedPrefix = ['/'] then [] else normalizedPrefix) entry.path)

def getSubtreeSize (userId : Nat) (pathPrefix : Text) : FsRun Nat := do
  let normalizedPrefix ← normalized pathPrefix
  return ((subtreeRows (← get).entries userId normalizedPrefix).map (·.size)).sum

/-- The bytes a user stores (the `curr` of `getUserStorageAllowance`). -/
def storedBytes (entries : List FSEntry) (userId : Nat) : Nat :=
  ((entries.filter (·.userId == userId)).map (·.size)).sum

/-- The columns `updateEntry` is called with. `modified` is always set along with them. -/
structure EntryPatch where
  name : Option Text := none
  path : Option Text := none
  userId : Option Nat := none
  parentId : Option Nat := none
  parentUid : Option Nat := none
  metadata : Option (Option Text) := none

def EntryPatch.apply (env : FsEnv) (patch : EntryPatch) (entry : FSEntry) : FSEntry :=
  { entry with
      name := patch.name.getD entry.name
      path := patch.path.getD entry.path
      userId := patch.userId.getD entry.userId
      parentId := if patch.parentId.isSome then patch.parentId else entry.parentId
      parentUid := if patch.parentUid.isSome then patch.parentUid else entry.parentUid
      details :=
        { entry.details with
            metadata := patch.metadata.getD entry.details.metadata
            modified := env.now } }

def updateEntry (env : FsEnv) (uuid : Nat) (patch : EntryPatch) : FsRun FSEntry := do
  let s ← get
  refuseIf (s.entries.any fun entry => entry.uuid == uuid &&
      nameTaken env (s.entries.filter (·.uuid != uuid)) (patch.apply env entry)) .duplicateEntry
  set { s with entries := updateWhere (·.uuid == uuid) (patch.apply env) s.entries }
  readBack uuid "Entry not found after update"

/-- The new path of a row under a rewritten prefix. The length of the old prefix is taken in JavaScript
    and handed to `SUBSTR`, which counts characters. -/
def rewrittenPath (normalizedOld normalizedNew path : Text) : Text :=
  normalizedNew ++ path.drop (utf16Length normalizedOld)

/-- The row of a descendant after a prefix was rewritten. The owner is written only when it is another
    one than the caller named. -/
def rewrittenRow (env : FsEnv) (userId : Nat) (normalizedOld normalizedNew : Text)
    (newUserId : Option Nat) (entry : FSEntry) : FSEntry :=
  { entry with
      path := rewrittenPath normalizedOld normalizedNew entry.path
      userId :=
        match newUserId with
        | some owner => if owner = userId then entry.userId else owner
        | none => entry.userId
      details := { entry.details with modified := env.now } }

def updatePathPrefixForUser (env : FsEnv) (userId : Nat) (oldPrefix newPrefix : Text)
    (newUserId : Option Nat) : FsRun Unit := do
  let normalizedOld ← normalized oldPrefix
  let normalizedNew ← normalized newPrefix
  refuseIf (normalizedOld == ['/'] || normalizedNew == ['/'])
    (.ofHttp 400 "Cannot rewrite path prefix to/from root".toList "bad_request")
  runIf (normalizedOld != normalizedNew) <| modify fun s => { s with
    entries := updateWhere (fun entry => pathLike normalizedOld entry.path)
      (rewrittenRow env userId normalizedOld normalizedNew newUserId) s.entries }

/-- `deleteEntry` and `deleteEntries`: by row id. -/
def deleteEntries (gone : List FSEntry) : FsRun Unit :=
  modify fun s =>
    { s with entries := s.entries.filter fun entry => gone.all (·.id != entry.id) }

def directoryRow (env : FsEnv) (path : Text) (userId : Nat) (parentEntry : Option FSEntry)
    (id uuid : Nat) : FSEntry where
  id := id
  uuid := uuid
  userId := (parentEntry.map (·.userId)).getD userId
  parentId := parentEntry.map (·.id)
  parentUid := parentEntry.map (·.uuid)
  name := basename path
  path := path
  isDir := true
  isShortcut := false
  shortcutTo := none
  isSymlink := false
  symlinkPath := none
  bucket := none
  bucketRegion := none
  size := 0
  details := ⟨none, none, none, none, false, env.now, env.now, env.now⟩

def insertDirectory (env : FsEnv) (path : Text) (userId : Nat) (parentEntry : Option FSEntry) :
    FsRun Unit := do
  let uuid ← uuidv4
  let id ← drawId
  insertIgnoreEntry env (directoryRow env path userId parentEntry id uuid)

def notDirectory (path : Text) : FsError :=
  .ofHttp 409 ("Path is not a directory: ".toList ++ path) "conflict"

def parentMissing (path : Text) : FsError :=
  .ofHttp 404 ("Parent path does not exist: ".toList ++ path) "not_found"

def asDirectory (path : Text) : Option FSEntry → FsRun FSEntry
  | some entry => if entry.isDir then pure entry else throw (notDirectory path)
  | none => throw (parentMissing path)

def insertBelow (env : FsEnv) (path : Text) (userId : Nat) (ensureParent : Text → FsRun FSEntry) :
    FsRun Unit :=
  if dirname path = ['/'] then insertDirectory env path userId none
  else do
    let parentEntry ← ensureParent (dirname path)
    insertDirectory env path userId (some parentEntry)

/-- `#ensureDirectoryPath`. Every level cuts the path, so as many levels as it has characters are
    enough. -/
def ensureDirectoryPath (env : FsEnv) (userId : Nat) (createPaths : Bool) :
    (levels : Nat) → (path : Text) → FsRun FSEntry
  | 0, path => throw (.failure ("Failed to create directory ".toList ++ path))
  | levels + 1, path => do
      let normalizedPath ← normalized path
      match entryAt (← get).entries normalizedPath with
      | some existingEntry => asDirectory normalizedPath (some existingEntry)
      | none =>
          refuseIf (!createPaths) (parentMissing normalizedPath)
          refuseIf (normalizedPath == ['/'])
            (.ofHttp 400 "Cannot create root directory".toList "bad_request")
          insertBelow env normalizedPath userId (ensureDirectoryPath env userId true levels)
          asDirectory normalizedPath (entryAt (← get).entries normalizedPath)

def resolveParentDirectory (env : FsEnv) (userId : Nat) (parentPath : Text) (createPaths : Bool) :
    FsRun FSEntry :=
  ensureDirectoryPath env userId createPaths (parentPath.length + 1) parentPath

def candidateDirs : (levels : Nat) → (path : Text) → List Text
  | 0, _ => []
  | levels + 1, path => if path = ['/'] then [] else path :: candidateDirs levels (dirname path)

/-- `#readEntriesByPathsForUser`, as a table from the paths of the rows found. -/
def readEntriesByPaths : (paths : List Text) → FsRun (List (Text × FSEntry))
  | [] => return []
  | path :: paths => do
      let found ← getEntryByPath path
      let others ← readEntriesByPaths paths
      return (found.map fun entry => (entry.path, entry)).toList ++ others

def knownParent (known : List (Text × FSEntry)) (path parentPath : Text) : FsRun FSEntry := do
  let parentEntry ←
    orThrow (.failure ("Parent directory not resolved while creating ".toList ++ path))
      (known.lookup parentPath)
  refuseIf (!parentEntry.isDir) (notDirectory parentPath)
  return parentEntry

def resolveInserted (env : FsEnv) (userId : Nat) (path : Text) : FsRun FSEntry := do
  let inserted ← readEntriesByPaths [path]
  match inserted.lookup path with
  | some entry => return entry
  | none => ensureDirectoryPath env userId true (path.length + 1) path

def createMissingDirectory (env : FsEnv) (userId : Nat) (path : Text)
    (known : List (Text × FSEntry)) : FsRun (List (Text × FSEntry)) := do
  insertBelow env path userId (knownParent known path)
  let entry ← resolveInserted env userId path
  refuseIf (!entry.isDir) (notDirectory path)
  return (path, entry) :: known

def createMissingDirectories (env : FsEnv) (userId : Nat) :
    (missing : List Text) → (known : List (Text × FSEntry)) → FsRun Unit
  | [], _ => return ()
  | path :: missing, known => do
      let known ← createMissingDirectory env userId path known
      createMissingDirectories env userId missing known

/-- `#ensureDirectoryPathsForUser` for one path: the directories of its chain that are missing are
    created, the shallowest first. -/
def ensureDirectoryPathsForUser (env : FsEnv) (userId : Nat) (requiredPath : Text) : FsRun Unit := do
  let required ← normalized requiredPath
  let candidatePaths := candidateDirs (required.length + 1) required
  let allEntries ← readEntriesByPaths candidatePaths
  match candidatePaths.find? fun path => (allEntries.lookup path).any (!·.isDir) with
  | some path => throw (notDirectory path)
  | none =>
      createMissingDirectories env userId
        (candidatePaths.filter fun path => (allEntries.lookup path).isNone).reverse allEntries

structure FSEntryCreateInput where
  userId : Nat
  uuid : Nat
  path : Text
  size : Nat
  contentType : Option Text := none
  checksumSha256 : Option Text := none
  metadata : Option Text := none
  thumbnail : Option Text := none
  associatedAppId : Option Nat := none
  overwrite : Bool := false
  createMissingParents : Option Bool := none
  immutable : Bool := false
  isPublic : Option Bool := none
  bucket : Option Text := none
  bucketRegion : Option Text := none

/-- The row `createEntry` inserts for a file. -/
def fileRow (env : FsEnv) (input : FSEntryCreateInput) (targetPath : Text) (parentEntry : FSEntry)
    (id : Nat) : FSEntry where
  id := id
  uuid := input.uuid
  userId := parentEntry.userId
  parentId := some parentEntry.id
  parentUid := some parentEntry.uuid
  name := basename targetPath
  path := targetPath
  isDir := false
  isShortcut := false
  shortcutTo := none
  isSymlink := false
  symlinkPath := none
  bucket := input.bucket
  bucketRegion := input.bucketRegion
  size := input.size
  details := ⟨env.serializeMetadata input.metadata input.contentType input.checksumSha256,
    input.thumbnail, input.associatedAppId, input.isPublic, input.immutable, env.now, env.now,
    env.now⟩

/-- The row `createEntry` leaves of a file that it overwrites. -/
def overwrittenRow (env : FsEnv) (input : FSEntryCreateInput) (targetPath : Text)
    (parentEntry entry : FSEntry) : FSEntry :=
  { entry with
      bucket := input.bucket
      bucketRegion := input.bucketRegion
      parentId := some parentEntry.id
      parentUid := some parentEntry.uuid
      name := basename targetPath
      path := targetPath
      size := input.size
      details :=
        { entry.details with
            metadata :=
              env.serializeMetadata input.metadata input.contentType input.checksumSha256
            thumbnail := input.thumbnail
            associatedAppId := input.associatedAppId
            isPublic := input.isPublic
            immutable := input.immutable
            modified := env.now
            accessed := env.now } }

def entryExists (targetPath : Text) : FsError :=
  .ofHttp 409 ("Entry already exists at ".toList ++ targetPath) "conflict"

def overwriteEntry (env : FsEnv) (input : FSEntryCreateInput) (targetPath : Text)
    (parentEntry existingEntry : FSEntry) : FsRun FSEntry := do
  refuseIf (!input.overwrite) (entryExists targetPath)
  refuseIf existingEntry.isDir
    (.ofHttp 409 ("Cannot overwrite a directory at ".toList ++ targetPath)
      "cannot_overwrite_a_directory")
  let change := overwrittenRow env input targetPath parentEntry
  let s ← get
  refuseIf (nameTaken env (s.entries.filter (·.id != existingEntry.id)) (change existingEntry))
    .duplicateEntry
  set { s with entries := updateWhere (·.id == existingEntry.id) change s.entries }
  return change existingEntry

/-- Insert a file at a path where nothing was found. A row that the database drops lost a race for its
    name. -/
def insertFile (env : FsEnv) (input : FSEntryCreateInput) (targetPath : Text)
    (parentEntry : FSEntry) : FsRun FSEntry := do
  let id ← drawId
  insertIgnoreEntry env (fileRow env input targetPath parentEntry id)
  orThrow (entryExists targetPath) (entryOf (← get).entries input.uuid)

/-- `createEntry`, the batch of one of `batchCreateEntries`. -/
def createEntry (env : FsEnv) (input : FSEntryCreateInput) (createPaths : Bool) :
    FsRun FSEntry := do
  let targetPath ← normalized input.path
  refuseIf (targetPath == ['/'])
    (.ofHttp 400 "Cannot write to root path".toList "cannot_write_to_root")
  let parentPath ← normalized (dirname targetPath)
  refuseIf (parentPath == ['/'])
    (.ofHttp 400 "Cannot write directly under root path".toList "bad_request")
  runIf (input.createMissingParents.getD createPaths)
    (ensureDirectoryPathsForUser env input.userId parentPath)
  let parentEntry ← asDirectory parentPath (entryAt (← get).entries parentPath)
  match entryAt (← get).entries targetPath with
  | some existingEntry => overwriteEntry env input targetPath parentEntry existingEntry
  | none => insertFile env input targetPath parentEntry

end FSEntryStore

namespace S3ObjectStore

def put (object : S3Object) (objects : List S3Object) : List S3Object :=
  objects.filter (·.address != object.address) ++ [object]

def uploadFromServer (env : FsEnv) (address : S3Address) (body : Text) : FsRun Unit := do
  refuseIf (env.s3Fails address) (.failure "Upload failed".toList)
  modify fun s => { s with objects := put ⟨address, body⟩ s.objects }

def getObjectStream (env : FsEnv) (address : S3Address) : FsRun Text := do
  refuseIf (env.s3Fails address) (.failure "Read failed".toList)
  orThrow .noSuchKey (((← get).objects.find? (·.address == address)).map (·.body))

/-- `deleteObject`, one of `deleteObjects`; the callers go on when it fails. -/
def deleteObject (env : FsEnv) (address : S3Address) : FsRun Unit :=
  modify fun s =>
    if env.s3Fails address then s
    else { s with objects := s.objects.filter (·.address != address) }

def copyObject (env : FsEnv) (source destination : S3Address) : FsRun Unit := do
  refuseIf (env.s3Fails source) (.failure "Copy failed".toList)
  match (← get).objects.find? (·.address == source) with
  | none => throw .noSuchKey
  | some object => modify fun s => { s with objects := put ⟨destination, object.body⟩ s.objects }

end S3ObjectStore

end Puter

/-
Module: Puter.Fs.FSService
Purpose: The calls of the filesystem service that change the tree (services/fs/FSService.ts): mkdir,
  touch, write, rename, mkshortcut, remove, move and copy, each called alone. Who may do what is asked
  of the environment. Events, and the thumbnails that listeners make, take no part.
Trusted boundary: none
Main exports: remove, findDedupedName
-/
import Puter.Fs.FSEntryStore

namespace Puter

namespace FSService

open PosixPath StateRun FSEntryStore

/-- The allowance that means "do not meter" (`UNLIMITED_STORAGE_ALLOWANCE`). -/
def unlimitedStorageAllowance : Nat := 9007199254740991

def assertCrossAppDeleteAllowed (env : FsEnv) (path : Text) : FsRun Unit := do
  refuseIf (!env.crossAppDeleteAllowed (← get) path) (.ofHttp 403 "Forbidden".toList "forbidden")

def assertUsableName (name : Text) : FsRun Unit := do
  refuseIf (trim name == []) (.ofHttp 400 "Name cannot be empty".toList "bad_request")
  refuseIf (name.contains '/') (.ofHttp 400 "Name cannot contain a slash".toList "bad_request")
  refuseIf (name == ['.'] || name == ['.', '.'])
    (.ofHttp 400 "Name cannot be `.` or `..`".toList "bad_request")

def mayRestructure (env : FsEnv) (s : FsState) (entry : FSEntry) (userId : Nat) : Bool :=
  entry.userId == userId ||
    (dirname entry.path != ['/'] && env.actorMayWrite s (dirname entry.path))

def assertCanRestructure (env : FsEnv) (entry : FSEntry) (userId : Nat) : FsRun Unit := do
  refuseIf (!mayRestructure env (← get) entry userId)
    (.ofHttp 403 "Cannot restructure an entry owned by another user".toList "forbidden")

/-- `#assertCanRename`: a shared file may also be renamed with `write` on the file itself. -/
def assertCanRename (env : FsEnv) (entry : FSEntry) (userId : Nat) : FsRun Unit := do
  let s ← get
  if entry.userId ≠ userId ∧ entry.isDir = false ∧ env.actorMayWrite s entry.path = true then
    return ()
  else assertCanRestructure env entry userId

def removeStorage (env : FsEnv) (entry : FSEntry) : FsRun Unit :=
  runIf (isPresent entry.bucket && isPresent entry.bucketRegion && !entry.isDir &&
      !entry.isShortcut && !entry.isSymlink) <|
    S3ObjectStore.deleteObject env
      ⟨entry.bucketRegion.getD [], entry.bucket.getD [], entry.uuid⟩

/-- The input of `remove`. -/
structure RemoveInput where
  entry : FSEntry
  recursive : Bool := false
  descendantsOnly : Bool := false
  systemInitiated : Bool := false

/-- What `remove` does with a directory: its descendants go first. -/
def removeDirectory (env : FsEnv) (input : RemoveInput) : FsRun Unit := do
  let descendants ← listDescendantsByPath input.entry.path
  refuseIf (!descendants.isEmpty && !input.recursive)
    (.ofHttp 409 "Directory is not empty".toList "conflict")
  forEach (removeStorage env) descendants
  deleteEntries descendants
  runIf (!input.descendantsOnly) (deleteEntries [input.entry])

/-- What `remove` does with a file, a shortcut or a symlink. -/
def removeLeaf (env : FsEnv) (entry : FSEntry) : FsRun Unit := do
  removeStorage env entry
  deleteEntries [entry]

/-- The checks of `remove`. -/
def assertRemovable (env : FsEnv) (userId : Nat) (input : RemoveInput) : FsRun Unit := do
  runIf (!input.systemInitiated) (assertCrossAppDeleteAllowed env input.entry.path)
  assertCanRestructure env input.entry userId

def remove (env : FsEnv) (userId : Nat) (input : RemoveInput) : FsRun Unit := do
  assertRemovable env userId input
  if input.entry.isDir then removeDirectory env input else removeLeaf env input.entry

/-- The name with a number that `#findDedupedName` tries. -/
def dedupedName (name : Text) (suffix : Nat) : Text :=
  basenameWithout name (extname name) ++ " (".toList ++ decimal suffix ++ ")".toList ++ extname name

def firstFree (candidatePath : Nat → Text) : (attempts suffix : Nat) → FsRun (Option Nat)
  | 0, _ => return none
  | attempts + 1, suffix => do
      match ← getEntryByPath (candidatePath suffix) with
      | none => return some suffix
      | some _ => firstFree candidatePath attempts (suffix + 1)

def findDedupedName (parentEntry : FSEntry) (name : Text) : FsRun Text := do
  match ← firstFree (fun suffix => childPath parentEntry.path (dedupedName name suffix)) 99999 1 with
  | some suffix => return dedupedName name suffix
  | none =>
      throw (.ofHttp 500 "Could not dedupe name within 100000 attempts".toList "internal_error")

def resolveOrCreateParent (env : FsEnv) (userId : Nat) (targetPath : Text)
    (createMissingParents : Bool) : FsRun FSEntry := do
  refuseIf (trim targetPath == ['/']) (.ofHttp 400 "Cannot operate on root".toList "bad_request")
  let parentPath := dirname (trim targetPath)
  refuseIf (parentPath == ['/']) (.ofHttp 400 "Cannot operate at root".toList "bad_request")
  resolveParentDirectory env userId parentPath createMissingParents

def alreadyExists (targetPath : Text) : FsError :=
  .ofHttp 409 ("An entry already exists at ".toList ++ targetPath) "conflict"

/-- The input of `mkdir`. -/
structure MkdirInput where
  path : Text
  overwrite : Bool := false
  dedupeName : Bool := false
  createMissingParents : Bool := false
  thumbnail : Option Text := none

/-- What `mkdir` does about an entry at its target: settle for a directory, or make way and go on with
    a name. -/
def mkdirTarget (env : FsEnv) (userId : Nat) (input : MkdirInput) (parent existing : FSEntry)
    (targetPath : Text) : FsRun (FSEntry ⊕ Text) := do
  let name := basename targetPath
  if existing.isDir then
    if input.dedupeName then
      let deduped ← findDedupedName parent name
      return .inr deduped
    else return .inl existing
  else if input.overwrite then
    remove env userId { entry := existing }
    return .inr name
  else if input.dedupeName then
    let deduped ← findDedupedName parent name
    return .inr deduped
  else throw (alreadyExists targetPath)

/-- The answer of `mkdir` when another call has inserted the row first. -/
def racedDirectory (parent : FSEntry) (name : Text) (error : FsError) : FsRun FSEntry := do
  if error ≠ .duplicateEntry then throw error
  else
    let insertedPath := childPath parent.path name
    match ← getEntryByPath insertedPath with
    | some raced => if raced.isDir then return raced else throw (alreadyExists insertedPath)
    | none => throw error

/-- Insert the directory that `mkdir` is for. -/
def createDirectory (env : FsEnv) (parent : FSEntry) (name : Text) (thumbnail : Option Text) :
    FsRun FSEntry :=
  tryCatch
    (createNonFileEntry env
      { parent := parent, name := name, kind := .directory, thumbnail := thumbnail })
    (racedDirectory parent name)

def mkdir (env : FsEnv) (userId : Nat) (input : MkdirInput) : FsRun FSEntry := do
  let targetPath := trim input.path
  let parent ← resolveOrCreateParent env userId targetPath input.createMissingParents
  match ← getEntryByPath targetPath with
  | none => createDirectory env parent (basename targetPath) input.thumbnail
  | some existing =>
      match ← mkdirTarget env userId input parent existing targetPath with
      | .inl entry => return entry
      | .inr name => createDirectory env parent name input.thumbnail

/-- The input of `touch`. -/
structure TouchInput where
  path : Text
  options : TouchOptions := {}
  createMissingParents : Bool := false

def touch (env : FsEnv) (userId : Nat) (input : TouchInput) : FsRun FSEntry := do
  let targetPath := trim input.path
  let parent ← resolveOrCreateParent env userId targetPath input.createMissingParents
  match ← getEntryByPath targetPath with
  | some existing => touchEntryTimestamps env existing.uuid input.options
  | none =>
      createNonFileEntry env { parent := parent, name := basename targetPath, kind := .emptyFile }

/-- What `rename` does once it is allowed: the row, then the paths below it. -/
def renameTo (env : FsEnv) (entry : FSEntry) (newName newPath : Text) : FsRun FSEntry := do
  let collision ← getEntryByPath newPath
  refuseIf (collision.any (·.uuid != entry.uuid)) (alreadyExists newPath)
  let updated ← updateEntry env entry.uuid { name := some newName, path := some newPath }
  runIf entry.isDir (updatePathPrefixForUser env entry.userId entry.path newPath none)
  return updated

def rename (env : FsEnv) (userId : Nat) (entry : FSEntry) (newName : Text) : FsRun FSEntry := do
  assertCanRename env entry userId
  assertUsableName newName
  if entry.name = newName then return entry
  else
    assertCrossAppDeleteAllowed env entry.path
    renameTo env entry newName (childPath (dirname entry.path) newName)

/-- The input of `mkshortcut`. -/
structure MkshortcutInput where
  parent : FSEntry
  name : Text
  target : FSEntry
  dedupeName : Bool := false

/-- The name `mkshortcut` goes on with. -/
def mkshortcutName (input : MkshortcutInput) : FsRun Text := do
  let path := childPath input.parent.path input.name
  match ← getEntryByPath path with
  | none => return input.name
  | some _ =>
      if input.dedupeName then findDedupedName input.parent input.name
      else throw (alreadyExists path)

def mkshortcut (env : FsEnv) (input : MkshortcutInput) : FsRun FSEntry := do
  let name ← mkshortcutName input
  createNonFileEntry env
    { parent := input.parent, name := name, kind := .shortcut, shortcutTo := some input.target.id }

def resolveStorageMax (allowanceMax : Nat) (override : Option Nat) : Nat :=
  if allowanceMax = unlimitedStorageAllowance then allowanceMax
  else max allowanceMax (override.getD 0)

def allowanceOverrideFor (owner actingUserId : Nat) (override : Option Nat) : Option Nat :=
  if override = some unlimitedStorageAllowance then override
  else if owner = actingUserId then override else none

def overAllowance (env : FsEnv) (entries : List FSEntry) (userId incomingSize existingSize : Nat)
    (override : Option Nat) : Bool :=
  let curr := storedBytes entries userId
  let maxStorage := resolveStorageMax (env.storageMax userId curr) override
  override != some unlimitedStorageAllowance && maxStorage != unlimitedStorageAllowance &&
    decide ((maxStorage : Int) < curr - existingSize + incomingSize)

/-- The error of `#assertStorageAllowance`. -/
def storageLimitReached : FsError :=
  .ofHttp 413 "Storage limit reached".toList "storage_limit_reached"

def assertStorageAllowance (env : FsEnv) (userId incomingSize existingSize : Nat)
    (override : Option Nat) : FsRun Unit := do
  refuseIf (overAllowance env (← get).entries userId incomingSize existingSize override)
    storageLimitReached

def entryStorageSize (entry : FSEntry) : FsRun Nat :=
  if entry.isDir then getSubtreeSize entry.userId entry.path else return entry.size

def sameNameExists (targetPath name : Text) : FsError :=
  .http ⟨409, "An entry already exists at ".toList ++ targetPath,
    "item_with_same_name_exists".toList⟩ [("entry_name".toList, name)]

/-- What `move` and `copy` do about an entry at their target: remove it, or find another name. -/
def makeWay (env : FsEnv) (userId : Nat) (overwrite dedupeName : Bool)
    (destinationParent : FSEntry) (name : Text) : Option FSEntry → FsRun Text
  | none => return name
  | some collision =>
      if overwrite then do
        remove env userId { entry := collision, recursive := true }
        return name
      else if dedupeName then findDedupedName destinationParent name
      else throw (sameNameExists (childPath destinationParent.path name) name)

/-- The input of `move`. New metadata that is left out, null, or an object in its JSON text. -/
structure MoveInput where
  source : FSEntry
  destinationParent : FSEntry
  newName : Option Text := none
  overwrite : Bool := false
  dedupeName : Bool := false
  newMetadata : Option (Option Text) := none

def MoveInput.name (input : MoveInput) : Text := input.newName.getD input.source.name

def destIsNotADirectory : FsError :=
  .ofHttp 400 "Destination parent is not a directory".toList "dest_is_not_a_directory"

/-- A directory lies under another one, as `move` and `copy` tell. -/
def startsUnder (path base : Text) : Bool := (base ++ ['/']).isPrefixOf path

/-- The checks `move` makes before it looks at its target. -/
def assertMovable (env : FsEnv) (userId : Nat) (input : MoveInput) : FsRun Unit := do
  assertCrossAppDeleteAllowed env input.source.path
  assertCanRestructure env input.source userId
  refuseIf (input.source.userId != userId &&
      input.source.userId != input.destinationParent.userId)
    (.ofHttp 403 "Cannot move an entry out of its owner's tree".toList "forbidden")
  refuseIf (!input.destinationParent.isDir) destIsNotADirectory
  refuseIf (input.source.isDir && startsUnder input.destinationParent.path input.source.path)
    (.ofHttp 400 "Cannot move a directory into itself".toList "cannot_move_directory_into_itself")
  assertUsableName input.name

def assertHandOver (env : FsEnv) (input : MoveInput) : FsRun Unit :=
  runIf (input.destinationParent.userId != input.source.userId) do
    let size ← entryStorageSize input.source
    assertStorageAllowance env input.destinationParent.userId size 0 none

/-- The writes of `move`: the row, then the paths and owners below it. -/
def relocate (env : FsEnv) (input : MoveInput) (name finalPath : Text) : FsRun FSEntry := do
  let newOwnerId := input.destinationParent.userId
  let updated ← updateEntry env input.source.uuid
    { name := some name
      path := some finalPath
      userId := some newOwnerId
      parentId := some input.destinationParent.id
      parentUid := some input.destinationParent.uuid
      metadata := input.newMetadata.map (·.map env.stripReservedMetadataKeys) }
  runIf (input.source.isDir && input.source.path != finalPath)
    (updatePathPrefixForUser env input.source.userId input.source.path finalPath (some newOwnerId))
  return updated

def move (env : FsEnv) (userId : Nat) (input : MoveInput) : FsRun FSEntry := do
  assertMovable env userId input
  let found ← getEntryByPath (childPath input.destinationParent.path input.name)
  let collision := found.filter (·.uuid != input.source.uuid)
  let name ← makeWay env userId input.overwrite input.dedupeName input.destinationParent input.name
    collision
  assertHandOver env input
  relocate env input name (childPath input.destinationParent.path name)

/-- The input of `copy`. -/
structure CopyInput where
  source : FSEntry
  destinationParent : FSEntry
  newName : Option Text := none
  overwrite : Bool := false
  dedupeName : Bool := false
  storageAllowanceMax : Option Nat := none

def CopyInput.name (input : CopyInput) : Text := input.newName.getD input.source.name

/-- `#handleGhostFile`: the row of a file whose object is gone is removed. -/
def handleGhostFile (env : FsEnv) (entry : FSEntry) : FsRun Unit :=
  tryCatch (remove env entry.userId { entry := entry, systemInitiated := true }) fun _ => return ()

/-- What `#copyLeafEntry` does about a failed copy of the object. -/
def copyFailed (env : FsEnv) (source : FSEntry) (error : FsError) : FsRun Unit := do
  if error = .noSuchKey then
    handleGhostFile env source
    throw (.http ⟨404, "File contents are missing".toList, "subject_does_not_exist".toList⟩
      [("path".toList, source.path), ("uid".toList, decimal source.uuid)])
  else throw error

/-- What `readContent` does about a failed read: as `#copyLeafEntry` does, it throws whatever the error. -/
def readFailed (env : FsEnv) (entry : FSEntry) (error : FsError) : FsRun Text := do
  copyFailed env entry error
  throw error

/-- `readContent`, of the whole file. -/
def readContent (env : FsEnv) (entry : FSEntry) : FsRun Text := do
  refuseIf entry.isDir
    (.ofHttp 400 "Cannot read content of a directory".toList "bad_request")
  refuseIf (entry.isSymlink || entry.isShortcut)
    (.ofHttp 400 "Cannot read content of a symlink or shortcut directly".toList
      "shortcut_target_not_found")
  if hasNoBackingS3Object entry then return []
  else
    tryCatch
      (S3ObjectStore.getObjectStream env
        ⟨resolveRegion env entry.bucketRegion, resolveBucket env entry.bucket, entry.uuid⟩)
      (readFailed env entry)

def copyFile (env : FsEnv) (userId : Nat) (source destinationParent : FSEntry) (newName : Text) :
    FsRun FSEntry := do
  let newUuid ← uuidv4
  let region := resolveRegion env source.bucketRegion
  let bucket := resolveBucket env source.bucket
  tryCatch
    (S3ObjectStore.copyObject env ⟨region, bucket, source.uuid⟩ ⟨region, bucket, newUuid⟩)
    (copyFailed env source)
  createEntry env
    { userId := userId
      uuid := newUuid
      path := childPath destinationParent.path newName
      size := source.size
      metadata := source.details.metadata.map env.stripReservedMetadataKeys
      thumbnail := source.details.thumbnail
      associatedAppId := source.details.associatedAppId
      immutable := source.details.immutable
      isPublic := some (source.details.isPublic.getD false)
      bucket := source.bucket
      bucketRegion := source.bucketRegion } false

def copyLeafEntry (env : FsEnv) (userId : Nat) (source destinationParent : FSEntry)
    (newName : Text) : FsRun FSEntry :=
  if source.isSymlink then
    createNonFileEntry env
      { parent := destinationParent
        name := newName
        kind := .symlink
        symlinkPath := source.symlinkPath
        metadata := source.details.metadata
        associatedAppId := source.details.associatedAppId }
  else if source.isShortcut then
    createNonFileEntry env
      { parent := destinationParent
        name := newName
        kind := .shortcut
        shortcutTo := source.shortcutTo
        metadata := source.details.metadata
        associatedAppId := source.details.associatedAppId }
  else if hasNoBackingS3Object source then
    createNonFileEntry env
      { parent := destinationParent
        name := newName
        kind := .emptyFile
        metadata := source.details.metadata
        thumbnail := source.details.thumbnail
        associatedAppId := source.details.associatedAppId
        isPublic := source.details.isPublic
        immutable := source.details.immutable }
  else copyFile env userId source destinationParent newName

def copyDirectoryEntry (env : FsEnv) (source destinationParent : FSEntry) (newName : Text) :
    FsRun FSEntry :=
  createNonFileEntry env
    { parent := destinationParent
      name := newName
      kind := .directory
      metadata := source.details.metadata
      thumbnail := source.details.thumbnail
      associatedAppId := source.details.associatedAppId
      isPublic := source.details.isPublic }

def copyEntry (env : FsEnv) (userId : Nat) (source destinationParent : FSEntry) (newName : Text) :
    FsRun FSEntry :=
  if source.isDir then copyDirectoryEntry env source destinationParent newName
  else copyLeafEntry env userId source destinationParent newName

/-- The loop of `copy` over the descendants; the table gives the copies made so far by the paths of
    what they copy. An entry whose parent was not copied is skipped. -/
def copyDescendants (env : FsEnv) (userId : Nat) :
    (descendants : List FSEntry) → (newByOldPath : List (Text × FSEntry)) → FsRun Unit
  | [], _ => return ()
  | descendant :: others, newByOldPath =>
      match newByOldPath.lookup (dirname descendant.path) with
      | none => copyDescendants env userId others newByOldPath
      | some newParent => do
          let copied ← copyEntry env userId descendant newParent descendant.name
          copyDescendants env userId others ((descendant.path, copied) :: newByOldPath)

/-- What `copy` does with a directory: a new root, then the descendants, parents first. -/
def copyDirectory (env : FsEnv) (userId : Nat) (source destinationParent : FSEntry)
    (newName : Text) : FsRun FSEntry := do
  let newRoot ← copyDirectoryEntry env source destinationParent newName
  let descendants ← listDescendantsByPath source.path
  copyDescendants env userId
    (descendants.mergeSort fun a b => decide (utf16Length a.path ≤ utf16Length b.path))
    [(source.path, newRoot)]
  return newRoot

/-- The checks `copy` makes before it looks at its target. -/
def assertCopyable (input : CopyInput) : FsRun Unit := do
  refuseIf (!input.destinationParent.isDir) destIsNotADirectory
  refuseIf (input.source.isDir && (input.destinationParent.path == input.source.path ||
      startsUnder input.destinationParent.path input.source.path))
    (.ofHttp 400 "Cannot copy a directory into itself or a descendant".toList
      "cannot_copy_directory_into_itself")
  assertUsableName input.name

def freedSize (overwrite : Bool) : Option FSEntry → FsRun Nat
  | none => return 0
  | some collision => if overwrite then entryStorageSize collision else return 0

def assertCopyAllowance (env : FsEnv) (userId : Nat) (input : CopyInput)
    (collision : Option FSEntry) : FsRun Unit := do
  let incoming ← entryStorageSize input.source
  let freed ← freedSize input.overwrite collision
  assertStorageAllowance env input.destinationParent.userId incoming freed
    (allowanceOverrideFor input.destinationParent.userId userId input.storageAllowanceMax)

/-- The last part of `copy`, once the target is free. -/
def copyTo (env : FsEnv) (userId : Nat) (input : CopyInput) (name : Text) : FsRun FSEntry :=
  if input.source.isDir then copyDirectory env userId input.source input.destinationParent name
  else copyLeafEntry env userId input.source input.destinationParent name

def copy (env : FsEnv) (userId : Nat) (input : CopyInput) : FsRun FSEntry := do
  assertCopyable input
  let collision ← getEntryByPath (childPath input.destinationParent.path input.name)
  assertCopyAllowance env userId input collision
  let name ← makeWay env userId input.overwrite input.dedupeName input.destinationParent input.name
    collision
  copyTo env userId input name

/-- `#normalizePath` of the service: a home path has to be resolved first. -/
def normalizeWritePath (path : Text) : FsRun Text := do
  refuseIf (trim path == ['~'] || ['~', '/'].isPrefixOf (trim path))
    (.ofHttp 400 "Home path must be resolved before write".toList "bad_request")
  normalized path

/-- A write request: `FSEntryWriteInput`, the content, and how many bytes of it arrive. -/
structure WriteRequest where
  path : Text
  size : Nat
  contentType : Option Text := none
  checksumSha256 : Option Text := none
  metadata : Option Text := none
  associatedAppId : Option Nat := none
  overwrite : Bool := false
  dedupeName : Bool := false
  createMissingParents : Bool := false
  immutable : Bool := false
  isPublic : Option Bool := none
  content : Text := []
  uploadedSize : Nat := 0
  storageAllowanceMax : Option Nat := none

/-- Where a write goes: a path, and the file that is overwritten there. -/
structure WriteTarget where
  path : Text
  existing : Option FSEntry

def findDedupedPath (targetPath : Text) : FsRun Text := do
  let candidatePath := fun suffix =>
    normalize (dirname targetPath ++ '/' :: (basenameWithout targetPath (extname targetPath) ++
      " (".toList ++ decimal suffix ++ ")".toList ++ extname targetPath))
  match ← firstFree candidatePath 99999 1 with
  | some suffix => return candidatePath suffix
  | none => throw (.ofHttp 409 "Unable to resolve deduped file path".toList "conflict")

/-- The path `#resolveWriteTargets` settles on, and what is there. -/
def writeTarget (request : WriteRequest) (path : Text) : FsRun WriteTarget := do
  let existing ← getEntryByPath path
  if existing.isSome ∧ request.overwrite = false ∧ request.dedupeName = true then
    let deduped ← findDedupedPath path
    let existing ← getEntryByPath deduped
    return ⟨deduped, existing⟩
  else return ⟨path, existing⟩

/-- `#resolveWriteTargets` for one request. -/
def resolveWriteTarget (request : WriteRequest) (path : Text) : FsRun WriteTarget := do
  let target ← writeTarget request path
  refuseIf (target.existing.any (·.isDir))
    (.ofHttp 409 "Cannot overwrite an existing directory".toList "cannot_overwrite_a_directory")
  refuseIf (target.existing.isSome && !request.overwrite)
    (.http ⟨409, "A file already exists at this path and overwrite was not requested".toList,
      "item_with_same_name_exists".toList⟩ [("entry_name".toList, basename target.path)])
  return target

/-- `#storageOwnerOf`: the owner of the home directory a path is in. -/
def storageOwnerOf (path : Text) (actingUserId : Nat) : FsRun Nat := do
  let normalizedPath ← normalizeWritePath path
  let home := '/' :: ((normalizedPath.splitOn '/').getD 1 [])
  if home = ['/'] then return actingUserId
  else
    match ← getEntryByPath home with
    | some entry => return entry.userId
    | none => return actingUserId

def writeLocation (env : FsEnv) (target : WriteTarget) : Text × Text :=
  match target.existing with
  | some existing =>
      if isPresent existing.bucket then
        (resolveBucket env existing.bucket, resolveRegion env existing.bucketRegion)
      else (env.s3Bucket, env.s3Region)
  | none => (env.s3Bucket, env.s3Region)

def writeKey : Option FSEntry → FsRun Nat
  | some existing => return existing.uuid
  | none => uuidv4

/-- The input `write` hands to the store. -/
def writeCreateInput (env : FsEnv) (userId : Nat) (request : WriteRequest) (path : Text)
    (uuid : Nat) (bucket bucketRegion : Text) : FSEntryCreateInput where
  userId := userId
  uuid := uuid
  path := path
  size := request.uploadedSize
  contentType := some (request.contentType.getD "application/octet-stream".toList)
  checksumSha256 := request.checksumSha256
  metadata := request.metadata.map env.stripReservedMetadataKeys
  thumbnail := none
  associatedAppId := request.associatedAppId
  overwrite := request.overwrite
  createMissingParents := some request.createMissingParents
  immutable := request.immutable
  isPublic := request.isPublic
  bucket := some bucket
  bucketRegion := some bucketRegion

def upload (env : FsEnv) (request : WriteRequest) (address : S3Address) (owner existingSize : Nat)
    (override : Option Nat) : FsRun Unit := do
  S3ObjectStore.uploadFromServer env address request.content
  runIf (request.size < request.uploadedSize)
    (assertStorageAllowance env owner request.uploadedSize existingSize override)

def write (env : FsEnv) (userId : Nat) (request : WriteRequest) : FsRun FSEntry := do
  let path ← normalizeWritePath request.path
  refuseIf (path == ['/'])
    (.ofHttp 400 "Cannot write to root path".toList "cannot_write_to_root")
  let target ← resolveWriteTarget request path
  let existingSize := (target.existing.map (·.size)).getD 0
  let owner ← storageOwnerOf target.path userId
  let override := allowanceOverrideFor owner userId request.storageAllowanceMax
  assertStorageAllowance env owner request.size existingSize override
  let (bucket, region) := writeLocation env target
  let key ← writeKey target.existing
  upload env request ⟨region, bucket, key⟩ owner existingSize override
  createEntry env (writeCreateInput env userId request target.path key bucket region) true

end FSService

end Puter

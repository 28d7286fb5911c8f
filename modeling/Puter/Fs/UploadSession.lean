/-
Module: Puter.Fs.UploadSession
Purpose: The signed uploads of the filesystem service (startUrlWrite, completeUrlWrite and abortUrlWrite
  in services/fs/FSService.ts) with the sessions they keep in the KV store, and the client's upload in
  between. A session's metadata is kept as the input it parses to; its bookkeeping times, the reason of
  a failure and thumbnails are left out.
Trusted boundary: what the object store assembles from the parts of a multipart upload
Main exports: PendingUploadSession, abortUrlWrite
-/
import Puter.Fs.FSService
import Puter.Library.SortedTable

namespace Puter

open PosixPath StateRun FSEntryStore

inductive UploadMode where
  | single
  | multipart
deriving DecidableEq, Repr

/-- `PendingUploadSessionStatus`. -/
inductive SessionStatus where
  | pending
  | completed
  | failed
  | aborted
deriving DecidableEq, Repr

/-- A session, as the KV store keeps it. Times are in milliseconds. -/
structure PendingUploadSession where
  sessionId : Nat
  userId : Nat
  targetPath : Text
  overwriteTargetUid : Option Nat
  contentType : Option Text
  size : Nat
  checksumSha256 : Option Text
  uploadMode : UploadMode
  multipartUploadId : Option Text
  bucket : Option Text
  bucketRegion : Option Text
  objectKey : Nat
  metadataJson : FSEntryCreateInput
  expiresAt : Nat
  status : SessionStatus

/-- The files, and the sessions by their ids. -/
structure UploadState where
  files : FsState
  sessions : SortedTable Nat PendingUploadSession

/-- What signed uploads find around them beyond what files do: the clock in milliseconds, and what the
    object store makes of multipart uploads. -/
structure UploadEnv extends FsEnv where
  nowMs : Nat
  maxSingleUploadSize : Nat
  createMultipartUpload : S3Address → Option Text
  assembled : Text → List Nat → Option Text
  multipartAbortFails : Bool

abbrev UploadRun := EStateM FsError UploadState

def onFiles {α : Type} (body : FsRun α) : UploadRun α :=
  within UploadState.files (fun s files => { s with files := files }) body

def toPendingUploadSessionExpiresAtSeconds (expiresAtMs : Nat) : Nat := max 1 ((expiresAtMs + 999) / 1000)

/-- `getPendingEntryBySessionId`: a session whose record has expired is not found, and a session that is
    found bears the id that it was asked for by. -/
def getPendingEntryBySessionId (env : UploadEnv) (sessions : SortedTable Nat PendingUploadSession)
    (sessionId : Nat) : Option PendingUploadSession :=
  ((sessions.get sessionId).filter fun session => decide
    (env.nowMs < 1000 * toPendingUploadSessionExpiresAtSeconds session.expiresAt)).map
      fun session => { session with sessionId := sessionId }

def createPendingEntry (session : PendingUploadSession) : UploadRun Unit :=
  modify fun s => { s with sessions := s.sessions.put session.sessionId session }

/-- `#markPendingSessionsWithStatus`, for one session. -/
def markPendingSessionWithStatus (env : UploadEnv) (sessionId : Nat) (status : SessionStatus) :
    UploadRun Unit :=
  modify fun s =>
    match getPendingEntryBySessionId env s.sessions sessionId with
    | none => s
    | some session =>
        { s with sessions := s.sessions.put sessionId { session with status := status } }

namespace FSService

/-- `SignedWriteRequest`. A mode left out is `auto`. -/
structure SignedWriteRequest where
  fileMetadata : WriteRequest
  uploadMode : Option UploadMode := none
  expiresInSeconds : Option Nat := none
  directory : Bool := false

/-- A started write: the directory that was made sure of, or the session and its key. -/
inductive StartedWrite where
  | directory (entry : FSEntry)
  | session (sessionId objectKey : Nat)

def readDirectory (path : Text) (missing : String) : FsRun FSEntry := do
  let entry ← orThrow (.ofHttp 404 (missing.toList ++ path) "not_found") (entryAt (← get).entries path)
  refuseIf (!entry.isDir) (notDirectory path)
  return entry

/-- `ensureDirectoriesForUserWithCreated`, for one path. -/
def ensureDirectoryForUser (env : FsEnv) (userId : Nat) (path : Text) (createPaths : Bool) :
    FsRun FSEntry := do
  let normalizedPath ← normalized path
  refuseIf (normalizedPath == ['/'])
    (.ofHttp 400 "Cannot create root directory".toList "bad_request")
  runIf createPaths (ensureDirectoryPathsForUser env userId normalizedPath)
  readDirectory normalizedPath "Directory path does not exist: "

/-- `resolveParentDirectoriesBatchWithCreated`, for one path. -/
def resolveParentDirectoryBatch (env : FsEnv) (userId : Nat) (parentPath : Text) (createPaths : Bool) :
    FsRun FSEntry := do
  runIf createPaths (ensureDirectoryPathsForUser env userId parentPath)
  let normalizedPath ← normalized parentPath
  readDirectory normalizedPath "Parent path does not exist: "

def determineUploadMode (env : UploadEnv) (requested : Option UploadMode) (size : Nat) : UploadMode :=
  if requested = some .multipart ∨ env.maxSingleUploadSize < size then .multipart else .single

def signedExpiry (env : UploadEnv) (expiresInSeconds : Option Nat) : Nat :=
  env.nowMs + max 60 (min 3600 (expiresInSeconds.getD 900)) * 1000

/-- What a start settles before it signs: where the write goes, with the allowance asked for and the
    parents made. -/
def resolveSignedWrite (env : FsEnv) (userId : Nat) (request : WriteRequest) (path : Text) :
    FsRun WriteTarget := do
  let target ← resolveWriteTarget request path
  let owner ← storageOwnerOf target.path userId
  let refused := overAllowance env (← get).entries owner request.size
    ((target.existing.map (·.size)).getD 0)
    (allowanceOverrideFor owner userId request.storageAllowanceMax)
  -- The allowance and the parents are asked for side by side: a refusal stops neither.
  let _ ← resolveParentDirectoryBatch env userId (dirname target.path) request.createMissingParents
  refuseIf refused storageLimitReached
  return target

def signedSession (env : UploadEnv) (userId : Nat) (request : SignedWriteRequest) (target : WriteTarget)
    (objectKey sessionId : Nat) (uploadMode : UploadMode) (multipartUploadId : Option Text) :
    PendingUploadSession :=
  let location := writeLocation env.toFsEnv target
  let metadata := request.fileMetadata
  { sessionId := sessionId
    userId := userId
    targetPath := target.path
    overwriteTargetUid := target.existing.map (·.uuid)
    contentType := some (metadata.contentType.getD "application/octet-stream".toList)
    size := metadata.size
    checksumSha256 := metadata.checksumSha256
    uploadMode := uploadMode
    multipartUploadId := multipartUploadId
    bucket := some location.1
    bucketRegion := some location.2
    objectKey := objectKey
    metadataJson :=
      { writeCreateInput env.toFsEnv userId metadata target.path objectKey location.1 location.2 with
        size := metadata.size }
    expiresAt := signedExpiry env request.expiresInSeconds
    status := .pending }

def nonempty (text : Option Text) : Option Text := text.filter (· != [])

/-- `createSignedUploadUrl`: a multipart upload is opened first. -/
def openUpload (env : UploadEnv) (uploadMode : UploadMode) (address : S3Address) :
    FsRun (Option Text) :=
  match uploadMode with
  | .single => pure none
  | .multipart => do
      let uploadId ← orThrow (.failure "Failed to initialize multipart upload".toList)
        (nonempty (env.createMultipartUpload address))
      pure (some uploadId)

def planSignedWrite (env : UploadEnv) (userId : Nat) (request : SignedWriteRequest) (path : Text) :
    FsRun PendingUploadSession := do
  let target ← resolveSignedWrite env.toFsEnv userId request.fileMetadata path
  let objectKey ← writeKey target.existing
  let uploadMode := determineUploadMode env request.uploadMode request.fileMetadata.size
  let location := writeLocation env.toFsEnv target
  let multipartUploadId ← openUpload env uploadMode ⟨location.2, location.1, objectKey⟩
  let sessionId ← uuidv4
  return signedSession env userId request target objectKey sessionId uploadMode multipartUploadId

def writePath (path : Text) : FsRun Text := do
  let normalizedPath ← normalizeWritePath path
  refuseIf (normalizedPath == ['/'])
    (.ofHttp 400 "Cannot write to root path".toList "cannot_write_to_root")
  return normalizedPath

/-- `startUrlWriteWithCreatedDirectories`. -/
def startUrlWrite (env : UploadEnv) (userId : Nat) (request : SignedWriteRequest) :
    UploadRun StartedWrite := do
  let path ← onFiles (writePath request.fileMetadata.path)
  if request.directory then do
    let entry ← onFiles (ensureDirectoryForUser env.toFsEnv userId path
      request.fileMetadata.createMissingParents)
    pure (.directory entry)
  else do
    let session ← onFiles (planSignedWrite env userId request path)
    createPendingEntry session
    pure (.session session.sessionId session.objectKey)

/-- `#parseSessionMetadata`. The overwrite that is asked for at the end is that of the file found at the
    start. -/
def parseSessionMetadata (env : FsEnv) (session : PendingUploadSession) : FSEntryCreateInput :=
  { session.metadataJson with
    userId := session.userId
    uuid := session.objectKey
    path := session.targetPath
    size := session.size
    contentType := session.contentType
    checksumSha256 := session.checksumSha256
    bucket := some (session.bucket.getD (session.metadataJson.bucket.getD env.s3Bucket))
    bucketRegion :=
      some (session.bucketRegion.getD (session.metadataJson.bucketRegion.getD env.s3Region))
    overwrite := session.overwriteTargetUid.isSome }

def sessionAddress (env : FsEnv) (session : PendingUploadSession) : S3Address where
  region := (parseSessionMetadata env session).bucketRegion.getD []
  bucket := (parseSessionMetadata env session).bucket.getD []
  key := session.objectKey

def clientUpload (env : UploadEnv) (sessionId : Nat) (body : Text) : UploadRun Unit :=
  modify fun s =>
    match s.sessions.get sessionId with
    | none => s
    | some session =>
        if session.uploadMode = .single ∧ env.nowMs ≤ session.expiresAt then
          { s with files := { s.files with
              objects := S3ObjectStore.put ⟨sessionAddress env.toFsEnv session, body⟩ s.files.objects } }
        else s

/-- `CompleteWriteRequest`, with the numbers of the parts. -/
structure CompleteWriteRequest where
  uploadId : Nat
  parts : List Nat := []

structure CompleteWriteResponse where
  sessionId : Nat
  fsEntry : FSEntry
  wasOverwrite : Bool

/-- `completeMultipartUpload`, with the checks before it. -/
def completeMultipart (env : UploadEnv) (session : PendingUploadSession) (parts : List Nat) :
    UploadRun Unit := do
  let uploadId ← orThrow (.ofHttp 400 "Multipart upload id missing from session".toList "bad_request")
    (nonempty session.multipartUploadId)
  refuseIf parts.isEmpty
    (.ofHttp 400 "Multipart upload completion requires parts".toList "bad_request")
  let body ← orThrow (.failure "Multipart completion failed".toList) (env.assembled uploadId parts)
  onFiles (modify fun files =>
    { files with objects := S3ObjectStore.put ⟨sessionAddress env.toFsEnv session, body⟩ files.objects })

/-- `headObjectSize`, where a failure counts as no answer. -/
def headObjectSize (env : FsEnv) (objects : List S3Object) (address : S3Address) : Option Nat :=
  if env.s3Fails address then none
  else (objects.find? (·.address == address)).map fun object => object.body.length

def completedInput (env : FsEnv) (session : PendingUploadSession) (objects : List S3Object) :
    FSEntryCreateInput :=
  let createInput := { parseSessionMetadata env session with thumbnail := none }
  { createInput with
    size := (headObjectSize env objects (sessionAddress env session)).getD createInput.size }

/-- `completePendingEntry`, with the size that the object has then. -/
def writeCompleted (env : FsEnv) (session : PendingUploadSession) : FsRun FSEntry := do
  createEntry env (completedInput env session (← get).objects) true

def finishUpload (env : UploadEnv) (session : PendingUploadSession) (parts : List Nat) :
    UploadRun CompleteWriteResponse := do
  runIf (session.uploadMode == .multipart) (completeMultipart env session parts)
  let fsEntry ← onFiles (writeCompleted env.toFsEnv session)
  markPendingSessionWithStatus env session.sessionId .completed
  pure ⟨session.sessionId, fsEntry, session.overwriteTargetUid.isSome⟩

def refuseExpired (env : UploadEnv) (session : PendingUploadSession) : UploadRun Unit :=
  runIf (decide (session.expiresAt < env.nowMs)) do
    markPendingSessionWithStatus env session.sessionId .failed
    throw (.ofHttp 400 "Upload session expired".toList "session_required")

def statusText : SessionStatus → Text
  | .pending => "pending".toList
  | .completed => "completed".toList
  | .failed => "failed".toList
  | .aborted => "aborted".toList

def sessionDenied : FsError := .ofHttp 403 "Upload session access denied".toList "forbidden"

def completeUrlWrite (env : UploadEnv) (userId : Nat) (request : CompleteWriteRequest) :
    UploadRun CompleteWriteResponse := do
  let s ← get
  let session ← orThrow (.ofHttp 404 "Upload session was not found".toList "not_found")
    (getPendingEntryBySessionId env s.sessions request.uploadId)
  refuseIf (session.userId != userId) sessionDenied
  refuseIf (session.status != .pending)
    (.ofHttp 409 ("Upload session is not pending (status=".toList ++ statusText session.status ++
      ")".toList) "conflict")
  refuseExpired env session
  tryCatch (finishUpload env session request.parts) fun error => do
    markPendingSessionWithStatus env session.sessionId .failed
    throw error

def abortedObject (session : PendingUploadSession) : Option S3Address :=
  if isPresent session.bucket ∧ isPresent session.bucketRegion ∧
      ¬ (session.uploadMode = .multipart ∧ isPresent session.multipartUploadId) then
    some ⟨session.bucketRegion.getD [], session.bucket.getD [], session.objectKey⟩
  else none

def dropUpload (env : UploadEnv) (session : PendingUploadSession) : UploadRun Unit :=
  match abortedObject session with
  | some address => do
      refuseIf (env.s3Fails address) (.failure "Delete failed".toList)
      onFiles (S3ObjectStore.deleteObject env.toFsEnv address)
  | none =>
      refuseIf (isPresent session.bucket && isPresent session.bucketRegion && env.multipartAbortFails)
        (.failure "Multipart abort failed".toList)

/-- `abortUrlWrite`. The session is marked whether or not the upload could be dropped. -/
def abortUrlWrite (env : UploadEnv) (userId : Nat) (uploadId : Nat) : UploadRun Unit := do
  let s ← get
  match getPendingEntryBySessionId env s.sessions uploadId with
  | none => pure ()
  | some session =>
      refuseIf (session.userId != userId) sessionDenied
      tryCatch (dropUpload env session) fun error => do
        markPendingSessionWithStatus env session.sessionId .aborted
        throw error
      markPendingSessionWithStatus env session.sessionId .aborted

end FSService

end Puter

/-
Module: Puter.Fs.SessionAborts
Purpose: Which objects an aborted upload deletes. A session for a new file that has not completed owns its
  key alone, over every run of starts, client uploads, completions and aborts; a session that overwrites a
  file, or has completed, shares its key with a row.
Trusted boundary: none
Main exports: abortDeletes, abort_spares_iff
-/
import Puter.Fs.StoreRows
import Puter.Fs.TreeInvariant
import Puter.Fs.UploadSession

namespace Puter

open StateRun FSEntryStore FSService

def abortedSession (env : UploadEnv) (s : UploadState) (userId uploadId : Nat) :
    Option PendingUploadSession :=
  (getPendingEntryBySessionId env s.sessions uploadId).filter (·.userId == userId)

def abortDeletes (env : UploadEnv) (s : UploadState) (userId uploadId : Nat) : Option S3Address :=
  ((abortedSession env s userId uploadId).bind abortedObject).filter fun address => !env.s3Fails address

/-- An abort would delete the object of the session, which is one for a new file that has not
    completed. -/
def Spare (session : PendingUploadSession) : Prop :=
  session.overwriteTargetUid = none ∧ session.status ≠ .completed ∧ (abortedObject session).isSome

def Shared (session : PendingUploadSession) : Prop :=
  session.overwriteTargetUid.isSome ∨ session.status = .completed

/-- How the keys of the sessions and the uuids of the rows relate. -/
structure Accounted (s : UploadState) : Prop where
  rows : ∀ row ∈ s.files.entries, row.uuid < s.files.nextUuid
  keys : ∀ id session, s.sessions.get id = some session → session.objectKey < s.files.nextUuid
  spare : ∀ id session, s.sessions.get id = some session → Spare session →
    ∀ row ∈ s.files.entries, row.uuid ≠ session.objectKey
  apart : ∀ id id' session session', id ≠ id' → s.sessions.get id = some session →
    s.sessions.get id' = some session' → Spare session → session'.objectKey ≠ session.objectKey
  shared : ∀ id session, s.sessions.get id = some session → Shared session →
    ∃ row ∈ s.files.entries, row.uuid = session.objectKey

/-- Only rows with new uuids were added, and no session touched. -/
structure Prepares (s s' : UploadState) : Prop where
  sessions : s'.sessions = s.sessions
  moreUuids : s.files.nextUuid ≤ s'.files.nextUuid
  old : ∀ row ∈ s.files.entries, row ∈ s'.files.entries
  new : ∀ row ∈ s'.files.entries, row ∈ s.files.entries ∨
    s.files.nextUuid ≤ row.uuid ∧ row.uuid < s'.files.nextUuid

variable {env : UploadEnv} {s s' : UploadState}

namespace Prepares

theorem refl (s : UploadState) : Prepares s s :=
  ⟨rfl, le_refl _, fun _ member => member, fun _ member => .inl member⟩

theorem trans {s₁ s₂ : UploadState} (first : Prepares s s₁) (second : Prepares s₁ s₂) :
    Prepares s s₂ where
  sessions := second.sessions.trans first.sessions
  moreUuids := first.moreUuids.trans second.moreUuids
  old := fun row member => second.old row (first.old row member)
  new := by
    intro row member
    rcases second.new row member with between | ⟨low, high⟩
    · rcases first.new row between with old | ⟨low, high⟩
      · exact .inl old
      · exact .inr ⟨low, high.trans_le second.moreUuids⟩
    · exact .inr ⟨first.moreUuids.trans low, high⟩

instance : IsPreorder UploadState Prepares where
  refl := refl
  trans := fun _ _ _ => trans

theorem of_made {files : FsState} (made : MadeDirectories s.files files) :
    Prepares s { s with files := files } where
  sessions := rfl
  moreUuids := made.moreUuids
  old := fun _ member => made.old member
  new := fun _ member => (made.cases member).imp_right And.right

theorem onFiles {α : Type} {body : FsRun α} (keeps : Keeps MadeDirectories body) :
    Keeps Prepares (onFiles body) := by
  intro s
  unfold Puter.onFiles
  rw [finalState_within]
  exact of_made (keeps s.files)

theorem accounted (prepares : Prepares s s') (accounted : Accounted s) : Accounted s' where
  rows := by
    intro row member
    rcases prepares.new row member with old | ⟨-, high⟩
    · exact (accounted.rows row old).trans_le prepares.moreUuids
    · exact high
  keys := by
    intro id session stored
    rw [prepares.sessions] at stored
    exact (accounted.keys id session stored).trans_le prepares.moreUuids
  spare := by
    intro id session stored spare row member
    rw [prepares.sessions] at stored
    rcases prepares.new row member with old | ⟨low, -⟩
    · exact accounted.spare id session stored spare row old
    · exact ((accounted.keys id session stored).trans_le low).ne'
  apart := by
    intro id id' session session' differ stored stored'
    rw [prepares.sessions] at stored stored'
    exact accounted.apart id id' session session' differ stored stored'
  shared := by
    intro id session stored shared
    rw [prepares.sessions] at stored
    obtain ⟨row, member, same⟩ := accounted.shared id session stored shared
    exact ⟨row, prepares.old row member, same⟩

end Prepares

theorem Accounted.put (accounted : Accounted s) {id : Nat} {session : PendingUploadSession}
    (drawn : session.objectKey < s.files.nextUuid)
    (spare : Spare session → ∀ row ∈ s.files.entries, row.uuid ≠ session.objectKey)
    (ahead : ∀ id' session', id' ≠ id → s.sessions.get id' = some session' → Spare session →
      session'.objectKey ≠ session.objectKey)
    (behind : ∀ id' session', id' ≠ id → s.sessions.get id' = some session' → Spare session' →
      session.objectKey ≠ session'.objectKey)
    (shared : Shared session → ∃ row ∈ s.files.entries, row.uuid = session.objectKey) :
    Accounted { s with sessions := s.sessions.put id session } where
  rows := accounted.rows
  keys := by
    intro id' session' stored
    rw [SortedTable.get_put] at stored
    split at stored
    · cases stored
      exact drawn
    · exact accounted.keys id' session' stored
  spare := by
    intro id' session' stored isSpare
    rw [SortedTable.get_put] at stored
    split at stored
    · cases stored
      exact spare isSpare
    · exact accounted.spare id' session' stored isSpare
  apart := by
    intro id₁ id₂ session₁ session₂ differ stored₁ stored₂ isSpare
    rw [SortedTable.get_put] at stored₁ stored₂
    split at stored₁
    · next same₁ =>
        cases stored₁
        have other : id₂ ≠ id := fun same₂ => differ (same₁.trans same₂.symm)
        rw [if_neg other] at stored₂
        exact ahead id₂ session₂ other stored₂ isSpare
    · next other₁ =>
        split at stored₂
        · cases stored₂
          exact behind id₁ session₁ other₁ stored₁ isSpare
        · exact accounted.apart id₁ id₂ session₁ session₂ differ stored₁ stored₂ isSpare
  shared := by
    intro id' session' stored isShared
    rw [SortedTable.get_put] at stored
    split at stored
    · cases stored
      exact shared isShared
    · exact accounted.shared id' session' stored isShared

theorem getPendingEntryBySessionId_some {sessions : SortedTable Nat PendingUploadSession} {id : Nat}
    {session : PendingUploadSession}
    (found : getPendingEntryBySessionId env sessions id = some session) :
    ∃ stored, sessions.get id = some stored ∧ session = { stored with sessionId := id } := by
  obtain ⟨stored, kept, rfl⟩ := Option.map_eq_some_iff.mp found
  exact ⟨stored, (Option.filter_eq_some_iff.mp kept).1, rfl⟩

theorem getPendingEntry_own {sessions : SortedTable Nat PendingUploadSession} {id : Nat}
    {session : PendingUploadSession}
    (found : getPendingEntryBySessionId env sessions id = some session) :
    getPendingEntryBySessionId env sessions session.sessionId = some session := by
  obtain ⟨stored, -, rfl⟩ := getPendingEntryBySessionId_some found
  exact found

theorem markPendingSession_final {id : Nat} {session : PendingUploadSession} {status : SessionStatus}
    (found : getPendingEntryBySessionId env s.sessions id = some session) :
    finalState (markPendingSessionWithStatus env id status s) =
      { s with sessions := s.sessions.put id { session with status := status } } := by
  rw [markPendingSessionWithStatus, finalState_modify, found]

theorem Accounted.mark (accounted : Accounted s) {id : Nat} {session : PendingUploadSession}
    {status : SessionStatus}
    (found : getPendingEntryBySessionId env s.sessions id = some session)
    (open_ : status ≠ .completed)
    (sound : session.overwriteTargetUid = none → (abortedObject session).isSome →
      session.status ≠ .completed) :
    Accounted (finalState (markPendingSessionWithStatus env id status s)) := by
  rw [markPendingSession_final found]
  obtain ⟨stored, isStored, rfl⟩ := getPendingEntryBySessionId_some found
  have before : ∀ marked : PendingUploadSession, marked = { stored with sessionId := id, status := status } →
      Spare marked → Spare stored := by
    rintro _ rfl ⟨new, -, deletes⟩
    exact ⟨new, sound new deletes, deletes⟩
  refine accounted.put (accounted.keys id stored isStored) ?_ ?_ ?_ ?_
  · intro spare
    exact accounted.spare id stored isStored (before _ rfl spare)
  · intro id' session' differ stored' spare
    exact accounted.apart id id' stored session' differ.symm isStored stored' (before _ rfl spare)
  · intro id' session' differ stored' spare
    exact accounted.apart id' id session' stored differ stored' isStored spare
  · rintro (overwrites | completed)
    · exact accounted.shared id stored isStored (.inl overwrites)
    · exact absurd completed open_

theorem Accounted.complete (accounted : Accounted s) {id : Nat} {session : PendingUploadSession}
    (found : getPendingEntryBySessionId env s.sessions id = some session)
    (pending : session.status = .pending) {input : FSEntryCreateInput} {targetPath : Text}
    {parentEntry entry : FSEntry} {files : FsState}
    (written : FileWritten env.toFsEnv input targetPath parentEntry s.files entry files)
    (key : input.uuid = session.objectKey)
    (asked : input.overwrite = session.overwriteTargetUid.isSome) :
    Accounted { files := files
                sessions := s.sessions.put id { session with status := .completed } } := by
  obtain ⟨stored, isStored, rfl⟩ := getPendingEntryBySessionId_some found
  obtain ⟨sameUuid, from_, persists, written'⟩ := written.uuids
  have notSpare : ∀ marked : PendingUploadSession, marked.status = .completed → ¬ Spare marked :=
    fun marked completed spare => spare.2.1 completed
  -- The other sessions see one more uuid at most, which is the key of this one.
  have filed : ∀ id' session', id' ≠ id → s.sessions.get id' = some session' → Spare session' →
      ∀ row ∈ files.entries, row.uuid ≠ session'.objectKey := by
    intro id' session' differ stored' spare row member same
    rcases from_ row member with isKey | ⟨old, isOld, sameAsOld⟩
    · rw [key] at isKey
      exact accounted.apart id' id session' stored differ stored' isStored spare (isKey.symm.trans same)
    · exact accounted.spare id' session' stored' spare old isOld (sameAsOld.trans same)
  constructor
  · intro row member
    rw [sameUuid]
    rcases from_ row member with isKey | ⟨old, isOld, sameAsOld⟩
    · rw [isKey, key]
      exact accounted.keys id stored isStored
    · rw [← sameAsOld]
      exact accounted.rows old isOld
  · intro id' session' stored'
    rw [sameUuid]
    rw [SortedTable.get_put] at stored'
    split at stored'
    · cases stored'
      exact accounted.keys id stored isStored
    · exact accounted.keys id' session' stored'
  · intro id' session' stored' spare
    rw [SortedTable.get_put] at stored'
    split at stored'
    · cases stored'
      exact absurd spare (notSpare _ rfl)
    · next differ => exact filed id' session' differ stored' spare
  · intro id₁ id₂ session₁ session₂ differ stored₁ stored₂ spare
    rw [SortedTable.get_put] at stored₁ stored₂
    split at stored₁
    · cases stored₁
      exact absurd spare (notSpare _ rfl)
    · next other =>
        split at stored₂
        · cases stored₂
          exact accounted.apart id₁ id session₁ stored other stored₁ isStored spare
        · exact accounted.apart id₁ id₂ session₁ session₂ differ stored₁ stored₂ spare
  · intro id' session' stored' isShared
    rw [SortedTable.get_put] at stored'
    split at stored'
    · cases stored'
      cases overwrites : stored.overwriteTargetUid.isSome with
      | true =>
          obtain ⟨old, isOld, same⟩ := accounted.shared id stored isStored (.inl overwrites)
          obtain ⟨row, member, sameAsOld⟩ := persists old isOld
          exact ⟨row, member, sameAsOld.trans same⟩
      | false =>
          obtain ⟨row, member, same⟩ := written' (asked.trans overwrites)
          exact ⟨row, member, same.trans key⟩
    · obtain ⟨old, isOld, same⟩ := accounted.shared id' session' stored' isShared
      obtain ⟨row, member, sameAsOld⟩ := persists old isOld
      exact ⟨row, member, sameAsOld.trans same⟩

section Calls

theorem onFiles_reads {α : Type} {body : FsRun α} (reads : ReadsOnly body) :
    ReadsOnly (onFiles body) := by
  intro s
  unfold onFiles
  rw [finalState_within, ← reads s.files]

theorem normalizeWritePath_reads (path : Text) : ReadsOnly (normalizeWritePath path) :=
  (Keeps.refuseIf _ _).bind fun _ => normalized_reads path

theorem writePath_reads (path : Text) : ReadsOnly (writePath path) :=
  (normalizeWritePath_reads path).bind fun _ => (Keeps.refuseIf _ _).bind fun _ => .pure _

theorem findDedupedPath_reads (targetPath : Text) : ReadsOnly (findDedupedPath targetPath) := by
  refine (firstFree_reads _ _ _).bind fun found => ?_
  cases found with
  | none => exact .throw _
  | some suffix => exact .pure _

theorem writeTarget_reads (request : WriteRequest) (path : Text) :
    ReadsOnly (writeTarget request path) := by
  refine (getEntryByPath_reads path).bind fun existing => ?_
  split
  · exact (findDedupedPath_reads path).bind fun _ => (getEntryByPath_reads _).bind fun _ => .pure _
  · exact .pure _

theorem resolveWriteTarget_reads (request : WriteRequest) (path : Text) :
    ReadsOnly (resolveWriteTarget request path) :=
  (writeTarget_reads request path).bind fun _ => (Keeps.refuseIf _ _).bind fun _ =>
    (Keeps.refuseIf _ _).bind fun _ => .pure _

theorem storageOwnerOf_reads (path : Text) (actingUserId : Nat) :
    ReadsOnly (storageOwnerOf path actingUserId) := by
  refine (normalizeWritePath_reads path).bind fun normalizedPath => ?_
  dsimp only
  split
  · exact .pure _
  · refine (getEntryByPath_reads _).bind fun found => ?_
    cases found with
    | none => exact .pure _
    | some entry => exact .pure _

theorem resolveWriteTarget_existing {request : WriteRequest} {path : Text} {target : WriteTarget}
    {files files' : FsState} (ran : resolveWriteTarget request path files = .ok target files')
    {existing : FSEntry} (found : target.existing = some existing) :
    existing ∈ files.entries ∧ existing.isDir = false ∧ request.overwrite = true := by
  obtain ⟨settled, between, targeted, ran⟩ := bind_ok.mp ran
  obtain rfl := (writeTarget_reads request path).ok targeted
  obtain ⟨_, _, check, ran⟩ := bind_ok.mp ran
  obtain ⟨isFile, rfl⟩ := refuseIf_ok.mp check
  obtain ⟨_, _, check, ran⟩ := bind_ok.mp ran
  obtain ⟨asked, rfl⟩ := refuseIf_ok.mp check
  obtain ⟨rfl, rfl⟩ := pure_ok.mp ran
  rw [found] at isFile asked
  refine ⟨?_, by simpa using isFile, by simpa using asked⟩
  obtain ⟨first, _, looked, targeted⟩ := bind_ok.mp targeted
  obtain ⟨firstPath, -, firstAt, rfl⟩ := getEntryByPath_ok.mp looked
  split at targeted
  · obtain ⟨deduped, _, named, targeted⟩ := bind_ok.mp targeted
    obtain rfl := (findDedupedPath_reads path).ok named
    obtain ⟨second, _, looked, targeted⟩ := bind_ok.mp targeted
    obtain ⟨secondPath, -, secondAt, rfl⟩ := getEntryByPath_ok.mp looked
    obtain ⟨rfl, -⟩ := pure_ok.mp targeted
    exact (entryAt_some (secondAt.symm.trans found)).1
  · obtain ⟨rfl, -⟩ := pure_ok.mp targeted
    exact (entryAt_some (firstAt.symm.trans found)).1

theorem readDirectory_reads (path : Text) (missing : String) : ReadsOnly (readDirectory path missing) :=
  Keeps.get.bind fun _ => (Keeps.orThrow _ _).bind fun _ => (Keeps.refuseIf _ _).bind fun _ => .pure _

theorem ensureDirectoryForUser_made (env : FsEnv) (userId : Nat) (path : Text) (createPaths : Bool) :
    Keeps MadeDirectories (ensureDirectoryForUser env userId path createPaths) :=
  (normalized_reads path).keeps.bind fun normalizedPath => (Keeps.refuseIf _ _).bind fun _ =>
    (Keeps.runIf fun _ => ensureDirectoryPathsForUser_made env userId normalizedPath).bind fun _ =>
    (readDirectory_reads _ _).keeps

theorem resolveParentDirectoryBatch_made (env : FsEnv) (userId : Nat) (parentPath : Text)
    (createPaths : Bool) :
    Keeps MadeDirectories (resolveParentDirectoryBatch env userId parentPath createPaths) :=
  (Keeps.runIf fun _ => ensureDirectoryPathsForUser_made env userId parentPath).bind fun _ =>
    (normalized_reads parentPath).keeps.bind fun _ => (readDirectory_reads _ _).keeps

theorem resolveSignedWrite_made (env : FsEnv) (userId : Nat) (request : WriteRequest) (path : Text) :
    Keeps MadeDirectories (resolveSignedWrite env userId request path) :=
  (resolveWriteTarget_reads request path).keeps.bind fun target =>
    (storageOwnerOf_reads target.path userId).keeps.bind fun _ => Keeps.get.bind fun _ =>
    (resolveParentDirectoryBatch_made env userId _ _).bind fun _ => (Keeps.refuseIf _ _).bind fun _ =>
    .pure _

theorem resolveSignedWrite_existing {env : FsEnv} {userId : Nat} {request : WriteRequest}
    {path : Text} {target : WriteTarget} {files files' : FsState}
    (ran : resolveSignedWrite env userId request path files = .ok target files') {existing : FSEntry}
    (found : target.existing = some existing) : existing ∈ files.entries := by
  obtain ⟨settled, _, resolved, ran⟩ := bind_ok.mp ran
  obtain ⟨_, _, -, ran⟩ := bind_ok.mp ran
  obtain ⟨_, _, -, ran⟩ := bind_ok.mp ran
  obtain ⟨_, _, -, ran⟩ := bind_ok.mp ran
  obtain ⟨_, _, -, ran⟩ := bind_ok.mp ran
  obtain ⟨rfl, -⟩ := pure_ok.mp ran
  exact (resolveWriteTarget_existing resolved found).1

theorem openUpload_reads (env : UploadEnv) (uploadMode : UploadMode) (address : S3Address) :
    ReadsOnly (openUpload env uploadMode address) := by
  cases uploadMode with
  | single => exact .pure _
  | multipart => exact (Keeps.orThrow _ _).bind fun _ => .pure _

theorem uuidv4_made : Keeps MadeDirectories uuidv4 := fun _ => .draw rfl rfl (Nat.le_succ _)

theorem writeKey_made (existing : Option FSEntry) : Keeps MadeDirectories (writeKey existing) := by
  cases existing with
  | none => exact uuidv4_made
  | some entry => exact .pure _

theorem writeKey_ok {existing : Option FSEntry} {key : Nat} {files files' : FsState}
    (ran : writeKey existing files = .ok key files') :
    (∃ entry, existing = some entry ∧ key = entry.uuid ∧ files = files') ∨
      existing = none ∧ key = files.nextUuid ∧ files' = { files with nextUuid := files.nextUuid + 1 } := by
  cases existing with
  | some entry =>
      obtain ⟨rfl, same⟩ := pure_ok.mp ran
      exact .inl ⟨entry, rfl, rfl, same⟩
  | none =>
      obtain ⟨drawn, after⟩ := uuidv4_ok.mp ran
      exact .inr ⟨rfl, drawn, after⟩

theorem planSignedWrite_made (env : UploadEnv) (userId : Nat) (request : SignedWriteRequest)
    (path : Text) : Keeps MadeDirectories (planSignedWrite env userId request path) :=
  (resolveSignedWrite_made _ _ _ _).bind fun target => (writeKey_made target.existing).bind fun _ =>
    (openUpload_reads _ _ _).keeps.bind fun _ => uuidv4_made.bind fun _ => .pure _

theorem planSignedWrite_ok {request : SignedWriteRequest} {userId : Nat} {path : Text}
    {session : PendingUploadSession} {files files' : FsState}
    (ran : planSignedWrite env userId request path files = .ok session files') :
    session.status = .pending ∧
      ((∃ row ∈ files.entries, session.overwriteTargetUid = some row.uuid ∧
          session.objectKey = row.uuid) ∨
        session.overwriteTargetUid = none ∧ files.nextUuid ≤ session.objectKey ∧
          session.objectKey < files'.nextUuid ∧
          ∃ between, MadeDirectories files between ∧ session.objectKey = between.nextUuid ∧
            files'.entries = between.entries) := by
  obtain ⟨target, between, resolved, ran⟩ := bind_ok.mp ran
  obtain ⟨objectKey, keyed, draws, ran⟩ := bind_ok.mp ran
  obtain ⟨multipartUploadId, _, opened, ran⟩ := bind_ok.mp ran
  obtain rfl := (openUpload_reads _ _ _).ok opened
  obtain ⟨sessionId, _, drawnId, ran⟩ := bind_ok.mp ran
  obtain ⟨rfl, rfl⟩ := uuidv4_ok.mp drawnId
  obtain ⟨rfl, rfl⟩ := pure_ok.mp ran
  refine ⟨rfl, ?_⟩
  have made := (resolveSignedWrite_made _ _ _ _).ok resolved
  rcases writeKey_ok draws with ⟨existing, found, rfl, rfl⟩ | ⟨noFile, rfl, rfl⟩
  · exact .inl ⟨existing, resolveSignedWrite_existing resolved found, by simp [signedSession, found], rfl⟩
  · exact .inr ⟨by simp [signedSession, noFile], made.moreUuids,
      Nat.lt_succ_of_lt (Nat.lt_succ_self _), between, made, rfl, rfl⟩

theorem startUrlWrite_accounted (accounted : Accounted s) (userId : Nat)
    (request : SignedWriteRequest) :
    Accounted (finalState (startUrlWrite env userId request s)) := by
  have normalizes := onFiles_reads (writePath_reads request.fileMetadata.path)
  apply finalState_bind
  · exact fun e s' failed => normalizes.error failed ▸ accounted
  intro path s₁ norm
  obtain rfl := normalizes.ok norm
  split
  · have makes : Keeps Prepares (onFiles (ensureDirectoryForUser env.toFsEnv userId path
        request.fileMetadata.createMissingParents) >>= fun entry => pure (StartedWrite.directory entry)) :=
      (Prepares.onFiles (ensureDirectoryForUser_made _ _ _ _)).bind fun _ => .pure _
    exact (makes s).accounted accounted
  have plans : Keeps Prepares (onFiles (planSignedWrite env userId request path)) :=
    .onFiles (planSignedWrite_made _ _ _ _)
  apply finalState_bind
  · exact fun e s' failed => (plans.error failed).accounted accounted
  intro session s₁ planned
  have prepared := plans.ok planned
  have accounted₁ := prepared.accounted accounted
  obtain ⟨files, plannedFiles, rfl⟩ := within_ok.mp planned
  change Accounted { files := files, sessions := s.sessions.put session.sessionId session }
  obtain ⟨pending, ⟨row, member, overwrites, same⟩ |
    ⟨isNew, above, below, between, made, same, entries⟩⟩ := planSignedWrite_ok plannedFiles
  · -- The key is the uuid of a row.
    have notSpare : ¬ Spare session := by
      rintro ⟨isNew, -⟩
      rw [isNew] at overwrites
      cases overwrites
    have stays := prepared.old row member
    refine accounted₁.put ?_ (fun spare => absurd spare notSpare)
      (fun _ _ _ _ spare => absurd spare notSpare) ?_ fun _ => ⟨row, stays, same.symm⟩
    · rw [same]
      exact accounted₁.rows row stays
    · intro id' session' _ stored' spare
      rw [same]
      exact accounted₁.spare id' session' stored' spare row stays
  · -- The key is new: above those of all sessions and all rows.
    have apart : ∀ id' session', s.sessions.get id' = some session' →
        session'.objectKey < session.objectKey :=
      fun id' session' stored' => (accounted.keys id' session' stored').trans_le above
    refine accounted₁.put below ?_ ?_ ?_ ?_
    · intro _ row member
      have accounted' : Accounted { s with files := between } :=
        (Prepares.of_made made).accounted accounted
      rw [same]
      exact (accounted'.rows row (entries ▸ member)).ne
    · intro id' session' _ stored' _
      exact (apart id' session' stored').ne
    · intro id' session' _ stored' _
      exact (apart id' session' stored').ne'
    · rintro (overwrites | completed)
      · rw [isNew] at overwrites
        cases overwrites
      · rw [pending] at completed
        cases completed

theorem Accounted.of_objects (accounted : Accounted s) (objects : List S3Object) :
    Accounted { s with files := { s.files with objects := objects } } where
  rows := accounted.rows
  keys := accounted.keys
  spare := accounted.spare
  apart := accounted.apart
  shared := accounted.shared

theorem completeMultipart_prepares (env : UploadEnv) (session : PendingUploadSession)
    (parts : List Nat) : Keeps Prepares (completeMultipart env session parts) := by
  refine (Keeps.orThrow _ _).bind fun uploadId => (Keeps.refuseIf _ _).bind fun _ =>
    (Keeps.orThrow _ _).bind fun body => fun s => ?_
  exact ⟨rfl, le_refl _, fun _ member => member, fun _ member => .inl member⟩

theorem writeCompleted_made {env : FsEnv} {session : PendingUploadSession} {files files' : FsState}
    {e : FsError} (ran : writeCompleted env session files = .error e files') :
    MadeDirectories files files' := by
  obtain failed | ⟨_, _, got, ran⟩ := bind_error.mp ran
  · exact absurd failed get_error
  obtain ⟨rfl, rfl⟩ := get_ok.mp got
  exact createEntry_made ran

theorem writeCompleted_written {env : FsEnv} {session : PendingUploadSession} {files files' : FsState}
    {entry : FSEntry} (ran : writeCompleted env session files = .ok entry files') :
    ∃ between targetPath parentEntry, MadeDirectories files between ∧
      normalizePath session.targetPath = .ok targetPath ∧
      FileWritten env (completedInput env session files.objects) targetPath parentEntry between entry
        files' := by
  obtain ⟨_, _, got, ran⟩ := bind_ok.mp ran
  obtain ⟨rfl, rfl⟩ := get_ok.mp got
  obtain ⟨between, targetPath, parentEntry, made, target, -, written⟩ := createEntry_written ran
  exact ⟨between, targetPath, parentEntry, made, target, written⟩

theorem finishUpload_error {session : PendingUploadSession} {parts : List Nat} {e : FsError}
    (ran : finishUpload env session parts s = .error e s') : Prepares s s' := by
  have assembles : Keeps Prepares (runIf (session.uploadMode == .multipart)
      (completeMultipart env session parts)) := .runIf fun _ => completeMultipart_prepares env session parts
  obtain failed | ⟨_, s₁, assembled, ran⟩ := bind_error.mp ran
  · exact assembles.error failed
  refine (assembles.ok assembled).trans ?_
  obtain failed | ⟨_, _, -, ran⟩ := bind_error.mp ran
  · obtain ⟨files, created, rfl⟩ := within_error.mp failed
    exact .of_made (writeCompleted_made created)
  obtain failed | ⟨_, _, -, ran⟩ := bind_error.mp ran
  · exact absurd failed modify_error
  · exact absurd ran pure_error

theorem finishUpload_accounted (accounted : Accounted s) {id : Nat} {session : PendingUploadSession}
    (found : getPendingEntryBySessionId env s.sessions id = some session)
    (pending : session.status = .pending) {parts : List Nat} {response : CompleteWriteResponse}
    (ran : finishUpload env session parts s = .ok response s') : Accounted s' := by
  have assembles : Keeps Prepares (runIf (session.uploadMode == .multipart)
      (completeMultipart env session parts)) := .runIf fun _ => completeMultipart_prepares env session parts
  obtain ⟨_, s₁, assembled, ran⟩ := bind_ok.mp ran
  have prepared := assembles.ok assembled
  obtain ⟨entry, s₂, created, ran⟩ := bind_ok.mp ran
  obtain ⟨files, createdFiles, rfl⟩ := within_ok.mp created
  obtain ⟨between, targetPath, parentEntry, made, -, written⟩ := writeCompleted_written createdFiles
  have found' : getPendingEntryBySessionId env s₁.sessions session.sessionId = some session := by
    rw [prepared.sessions]
    exact getPendingEntry_own found
  have accounted' : Accounted { s₁ with files := between } :=
    (Prepares.of_made made).accounted (prepared.accounted accounted)
  obtain ⟨_, s₃, marked, ran⟩ := bind_ok.mp ran
  obtain ⟨-, rfl⟩ := pure_ok.mp ran
  have after : finalState (markPendingSessionWithStatus env session.sessionId .completed
      { s₁ with files := files }) = _ := markPendingSession_final (s := { s₁ with files := files }) found'
  rw [marked] at after
  rw [show s₃ = _ from after]
  exact accounted'.complete found' pending written rfl rfl

theorem completeUrlWrite_accounted (accounted : Accounted s) (userId : Nat)
    (request : CompleteWriteRequest) :
    Accounted (finalState (completeUrlWrite env userId request s)) := by
  apply finalState_bind
  · exact fun e s' failed => absurd failed get_error
  intro _ s₁ got
  obtain ⟨rfl, rfl⟩ := get_ok.mp got
  apply finalState_bind
  · exact fun e s' failed => (orThrow_error.mp failed).2.2 ▸ accounted
  intro session s₁ looked
  obtain ⟨found, rfl⟩ := orThrow_ok.mp looked
  apply finalState_bind
  · exact fun e s' failed => (refuseIf_error.mp failed).2.2 ▸ accounted
  intro _ s₁ check
  obtain ⟨-, rfl⟩ := refuseIf_ok.mp check
  apply finalState_bind
  · exact fun e s' failed => (refuseIf_error.mp failed).2.2 ▸ accounted
  intro _ s₁ check
  obtain ⟨pending, rfl⟩ := refuseIf_ok.mp check
  have isPending : session.status = .pending := by simpa using pending
  have found' := getPendingEntry_own found
  have failing : ∀ s₁, Prepares s s₁ →
      Accounted (finalState (markPendingSessionWithStatus env session.sessionId .failed s₁)) := by
    intro s₁ prepared
    refine (prepared.accounted accounted).mark (by rw [prepared.sessions]; exact found') (by decide)
      fun _ _ completed => ?_
    rw [isPending] at completed
    cases completed
  apply finalState_bind
  · intro e s' expired
    obtain ⟨-, expired⟩ := runIf_error.mp expired
    obtain failed | ⟨_, s₁, marked, thrown⟩ := bind_error.mp expired
    · exact absurd failed modify_error
    · obtain ⟨-, rfl⟩ := throw_error.mp thrown
      have marks := failing s (.refl s)
      rwa [marked] at marks
  intro _ s₁ fresh
  obtain ⟨-, expired⟩ | ⟨-, rfl⟩ := runIf_ok.mp fresh
  · obtain ⟨_, _, -, thrown⟩ := bind_ok.mp expired
    exact absurd thrown throw_ok
  apply finalState_tryCatch
  · exact fun response s' finished => finishUpload_accounted accounted found isPending finished
  · intro e s' failed
    exact failing s' (finishUpload_error failed)

theorem clientUpload_accounted (accounted : Accounted s) (sessionId : Nat) (body : Text) :
    Accounted (finalState (clientUpload env sessionId body s)) := by
  rw [clientUpload, finalState_modify]
  split
  · exact accounted
  · split
    · exact accounted.of_objects _
    · exact accounted

theorem dropUpload_prepares (env : UploadEnv) (session : PendingUploadSession) :
    Keeps Prepares (dropUpload env session) := by
  unfold dropUpload
  cases abortedObject session with
  | none => exact Keeps.refuseIf _ _
  | some address =>
      refine (Keeps.refuseIf _ _).bind fun _ => fun s => ?_
      have same : (finalState (onFiles (S3ObjectStore.deleteObject env.toFsEnv address) s)).files.entries =
          s.files.entries ∧ (finalState (onFiles (S3ObjectStore.deleteObject env.toFsEnv address)
            s)).files.nextUuid = s.files.nextUuid := by
        unfold onFiles
        rw [finalState_within]
        change (if env.s3Fails address then _ else _ : FsState).entries = _ ∧
          (if env.s3Fails address then _ else _ : FsState).nextUuid = _
        split
        · exact ⟨rfl, rfl⟩
        · exact ⟨rfl, rfl⟩
      refine ⟨?_, same.2.ge, fun row member => ?_, fun row member => .inl ?_⟩
      · unfold onFiles
        rw [finalState_within]
      · rw [same.1]
        exact member
      · rwa [same.1] at member

/-- An abort that deletes only what belongs to its session alone: it is one for a new file, and has not
    completed. -/
def AbortSound (env : UploadEnv) (s : UploadState) (userId uploadId : Nat) : Prop :=
  ∀ session, abortedSession env s userId uploadId = some session → (abortedObject session).isSome →
    session.overwriteTargetUid = none ∧ session.status ≠ .completed

theorem abortUrlWrite_accounted (accounted : Accounted s) {userId uploadId : Nat}
    (sound : AbortSound env s userId uploadId) :
    Accounted (finalState (abortUrlWrite env userId uploadId s)) := by
  apply finalState_bind
  · exact fun e s' failed => absurd failed get_error
  intro _ s₁ got
  obtain ⟨rfl, rfl⟩ := get_ok.mp got
  cases found : getPendingEntryBySessionId env s.sessions uploadId with
  | none => exact accounted
  | some session =>
      apply finalState_bind
      · exact fun e s' failed => (refuseIf_error.mp failed).2.2 ▸ accounted
      intro _ s₁ check
      obtain ⟨own, rfl⟩ := refuseIf_ok.mp check
      have aborted : abortedSession env s userId uploadId = some session := by
        simp only [abortedSession, found]
        simpa using own
      have found' := getPendingEntry_own found
      have marking : ∀ s₁, Prepares s s₁ →
          Accounted (finalState (markPendingSessionWithStatus env session.sessionId .aborted s₁)) :=
        fun s₁ prepared => (prepared.accounted accounted).mark
          (by rw [prepared.sessions]; exact found') (by decide)
          fun _ deletes => (sound session aborted deletes).2
      apply finalState_bind
      · intro e s' failed
        obtain ⟨thrown, stopped, dropped, handled⟩ := tryCatch_error.mp failed
        obtain failed | ⟨_, s₁, marked, rethrown⟩ := bind_error.mp handled
        · exact absurd failed modify_error
        · obtain ⟨-, rfl⟩ := throw_error.mp rethrown
          have marks := marking stopped ((dropUpload_prepares env session).error dropped)
          rwa [marked] at marks
      intro _ s₁ dropped
      rcases tryCatch_ok.mp dropped with dropped | ⟨e, stopped, -, thrown⟩
      · exact marking s₁ ((dropUpload_prepares env session).ok dropped)
      · obtain ⟨_, _, -, thrown⟩ := bind_ok.mp thrown
        exact absurd thrown throw_ok

end Calls

/-- A call of the upload interface, or the client's own upload. -/
inductive UploadCall where
  | start (userId : Nat) (request : SignedWriteRequest)
  | upload (sessionId : Nat) (body : Text)
  | complete (userId : Nat) (request : CompleteWriteRequest)
  | abort (userId uploadId : Nat)

namespace UploadCall

def after (env : UploadEnv) (s : UploadState) : UploadCall → UploadState
  | start userId request => finalState (startUrlWrite env userId request s)
  | upload sessionId body => finalState (clientUpload env sessionId body s)
  | complete userId request => finalState (completeUrlWrite env userId request s)
  | abort userId uploadId => finalState (abortUrlWrite env userId uploadId s)

def Sound (env : UploadEnv) (s : UploadState) : UploadCall → Prop
  | abort userId uploadId => AbortSound env s userId uploadId
  | _ => True

theorem accounted {call : UploadCall} (accounted : Accounted s) (sound : call.Sound env s) :
    Accounted (call.after env s) := by
  cases call with
  | start userId request => exact startUrlWrite_accounted accounted userId request
  | upload sessionId body => exact clientUpload_accounted accounted sessionId body
  | complete userId request => exact completeUrlWrite_accounted accounted userId request
  | abort userId uploadId => exact abortUrlWrite_accounted accounted sound

end UploadCall

/-- A run of calls, each with surroundings of its own, in which every abort is sound. -/
inductive SoundUploads (s : UploadState) : UploadState → Prop where
  | none : SoundUploads s s
  | call {between : UploadState} {env : UploadEnv} {call : UploadCall}
      (before : SoundUploads s between) (sound : call.Sound env between) :
      SoundUploads s (call.after env between)

def NoUploads (s : UploadState) : Prop :=
  s.sessions = SortedTable.empty ∧ ∀ row ∈ s.files.entries, row.uuid < s.files.nextUuid

theorem noUploads_accounted (start : NoUploads s) : Accounted s := by
  have noSession : ∀ id session, s.sessions.get id ≠ some session := by
    intro id session stored
    rw [start.1] at stored
    cases stored
  exact ⟨start.2, fun id session stored => absurd stored (noSession id session),
    fun id session stored => absurd stored (noSession id session),
    fun id _ session _ _ stored => absurd stored (noSession id session),
    fun id session stored => absurd stored (noSession id session)⟩

theorem soundUploads_accounted (run : SoundUploads s s') (start : NoUploads s) : Accounted s' := by
  induction run with
  | none => exact noUploads_accounted start
  | call before sound ih => exact UploadCall.accounted ih sound

theorem abortedObject_key {session : PendingUploadSession} {address : S3Address}
    (deletes : abortedObject session = some address) : address.key = session.objectKey := by
  unfold abortedObject at deletes
  split at deletes
  · cases deletes
    rfl
  · cases deletes

/-- What `abortDeletes` names is what an abort removes from the store. -/
theorem abortUrlWrite_deletes {userId uploadId : Nat} {address : S3Address}
    (deletes : abortDeletes env s userId uploadId = some address) :
    (finalState (abortUrlWrite env userId uploadId s)).files.objects =
      s.files.objects.filter (·.address != address) := by
  obtain ⟨bound, works⟩ := Option.filter_eq_some_iff.mp deletes
  obtain ⟨session, aborted, isObject⟩ := Option.bind_eq_some_iff.mp bound
  obtain ⟨found, own⟩ := Option.filter_eq_some_iff.mp aborted
  have isOwn : (session.userId != userId) = false := by simpa using own
  have noFailure : env.s3Fails address = false := by simpa using works
  have emptied : S3ObjectStore.deleteObject env.toFsEnv address s.files = .ok ()
      { s.files with objects := s.files.objects.filter (·.address != address) } :=
    modify_ok.mpr (if_neg (by rw [noFailure]; exact Bool.false_ne_true))
  have dropped : dropUpload env session s = .ok ()
      { s with files := { s.files with
          objects := s.files.objects.filter (·.address != address) } } := by
    unfold dropUpload
    rw [isObject]
    exact bind_ok.mpr ⟨(), s, refuseIf_ok.mpr ⟨noFailure, rfl⟩, within_ok.mpr ⟨_, emptied, rfl⟩⟩
  have ran : abortUrlWrite env userId uploadId s = .ok () (finalState
      (markPendingSessionWithStatus env session.sessionId .aborted
        { s with files := { s.files with
            objects := s.files.objects.filter (·.address != address) } })) := by
    refine bind_ok.mpr ⟨s, s, rfl, ?_⟩
    dsimp only
    rw [found]
    exact bind_ok.mpr ⟨(), s, refuseIf_ok.mpr ⟨isOwn, rfl⟩,
      bind_ok.mpr ⟨(), _, tryCatch_ok.mpr (.inl dropped), rfl⟩⟩
  rw [ran]
  have marked : finalState (markPendingSessionWithStatus env session.sessionId .aborted
      { s with files := { s.files with
          objects := s.files.objects.filter (·.address != address) } }) = _ :=
    markPendingSession_final (s := { s with files := _ }) (getPendingEntry_own found)
  rw [finalState, marked]

/-- After every run in which each abort is sound, the next abort that deletes an object deletes none that
    a row has for its own just when it is sound too. -/
theorem abort_spares_iff (start s : UploadState) (noUploads : NoUploads start)
    (run : SoundUploads start s) (env : UploadEnv) (userId uploadId : Nat) (address : S3Address)
    (deletes : abortDeletes env s userId uploadId = some address) :
    (∀ row ∈ s.files.entries, row.uuid ≠ address.key) ↔ AbortSound env s userId uploadId := by
  have accounted := soundUploads_accounted run noUploads
  obtain ⟨bound, -⟩ := Option.filter_eq_some_iff.mp deletes
  obtain ⟨session, aborted, isObject⟩ := Option.bind_eq_some_iff.mp bound
  obtain ⟨stored, isStored, rfl⟩ :=
    getPendingEntryBySessionId_some (Option.filter_eq_some_iff.mp aborted).1
  rw [abortedObject_key isObject]
  have removes : (abortedObject stored).isSome := by
    have same : abortedObject { stored with sessionId := uploadId } = abortedObject stored := rfl
    rw [← same, isObject]
    rfl
  constructor
  · intro unused session aborted' _
    obtain rfl := Option.some.inj (aborted.symm.trans aborted')
    by_contra unsound
    have isShared : Shared stored := by
      rcases not_and_or.mp unsound with overwrites | completed
      · exact .inl (Option.isSome_iff_ne_none.mpr overwrites)
      · exact .inr (not_not.mp completed)
    obtain ⟨row, member, same⟩ := accounted.shared uploadId stored isStored isShared
    exact unused row member same
  · intro sound
    obtain ⟨new, notCompleted⟩ := sound _ aborted removes
    exact accounted.spare uploadId stored isStored ⟨new, notCompleted, removes⟩

section Uploads

def uploadEnv : UploadEnv where
  toFsEnv := openEnv
  nowMs := 0
  maxSingleUploadSize := 1000
  createMultipartUpload := fun _ => none
  assembled := fun _ _ => none
  multipartAbortFails := false

def sampleUploads : UploadState := ⟨sampleTree, SortedTable.empty⟩

theorem sampleUploads_start : NoUploads sampleUploads := ⟨rfl, by decide +kernel⟩

def overwriteFile : UploadCall :=
  .start 1 { fileMetadata := { path := sampleFile.path, size := 2, overwrite := true } }

def writeNewFile : UploadCall :=
  .start 1 { fileMetadata := { path := ['/', 'u', '/', 'n'], size := 2 } }

/-- An upload over a file that is aborted deletes the object of the file, whose row is there. -/
theorem abort_destroys_file :
    NoUploads sampleUploads ∧
      let s := overwriteFile.after uploadEnv sampleUploads
      ∃ address, abortDeletes uploadEnv s 1 4 = some address ∧ sampleFile ∈ s.files.entries ∧
        backingAddress uploadEnv.toFsEnv sampleFile = some address :=
  ⟨sampleUploads_start, ⟨['r'], ['b'], 3⟩, by decide +kernel, by decide +kernel, by decide +kernel⟩

/-- An upload of a new file that is aborted deletes no file's object. -/
theorem abort_of_newFile :
    let s := writeNewFile.after uploadEnv sampleUploads
    (∀ row ∈ s.files.entries, row.uuid ≠ 4) ↔ AbortSound uploadEnv s 1 5 := by
  have run : SoundUploads sampleUploads (writeNewFile.after uploadEnv sampleUploads) :=
    .call (.none : SoundUploads sampleUploads sampleUploads) trivial
  have deletes : abortDeletes uploadEnv (writeNewFile.after uploadEnv sampleUploads) 1 5 =
      some ⟨['r'], ['b'], 4⟩ := by decide +kernel
  exact abort_spares_iff sampleUploads _ sampleUploads_start run uploadEnv 1 5 _ deletes

end Uploads

end Puter

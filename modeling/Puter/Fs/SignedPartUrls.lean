/-
Module: Puter.Fs.SignedPartUrls
Purpose: Which body lengths the signed urls of an upload are bound to (batchCreateSignedUploadUrls and
  createSignedMultipartPartUrls in stores/fs/S3ObjectStore.ts, signMultipartParts in
  services/fs/FSService.ts). The lengths of the parts add up to the declared size, at the start and when
  parts are signed again, unless a file of size zero is asked for as a multipart upload: the url of its
  one part is bound to no length.
Trusted boundary: what the object store answers to the opening of a multipart upload; sizes are exact
  rationals. Of a session the fields that signing reads are kept; the uploads that a failed batch aborts
  are left out.
Main exports: S3Limits, signed_urls_bind_size_iff
-/
import Puter.Fs.UploadSession

namespace Puter

open StateRun

/-- What the S3 client puts into one request, and its part size. -/
structure S3Limits where
  maxSingleUploadSize : ℚ
  partSize : ℚ
  positive : 0 < maxSingleUploadSize

/-- What signing finds around it: the limits, the clock in milliseconds, and what the object store answers
    to the opening of a multipart upload: an error, or the id of the upload if it names one. -/
structure S3Signing where
  limits : S3Limits
  nowMs : ℕ
  createMultipartUpload : Text → ℕ → Except Text (Option Text)

/-- A signed url, and the content length that its signature covers. -/
structure SignedUrl where
  bucket : Text
  objectKey : ℕ
  contentLength : Option ℚ
  expiresIn : ℕ
deriving DecidableEq, Repr

structure SignedUploadPart where
  partNumber : ℕ
  url : SignedUrl
deriving DecidableEq, Repr

structure SignedUploadInput where
  bucket : Text
  objectKey : ℕ
  size : ℚ
  uploadMode : UploadMode
  expiresInSeconds : ℕ
  multipartPartSize : Option ℚ

inductive SignedUploadResult where
  | single (expiresAt : ℕ) (url : SignedUrl)
  | multipart (expiresAt : ℕ) (multipartUploadId : Text) (multipartPartSize : ℚ) (multipartPartCount : ℕ)
      (multipartPartUrls : List SignedUploadPart)
deriving DecidableEq, Repr

structure SignedMultipartPartUrlsInput where
  bucket : Text
  objectKey : ℕ
  multipartUploadId : Text
  partNumbers : List ℕ
  expiresInSeconds : ℕ
  declaredTotalSize : Option ℚ
  multipartPartSize : Option ℚ

namespace S3ObjectStore

def resolveMultipartPartSize (limits : S3Limits) (requestedPartSize : Option ℚ) : ℚ :=
  max limits.maxSingleUploadSize (requestedPartSize.getD limits.partSize)

def clampExpiry (expiresInSeconds : ℕ) : ℕ := max 60 (min (60 * 60) expiresInSeconds)

def partContentLength (declaredTotalSize multipartPartSize : Option ℚ) (partNumber : ℕ) : Option ℚ :=
  match declaredTotalSize, multipartPartSize with
  | some size, some partSize =>
      if partSize ≤ 0 then none
      else
        let remaining := size - ((partNumber : ℚ) - 1) * partSize
        if remaining ≤ 0 then none else some (min partSize remaining)
  | _, _ => none

def createSignedMultipartPartUrls (input : SignedMultipartPartUrlsInput) : List SignedUploadPart :=
  input.partNumbers.map fun partNumber =>
    ⟨partNumber, input.bucket, input.objectKey,
      partContentLength input.declaredTotalSize input.multipartPartSize partNumber,
      clampExpiry input.expiresInSeconds⟩

def multipartPartCount (size partSize : ℚ) : ℕ := max 1 ⌈size / partSize⌉₊

/-- One file of `batchCreateSignedUploadUrls`. -/
def signUpload (s3 : S3Signing) (file : SignedUploadInput) : Except Text SignedUploadResult :=
  let expiresInSeconds := clampExpiry file.expiresInSeconds
  let expiresAt := s3.nowMs + expiresInSeconds * 1000
  if file.uploadMode = .single ∧ file.size ≤ s3.limits.maxSingleUploadSize then
    .ok (.single expiresAt ⟨file.bucket, file.objectKey, some file.size, expiresInSeconds⟩)
  else
    let partSize := resolveMultipartPartSize s3.limits file.multipartPartSize
    let partCount := multipartPartCount file.size partSize
    match s3.createMultipartUpload file.bucket file.objectKey with
    | .error message => .error message
    | .ok uploadId =>
        match FSService.nonempty uploadId with
        | none => .error "Failed to initialize multipart upload".toList
        | some multipartUploadId =>
            .ok (.multipart expiresAt multipartUploadId partSize partCount
              (createSignedMultipartPartUrls
                { bucket := file.bucket
                  objectKey := file.objectKey
                  multipartUploadId := multipartUploadId
                  partNumbers := List.range' 1 partCount
                  expiresInSeconds := expiresInSeconds
                  declaredTotalSize := some file.size
                  multipartPartSize := some partSize }))

def batchCreateSignedUploadUrls (s3 : S3Signing) (filesMetadata : List SignedUploadInput) :
    Except Text (List SignedUploadResult) :=
  filesMetadata.mapM (signUpload s3)

def createSignedUploadUrl (s3 : S3Signing) (fileMetadata : SignedUploadInput) :
    Except Text SignedUploadResult :=
  match batchCreateSignedUploadUrls s3 [fileMetadata] with
  | .ok (result :: _) => .ok result
  | .ok [] => .error "Failed to create signed upload url".toList
  | .error message => .error message

end S3ObjectStore

open S3ObjectStore

/-- What a signed write asks for: the mode (`auto` is none), the declared size and a part size. -/
structure SignedSizeRequest where
  uploadMode : Option UploadMode
  size : ℚ
  multipartPartSize : Option ℚ
  expiresInSeconds : Option ℕ

/-- Where a write goes. -/
structure WritePlace where
  bucket : Text
  bucketRegion : Text
  objectKey : ℕ

/-- The part of a session that signing reads. -/
structure SigningSession where
  sessionId : ℕ
  userId : ℕ
  size : ℚ
  uploadMode : UploadMode
  multipartUploadId : Option Text
  multipartPartSize : Option ℚ
  multipartPartCount : Option ℕ
  bucket : Option Text
  bucketRegion : Option Text
  objectKey : ℕ
  expiresAt : ℕ
  status : SessionStatus

def SigningSession.withStatus (session : SigningSession) (status : SessionStatus) : SigningSession :=
  { session with status := status }

def defaultSignedUploadExpirySeconds : ℕ := 15 * 60

namespace SignedSizeRequest

def determineUploadMode (limits : S3Limits) (requestUploadMode : Option UploadMode) (size : ℚ) : UploadMode :=
  match requestUploadMode with
  | some .multipart => .multipart
  | some .single => if limits.maxSingleUploadSize < size then .multipart else .single
  | none => if limits.maxSingleUploadSize < size then .multipart else .single

def input (limits : S3Limits) (request : SignedSizeRequest) (place : WritePlace) : SignedUploadInput where
  bucket := place.bucket
  objectKey := place.objectKey
  size := request.size
  uploadMode := determineUploadMode limits request.uploadMode request.size
  expiresInSeconds := request.expiresInSeconds.getD defaultSignedUploadExpirySeconds
  multipartPartSize := request.multipartPartSize

end SignedSizeRequest

namespace SignedUploadResult

def expiresAt : SignedUploadResult → ℕ
  | single expiresAt _ => expiresAt
  | multipart expiresAt _ _ _ _ => expiresAt

def multipartUploadId : SignedUploadResult → Option Text
  | single _ _ => none
  | multipart _ uploadId _ _ _ => some uploadId

def multipartPartSize : SignedUploadResult → Option ℚ
  | single _ _ => none
  | multipart _ _ partSize _ _ => some partSize

def multipartPartCount : SignedUploadResult → Option ℕ
  | single _ _ => none
  | multipart _ _ _ partCount _ => some partCount

def urls : SignedUploadResult → List SignedUploadPart
  | single _ url => [⟨1, url⟩]
  | multipart _ _ _ _ urls => urls

def session (result : SignedUploadResult) (limits : S3Limits) (request : SignedSizeRequest) (place : WritePlace)
    (userId sessionId : ℕ) : SigningSession where
  sessionId := sessionId
  userId := userId
  size := request.size
  uploadMode := (request.input limits place).uploadMode
  multipartUploadId := result.multipartUploadId
  multipartPartSize := result.multipartPartSize
  multipartPartCount := result.multipartPartCount
  bucket := some place.bucket
  bucketRegion := some place.bucketRegion
  objectKey := place.objectKey
  expiresAt := result.expiresAt
  status := .pending

end SignedUploadResult

/-- `SignMultipartPartsRequest`, with what `Number` makes of each part number: none where that is no finite
    number. -/
structure SignMultipartPartsRequest where
  uploadId : Option ℕ
  partNumbers : Option (List (Option ℚ))
  expiresInSeconds : Option ℕ

structure SignMultipartPartsResponse where
  uploadId : ℕ
  multipartUploadId : Text
  objectKey : ℕ
  bucket : Text
  bucketRegion : Text
  expiresAt : ℕ
  multipartPartUrls : List SignedUploadPart

abbrev SigningRun := EStateM FsError (SortedTable ℕ SigningSession)

def partNumberOf : Option ℚ → Option ℕ
  | some value => if value.isInt ∧ 0 < value then some value.num.toNat else none
  | none => none

def SessionStatus.text : SessionStatus → Text
  | .pending => "pending".toList
  | .completed => "completed".toList
  | .failed => "failed".toList
  | .aborted => "aborted".toList

def signingRefused (message : String) : FsError := .ofHttp 400 message.toList "bad_request"

/-- `getPendingEntryBySessionId`: a record that has lapsed is not found. -/
def signingSession (nowMs : ℕ) (sessions : SortedTable ℕ SigningSession) (sessionId : ℕ) :
    Option SigningSession :=
  (sessions.get sessionId).filter fun session =>
    decide (nowMs < 1000 * toPendingUploadSessionExpiresAtSeconds session.expiresAt)

/-- `markPendingEntryFailed` -/
def markSigningSessionFailed (session : SigningSession) : SigningRun Unit :=
  modify fun sessions => sessions.put session.sessionId (session.withStatus .failed)

def assertSignable (nowMs userId : ℕ) (session : SigningSession) : SigningRun Unit := do
  refuseIf (session.userId != userId) (.ofHttp 403 "Upload session access denied".toList "forbidden")
  refuseIf (session.status != .pending)
    (.ofHttp 409 ("Upload session is not pending (status=".toList ++ session.status.text ++ ")".toList)
      "conflict")
  runIf (decide (session.expiresAt < nowMs)) (markSigningSessionFailed session)
  refuseIf (decide (session.expiresAt < nowMs))
    (.ofHttp 400 "Upload session expired".toList "session_required")
  refuseIf (session.uploadMode != .multipart) (signingRefused "Upload session is not multipart")

def signMultipartParts (nowMs userId : ℕ) (request : SignMultipartPartsRequest) :
    SigningRun SignMultipartPartsResponse := do
  let uploadId ← orThrow (signingRefused "Missing uploadId") request.uploadId
  let partNumbers ← orThrow (signingRefused "Missing partNumbers") request.partNumbers
  refuseIf partNumbers.isEmpty (signingRefused "Missing partNumbers")
  let uniquePartNumbers ← orThrow (signingRefused "Invalid partNumbers") (partNumbers.eraseDups.mapM partNumberOf)
  let session ← orThrow (.ofHttp 404 "Upload session was not found".toList "not_found")
    (signingSession nowMs (← get) uploadId)
  assertSignable nowMs userId session
  let multipartUploadId ← orThrow (signingRefused "Multipart upload id missing from session")
    (FSService.nonempty session.multipartUploadId)
  refuseIf (session.multipartPartCount.any fun partCount => uniquePartNumbers.any (partCount < ·))
    (signingRefused "Part number exceeds multipart part count")
  let bucket ← orThrow (.ofHttp 500 "Upload session storage metadata is missing".toList "internal_error")
    (FSService.nonempty session.bucket)
  let bucketRegion ← orThrow (.ofHttp 500 "Upload session storage metadata is missing".toList "internal_error")
    (FSService.nonempty session.bucketRegion)
  let expiresInSeconds := request.expiresInSeconds.getD defaultSignedUploadExpirySeconds
  return {
    uploadId := session.sessionId
    multipartUploadId := multipartUploadId
    objectKey := session.objectKey
    bucket := bucket
    bucketRegion := bucketRegion
    expiresAt := nowMs + clampExpiry expiresInSeconds * 1000
    multipartPartUrls := createSignedMultipartPartUrls
      { bucket := bucket
        objectKey := session.objectKey
        multipartUploadId := multipartUploadId
        partNumbers := uniquePartNumbers
        expiresInSeconds := expiresInSeconds
        declaredTotalSize := some session.size
        multipartPartSize := session.multipartPartSize } }

/-- The urls cover the parts up to `partCount` once each, and each is bound to the length of its part. -/
structure Bound (length : ℕ → ℚ) (partCount : ℕ) (urls : List SignedUploadPart) : Prop where
  parts : urls.map (·.partNumber) = List.range' 1 partCount
  lengths : ∀ part ∈ urls, part.url.contentLength = some (length part.partNumber)

def BoundPart (length : ℕ → ℚ) (partCount : ℕ) (part : SignedUploadPart) : Prop :=
  part.partNumber ∈ List.range' 1 partCount ∧ part.url.contentLength = some (length part.partNumber)

/-- The urls that the request leads to do not exceed its size: the lengths of its parts add up to the size; the
    urls of a start, alone or in a batch, are bound to these lengths, and so are those that are signed later
    for the session of the start. -/
def BindsDeclaredSize (limits : S3Limits) (request : SignedSizeRequest) : Prop :=
  ∃ (length : ℕ → ℚ) (partCount : ℕ), ((List.range' 1 partCount).map length).sum = request.size ∧
    ∀ (s3 : S3Signing) (place : WritePlace) (earlier later : List SignedUploadInput)
      (results : List SignedUploadResult) (result : SignedUploadResult), s3.limits = limits →
      batchCreateSignedUploadUrls s3 (earlier ++ request.input limits place :: later) = .ok results →
      results[earlier.length]? = some result →
      Bound length partCount result.urls ∧
        ∀ (userId sessionId nowMs actorId : ℕ) (status : SessionStatus)
          (sessions sessions' : SortedTable ℕ SigningSession) (again : SignMultipartPartsRequest)
          (response : SignMultipartPartsResponse), again.uploadId = some sessionId →
          sessions.get sessionId =
            some ((result.session limits request place userId sessionId).withStatus status) →
          signMultipartParts nowMs actorId again sessions = .ok response sessions' →
          ∀ part ∈ response.multipartPartUrls, BoundPart length partCount part

section Lengths

variable {size partSize : ℚ}

def partLength (size partSize : ℚ) (partNumber : ℕ) : ℚ :=
  min partSize (size - ((partNumber : ℚ) - 1) * partSize)

theorem sum_partLength (positive : 0 < partSize) (natural : 0 ≤ size) (count : ℕ)
    (full : (count : ℚ) * partSize ≤ size + partSize) :
    ((List.range' 1 count).map (partLength size partSize)).sum = min (count * partSize) size := by
  induction count with
  | zero => simp [min_eq_left natural]
  | succ count ih =>
      have before : (count : ℚ) * partSize ≤ size := by
        push_cast at full
        linarith
      have sum := ih (by linarith)
      rw [List.range'_concat, List.map_append, List.sum_append, sum, min_eq_left before]
      simp only [one_mul, List.map_cons, List.map_nil, List.sum_cons, List.sum_nil, add_zero, partLength]
      push_cast
      rw [show (1 + (count : ℚ) - 1) = count by ring]
      rcases le_total partSize (size - count * partSize) with fits | rest
      · rw [min_eq_left fits, min_eq_left (by linarith)]
        ring
      · rw [min_eq_right rest, min_eq_right (by linarith)]
        ring

theorem before_last (positive : 0 < partSize) (nonempty : 0 < size) {partNumber : ℕ}
    (isPart : partNumber ∈ List.range' 1 (multipartPartCount size partSize)) :
    ((partNumber : ℚ) - 1) * partSize < size := by
  have count : multipartPartCount size partSize = ⌈size / partSize⌉₊ := by
    have one : 1 ≤ ⌈size / partSize⌉₊ := Nat.ceil_pos.mpr (div_pos nonempty positive)
    exact max_eq_right one
  rw [count, List.mem_range'_1] at isPart
  have less : partNumber - 1 < ⌈size / partSize⌉₊ := by omega
  have quotient := Nat.lt_ceil.mp less
  rw [Nat.cast_sub isPart.1, Nat.cast_one] at quotient
  exact (lt_div_iff₀ positive).mp quotient

theorem partContentLength_eq (positive : 0 < partSize) (nonempty : 0 < size) {partNumber : ℕ}
    (isPart : partNumber ∈ List.range' 1 (multipartPartCount size partSize)) :
    partContentLength (some size) (some partSize) partNumber = some (partLength size partSize partNumber) := by
  have left := before_last positive nonempty isPart
  simp [partContentLength, partLength, positive, left]

theorem sum_parts (positive : 0 < partSize) (nonempty : 0 < size) :
    ((List.range' 1 (multipartPartCount size partSize)).map (partLength size partSize)).sum = size := by
  have enough : size ≤ multipartPartCount size partSize * partSize := by
    have ceil : size / partSize ≤ (multipartPartCount size partSize : ℚ) :=
      (Nat.le_ceil _).trans (Nat.cast_le.mpr (le_max_right _ _))
    exact (div_le_iff₀ positive).mp ceil
  have one : 1 ≤ multipartPartCount size partSize := le_max_left _ _
  have last : multipartPartCount size partSize ∈ List.range' 1 (multipartPartCount size partSize) :=
    List.mem_range'_1.mpr ⟨one, by omega⟩
  have before := before_last positive nonempty last
  rw [sum_partLength positive nonempty.le _ (by linarith), min_eq_right enough]

end Lengths

theorem mapM_getElem {α β ε : Type} {f : α → Except ε β} {earlier later : List α} {a : α}
    {results : List β} {b : β} (all : (earlier ++ a :: later).mapM f = .ok results)
    (isResult : results[earlier.length]? = some b) :
    f a = .ok b := by
  induction earlier generalizing results with
  | nil =>
      rw [List.nil_append, List.mapM_cons] at all
      cases first : f a with
      | error e =>
          rw [first] at all
          cases all
      | ok b' =>
          rw [first] at all
          cases rest : later.mapM f with
          | error e =>
              rw [rest] at all
              cases all
          | ok bs =>
              rw [rest] at all
              cases all
              rw [List.length_nil, List.getElem?_cons_zero] at isResult
              rw [Option.some.inj isResult]
  | cons c earlier ih =>
      rw [List.cons_append, List.mapM_cons] at all
      cases first : f c with
      | error e =>
          rw [first] at all
          cases all
      | ok b' =>
          rw [first] at all
          cases rest : (earlier ++ a :: later).mapM f with
          | error e =>
              rw [rest] at all
              cases all
          | ok bs =>
              rw [rest] at all
              cases all
              exact ih rest (by simpa using isResult)

section Signing

variable {s3 : S3Signing} {limits : S3Limits} {request : SignedSizeRequest} {place : WritePlace}
  {result : SignedUploadResult}

theorem resolveMultipartPartSize_pos (limits : S3Limits) (requestedPartSize : Option ℚ) :
    0 < resolveMultipartPartSize limits requestedPartSize :=
  limits.positive.trans_le (le_max_left _ _)

theorem determineUploadMode_single (isSingle : (request.input limits place).uploadMode = .single) :
    request.size ≤ limits.maxSingleUploadSize := by
  simp only [SignedSizeRequest.input, SignedSizeRequest.determineUploadMode] at isSingle
  split at isSingle
  · cases isSingle
  · split at isSingle
    · cases isSingle
    next small => exact not_lt.mp small
  · split at isSingle
    · cases isSingle
    next small => exact not_lt.mp small

theorem signUpload_single (same : s3.limits = limits)
    (isSingle : (request.input limits place).uploadMode = .single)
    (signed : signUpload s3 (request.input limits place) = .ok result) :
    ∃ expiresAt url, result = .single expiresAt url ∧ url.contentLength = some request.size := by
  have small := determineUploadMode_single isSingle
  rw [signUpload, if_pos ⟨isSingle, same ▸ small⟩] at signed
  exact ⟨_, _, (Except.ok.inj signed).symm, rfl⟩

def partUrls (limits : S3Limits) (request : SignedSizeRequest) (input : SignedMultipartPartUrlsInput) : Prop :=
  input.declaredTotalSize = some request.size ∧
    input.multipartPartSize = some (resolveMultipartPartSize limits request.multipartPartSize)

theorem signUpload_multipart (same : s3.limits = limits)
    (isMultipart : (request.input limits place).uploadMode = .multipart)
    (signed : signUpload s3 (request.input limits place) = .ok result) :
    ∃ expiresAt uploadId input, partUrls limits request input ∧
      input.partNumbers = List.range' 1 (multipartPartCount request.size
        (resolveMultipartPartSize limits request.multipartPartSize)) ∧
      result = .multipart expiresAt uploadId (resolveMultipartPartSize limits request.multipartPartSize)
        (multipartPartCount request.size (resolveMultipartPartSize limits request.multipartPartSize))
        (createSignedMultipartPartUrls input) := by
  subst same
  have notSingle : ¬ ((request.input s3.limits place).uploadMode = .single ∧
      (request.input s3.limits place).size ≤ s3.limits.maxSingleUploadSize) := by
    rw [isMultipart]
    exact fun both => nomatch both.1
  rw [signUpload, if_neg notSingle] at signed
  dsimp only at signed
  split at signed
  · cases signed
  · split at signed
    · cases signed
    · exact ⟨_, _, _, ⟨rfl, rfl⟩, rfl, (Except.ok.inj signed).symm⟩

theorem assertSignable_ok {nowMs userId : ℕ} {session : SigningSession} {s s' : SortedTable ℕ SigningSession}
    {u : Unit} (ran : assertSignable nowMs userId session s = .ok u s') : session.uploadMode = .multipart := by
  simp only [assertSignable, bind_ok, refuseIf_ok] at ran
  obtain ⟨_, _, _, _, _, _, _, _, _, _, _, _, multipart, _⟩ := ran
  simpa using multipart

theorem partNumberOf_pos {value : Option ℚ} {partNumber : ℕ} (isNumber : partNumberOf value = some partNumber) :
    1 ≤ partNumber := by
  cases value with
  | none => cases isNumber
  | some number =>
      simp only [partNumberOf] at isNumber
      split at isNumber
      next good =>
        have positive : 0 < number.num := Rat.num_pos.mpr good.2
        rw [← Option.some.inj isNumber]
        omega
      · cases isNumber

theorem forall_of_mapM {α β : Type} {f : α → Option β} {Good : β → Prop}
    (good : ∀ a b, f a = some b → Good b) {values : List α} {results : List β}
    (all : values.mapM f = some results) : ∀ b ∈ results, Good b := by
  induction values generalizing results with
  | nil =>
      cases all
      exact fun _ member => nomatch member
  | cons a values ih =>
      rw [List.mapM_cons] at all
      cases first : f a with
      | none =>
          rw [first] at all
          cases all
      | some b =>
          rw [first] at all
          cases rest : values.mapM f with
          | none =>
              rw [rest] at all
              cases all
          | some bs =>
              rw [rest] at all
              cases all
              intro c member
              rcases List.mem_cons.mp member with rfl | later
              · exact good a c first
              · exact ih rest c later

theorem signMultipartParts_ok {nowMs userId : ℕ} {again : SignMultipartPartsRequest}
    {response : SignMultipartPartsResponse} {sessions sessions' : SortedTable ℕ SigningSession}
    (ran : signMultipartParts nowMs userId again sessions = .ok response sessions') :
    ∃ uploadId session, again.uploadId = some uploadId ∧ sessions.get uploadId = some session ∧
      session.uploadMode = .multipart ∧
      ∃ input, response.multipartPartUrls = createSignedMultipartPartUrls input ∧
        input.declaredTotalSize = some session.size ∧ input.multipartPartSize = session.multipartPartSize ∧
        ∀ partNumber ∈ input.partNumbers, 1 ≤ partNumber ∧
          ∀ partCount, session.multipartPartCount = some partCount → partNumber ≤ partCount := by
  simp only [signMultipartParts, bind_ok, orThrow_ok, refuseIf_ok, get_ok, pure_ok] at ran
  obtain ⟨uploadId, _, ⟨isId, rfl⟩, partNumbers, _, ⟨_, rfl⟩, _, _, ⟨_, rfl⟩, unique, _,
    ⟨isUnique, rfl⟩, _, _, ⟨rfl, rfl⟩, session, _, ⟨found, rfl⟩, _, _, signable, multipartUploadId, _,
    ⟨_, rfl⟩, _, _, ⟨within, rfl⟩, bucket, _, ⟨_, rfl⟩, region, _, ⟨_, rfl⟩, rfl, rfl⟩ := ran
  have positive := forall_of_mapM (fun _ _ isNumber => partNumberOf_pos isNumber) isUnique
  refine ⟨uploadId, session, isId, (Option.filter_eq_some_iff.mp found).1, assertSignable_ok signable, _, rfl,
    rfl, rfl, fun partNumber member => ⟨positive partNumber member, fun partCount isCount => ?_⟩⟩
  rw [isCount] at within
  have bounds : ∀ other ∈ unique, other ≤ partCount := by simpa using within
  exact bounds partNumber member

theorem bound_parts {input : SignedMultipartPartUrlsInput} (isPart : partUrls limits request input)
    (nonempty : 0 < request.size) {part : SignedUploadPart}
    (member : part ∈ createSignedMultipartPartUrls input)
    (inRange : ∀ partNumber ∈ input.partNumbers, partNumber ∈ List.range' 1 (multipartPartCount request.size
      (resolveMultipartPartSize limits request.multipartPartSize))) :
    BoundPart (partLength request.size (resolveMultipartPartSize limits request.multipartPartSize))
      (multipartPartCount request.size (resolveMultipartPartSize limits request.multipartPartSize)) part := by
  obtain ⟨partNumber, isNumber, rfl⟩ := List.mem_map.mp member
  refine ⟨inRange partNumber isNumber, ?_⟩
  rw [isPart.1, isPart.2]
  exact partContentLength_eq (resolveMultipartPartSize_pos _ _) nonempty (inRange partNumber isNumber)

theorem single_binds (isSingle : SignedSizeRequest.determineUploadMode limits request.uploadMode request.size =
    .single) : BindsDeclaredSize limits request := by
  refine ⟨fun _ => request.size, 1, by simp, ?_⟩
  intro s3 place earlier later results result same batch isResult
  have mode : (request.input limits place).uploadMode = .single := isSingle
  obtain ⟨expiresAt, url, rfl, bound⟩ := signUpload_single same mode (mapM_getElem batch isResult)
  refine ⟨⟨rfl, ?_⟩, ?_⟩
  · intro part member
    rw [List.mem_singleton.mp member]
    exact bound
  · intro userId sessionId nowMs actorId status sessions sessions' again response isId stored ran
    obtain ⟨uploadId, session, isId', found, multipart, _⟩ := signMultipartParts_ok ran
    cases isId.symm.trans isId'
    cases stored.symm.trans found
    cases mode.symm.trans multipart

theorem multipart_binds (nonempty : 0 < request.size)
    (isMultipart : SignedSizeRequest.determineUploadMode limits request.uploadMode request.size = .multipart) :
    BindsDeclaredSize limits request := by
  refine ⟨_, _, sum_parts (resolveMultipartPartSize_pos limits request.multipartPartSize) nonempty, ?_⟩
  intro s3 place earlier later results result same batch isResult
  obtain ⟨expiresAt, uploadId, input, isPart, numbers, rfl⟩ :=
    signUpload_multipart same isMultipart (mapM_getElem batch isResult)
  refine ⟨⟨?_, ?_⟩, ?_⟩
  · simp [SignedUploadResult.urls, createSignedMultipartPartUrls, numbers, Function.comp_def]
  · intro part member
    exact (bound_parts isPart nonempty member fun _ inRange => numbers ▸ inRange).2
  · intro userId sessionId nowMs actorId status sessions sessions' again response isId stored ran part member
    obtain ⟨uploadId', session, isId', found, _, input', urls, total, size, within⟩ := signMultipartParts_ok ran
    cases isId.symm.trans isId'
    cases stored.symm.trans found
    rw [urls] at member
    refine bound_parts ⟨total, size⟩ nonempty member fun partNumber isNumber => ?_
    have bounds := within partNumber isNumber
    have upper := bounds.2 _ rfl
    rw [List.mem_range'_1]
    omega

def openingStore (limits : S3Limits) : S3Signing where
  limits := limits
  nowMs := 0
  createMultipartUpload _ _ := .ok (some ['u'])

theorem empty_multipart_unbound (isEmpty : request.size = 0)
    (isMultipart : request.uploadMode = some .multipart) : ¬ BindsDeclaredSize limits request := by
  rintro ⟨length, partCount, _, binds⟩
  let place : WritePlace := ⟨"bucket".toList, "region".toList, 0⟩
  have mode : (request.input limits place).uploadMode = .multipart := by
    simp [SignedSizeRequest.input, SignedSizeRequest.determineUploadMode, isMultipart]
  have notSingle : ¬ ((request.input limits place).uploadMode = .single ∧
      (request.input limits place).size ≤ (openingStore limits).limits.maxSingleUploadSize) := by
    rw [mode]
    exact fun both => nomatch both.1
  cases signed : signUpload (openingStore limits) (request.input limits place) with
  | error message =>
      rw [signUpload, if_neg notSingle] at signed
      have opened : (Except.ok _ : Except Text SignedUploadResult) = .error message := signed
      cases opened
  | ok result =>
      obtain ⟨expiresAt, uploadId, input, isPart, numbers, rfl⟩ := signUpload_multipart rfl mode signed
      have batch : batchCreateSignedUploadUrls (openingStore limits) ([] ++ request.input limits place :: []) =
          .ok [.multipart expiresAt uploadId (resolveMultipartPartSize limits request.multipartPartSize)
            (multipartPartCount request.size (resolveMultipartPartSize limits request.multipartPartSize))
            (createSignedMultipartPartUrls input)] := by
        simp only [batchCreateSignedUploadUrls, List.nil_append, List.mapM_cons, List.mapM_nil, signed]
        rfl
      have bound := (binds (openingStore limits) place [] [] _ _ rfl batch rfl).1.lengths
      have one : (1 : ℕ) ∈ input.partNumbers := by
        rw [numbers, List.mem_range'_1]
        exact ⟨le_rfl, by simp [multipartPartCount, isEmpty]⟩
      have first := bound _ (List.mem_map.mpr ⟨1, one, rfl⟩)
      simp only [isPart.1, isPart.2, partContentLength, isEmpty] at first
      simp at first

end Signing

/-- The signed urls of a write cannot exceed its declared size, unless it declares nothing and asks for a
    multipart upload. -/
theorem signed_urls_bind_size_iff (limits : S3Limits) (request : SignedSizeRequest) (natural : 0 ≤ request.size) :
    BindsDeclaredSize limits request ↔ ¬ (request.uploadMode = some .multipart ∧ request.size = 0) := by
  constructor
  · rintro binds ⟨isMultipart, isEmpty⟩
    exact empty_multipart_unbound isEmpty isMultipart binds
  · intro bounded
    cases mode : SignedSizeRequest.determineUploadMode limits request.uploadMode request.size with
    | single => exact single_binds mode
    | multipart =>
        refine multipart_binds (natural.lt_of_ne fun isEmpty => ?_) mode
        have notAsked : request.uploadMode ≠ some .multipart := fun asked => bounded ⟨asked, isEmpty.symm⟩
        have small : ¬ limits.maxSingleUploadSize < request.size := by
          rw [← isEmpty]
          exact not_lt.mpr limits.positive.le
        cases asked : request.uploadMode with
        | none => simp [SignedSizeRequest.determineUploadMode, asked, small] at mode
        | some wanted =>
            cases wanted with
            | single => simp [SignedSizeRequest.determineUploadMode, asked, small] at mode
            | multipart => exact notAsked asked

def localLimits : S3Limits := ⟨10 * 1024 * 1024, 5 * 1024 * 1024, by norm_num⟩

/-- Twenty-five megabytes are signed in bound parts. -/
theorem signed_urls_bind_size_large :
    BindsDeclaredSize localLimits ⟨none, 25 * 1024 * 1024, none, none⟩ ↔
      ¬ ((none : Option UploadMode) = some .multipart ∧ (25 * 1024 * 1024 : ℚ) = 0) :=
  signed_urls_bind_size_iff localLimits ⟨none, 25 * 1024 * 1024, none, none⟩ (by norm_num)

/-- A declared size of zero with the mode `multipart`: the url of part 1 takes a body of any length. -/
theorem zero_size_part_unbound :
    ¬ ∀ limits request, 0 ≤ request.size → BindsDeclaredSize limits request := fun binds =>
  empty_multipart_unbound rfl rfl (binds localLimits ⟨some .multipart, 0, none, none⟩ le_rfl)

end Puter

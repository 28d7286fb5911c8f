/-
Module: Puter.Fs.ServerUploads
Purpose: The upload of a body by the server (uploadFromServer in stores/fs/S3ObjectStore.ts), in one request or, as the
  chunks of a stream come in, in parts. It stores the body, or changes no object and asks to abort the upload.
Trusted boundary: a request that the object store rejects changes nothing there. A stream is the chunks that it delivers
  before it ends or fails. The limits of the object store on parts are left out: it may reject any request.
Main exports: uploadFromServer, StoresOrNothing, uploadFromServer_stores_or_nothing
-/
import Puter.Library.StateRun
import Puter.Permission.PermissionUtil

namespace Puter

open StateRun

/-- A text is the bytes that encode it. -/
inductive BodyChunk where
  | buffer (bytes : List UInt8)
  | other

inductive UploadBody where
  | buffer (bytes : List UInt8)
  | readable (chunks : List BodyChunk) (ends : Bool)

structure ServerUploadInput where
  bucket : Text
  objectKey : Text
  contentType : Text
  body : UploadBody
  contentLength : Option ℚ
  sizeHint : Option ℚ

inductive S3Request where
  | putObject (body : UploadBody) (contentLength : Option ℚ)
  | createMultipartUpload
  | uploadPart (uploadId : Text) (partNumber : ℕ) (body : List UInt8)
  | completeMultipartUpload (uploadId : Text) (parts : List (Text × ℕ))
  | abortMultipartUpload (uploadId : Text)

/-- What comes of a request: where it is carried out, the answer may lack the id or the etag that is read from it. -/
inductive S3Answer where
  | full
  | incomplete
  | rejected
deriving DecidableEq

/-- An upload: what comes in, the sizes of the client, and what the object store answers to each request. -/
structure ServerUpload extends ServerUploadInput where
  maxSingleUploadSize : ℕ
  partSize : ℕ
  positive : 0 < maxSingleUploadSize
  uploadId : Text
  etag : ℕ → List UInt8 → Text
  answer : ℕ → S3Answer

structure MultipartUpload where
  contentType : Text
  parts : ℕ → Option (Text × List UInt8)

/-- The objects by bucket and key, with their types, the open uploads, and the requests so far. -/
structure S3State where
  objects : Text × Text → Option (Text × List UInt8)
  uploads : Text → Option MultipartUpload
  sent : List S3Request

inductive UploadError where
  | requestFailed
  | noUploadId
  | noETag (partNumber : ℕ)
  | unsupportedChunk
  | streamFailed

abbrev S3Run := EStateM UploadError S3State

structure PartProgress where
  completedParts : List (Text × ℕ)
  partNumber : ℕ

namespace ServerUploads

def toBuffer : BodyChunk → Option (List UInt8)
  | .buffer bytes => some bytes
  | .other => none

/-- What a stream delivers in all, if it ends. -/
def streamBytes (ends : Bool) : List BodyChunk → Option (List UInt8)
  | [] => if ends then some [] else none
  | chunk :: chunks => do
      let chunkBuffer ← toBuffer chunk
      let rest ← streamBytes ends chunks
      some (chunkBuffer ++ rest)

def bodyBytes : UploadBody → Option (List UInt8)
  | .buffer bytes => some bytes
  | .readable chunks ends => streamBytes ends chunks

/-- The object of an upload: the parts listed, which have to be there with their etags. -/
def joinParts (upload : MultipartUpload) (listed : List (Text × ℕ)) : Option (List UInt8) :=
  if listed.all fun part => (upload.parts part.2).any (·.1 == part.1) then
    some (listed.flatMap fun part => ((upload.parts part.2).map (·.2)).getD [])
  else none

def setObject (u : ServerUpload) (contentType : Text) (bytes : List UInt8) (s : S3State) : S3State :=
  { s with objects := Function.update s.objects (u.bucket, u.objectKey) (some (contentType, bytes)) }

def setUpload (uploadId : Text) (upload : Option MultipartUpload) (s : S3State) : S3State :=
  { s with uploads := Function.update s.uploads uploadId upload }

/-- A request that the object store carries out. A body has to have the length given. -/
def serve (u : ServerUpload) (s : S3State) : S3Request → Option S3State
  | .putObject body contentLength =>
      ((bodyBytes body).filter fun bytes => contentLength.all (· == bytes.length)).map fun bytes =>
        setObject u u.contentType bytes s
  | .createMultipartUpload => some (setUpload u.uploadId (some ⟨u.contentType, fun _ => none⟩) s)
  | .uploadPart uploadId partNumber body =>
      (s.uploads uploadId).map fun upload => setUpload uploadId (some
        { upload with parts := Function.update upload.parts partNumber (some (u.etag partNumber body, body)) }) s
  | .completeMultipartUpload uploadId parts => do
      let upload ← s.uploads uploadId
      let bytes ← joinParts upload parts
      some (setUpload uploadId none (setObject u upload.contentType bytes s))
  | .abortMultipartUpload uploadId => (s.uploads uploadId).map fun _ => setUpload uploadId none s

def ask (request : S3Request) (s : S3State) : S3State := { s with sent := s.sent ++ [request] }

/-- Send a request. It answers whether the answer has what is read from it. -/
def send (u : ServerUpload) (request : S3Request) : S3Run Bool := fun s =>
  match u.answer s.sent.length, serve u (ask request s) request with
  | .full, some served => .ok true served
  | .incomplete, some served => .ok false served
  | _, _ => .error .requestFailed (ask request s)

def resolveContentLength (u : ServerUpload) : Option ℚ :=
  u.contentLength.filter (0 ≤ ·) <|> u.sizeHint.filter (0 ≤ ·) <|>
    match u.body with
    | .buffer bytes => some bytes.length
    | .readable _ _ => none

def shouldUseMultipart (u : ServerUpload) : Bool :=
  match resolveContentLength u, u.body with
  | none, .readable _ _ => true
  | none, _ => false
  | some length, _ => length > u.maxSingleUploadSize

section Multipart

variable (u : ServerUpload)

def multipartPartSize : ℕ := max u.maxSingleUploadSize u.partSize

def uploadPart (progress : PartProgress) (partBody : List UInt8) : S3Run PartProgress := do
  let tagged ← send u (.uploadPart u.uploadId progress.partNumber partBody)
  if tagged then
    pure ⟨progress.completedParts ++ [(u.etag progress.partNumber partBody, progress.partNumber)],
      progress.partNumber + 1⟩
  else throw (.noETag progress.partNumber)

/-- The loop over a buffer, from an offset. -/
def uploadSlices (bytes : List UInt8) : ℕ → ℕ → PartProgress → S3Run PartProgress
  | 0, _, progress => pure progress
  | fuel + 1, offset, progress =>
      if offset < bytes.length then do
        let progress ← uploadPart u progress ((bytes.drop offset).take (multipartPartSize u))
        uploadSlices bytes fuel (offset + multipartPartSize u) progress
      else pure progress

/-- The loop that uploads the full parts of what is pending. -/
def uploadPending : ℕ → List UInt8 → PartProgress → S3Run (List UInt8 × PartProgress)
  | 0, pendingChunk, progress => pure (pendingChunk, progress)
  | fuel + 1, pendingChunk, progress =>
      if multipartPartSize u ≤ pendingChunk.length then do
        let progress ← uploadPart u progress (pendingChunk.take (multipartPartSize u))
        uploadPending fuel (pendingChunk.drop (multipartPartSize u)) progress
      else pure (pendingChunk, progress)

def uploadStream (ends : Bool) : List BodyChunk → List UInt8 → PartProgress → S3Run (List UInt8 × PartProgress)
  | [], pendingChunk, progress => if ends then pure (pendingChunk, progress) else throw .streamFailed
  | chunk :: chunks, pendingChunk, progress => do
      let chunkBuffer ← orThrow .unsupportedChunk (toBuffer chunk)
      if chunkBuffer = [] then uploadStream ends chunks pendingChunk progress
      else
        let pendingChunk := if pendingChunk = [] then chunkBuffer else pendingChunk ++ chunkBuffer
        let (pendingChunk, progress) ← uploadPending u pendingChunk.length pendingChunk progress
        uploadStream ends chunks pendingChunk progress

def uploadParts : S3Run PartProgress :=
  match u.body with
  | .buffer bytes => uploadSlices u bytes bytes.length 0 ⟨[], 1⟩
  | .readable chunks ends => do
      let (pendingChunk, progress) ← uploadStream u ends chunks [] ⟨[], 1⟩
      if pendingChunk = [] then pure progress else uploadPart u progress pendingChunk

/-- Nothing came: the upload is aborted for an empty object. Else it is completed. -/
def finishUpload (completedParts : List (Text × ℕ)) : S3Run Unit :=
  if completedParts = [] then do
    let _ ← send u (.abortMultipartUpload u.uploadId)
    let _ ← send u (.putObject (.buffer []) (some 0))
  else do
    let _ ← send u (.completeMultipartUpload u.uploadId completedParts)

def uploadFromServerMultipart : S3Run Unit := do
  let named ← send u .createMultipartUpload
  if named then
    tryCatch (do finishUpload u (← uploadParts u).completedParts) fun error => do
      tryCatch (do let _ ← send u (.abortMultipartUpload u.uploadId)) fun _ => pure ()
      throw error
  else throw .noUploadId

def uploadFromServer : S3Run Unit :=
  if shouldUseMultipart u then uploadFromServerMultipart u
  else do
    let _ ← send u (.putObject u.body (resolveContentLength u))

end Multipart

section Progress

variable (u : ServerUpload) (s : S3State)

def partRequests (bodies : List (List UInt8)) : List S3Request :=
  (bodies.zipIdx 1).map fun part => .uploadPart u.uploadId part.2 part.1

def progressOf (bodies : List (List UInt8)) : PartProgress :=
  ⟨(bodies.zipIdx 1).map fun part => (u.etag part.2 part.1, part.2), bodies.length + 1⟩

def partsOf (bodies : List (List UInt8)) (partNumber : ℕ) : Option (Text × List UInt8) :=
  if partNumber = 0 then none
  else bodies[partNumber - 1]?.map fun body => (u.etag partNumber body, body)

/-- The state after an upload was opened and some parts were uploaded. -/
def sending (bodies : List (List UInt8)) : S3State where
  objects := s.objects
  uploads := Function.update s.uploads u.uploadId (some ⟨u.contentType, partsOf u bodies⟩)
  sent := s.sent ++ .createMultipartUpload :: partRequests u bodies

theorem partsOf_concat (bodies : List (List UInt8)) (body : List UInt8) :
    Function.update (partsOf u bodies) (bodies.length + 1) (some (u.etag (bodies.length + 1) body, body)) =
      partsOf u (bodies ++ [body]) := by
  funext partNumber
  by_cases isNew : partNumber = bodies.length + 1
  · subst isNew
    simp [partsOf]
  · rw [Function.update_of_ne isNew, partsOf, partsOf]
    split
    · rfl
    next positive =>
      rcases Nat.lt_or_gt_of_ne (show partNumber - 1 ≠ bodies.length by omega) with before | after
      · rw [List.getElem?_append_left before]
      · rw [List.getElem?_eq_none after.le, List.getElem?_eq_none (by simpa using after)]

theorem joinParts_progress (bodies : List (List UInt8)) (contentType : Text) :
    joinParts ⟨contentType, partsOf u bodies⟩ (progressOf u bodies).completedParts = some bodies.flatten := by
  have stored : ∀ part ∈ bodies.zipIdx 1, partsOf u bodies part.2 = some (u.etag part.2 part.1, part.1) := by
    intro part member
    obtain ⟨positive, found⟩ := List.mem_zipIdx_iff_le_and_getElem?_sub.mp member
    rw [partsOf, if_neg (by omega), found, Option.map_some]
  have joined : (progressOf u bodies).completedParts.flatMap
      (fun part => ((partsOf u bodies part.2).map (·.2)).getD []) = bodies.flatten := by
    rw [progressOf, List.flatMap_map, ← List.flatMap_id, ← List.zipIdx_map_fst 1 bodies, List.flatMap_map]
    rw [List.zipIdx_map_fst]
    refine List.flatMap_congr fun part member => ?_
    rw [stored part member]
    rfl
  rw [joinParts, if_pos, joined]
  rw [List.all_eq_true]
  intro part member
  obtain ⟨listed, isListed, rfl⟩ := List.mem_map.mp member
  change (partsOf u bodies listed.2).any _ = true
  rw [stored listed isListed]
  simp

end Progress

section Runs

variable (u : ServerUpload) (s : S3State)

/-- The stream failed, or a request of the run did or lacks something in its answer. -/
def Faulty (s' : S3State) : Prop :=
  bodyBytes u.body = none ∨ ∃ i, s.sent.length ≤ i ∧ i < s'.sent.length ∧ u.answer i ≠ .full

def NoneRejected (s' : S3State) : Prop := ∀ i, s.sent.length ≤ i → i < s'.sent.length → u.answer i ≠ .rejected

/-- No object and no other upload changed. -/
structure Apart (s' : S3State) : Prop where
  objects : s'.objects = s.objects
  uploads : ∃ upload, s'.uploads = Function.update s.uploads u.uploadId upload
  longer : s.sent.length ≤ s'.sent.length

/-- The computation ends well, or by some fault with no object changed. -/
def Goes {α : Type} (body : S3Run α) (good : α → S3State → Prop) (start : S3State) : Prop :=
  match body start with
  | .ok a s' => good a s'
  | .error _ s' => Apart u s s' ∧ Faulty u s s'

variable {u s} {s' : S3State} {bodies : List (List UInt8)}

theorem send_answered {request : S3Request} {served : S3State}
    (serves : serve u (ask request s) request = some served)
    (fine : u.answer s.sent.length ≠ .rejected) :
    send u request s = .ok (decide (u.answer s.sent.length = .full)) served := by
  unfold send
  rw [serves]
  cases answered : u.answer s.sent.length with
  | full => rfl
  | incomplete => rfl
  | rejected => exact absurd answered fine

theorem send_refused {request : S3Request} (refused : u.answer s.sent.length = .rejected ∨
    serve u (ask request s) request = none) :
    send u request s = .error .requestFailed (ask request s) := by
  unfold send
  rcases refused with rejected | unserved
  · rw [rejected]
  · rw [unserved]
    cases u.answer s.sent.length <;> rfl

theorem Goes.bind {α β : Type} {first : S3Run α} {next : α → S3Run β} {mid : α → S3State → Prop}
    {good : β → S3State → Prop} (goes : Goes u s first mid s')
    (rest : ∀ a between, mid a between → Goes u s (next a) good between) :
    Goes u s (first >>= next) good s' := by
  unfold Goes at goes
  cases ran : first s' with
  | ok a between =>
      rw [ran] at goes
      rw [Goes, bind_of_ok ran]
      exact rest a between goes
  | error e between =>
      rw [ran] at goes
      rw [Goes, bind_of_error ran]
      exact goes

theorem Goes.mono {α : Type} {body : S3Run α} {good better : α → S3State → Prop} (goes : Goes u s body good s')
    (weaker : ∀ a after, good a after → better a after) : Goes u s body better s' := by
  unfold Goes at *
  cases ran : body s' with
  | ok a after =>
      rw [ran] at goes
      exact weaker a after goes
  | error e after =>
      rw [ran] at goes
      exact goes

theorem send_goes {request : S3Request} {served : S3State} (apart : Apart u s s')
    (none : NoneRejected u s s') (serves : serve u (ask request s') request = some served)
    (sent : served.sent = s'.sent ++ [request]) :
    Goes u s (send u request) (fun full after => after = served ∧
      NoneRejected u s served ∧ (full = false → Faulty u s served)) s' := by
  have last : ∀ after : S3State, after.sent = s'.sent ++ [request] → u.answer s'.sent.length ≠ .full →
      Faulty u s after := by
    intro after isSent fault
    exact .inr ⟨_, apart.longer, by simp [isSent], fault⟩
  by_cases rejected : u.answer s'.sent.length = .rejected
  · rw [Goes, send_refused (.inl rejected)]
    refine ⟨⟨apart.objects, apart.uploads, ?_⟩, last _ rfl (by rw [rejected]; decide)⟩
    simpa [ask] using apart.longer.trans (Nat.le_succ _)
  · rw [Goes, send_answered serves rejected]
    refine ⟨rfl, fun i begins inside => ?_, fun lacks => last _ sent (of_decide_eq_false lacks)⟩
    rw [sent, List.length_append, List.length_singleton] at inside
    rcases Nat.lt_or_eq_of_le (Nat.le_of_lt_succ inside) with before | rfl
    · exact none i begins before
    · exact rejected

/-- The upload is open with these parts. -/
structure Sending (u : ServerUpload) (s : S3State) (bodies : List (List UInt8))
    (s' : S3State) : Prop where
  state : s' = sending u s bodies
  none : NoneRejected u s s'

theorem Sending.apart (sends : Sending u s bodies s') : Apart u s s' := by
  obtain ⟨rfl, -⟩ := sends
  exact ⟨rfl, ⟨_, rfl⟩, by simp [sending]⟩

theorem uploadPart_goes (sends : Sending u s bodies s') (body : List UInt8) :
    Goes u s (uploadPart u (progressOf u bodies) body) (fun progress after =>
      progress = progressOf u (bodies ++ [body]) ∧ Sending u s (bodies ++ [body]) after) s' := by
  have serves : serve u (ask (.uploadPart u.uploadId (bodies.length + 1) body) s')
      (.uploadPart u.uploadId (bodies.length + 1) body) = some (sending u s (bodies ++ [body])) := by
    rw [sends.state]
    simp [serve, ask, sending, setUpload, partsOf_concat, partRequests, List.zipIdx_append, Nat.add_comm]
  refine (send_goes sends.apart sends.none serves ?_).bind ?_
  · rw [sends.state]
    simp [sending, partRequests, List.zipIdx_append, Nat.add_comm]
  · rintro full after ⟨rfl, none, fault⟩
    cases full with
    | true =>
        refine ⟨?_, rfl, none⟩
        simp [progressOf, List.zipIdx_append, Nat.add_comm]
    | false => exact ⟨⟨rfl, ⟨_, rfl⟩, by simp [sending]⟩, fault rfl⟩

variable {bytes : List UInt8} {fuel : ℕ}

def Full (u : ServerUpload) (bodies : List (List UInt8)) : Prop :=
  ∀ body ∈ bodies, body.length = multipartPartSize u

/-- The parts have the part size, but for a last one that is not empty. -/
def PartsFit (u : ServerUpload) (bodies : List (List UInt8)) : Prop :=
  Full u bodies ∨ ∃ front last, bodies = front ++ [last] ∧ Full u front ∧ last ≠ [] ∧
    last.length < multipartPartSize u

theorem Full.concat {body : List UInt8} (full : Full u bodies) (fits : body.length = multipartPartSize u) :
    Full u (bodies ++ [body]) := by
  intro other member
  rcases List.mem_append.mp member with before | isLast
  · exact full other before
  · rw [List.mem_singleton.mp isLast]
    exact fits

/-- All the bytes were uploaded, in parts that fit. -/
def Uploaded (u : ServerUpload) (s : S3State) (bytes : List UInt8)
    (progress : PartProgress) (after : S3State) : Prop :=
  ∃ bodies, progress = progressOf u bodies ∧ Sending u s bodies after ∧ PartsFit u bodies ∧
    bodies.flatten = bytes

/-- The bytes were uploaded in full parts, but for less than a part that is pending. -/
def Drained (u : ServerUpload) (s : S3State) (bytes : List UInt8)
    (out : List UInt8 × PartProgress) (after : S3State) : Prop :=
  ∃ bodies, out.2 = progressOf u bodies ∧ Sending u s bodies after ∧ Full u bodies ∧
    bodies.flatten ++ out.1 = bytes ∧ out.1.length < multipartPartSize u

theorem partSize_positive : 0 < multipartPartSize u := lt_max_of_lt_left u.positive

theorem uploadSlices_goes {offset : ℕ} (sends : Sending u s bodies s') (fit : PartsFit u bodies)
    (full : offset < bytes.length → Full u bodies) (sofar : bodies.flatten ++ bytes.drop offset = bytes)
    (enough : bytes.length ≤ offset + fuel) :
    Goes u s (uploadSlices u bytes fuel offset (progressOf u bodies))
      (Uploaded u s bytes) s' := by
  have positive := @partSize_positive u
  have done : bytes.length ≤ offset → bodies.flatten = bytes := by
    intro ends
    rwa [List.drop_eq_nil_of_le ends, List.append_nil] at sofar
  induction fuel generalizing bodies offset s' with
  | zero => exact ⟨bodies, rfl, sends, fit, done enough⟩
  | succ fuel ih =>
      rw [uploadSlices]
      split
      next more =>
        have size : ((bytes.drop offset).take (multipartPartSize u)).length =
            min (multipartPartSize u) (bytes.length - offset) := by simp
        have later : (bodies ++ [(bytes.drop offset).take (multipartPartSize u)]).flatten ++
            bytes.drop (offset + multipartPartSize u) = bytes := by
          rw [List.flatten_append, List.flatten_singleton, List.append_assoc, ← List.drop_drop, List.take_append_drop]
          exact sofar
        refine (uploadPart_goes sends _).bind ?_
        rintro progress after ⟨rfl, sends⟩
        refine ih sends ?_ (fun _ => (full more).concat (by omega)) later (by omega) fun ends => ?_
        · rcases le_or_gt (offset + multipartPartSize u) bytes.length with within | beyond
          · exact .inl ((full more).concat (by omega))
          · refine .inr ⟨bodies, _, rfl, full more, ?_, by omega⟩
            rw [← List.length_pos_iff]
            omega
        · rwa [List.drop_eq_nil_of_le ends, List.append_nil] at later
      next ended => exact ⟨bodies, rfl, sends, fit, done (not_lt.mp ended)⟩

theorem uploadPending_goes {pending : List UInt8} (sends : Sending u s bodies s')
    (full : Full u bodies) (sofar : bodies.flatten ++ pending = bytes) (enough : pending.length ≤ fuel) :
    Goes u s (uploadPending u fuel pending (progressOf u bodies))
      (Drained u s bytes) s' := by
  have positive := @partSize_positive u
  induction fuel generalizing bodies pending s' with
  | zero => exact ⟨bodies, rfl, sends, full, sofar, by dsimp only; omega⟩
  | succ fuel ih =>
      rw [uploadPending]
      split
      next more =>
        refine (uploadPart_goes sends _).bind ?_
        rintro progress after ⟨rfl, sends⟩
        refine ih sends (full.concat (by simpa using more)) ?_ (by rw [List.length_drop]; omega)
        rw [List.flatten_append, List.flatten_singleton, List.append_assoc, List.take_append_drop]
        exact sofar
      next short => exact ⟨bodies, rfl, sends, full, sofar, not_le.mp short⟩

theorem uploadStream_goes {ends : Bool} {chunks : List BodyChunk} {out : List UInt8 × PartProgress}
    (drained : Drained u s bytes out s')
    (whole : bodyBytes u.body = (streamBytes ends chunks).map (bytes ++ ·)) :
    Goes u s (uploadStream u ends chunks out.1 out.2) (fun out after =>
      ∃ bytes, bodyBytes u.body = some bytes ∧ Drained u s bytes out after) s' := by
  induction chunks generalizing bytes out s' with
  | nil =>
      cases ends with
      | true => exact ⟨bytes, by simpa [streamBytes] using whole, drained⟩
      | false =>
          obtain ⟨bodies, -, sends, -⟩ := drained
          exact ⟨sends.apart, .inl whole⟩
  | cons chunk chunks ih =>
      rw [uploadStream]
      cases isBuffer : toBuffer chunk with
      | none =>
          obtain ⟨bodies, -, sends, -⟩ := drained
          exact ⟨sends.apart, .inl (by simpa [streamBytes, isBuffer] using whole)⟩
      | some chunkBuffer =>
          have later : bodyBytes u.body = (streamBytes ends chunks).map ((bytes ++ chunkBuffer) ++ ·) := by
            rw [whole, streamBytes, isBuffer]
            cases streamBytes ends chunks <;> simp
          change Goes u s (if chunkBuffer = [] then _ else _) _ s'
          split
          next empty =>
            rw [empty, List.append_nil] at later
            exact ih drained later
          next given =>
            obtain ⟨bodies, isProgress, sends, full, sofar, short⟩ := drained
            have pending : (if out.1 = [] then chunkBuffer else out.1 ++ chunkBuffer) = out.1 ++ chunkBuffer := by
              split
              next none => rw [none, List.nil_append]
              · rfl
            dsimp only
            rw [pending, isProgress]
            have again : bodies.flatten ++ (out.1 ++ chunkBuffer) = bytes ++ chunkBuffer := by
              rw [← List.append_assoc, sofar]
            exact (uploadPending_goes sends full again le_rfl).bind fun out after drained => ih drained later

theorem uploadParts_goes (sends : Sending u s [] s') :
    Goes u s (uploadParts u) (fun progress after =>
      ∃ bytes, bodyBytes u.body = some bytes ∧ Uploaded u s bytes progress after) s' := by
  have none : Full u [] := fun _ => nofun
  unfold uploadParts
  split
  next bytes isBody =>
    have goes := @uploadSlices_goes u s s' [] bytes bytes.length 0 sends (.inl none) (fun _ => none) rfl
      (by simp)
    exact goes.mono fun _ _ uploaded => ⟨bytes, by rw [isBody]; rfl, uploaded⟩
  next chunks ends isBody =>
    have start : Drained u s [] ([], ⟨[], 1⟩) s' := ⟨[], rfl, sends, none, rfl, partSize_positive⟩
    have whole : bodyBytes u.body = (streamBytes ends chunks).map ([] ++ ·) := by
      rw [isBody]
      simp [bodyBytes]
    refine (uploadStream_goes start whole).bind ?_
    rintro ⟨pending, progress⟩ after ⟨bytes, isWhole, bodies, isProgress, sends, full, sofar, short⟩
    obtain rfl : progress = progressOf u bodies := isProgress
    dsimp only at sofar short ⊢
    split
    next empty =>
      rw [empty, List.append_nil] at sofar
      exact ⟨bytes, isWhole, bodies, rfl, sends, .inl full, sofar⟩
    next more =>
      refine (uploadPart_goes sends pending).mono ?_
      rintro progress after ⟨rfl, sends⟩
      exact ⟨bytes, isWhole, _, rfl, sends, .inr ⟨bodies, pending, rfl, full, more, short⟩, by simpa using sofar⟩

/-- In one request; or, where nothing came, as an empty object; or in parts that fit, numbered from 1. -/
def SentWhole (u : ServerUpload) (s : S3State) (bytes : List UInt8) (s' : S3State) : Prop :=
  s'.sent = s.sent ++ [.putObject u.body (resolveContentLength u)] ∨
    bytes = [] ∧ s'.sent = s.sent ++
      [.createMultipartUpload, .abortMultipartUpload u.uploadId, .putObject (.buffer []) (some 0)] ∨
    ∃ bodies listed, bodies.flatten = bytes ∧ PartsFit u bodies ∧
      s'.sent = s.sent ++ .createMultipartUpload :: partRequests u bodies ++
        [.completeMultipartUpload u.uploadId listed]

/-- The object is the bytes, no upload stays open, and no request was rejected. -/
structure Stored (u : ServerUpload) (s : S3State) (bytes : List UInt8) (s' : S3State) : Prop where
  objects : s'.objects = Function.update s.objects (u.bucket, u.objectKey) (some (u.contentType, bytes))
  uploads : s'.uploads = s.uploads ∨ s'.uploads = Function.update s.uploads u.uploadId none
  none : NoneRejected u s s'
  whole : SentWhole u s bytes s'

/-- No upload was opened, or its id is not known; or the last request is to abort it, and it is aborted unless that
    request is rejected. -/
def Aborted (u : ServerUpload) (s s' : S3State) : Prop :=
  s'.uploads = s.uploads ∨ u.answer s.sent.length = .incomplete ∨
    s'.sent.getLast? = some (.abortMultipartUpload u.uploadId) ∧
      (u.answer (s'.sent.length - 1) = .rejected ∨ s'.uploads = Function.update s.uploads u.uploadId none)

/-- An upload that ends well has stored the body; where one throws, some request or the stream failed, no object
    changed, and the upload is aborted. -/
def StoresOrNothing (u : ServerUpload) (s : S3State) : EStateM.Result UploadError S3State Unit → Prop
  | .ok _ s' => ∃ bytes, bodyBytes u.body = some bytes ∧ Stored u s bytes s'
  | .error _ s' => s'.objects = s.objects ∧ Faulty u s s' ∧ Aborted u s s'

def aborting (u : ServerUpload) (s : S3State) : S3State :=
  setUpload u.uploadId none (ask (.abortMultipartUpload u.uploadId) s)

theorem serve_abort {upload : MultipartUpload} (there : s'.uploads u.uploadId = some upload) :
    serve u (ask (.abortMultipartUpload u.uploadId) s') (.abortMultipartUpload u.uploadId) = some (aborting u s') := by
  simp [serve, ask, there, aborting]

theorem finishUpload_goes {progress : PartProgress} (uploaded : Uploaded u s bytes progress s') :
    Goes u s (finishUpload u progress.completedParts) (fun _ after => Stored u s bytes after) s' := by
  obtain ⟨bodies, rfl, sends, fit, rfl⟩ := uploaded
  have isState := sends.state
  unfold finishUpload
  split
  next empty =>
    obtain rfl : bodies = [] := by simpa [progressOf] using empty
    have there : s'.uploads u.uploadId = some ⟨u.contentType, partsOf u []⟩ := by
      rw [isState]
      exact Function.update_self _ _ _
    have puts : ∀ t, serve u (ask (.putObject (.buffer []) (some 0)) t) (.putObject (.buffer []) (some 0)) =
        some (setObject u u.contentType [] (ask (.putObject (.buffer []) (some 0)) t)) :=
      fun t => by simp [serve, bodyBytes]
    refine (send_goes sends.apart sends.none (serve_abort there) rfl).bind ?_
    rintro full after ⟨rfl, fine, -⟩
    have apart : Apart u s (aborting u s') := by
      rw [isState]
      exact ⟨rfl, ⟨none, Function.update_idem _ _ _⟩, by simp [aborting, setUpload, ask, sending]⟩
    refine (send_goes apart fine (puts _) rfl).bind ?_
    rintro full after ⟨rfl, fine, -⟩
    rw [isState] at fine ⊢
    refine ⟨rfl, .inr (Function.update_idem _ _ _), fine, .inr (.inl ⟨rfl, ?_⟩)⟩
    simp [setObject, aborting, setUpload, ask, sending, partRequests]
  · have joined := joinParts_progress u bodies u.contentType
    generalize (progressOf u bodies).completedParts = listed at joined ⊢
    have completes : serve u (ask (.completeMultipartUpload u.uploadId listed) s')
        (.completeMultipartUpload u.uploadId listed) = some (setUpload u.uploadId none
          (setObject u u.contentType bodies.flatten (ask (.completeMultipartUpload u.uploadId listed) s'))) := by
      rw [isState]
      simp [serve, ask, sending, joined]
    refine (send_goes sends.apart sends.none completes rfl).bind ?_
    rintro full after ⟨rfl, fine, -⟩
    rw [isState] at fine ⊢
    exact ⟨rfl, .inr (Function.update_idem _ _ _), fine, .inr (.inr ⟨bodies, _, rfl, fit, rfl⟩)⟩

theorem abort_ends (apart : Apart u s s') (faulty : Faulty u s s') (error : UploadError) :
    StoresOrNothing u s ((do
      tryCatch (do let _ ← send u (.abortMultipartUpload u.uploadId)) fun _ => pure ()
      throw error : S3Run Unit) s') := by
  have aborted : ∃ after, (tryCatch (do let _ ← send u (.abortMultipartUpload u.uploadId))
      fun _ => pure () : S3Run Unit) s' = .ok () after ∧ after.objects = s'.objects ∧
        after.sent = s'.sent ++ [.abortMultipartUpload u.uploadId] ∧
        (u.answer s'.sent.length = .rejected ∨ after.uploads = Function.update s.uploads u.uploadId none) := by
    obtain ⟨upload, isUploads⟩ := apart.uploads
    have here : s'.uploads u.uploadId = upload := by rw [isUploads, Function.update_self]
    cases upload with
    | none =>
        exact ⟨_, tryCatch_of_error (bind_of_error (send_refused (.inr (by simp [serve, ask, here])))), rfl, rfl,
          .inr isUploads⟩
    | some upload =>
        by_cases rejected : u.answer s'.sent.length = .rejected
        · exact ⟨_, tryCatch_of_error (bind_of_error (send_refused (.inl rejected))), rfl, rfl, .inl rejected⟩
        · refine ⟨_, tryCatch_of_ok (bind_of_ok (send_answered (serve_abort here) rejected)), rfl, rfl, .inr ?_⟩
          exact (congrArg (Function.update · u.uploadId none) isUploads).trans (Function.update_idem _ _ _)
  obtain ⟨after, ran, objects, sent, closed⟩ := aborted
  rw [bind_of_ok ran]
  have last : after.sent.getLast? = some (.abortMultipartUpload u.uploadId) := by rw [sent, List.getLast?_concat]
  refine ⟨objects.trans apart.objects, ?_, .inr (.inr ⟨last, by simpa [sent] using closed⟩)⟩
  refine faulty.imp_right fun ⟨i, begins, inside, fault⟩ => ⟨i, begins, ?_, fault⟩
  rw [sent, List.length_append]
  omega

theorem uploadFromServerMultipart_ends : StoresOrNothing u s (uploadFromServerMultipart u s) := by
  have first : u.answer s.sent.length ≠ .full → ∀ s' : S3State, s'.sent = s.sent ++ [.createMultipartUpload] →
      Faulty u s s' :=
    fun fault s' isSent => .inr ⟨_, le_rfl, by simp [isSent], fault⟩
  have opens : serve u (ask .createMultipartUpload s) .createMultipartUpload = some (sending u s []) := by
    have empty : partsOf u [] = fun _ => none := by
      funext partNumber
      simp [partsOf]
    simp [serve, ask, setUpload, sending, partRequests, empty]
  unfold uploadFromServerMultipart
  by_cases rejected : u.answer s.sent.length = .rejected
  · rw [bind_of_error (send_refused (.inl rejected))]
    exact ⟨rfl, first (by rw [rejected]; decide) _ rfl, .inl rfl⟩
  · rw [bind_of_ok (send_answered opens rejected)]
    by_cases full : u.answer s.sent.length = .full
    · have none : NoneRejected u s (sending u s []) := by
        intro i begins inside
        obtain rfl : i = s.sent.length := by
          simp [sending, partRequests] at inside
          omega
        exact rejected
      have goes := (uploadParts_goes ⟨rfl, none⟩).bind fun progress after uploaded =>
        uploaded.elim fun bytes uploaded => (finishUpload_goes uploaded.2).mono fun _ _ stored =>
          Exists.intro bytes (And.intro uploaded.1 stored)
      unfold Goes at goes
      rw [if_pos (decide_eq_true full)]
      split at goes
      next ran =>
        rw [tryCatch_of_ok ran]
        exact goes
      next ran =>
        rw [tryCatch_of_error ran]
        exact abort_ends goes.1 goes.2 _
    · rw [if_neg (by simpa using full)]
      have incomplete : u.answer s.sent.length = .incomplete := by
        cases answered : u.answer s.sent.length <;> simp_all
      exact ⟨rfl, first full _ rfl, .inr (.inl incomplete)⟩

/-- The lengths given, if any, are the length of the body. -/
def LengthsFit (u : ServerUpload) : Prop :=
  ∀ bytes, bodyBytes u.body = some bytes →
    ∀ length, u.contentLength = some length ∨ u.sizeHint = some length → length = bytes.length

theorem resolveContentLength_fits (fits : LengthsFit u) (whole : bodyBytes u.body = some bytes) :
    (resolveContentLength u).all (· == (bytes.length : ℚ)) = true := by
  unfold resolveContentLength
  cases isGiven : u.contentLength.filter (0 ≤ ·) with
  | some length => simp [fits bytes whole length (.inl (Option.filter_eq_some_iff.mp isGiven).1)]
  | none =>
      cases isHint : u.sizeHint.filter (0 ≤ ·) with
      | some length => simp [fits bytes whole length (.inr (Option.filter_eq_some_iff.mp isHint).1)]
      | none => cases isBody : u.body <;> simp_all [bodyBytes]

/-- An upload whose lengths fit stores the body, or changes no object and aborts. -/
theorem uploadFromServer_stores_or_nothing (u : ServerUpload) (s : S3State) (fits : LengthsFit u) :
    StoresOrNothing u s (uploadFromServer u s) := by
  unfold uploadFromServer
  split
  · exact uploadFromServerMultipart_ends
  · cases whole : bodyBytes u.body with
    | none =>
        rw [bind_of_error (send_refused (.inr (by simp [serve, whole])))]
        exact ⟨rfl, .inl whole, .inl rfl⟩
    | some bytes =>
        have serves : serve u (ask (.putObject u.body (resolveContentLength u)) s)
            (.putObject u.body (resolveContentLength u)) =
              some (setObject u u.contentType bytes (ask (.putObject u.body (resolveContentLength u)) s)) := by
          simp only [serve, whole, Option.filter, resolveContentLength_fits fits whole, if_true, Option.map_some]
        by_cases rejected : u.answer s.sent.length = .rejected
        · rw [bind_of_error (send_refused (.inl rejected))]
          exact ⟨rfl, .inr ⟨_, le_rfl, by simp [ask], by rw [rejected]; decide⟩, .inl rfl⟩
        · rw [bind_of_ok (send_answered serves rejected)]
          refine ⟨bytes, whole, rfl, .inl rfl, fun i begins inside => ?_, .inl rfl⟩
          obtain rfl : i = s.sent.length := by
            simp [setObject, ask] at inside
            omega
          exact rejected

end Runs

section Examples

/-- Five bytes in chunks, and parts of two bytes. -/
def streamed (ends : Bool) (sizeHint : Option ℚ) (answer : ℕ → S3Answer) : ServerUpload :=
  ⟨⟨['b'], ['k'], [], .readable [.buffer [1, 2, 3], .buffer [], .buffer [4, 5]] ends, none, sizeHint⟩,
    2, 1, by decide, ['u'], fun _ _ => ['e'], answer⟩

def emptyBucket : S3State := ⟨fun _ => none, fun _ => none, []⟩

theorem uploadFromServer_stores_or_nothing_streamed :
    StoresOrNothing (streamed true (some 5) fun _ => .full) emptyBucket
      (uploadFromServer (streamed true (some 5) fun _ => .full) emptyBucket) := by
  refine uploadFromServer_stores_or_nothing _ _ fun bytes whole length given => ?_
  obtain rfl : [1, 2, 3, 4, 5] = bytes := Option.some.inj whole
  rcases given with impossible | isHint
  · cases impossible
  · rw [← Option.some.inj isHint]
    rfl

/-- The stream fails behind four bytes, and the request to abort is rejected. -/
theorem rejected_abort_leaves_upload : ∃ error s',
    uploadFromServer (streamed false none fun i => if i = 3 then .rejected else .full) emptyBucket = .error error s' ∧
      s'.uploads ['u'] ≠ none :=
  ⟨_, _, rfl, nofun⟩

end Examples

end ServerUploads

end Puter

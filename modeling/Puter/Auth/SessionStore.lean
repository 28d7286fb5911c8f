/-
Module: Puter.Auth.SessionStore
Purpose: The session rows of stores/session/SessionStore.js and their cache, as concurrent calls: looking a
  session up, creating one, revoking one alone or with those derived from it, and the idempotent lookup of
  the session of an app or of a worker. Each call is the sequence of its reads and writes of the table and
  of the cache. A cache write that the source does not wait for is a call of its own.
Trusted boundary: one primary database and one cache; an entry of the cache may go at any time. App uids
  hold no colon, so a composite cache key tells its parts apart. Labels, activity and identity columns, which
  no call here reads, are left out.
Main exports: SessionRow, SessionCall, sessionSystem
-/
import Puter.Library.Interleaving
import Puter.Core.Actor

namespace Puter

/-- `kind` of a session row. -/
inductive SessionKind where
  | web
  | app
  | accessToken
  | asset
  | worker
deriving DecidableEq, Repr

/-- A row of the sessions table. `workerName` is `meta.worker_name`. -/
structure SessionRow where
  uuid : Text
  userId : ℕ
  kind : SessionKind
  parentSessionId : Option Text
  appUid : Option Text
  workerName : Option Text
  legacyTokenUid : Option Text
  accessTokenUid : Option Text
  createdVia : Option Text
  lastIp : Option Text
  lastUserAgent : Option Text
  expiresAt : Option ℕ
  revokedAt : Option ℕ
deriving DecidableEq, Repr

/-- What at most one unrevoked row may be for: an app of a user, or a worker of a user and an app, the app
    being empty for a worker of the user alone. -/
inductive SessionSlot where
  | app (userId : ℕ) (appUid : Text)
  | worker (userId : ℕ) (appUid workerName : Text)
deriving DecidableEq, Repr

/-- A key of the session cache. The tag of a legacy web session joins its address and its user agent. -/
inductive SessionCacheKey where
  | uuid (uuid : Text)
  | slot (slot : SessionSlot)
  | legacyAt (tokenUid : Text)
  | legacyWeb (userId : ℕ) (tag : Text)
deriving DecidableEq, Repr

def appWindowSeconds : ℕ := 365 * 24 * 60 * 60

def workerWindowSeconds : ℕ := 99 * 365 * 24 * 60 * 60

namespace SessionRow

def isExpired (row : SessionRow) (now : ℕ) : Bool := row.expiresAt.any (· ≤ now)

def isActive (row : SessionRow) (now : ℕ) : Bool := row.revokedAt.isNone && !row.isExpired now

/-- The slot a row takes in the partial unique indexes: a missing app of an app row and a missing name of a
    worker row are distinct from any other. -/
def slot (row : SessionRow) : Option SessionSlot :=
  match row.kind with
  | .app => row.appUid.map (.app row.userId)
  | .worker => row.workerName.map (.worker row.userId (row.appUid.getD []))
  | _ => none

def allCacheKeysForRow (row : SessionRow) : List SessionCacheKey :=
  let appKey := if row.kind = .app && row.userId != 0 && row.appUid.any (!·.isEmpty) then
      [.slot (.app row.userId (row.appUid.getD []))]
    else []
  let workerKey := if row.kind = .worker && row.userId != 0 && row.workerName.any (!·.isEmpty) then
      [.slot (.worker row.userId (row.appUid.getD []) (row.workerName.getD []))]
    else []
  let legacyWebKey := if row.kind = .web && row.createdVia = some "legacy_backfill".toList then
      [.legacyWeb row.userId (row.lastIp.getD [] ++ '|' :: row.lastUserAgent.getD [])]
    else []
  let legacyAtKey := if row.legacyTokenUid.any (!·.isEmpty) then
      [.legacyAt (row.legacyTokenUid.getD [])]
    else []
  .uuid row.uuid :: (appKey ++ workerKey ++ legacyWebKey ++ legacyAtKey)

end SessionRow

/-- At most one unrevoked row has each slot (`idx_sessions_user_app_active`,
    `idx_sessions_user_worker_active`). -/
def OneRowPerSlot (rows : List SessionRow) : Prop :=
  rows.Pairwise fun row other =>
    row.revokedAt = none → other.revokedAt = none → row.slot = other.slot → row.slot = none

def conflicts (rows : List SessionRow) (row : SessionRow) : Bool :=
  rows.any fun other => other.revokedAt.isNone && row.slot.isSome && other.slot == row.slot

/-- `#selectAppRow` and `#selectWorkerRow`. -/
def selectSlotRow (rows : List SessionRow) (slot : SessionSlot) (now : ℕ) : Option SessionRow :=
  rows.find? fun row => row.slot == some slot && row.isActive now

/-- What `removeByUuid` and `revokeCascade` revoke: a session, or one with those that have it as parent. -/
inductive Revocation where
  | session (uuid : Text)
  | cascade (rootUuid : Text)
deriving DecidableEq, Repr

namespace Revocation

def uuid : Revocation → Text
  | session uuid => uuid
  | cascade rootUuid => rootUuid

def covers : Revocation → SessionRow → Bool
  | session uuid, row => row.uuid == uuid
  | cascade rootUuid, row => row.uuid == rootUuid || row.parentSessionId == some rootUuid

def select (revocation : Revocation) (rows : List SessionRow) : List SessionRow :=
  let found := rows.filter fun row => revocation.covers row && row.revokedAt.isNone
  match revocation with
  | session _ => found.take 1
  | cascade _ => found

def answersFor (revocation : Revocation) (rows : List SessionRow) : List Text :=
  (rows.filter revocation.covers).map SessionRow.uuid

def apply (revocation : Revocation) (now : ℕ) (row : SessionRow) : SessionRow :=
  if revocation.covers row && row.revokedAt.isNone then { row with revokedAt := some now } else row

def hits (revocation : Revocation) (rows : List SessionRow) (slot : SessionSlot) : Bool :=
  rows.any fun row => revocation.covers row && row.revokedAt.isNone && row.slot == some slot

end Revocation

/-- The request context of a first-time creation. -/
structure SlotOpts where
  lastIp : Option Text
  lastUserAgent : Option Text
  createdVia : Option Text
deriving DecidableEq, Repr

/-- The arguments of `getOrCreateApp` and of `getOrCreateWorker`, with the uuid a new row would draw. -/
inductive SlotRequest where
  | app (userId : ℕ) (appUid : Text) (opts : SlotOpts) (uuid : Text)
  | worker (userId : ℕ) (appUid : Option Text) (workerName : Text) (opts : SlotOpts) (uuid : Text)
deriving DecidableEq, Repr

namespace SlotRequest

def slot : SlotRequest → SessionSlot
  | app userId appUid _ _ => .app userId appUid
  | worker userId appUid workerName _ _ => .worker userId (appUid.getD []) workerName

/-- The row `#insertSession` is given, `now` being the time the call started. -/
def newRow (now : ℕ) : SlotRequest → SessionRow
  | app userId appUid opts uuid =>
      { uuid, userId, kind := .app, parentSessionId := none, appUid := some appUid, workerName := none
        legacyTokenUid := none, accessTokenUid := none, createdVia := opts.createdVia
        lastIp := opts.lastIp, lastUserAgent := opts.lastUserAgent
        expiresAt := some (now + appWindowSeconds), revokedAt := none }
  | worker userId appUid workerName opts uuid =>
      { uuid, userId, kind := .worker, parentSessionId := none, appUid, workerName := some workerName
        legacyTokenUid := none, accessTokenUid := none, createdVia := none
        lastIp := opts.lastIp, lastUserAgent := opts.lastUserAgent
        expiresAt := some (now + workerWindowSeconds), revokedAt := none }

def Given : SlotRequest → Prop
  | app userId appUid _ _ => userId ≠ 0 ∧ appUid ≠ []
  | worker userId _ workerName _ _ => userId ≠ 0 ∧ workerName ≠ []

end SlotRequest

/-- A `getByUuid` that has answered, and whether a revocation of the session had returned when it
    started. -/
structure SessionAnswer where
  uuid : Text
  afterRevocation : Bool
  res : Option SessionRow
deriving DecidableEq, Repr

/-- A lookup of a slot that has returned a row: the revocations of the slot before it started and before it
    returned, and when it looked the row up. -/
structure SlotAnswer where
  slot : SessionSlot
  since : ℕ
  upTo : ℕ
  lookedAt : ℕ
  row : SessionRow
deriving DecidableEq, Repr

/-- The table, the cache and the clock in seconds, with what has been answered. `returned` names the
    sessions that a revocation which has returned answers for, `revocations` counts the revoked rows of a
    slot. -/
structure SessionState where
  clock : ℕ
  rows : List SessionRow
  cache : SessionCacheKey → Option SessionRow
  revocations : SessionSlot → ℕ
  returned : List Text
  answers : List SessionAnswer
  served : List SlotAnswer

namespace SessionState

def writeCacheKey (s : SessionState) (key : SessionCacheKey) (row : SessionRow) : SessionState :=
  { s with cache := Function.update s.cache key (some row) }

/-- `publishCacheKeys` of a deletion. -/
def deleteCacheKeys (s : SessionState) (keys : List SessionCacheKey) : SessionState :=
  { s with cache := fun key => if key ∈ keys then none else s.cache key }

def insert (s : SessionState) (row : SessionRow) : SessionState :=
  if conflicts s.rows row then s else { s with rows := s.rows ++ [row] }

def revoke (s : SessionState) (revocation : Revocation) : SessionState :=
  { s with
    rows := s.rows.map (revocation.apply s.clock)
    revocations := fun slot =>
      s.revocations slot + if revocation.hits s.rows slot then 1 else 0 }

def returnFrom (s : SessionState) (uuids : List Text) : SessionState :=
  { s with returned := uuids ++ s.returned }

/-- Answer a `getByUuid`, with what the row gates. -/
def answer (s : SessionState) (uuid : Text) (afterRevocation : Bool) (found : Option SessionRow) :
    SessionState :=
  { s with answers := ⟨uuid, afterRevocation, found.filter (·.isActive s.clock)⟩ :: s.answers }

def serve (s : SessionState) (slot : SessionSlot) (since lookedAt : ℕ) (row : SessionRow) :
    SessionState :=
  { s with served := ⟨slot, since, s.revocations slot, lookedAt, row⟩ :: s.served }

variable (s : SessionState) (row : SessionRow)

@[simp] theorem insert_cache : (s.insert row).cache = s.cache := by
  unfold insert
  split <;> rfl

@[simp] theorem insert_revocations : (s.insert row).revocations = s.revocations := by
  unfold insert
  split <;> rfl

@[simp] theorem insert_returned : (s.insert row).returned = s.returned := by
  unfold insert
  split <;> rfl

@[simp] theorem insert_answers : (s.insert row).answers = s.answers := by
  unfold insert
  split <;> rfl

@[simp] theorem insert_served : (s.insert row).served = s.served := by
  unfold insert
  split <;> rfl

end SessionState

/-- A lookup of a slot under way: its arguments, when it started, and the revocations until then. -/
structure SlotCall where
  request : SlotRequest
  now : ℕ
  since : ℕ
deriving DecidableEq, Repr

/-- A call in flight, named by the atomic step it performs next. -/
inductive SessionCall where
  | get (uuid : Text)
  | lookup (uuid : Text) (afterRevocation : Bool)
  | read (uuid : Text) (afterRevocation : Bool)
  | fill (copy : SessionRow)
  | create (row : SessionRow)
  | select (revocation : Revocation)
  | delete (revocation : Revocation) (keys : List SessionCacheKey)
  | update (revocation : Revocation) (keys : List SessionCacheKey)
  | deleteAgain (keys : List SessionCacheKey) (answersFor : List Text)
  | getOrCreate (request : SlotRequest)
  | slotLookup (call : SlotCall)
  | slotSelect (call : SlotCall)
  | slotInsert (call : SlotCall)
  | slotReselect (call : SlotCall)
  | slotSettle (call : SlotCall) (lookedAt : ℕ) (row : SessionRow)
  | elapse (seconds : ℕ)
  | lapse (key : SessionCacheKey)
deriving DecidableEq, Repr

namespace SessionCall

def removeByUuid (uuid : Text) : SessionCall := .select (.session uuid)

def revokeCascade (rootUuid : Text) : SessionCall := .select (.cascade rootUuid)

def getOrCreateApp (userId : ℕ) (appUid : Text) (opts : SlotOpts) (uuid : Text) : SessionCall :=
  .getOrCreate (.app userId appUid opts uuid)

def getOrCreateWorker (userId : ℕ) (appUid : Option Text) (workerName : Text) (opts : SlotOpts)
    (uuid : Text) : SessionCall :=
  .getOrCreate (.worker userId appUid workerName opts uuid)

def perform (s : SessionState) : SessionCall → SessionState × Option SessionCall
  | .get uuid => (s, some (.lookup uuid (s.returned.contains uuid)))
  | .lookup uuid afterRevocation =>
      match s.cache (.uuid uuid) with
      | some copy => (s.answer uuid afterRevocation (some copy), none)
      | none => (s, some (.read uuid afterRevocation))
  | .read uuid afterRevocation =>
      let row := s.rows.find? (·.uuid == uuid)
      (s.answer uuid afterRevocation row, row.map .fill)
  | .fill copy => (s.writeCacheKey (.uuid copy.uuid) copy, none)
  -- A conflict throws here: only the idempotent lookups swallow it.
  | .create row => (s.insert row, if conflicts s.rows row then none else some (.fill row))
  | .select revocation =>
      match revocation.select s.rows with
      | [] => (s.returnFrom (revocation.answersFor s.rows), none)
      | row :: rest =>
          (s, some (.delete revocation ((row :: rest).flatMap SessionRow.allCacheKeysForRow)))
  | .delete revocation keys => (s.deleteCacheKeys keys, some (.update revocation keys))
  | .update revocation keys =>
      (s.revoke revocation, some (.deleteAgain keys (revocation.answersFor s.rows)))
  | .deleteAgain keys answersFor => ((s.deleteCacheKeys keys).returnFrom answersFor, none)
  | .getOrCreate request =>
      (s, some (.slotLookup ⟨request, s.clock, s.revocations request.slot⟩))
  | .slotLookup call =>
      match (s.cache (.slot call.request.slot)).filter (·.isActive call.now) with
      | some copy => (s.serve call.request.slot call.since call.now copy, none)
      | none => (s, some (.slotSelect call))
  | .slotSelect call =>
      match selectSlotRow s.rows call.request.slot s.clock with
      | some row => (s, some (.slotSettle call s.clock row))
      | none => (s, some (.slotInsert call))
  | .slotInsert call => (s.insert (call.request.newRow call.now), some (.slotReselect call))
  | .slotReselect call =>
      let winner := selectSlotRow s.rows call.request.slot s.clock
      (s, some (.slotSettle call s.clock (winner.getD (call.request.newRow call.now))))
  | .slotSettle call lookedAt row =>
      ((s.writeCacheKey (.slot call.request.slot) row).serve call.request.slot call.since lookedAt row,
        some (.fill row))
  | .elapse seconds => ({ s with clock := s.clock + seconds }, none)
  | .lapse key => (s.deleteCacheKeys [key], none)

/-- Where a call starts, past the checks that return at once on an argument that is not given. A created
    row is unrevoked. -/
inductive Starts : SessionCall → Prop where
  | get {uuid : Text} : uuid ≠ [] → Starts (.get uuid)
  | create {row : SessionRow} : row.revokedAt = none → Starts (.create row)
  | select {revocation : Revocation} : revocation.uuid ≠ [] → Starts (.select revocation)
  | getOrCreate {request : SlotRequest} : request.Given → Starts (.getOrCreate request)
  | elapse {seconds : ℕ} : Starts (.elapse seconds)
  | lapse {key : SessionCacheKey} : Starts (.lapse key)

def DrawsFresh (s : SessionState) : SessionCall → Prop
  | .create row => ∀ other ∈ s.rows, other.uuid ≠ row.uuid
  | .slotInsert call => ∀ other ∈ s.rows, other.uuid ≠ (call.request.newRow call.now).uuid
  | _ => True

end SessionCall

def sessionSystem (allow : SessionState → List SessionCall → SessionCall → Prop) :
    Interleaving.System SessionState SessionCall where
  issues := SessionCall.Starts
  atom s call s' next := call.DrawsFresh s ∧ call.perform s = (s', next)
  allow := allow

def SessionState.start (clock : ℕ) (rows : List SessionRow)
    (cache : SessionCacheKey → Option SessionRow) : SessionState :=
  ⟨clock, rows, cache, fun _ => 0, [], [], []⟩

end Puter

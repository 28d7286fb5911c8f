/-
Module: Puter.Broadcast.IncomingBroadcast
Purpose: The receiving side of the broadcast between nodes (`verifyAndEmit` of
  services/broadcast/BroadcastService.ts). A request is accepted within a window around its timestamp, and
  its nonce is claimed for the length of that window from its arrival; the claim runs out before the
  timestamp does when the request does not arrive in a later second than it was stamped in.
Trusted boundary: the platform's numbers and digest are parameters; Redis removes a key after its time to
  live
Main exports: Platform, verifyAndEmit_once_iff
-/
import Puter.Fs.PosixPath
import Puter.Kv.SystemKVStore
import Puter.Library.ExpiringKeys
import Puter.Library.PercentEncoding

namespace Puter

open Document PercentEncoding

/-- A number of the platform. -/
inductive HeaderNumber where
  | nan
  | infinite (negative : Bool)
  | finite (value : ℚ)
deriving DecidableEq, Repr

/-- What the code takes from its platform: reading and writing numbers, and the hex digest of a text under a
    secret. -/
structure Platform where
  numberOf : Text → HeaderNumber
  textOf : HeaderNumber → Text
  hmac : Text → Text → Text

structure BroadcastEvent where
  key : Text
  data : Json
  info : Attributes

/-- The headers of a request, as far as they were sent. -/
structure IncomingHeaders where
  peerId : Option Text
  timestamp : Option Text
  nonce : Option Text
  signature : Option Text

/-- One of the nodes that share the cache: its own id, and the secrets of its peers by their ids. -/
structure BroadcastNode where
  peerId : Option Text
  peers : List (Text × Option Text)

/-- Why the events of a request are not emitted. -/
inductive IncomingRefusal where
  | refused (status : ℕ) (message : Text)
  | ignored

abbrev IncomingResult := Except IncomingRefusal (List BroadcastEvent)

/-- A request that passed every check: what its nonce is claimed under, and its events. -/
structure VerifiedRequest where
  peerId : Text
  timestamp : HeaderNumber
  nonce : HeaderNumber
  events : List BroadcastEvent

/-- A request that reaches a node: its raw body, read as UTF-8, the JSON that was parsed from it, and its
    headers. `clock` is the node's clock in milliseconds. -/
structure Delivery where
  node : BroadcastNode
  clock : ℕ
  rawBody : Option Text
  body : Option Json
  headers : IncomingHeaders

def fromOutsideName : Text := "from_outside".toList

def refuse {α : Type} (status : ℕ) (message : String) : Except IncomingRefusal α :=
  .error (.refused status message.toList)

@[simp] theorem isOk_refuse {α : Type} (status : ℕ) (message : String) :
    (refuse status message : Except IncomingRefusal α).isOk = false := rfl

/-- `Buffer.from(text, 'hex')`: the bytes up to the first pair that is not one. -/
def fromHex : Text → List ℕ
  | high :: low :: rest =>
      match hexDigit high, hexDigit low with
      | some h, some l => (16 * h + l) :: fromHex rest
      | _, _ => []
  | _ => []

/-- `{ ...meta, from_outside: true }` -/
def markOutside (info : Attributes) : Attributes :=
  if (info.lookup fromOutsideName).isSome then
    info.map fun entry => if entry.1 = fromOutsideName then (entry.1, .bool true) else entry
  else info ++ [(fromOutsideName, .bool true)]

namespace BroadcastService

def normalizeMeta : Option Json → Attributes
  | some (.map fields) => fields
  | _ => []

def normalizeIncomingEvent : Json → Option BroadcastEvent
  | .map fields =>
      match field "key".toList fields, field "data".toList fields with
      | some (.text key), some data =>
          if key = [] then none else some ⟨key, data, normalizeMeta (field "meta".toList fields)⟩
      | _, _ => none
  | _ => none

def normalizeIncomingPayload : Json → Option (List BroadcastEvent)
  | .map fields =>
      match field "events".toList fields with
      | some (.list events) => events.mapM normalizeIncomingEvent
      | _ => (normalizeIncomingEvent (.map fields)).map ([·])
  | _ => none

def emitIncomingEventsSequentially (events : List BroadcastEvent) : List BroadcastEvent :=
  (events.filter fun event => !((event.info.lookup fromOutsideName).any truthy)).map fun event =>
    { event with info := markOutside event.info }

def resolveLocalPeerId (node : BroadcastNode) : Option Text :=
  (node.peerId.map PosixPath.trim).filter (· ≠ [])

def readBody (rawBody : Option Text) (body : Option Json) : Except IncomingRefusal (Text × Json) :=
  match rawBody with
  | none => refuse 400 "Missing or invalid body"
  | some raw =>
      match body with
      | some (.map fields) => .ok (raw, .map fields)
      | some (.list items) => .ok (raw, .list items)
      | _ => refuse 400 "Invalid JSON body"

def readEvents (body : Json) : Except IncomingRefusal (List BroadcastEvent) :=
  match normalizeIncomingPayload body with
  | some events => .ok events
  | none => refuse 400 "Invalid broadcast payload"

def readPeer (node : BroadcastNode) (peerId : Option Text) : Except IncomingRefusal (Text × Text) :=
  match peerId.filter (· ≠ []) with
  | none => refuse 403 "Missing X-Broadcast-Peer-Id"
  | some peerId =>
      if resolveLocalPeerId node = some peerId then .error .ignored
      else
        match ((node.peers.lookup peerId).join).filter (· ≠ []) with
        | none => refuse 403 "Unknown peer or webhook not configured"
        | some secret => .ok (peerId, secret)

def inWindow (window now : ℕ) : HeaderNumber → Bool
  | .nan => true
  | .infinite _ => false
  | .finite ts => !(decide (ts < ((now / 1000 : ℕ) : ℚ) - window) || decide (((now / 1000 : ℕ) : ℚ) + 60 < ts))

def parseTimestamp (platform : Platform) (window now : ℕ) (raw : Option Text) :
    Except IncomingRefusal HeaderNumber :=
  match raw.filter (· ≠ []) with
  | none => refuse 400 "Missing X-Broadcast-Timestamp"
  | some raw =>
      let ts := platform.numberOf raw
      if ts = .nan then refuse 400 "Invalid X-Broadcast-Timestamp"
      else if inWindow window now ts then .ok ts
      else refuse 400 "Timestamp out of window"

def parseNonce (platform : Platform) (raw : Option Text) : Except IncomingRefusal HeaderNumber :=
  match raw.filter (· ≠ []) with
  | none => refuse 400 "Missing X-Broadcast-Nonce"
  | some raw =>
      let nonce := platform.numberOf raw
      if nonce = .nan then refuse 400 "Invalid X-Broadcast-Nonce" else .ok nonce

/-- The signature is that of `<ts>.<nonce>.<rawBody>`. -/
def checkSignature (platform : Platform) (secret rawBody : Text) (timestamp nonce : HeaderNumber)
    (signature : Option Text) : Except IncomingRefusal Unit :=
  match signature.filter (· ≠ []) with
  | none => refuse 403 "Missing X-Broadcast-Signature"
  | some signature =>
      let payloadToSign := platform.textOf timestamp ++ '.' :: (platform.textOf nonce ++ '.' :: rawBody)
      if fromHex signature = fromHex (platform.hmac secret payloadToSign) then .ok ()
      else refuse 403 "Invalid signature"

/-- The checks of `verifyAndEmit` before the nonce is claimed. -/
def verify (platform : Platform) (window : ℕ) (request : Delivery) :
    Except IncomingRefusal VerifiedRequest := do
  let (rawBody, body) ← readBody request.rawBody request.body
  let events ← readEvents body
  let (peerId, secret) ← readPeer request.node request.headers.peerId
  let timestamp ← parseTimestamp platform window request.clock request.headers.timestamp
  let nonce ← parseNonce platform request.headers.nonce
  checkSignature platform secret rawBody timestamp nonce request.headers.signature
  return ⟨peerId, timestamp, nonce, events⟩

/-- The key that `#claimIncomingNonce` claims. -/
def incomingKey (platform : Platform) (peerId : Text) (timestamp nonce : HeaderNumber) : Text :=
  "broadcast:in:".toList ++ peerId ++ ':' :: (platform.textOf timestamp ++ ':' :: platform.textOf nonce)

def claimKey (platform : Platform) (request : VerifiedRequest) : Text :=
  incomingKey platform request.peerId request.timestamp request.nonce

/-- `verifyAndEmit`, with the claimed keys before and after. `window` is the replay window in seconds. -/
def verifyAndEmit (platform : Platform) (window : ℕ) (request : Delivery) (claims : ExpiringKeys Text Unit) :
    IncomingResult × ExpiringKeys Text Unit :=
  match verify platform window request with
  | .error refusal => (.error refusal, claims)
  | .ok verified =>
      let (claimed, claims') :=
        claims.putNew request.clock (claimKey platform verified) () (request.clock + window * 1000)
      if claimed then (.ok (emitIncomingEventsSequentially verified.events), claims')
      else (refuse 403 "Duplicate or stale nonce", claims')

end BroadcastService

def deliverAll (platform : Platform) (window : ℕ) :
    ExpiringKeys Text Unit → List Delivery → List (Delivery × IncomingResult)
  | _, [] => []
  | claims, request :: later =>
      let (result, claims') := BroadcastService.verifyAndEmit platform window request claims
      (request, result) :: deliverAll platform window claims' later

def SameRequest (platform : Platform) (one other : Delivery) : Prop :=
  one.headers.peerId = other.headers.peerId ∧
    one.headers.timestamp.map platform.numberOf = other.headers.timestamp.map platform.numberOf ∧
    one.headers.nonce.map platform.numberOf = other.headers.nonce.map platform.numberOf

instance (platform : Platform) (one other : Delivery) : Decidable (SameRequest platform one other) :=
  inferInstanceAs (Decidable (_ ∧ _ ∧ _))

def emissions (platform : Platform) (request : Delivery) (outcomes : List (Delivery × IncomingResult)) :
    List (Delivery × IncomingResult) :=
  outcomes.filter fun outcome => decide (SameRequest platform outcome.1 request) && outcome.2.isOk

namespace BroadcastService

variable {platform : Platform} {window : ℕ} {request : Delivery} {claims : ExpiringKeys Text Unit}

theorem parseTimestamp_ok {now : ℕ} {raw : Option Text} {timestamp : HeaderNumber} :
    parseTimestamp platform window now raw = .ok timestamp ↔
      (∃ text, raw = some text ∧ text ≠ [] ∧ platform.numberOf text = timestamp) ∧ timestamp ≠ .nan ∧
        inWindow window now timestamp = true := by
  constructor
  · intro read
    unfold parseTimestamp at read
    split at read
    · cases read
    · rename_i text given
      obtain ⟨whole, nonempty⟩ := Option.filter_eq_some_iff.mp given
      dsimp only at read
      split at read
      · cases read
      · rename_i notNan
        split at read
        · rename_i within
          cases read
          exact ⟨⟨text, whole, by simpa using nonempty, rfl⟩, notNan, within⟩
        · cases read
  · rintro ⟨⟨text, rfl, nonempty, rfl⟩, notNan, within⟩
    simp [parseTimestamp, Option.filter, nonempty, notNan, within]

theorem parseNonce_ok {raw : Option Text} {nonce : HeaderNumber} :
    parseNonce platform raw = .ok nonce →
      ∃ text, raw = some text ∧ platform.numberOf text = nonce := by
  unfold parseNonce
  intro read
  split at read
  · cases read
  · rename_i text given
    dsimp only at read
    split at read
    · cases read
    · cases read
      exact ⟨text, (Option.filter_eq_some_iff.mp given).1, rfl⟩

theorem readPeer_ok {node : BroadcastNode} {peerId : Option Text} {named : Text} {secret : Text}
    (read : readPeer node peerId = .ok (named, secret)) : peerId = some named := by
  unfold readPeer at read
  split at read
  · cases read
  · rename_i peer given
    split at read
    · cases read
    · split at read
      · cases read
      · cases read
        exact (Option.filter_eq_some_iff.mp given).1

theorem verify_ok {verified : VerifiedRequest} :
    verify platform window request = .ok verified ↔
      (∃ raw body secret, readBody request.rawBody request.body = .ok (raw, body) ∧
        readEvents body = .ok verified.events ∧
        readPeer request.node request.headers.peerId = .ok (verified.peerId, secret) ∧
        parseNonce platform request.headers.nonce = .ok verified.nonce ∧
        checkSignature platform secret raw verified.timestamp verified.nonce request.headers.signature =
          .ok ()) ∧
      parseTimestamp platform window request.clock request.headers.timestamp = .ok verified.timestamp := by
  unfold verify
  simp only [except_bind_ok]
  constructor
  · rintro ⟨⟨raw, body⟩, readsBody, events, readsEvents, ⟨peerId, secret⟩, readsPeer, timestamp, readsTime,
      nonce, readsNonce, _, signed, returned⟩
    cases returned
    exact ⟨⟨raw, body, secret, readsBody, readsEvents, readsPeer, readsNonce, signed⟩, readsTime⟩
  · rintro ⟨⟨raw, body, secret, readsBody, readsEvents, readsPeer, readsNonce, signed⟩, readsTime⟩
    exact ⟨⟨raw, body⟩, readsBody, _, readsEvents, ⟨_, secret⟩, readsPeer, _, readsTime, _, readsNonce, (),
      signed, rfl⟩

theorem claimKey_same {other : Delivery} {verified verified' : VerifiedRequest}
    (same : SameRequest platform other request) (ok : verify platform window request = .ok verified)
    (ok' : verify platform window other = .ok verified') :
    claimKey platform verified' = claimKey platform verified ∧
      verified'.timestamp = verified.timestamp := by
  obtain ⟨⟨_, _, _, _, _, peer, nonce, _⟩, timestamp⟩ := verify_ok.mp ok
  obtain ⟨⟨_, _, _, _, _, peer', nonce', _⟩, timestamp'⟩ := verify_ok.mp ok'
  obtain ⟨⟨time, isTime, _, timeNumber⟩, _, _⟩ := parseTimestamp_ok.mp timestamp
  obtain ⟨⟨time', isTime', _, timeNumber'⟩, _, _⟩ := parseTimestamp_ok.mp timestamp'
  obtain ⟨text, isText, number⟩ := parseNonce_ok nonce
  obtain ⟨text', isText', number'⟩ := parseNonce_ok nonce'
  obtain ⟨samePeer, sameTime, sameNonce⟩ := same
  have peers := readPeer_ok peer
  have peers' := readPeer_ok peer'
  rw [peers, peers', Option.some.injEq] at samePeer
  rw [isTime, isTime', Option.map_some, Option.map_some, Option.some.injEq, timeNumber, timeNumber'] at sameTime
  rw [isText, isText', Option.map_some, Option.map_some, Option.some.injEq, number, number'] at sameNonce
  refine ⟨?_, sameTime⟩
  rw [claimKey, claimKey, samePeer, sameTime, sameNonce]

theorem isOk_iff :
    (verifyAndEmit platform window request claims).1.isOk = true ↔
      ∃ verified, verify platform window request = .ok verified ∧
        claims.get request.clock (claimKey platform verified) = none := by
  unfold verifyAndEmit
  cases checks : verify platform window request with
  | error refusal => simp [Except.isOk, Except.toBool]
  | ok verified =>
      cases free : claims.get request.clock (claimKey platform verified) with
      | none =>
          simp only [ExpiringKeys.putNew, free, Option.isSome_none, Bool.false_eq_true, if_false, if_true]
          exact iff_of_true rfl ⟨verified, rfl, free⟩
      | some _ =>
          simp only [ExpiringKeys.putNew, free, Option.isSome_some, if_true, Bool.false_eq_true, if_false,
            isOk_refuse, false_iff, not_exists, not_and]
          intro other same
          cases same
          rw [free]
          exact Option.some_ne_none _

theorem cell_verifyAndEmit {key : Text} (stands : claims.get request.clock key = some ()) :
    (verifyAndEmit platform window request claims).2.cell key = claims.cell key := by
  have kept := fun value expiry => @ExpiringKeys.cell_putNew _ _ _ claims request.clock value key () () expiry stands
  unfold verifyAndEmit
  cases verify platform window request with
  | error refusal => rfl
  | ok verified =>
      have same := kept (claimKey platform verified) (request.clock + window * 1000)
      dsimp only
      split <;> exact same

end BroadcastService

section Runs

variable {platform : Platform} {window : ℕ} {request : Delivery} {claims : ExpiringKeys Text Unit}

open BroadcastService

/-- A claim of the request stands until a time, and from that time on its timestamp is out of the window. -/
structure Guarded (platform : Platform) (window : ℕ) (key : Text) (ts : ℚ) (expiry : ℕ)
    (claims : ExpiringKeys Text Unit) (now : ℕ) : Prop where
  stands : now < expiry → claims.cell key = some ((), expiry)
  stale : ts < ((expiry / 1000 : ℕ) : ℚ) - window

theorem Guarded.step {key : Text} {ts : ℚ} {expiry now : ℕ}
    (guarded : Guarded platform window key ts expiry claims now) (later : now ≤ request.clock) :
    Guarded platform window key ts expiry (verifyAndEmit platform window request claims).2 request.clock := by
  refine ⟨fun live => ?_, guarded.stale⟩
  have stored := guarded.stands (later.trans_lt live)
  rw [cell_verifyAndEmit (ExpiringKeys.get_eq_some_iff.mpr ⟨expiry, stored, live⟩)]
  exact stored

theorem emissions_guarded {first : Delivery} {verified : VerifiedRequest} {ts : ℚ} {expiry now : ℕ}
    (ok : verify platform window first = .ok verified) (isTime : verified.timestamp = .finite ts)
    {later : List Delivery} (guarded : Guarded platform window (claimKey platform verified) ts expiry claims now)
    (from_now : ∀ request ∈ later, now ≤ request.clock)
    (sorted : later.Pairwise fun one other => one.clock ≤ other.clock) :
    emissions platform first (deliverAll platform window claims later) = [] := by
  induction later generalizing claims now with
  | nil => rfl
  | cons request later ih =>
      rw [List.pairwise_cons] at sorted
      have arrives := from_now request List.mem_cons_self
      have rest := ih (guarded.step arrives) sorted.1 sorted.2
      have silent : (decide (SameRequest platform request first) &&
          (verifyAndEmit platform window request claims).1.isOk) = false := by
        rw [Bool.and_eq_false_iff, decide_eq_false_iff_not]
        by_contra both
        push Not at both
        obtain ⟨same, emitted⟩ := both
        obtain ⟨verified', ok', free⟩ := isOk_iff.mp (by simpa using emitted)
        obtain ⟨sameKey, sameTime⟩ := claimKey_same same ok ok'
        rw [sameKey] at free
        by_cases live : request.clock < expiry
        · have stands := ExpiringKeys.get_eq_some_iff.mpr
            ⟨expiry, guarded.stands (arrives.trans_lt live), live⟩
          rw [free] at stands
          cases stands
        · have within := (parseTimestamp_ok.mp (verify_ok.mp ok').2).2.2
          have whole : ((expiry / 1000 : ℕ) : ℚ) ≤ ((request.clock / 1000 : ℕ) : ℚ) := by
            exact_mod_cast Nat.div_le_div_right (not_lt.mp live)
          rw [sameTime, isTime, inWindow] at within
          have stale := guarded.stale
          simp only [Bool.not_eq_true', Bool.or_eq_false_iff, decide_eq_false_iff_not] at within
          exact within.1 (by linarith)
      rw [deliverAll, emissions, List.filter_cons_of_neg (by rw [silent]; decide)]
      exact rest

theorem claims_of_isOk {verified : VerifiedRequest} (ok : verify platform window request = .ok verified)
    (free : claims.get request.clock (claimKey platform verified) = none) :
    (verifyAndEmit platform window request claims).2 =
      claims.put (claimKey platform verified) () (request.clock + window * 1000) := by
  unfold verifyAndEmit
  rw [ok]
  simp only [ExpiringKeys.putNew, free, Option.isSome_none, Bool.false_eq_true, if_false, if_true]

def Delivery.again (request : Delivery) (ms : ℕ) : Delivery := { request with clock := request.clock + ms }

theorem verify_again {verified : VerifiedRequest} {ts : ℚ} (ok : verify platform window request = .ok verified)
    (isTime : verified.timestamp = .finite ts) (fresh : ((request.clock / 1000 : ℕ) : ℚ) ≤ ts) :
    verify platform window (request.again (window * 1000)) = .ok verified := by
  obtain ⟨others, timestamp⟩ := verify_ok.mp ok
  obtain ⟨header, notNan, within⟩ := parseTimestamp_ok.mp timestamp
  refine verify_ok.mpr ⟨others, parseTimestamp_ok.mpr ⟨header, notNan, ?_⟩⟩
  have seconds : (request.again (window * 1000)).clock / 1000 = request.clock / 1000 + window :=
    Nat.add_mul_div_right _ _ (by decide)
  rw [isTime, inWindow] at within ⊢
  rw [seconds]
  simp only [Bool.not_eq_true', Bool.or_eq_false_iff, decide_eq_false_iff_not, not_lt, Nat.cast_add]
    at within ⊢
  have positive : (0 : ℚ) ≤ window := Nat.cast_nonneg _
  exact ⟨by linarith, by linarith [within.2]⟩

/-- A request that is emitted is emitted once, in whatever deliveries follow, exactly when its timestamp lies
    before the second in which it arrived. -/
theorem verifyAndEmit_once_iff {first : Delivery} {ts : ℚ}
    (stamp : first.headers.timestamp.map platform.numberOf = some (.finite ts))
    (emits : (verifyAndEmit platform window first claims).1.isOk = true) :
    (∀ later : List Delivery, (first :: later).Pairwise (fun one other => one.clock ≤ other.clock) →
        (emissions platform first (deliverAll platform window claims (first :: later))).length ≤ 1) ↔
      ts < ((first.clock / 1000 : ℕ) : ℚ) := by
  obtain ⟨verified, ok, free⟩ := isOk_iff.mp emits
  have isTime : verified.timestamp = .finite ts := by
    obtain ⟨⟨text, header, _, number⟩, _, _⟩ := parseTimestamp_ok.mp (verify_ok.mp ok).2
    rw [header, Option.map_some, Option.some.injEq] at stamp
    exact number.symm.trans stamp
  have claimed := claims_of_isOk ok free
  have counts : ∀ later, emissions platform first (deliverAll platform window claims (first :: later)) =
      (first, (verifyAndEmit platform window first claims).1) ::
        emissions platform first (deliverAll platform window
          (verifyAndEmit platform window first claims).2 later) := fun later => by
    rw [deliverAll, emissions, List.filter_cons_of_pos]
    · rfl
    · rw [emits, Bool.and_true, decide_eq_true_iff]
      exact ⟨rfl, rfl, rfl⟩
  constructor
  · intro once
    by_contra fresh
    have again := once [first.again (window * 1000)] (by simp [Delivery.again])
    have reverified := verify_again ok isTime (not_lt.mp fresh)
    have gone : (claims.put (claimKey platform verified) () (first.clock + window * 1000)).get
        (first.again (window * 1000)).clock (claimKey platform verified) = none := by
      rw [ExpiringKeys.get_put, if_pos rfl]
      exact if_neg (lt_irrefl (first.clock + window * 1000))
    have emitsAgain := isOk_iff.mpr ⟨verified, reverified, gone⟩
    rw [counts, claimed, deliverAll, emissions, List.filter_cons_of_pos] at again
    · simp at again
    · rw [emitsAgain, Bool.and_true, decide_eq_true_iff]
      exact ⟨rfl, rfl, rfl⟩
  · intro past later sorted
    rw [List.pairwise_cons] at sorted
    have guarded : Guarded platform window (claimKey platform verified) ts (first.clock + window * 1000)
        (verifyAndEmit platform window first claims).2 first.clock := by
      refine ⟨fun _ => ?_, ?_⟩
      · rw [claimed]
        exact Function.update_self _ _ _
      · rw [Nat.add_mul_div_right _ _ (by decide), Nat.cast_add]
        linarith
    rw [counts, emissions_guarded ok isTime guarded sorted.1 sorted.2]
    exact le_rfl

end Runs

def decimalPlatform : Platform where
  numberOf raw :=
    if raw.all Char.isDigit then .finite (raw.foldl (fun n c => 10 * n + (c.toNat - 48)) 0 : ℕ) else .nan
  textOf
    | .finite value => decimal value.num.toNat
    | .infinite _ => "Infinity".toList
    | .nan => "NaN".toList
  hmac _ _ := "53621563b580dd318f0125697c16d32fd0b17f76fe882d7878c48849477b1796".toList

/-- One event, stamped in second 1000 and signed with the secret `k`. -/
def stampedEvent (clock : ℕ) : Delivery where
  node := ⟨none, [("p".toList, some "k".toList)]⟩
  clock := clock
  rawBody := some "\x7b\"key\":\"a\",\"data\":1\x7d".toList
  body := some (.map [("key".toList, .text "a".toList), ("data".toList, .number 1)])
  headers := ⟨some "p".toList, some "1000".toList, some "1".toList,
    some "53621563b580dd318f0125697c16d32fd0b17f76fe882d7878c48849477b1796".toList⟩

/-- Arrived a second after its timestamp, it is not emitted again. -/
theorem verifyAndEmit_once_later :
    (emissions decimalPlatform (stampedEvent 1001000) (deliverAll decimalPlatform 300 .empty
      [stampedEvent 1001000, (stampedEvent 1001000).again 300000])).length ≤ 1 :=
  (@verifyAndEmit_once_iff decimalPlatform 300 .empty (stampedEvent 1001000) 1000 (by decide +kernel)
    (by decide +kernel)).mpr (by norm_num [stampedEvent]) [(stampedEvent 1001000).again 300000]
    (by simp [Delivery.again])

/-- Arrived in the second of its timestamp, it is emitted again when its claim has run out. -/
theorem verifyAndEmit_replayed :
    (emissions decimalPlatform (stampedEvent 1000500) (deliverAll decimalPlatform 300 .empty
      [stampedEvent 1000500, (stampedEvent 1000500).again 300000])).length = 2 := by
  decide +kernel

end Puter

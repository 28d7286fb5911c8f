/-
Module: Puter.Broadcast.OutboundQueue
Purpose: The sending side of the broadcast between nodes (services/broadcast/BroadcastService.ts): local
  events are coalesced in an insertion-ordered map, taken as a batch, sent peer by peer and put back when a
  send failed. Nothing is lost while the queue stays within its bound. The order of the last emissions
  reaches the peers in runs where no event is emitted again in front of a queued one, and no batch is put
  back behind a newer event.
Trusted boundary: events are taken up to their serialized shape; one that has none counts as its own
Main exports: outbound_nothing_lost_in_order
-/
import Mathlib

namespace Puter

/-- An event as a peer received it: the batch it came in was taken when `upTo` events had been emitted. -/
structure Receipt (E : Type) where
  event : E
  upTo : ℕ

/-- A flush under way: its batch, the peers still to be sent to, those that were, and whether a send has
    failed. -/
structure OutboundFlush (E P : Type) where
  events : List E
  upTo : ℕ
  toSend : List P
  served : List P
  undelivered : Bool

/-- The queue in the order of the map, whether the timer is set, the flush under way; and what has been
    emitted and received so far. -/
structure OutboundState (E P : Type) where
  queue : List E
  timer : Bool
  flush : Option (OutboundFlush E P)
  emissions : List E
  received : P → List (Receipt E)

/-- The peers in their order, which of them have an id, an address and a secret to sign with, and the bound
    of the queue. -/
structure BroadcastOutbound (P : Type) where
  webhookPeers : List P
  configured : P → Bool
  outboundMaxQueued : ℕ

/-- How a send ends. A peer may have taken a batch whose answer fails. -/
inductive SendOutcome where
  | delivered
  | arrived
  | failed
deriving DecidableEq

inductive OutboundAction (E : Type) where
  /-- An `outer.*` event on the local bus; one that came from outside is not sent on. -/
  | emits (fromOutside : Bool) (event : E)
  /-- The timer of the flush. -/
  | timerFires
  /-- The send under way ends. -/
  | sendEnds (outcome : SendOutcome)

section Model

variable {E P : Type} [DecidableEq E] [DecidableEq P]

/-- `Map.set`: an event that is queued keeps its place. -/
def enqueue (queue : List E) (event : E) : List E := if event ∈ queue then queue else queue ++ [event]

def requeueOutbound (bound : ℕ) (events queue : List E) : List E :=
  let requeued := events.foldl enqueue queue
  requeued.drop (requeued.length - bound)

namespace OutboundState

/-- `#scheduleOutboundFlush` -/
def schedule (s : OutboundState E P) : OutboundState E P := { s with timer := true }

def handleOutbound (s : OutboundState E P) (fromOutside : Bool) (event : E) : OutboundState E P :=
  if fromOutside then s
  else { s with queue := enqueue s.queue event, emissions := s.emissions ++ [event], timer := true }

/-- The end of `#flushOutboundEvents`. -/
def finish (outbound : BroadcastOutbound P) (s : OutboundState E P) (flush : OutboundFlush E P) :
    OutboundState E P :=
  let queue := if flush.undelivered then
    requeueOutbound outbound.outboundMaxQueued flush.events s.queue else s.queue
  { s with queue := queue, flush := none, timer := s.timer || !queue.isEmpty }

def settle (outbound : BroadcastOutbound P) (s : OutboundState E P) : OutboundState E P :=
  match s.flush with
  | some flush => if flush.toSend = [] then s.finish outbound flush else s
  | none => s

def take (outbound : BroadcastOutbound P) (s : OutboundState E P) : OutboundState E P :=
  { s with queue := [], flush := some ⟨s.queue, s.emissions.length, outbound.webhookPeers, [], false⟩ }

/-- `#flushOutboundEvents`, when the timer fires. -/
def flushOutboundEvents (outbound : BroadcastOutbound P) (s : OutboundState E P) : OutboundState E P :=
  if s.flush.isSome ∨ s.queue = [] then s else (s.take outbound).settle outbound

def receive (s : OutboundState E P) (flush : OutboundFlush E P) (peer : P) : P → List (Receipt E) :=
  Function.update s.received peer (s.received peer ++ flush.events.map (⟨·, flush.upTo⟩))

def sendWebhookToPeer (outbound : BroadcastOutbound P) (s : OutboundState E P) (outcome : SendOutcome) :
    OutboundState E P :=
  match s.flush with
  | none => s
  | some flush =>
      match flush.toSend with
      | [] => s
      | peer :: others =>
          let served := { flush with toSend := others, served := peer :: flush.served }
          if outbound.configured peer = false then { s with flush := some served }
          else
            match outcome with
            | .delivered => { s with flush := some served, received := s.receive flush peer }
            | .arrived =>
                { s with flush := some { flush with toSend := others, undelivered := true }
                         received := s.receive flush peer }
            | .failed => { s with flush := some { flush with toSend := others, undelivered := true } }

def step (outbound : BroadcastOutbound P) (s : OutboundState E P) : OutboundAction E → OutboundState E P
  | .emits fromOutside event => s.handleOutbound fromOutside event
  | .timerFires => if s.timer then { s with timer := false }.flushOutboundEvents outbound else s
  | .sendEnds outcome => (s.sendWebhookToPeer outbound outcome).settle outbound

def pending (s : OutboundState E P) : List E :=
  (match s.flush with
    | some flush => flush.events.filter (· ∉ s.queue)
    | none => []) ++ s.queue

def pendingFor (s : OutboundState E P) (peer : P) : List E :=
  match s.flush with
  | some flush => if peer ∈ flush.served then s.queue else s.pending
  | none => s.queue

end OutboundState

def startState : OutboundState E P := ⟨[], false, none, [], fun _ => []⟩

/-- Steps that are allowed from their state. -/
inductive OutboundStep (outbound : BroadcastOutbound P)
    (Allowed : OutboundState E P → OutboundAction E → Prop) :
    OutboundState E P → OutboundState E P → Prop where
  | of {s} (action : OutboundAction E) (allowed : Allowed s action) :
      OutboundStep outbound Allowed s (s.step outbound action)

def Fits (outbound : BroadcastOutbound P) (s : OutboundState E P) (_ : OutboundAction E) : Prop :=
  s.pending.length ≤ outbound.outboundMaxQueued

/-- An event that is emitted again is the last of the queue; and when the last send of a flush leaves the
    batch undelivered, the queue is empty or holds the batch already. -/
def KeepsOrder (outbound : BroadcastOutbound P) (s : OutboundState E P) : OutboundAction E → Prop
  | .emits fromOutside event => fromOutside = false → event ∈ s.queue → s.queue.getLast? = some event
  | .timerFires => True
  | .sendEnds outcome =>
      ∀ flush ∈ (s.sendWebhookToPeer outbound outcome).flush, flush.toSend = [] → flush.undelivered = true →
        s.queue = [] ∨ ∀ event ∈ flush.events, event ∈ s.queue

/-- Every emission is queued, in the batch, or delivered to every configured peer; and when an event is
    queued, a flush is scheduled or under way. -/
structure NothingLost (outbound : BroadcastOutbound P) (s : OutboundState E P) : Prop where
  kept : ∀ i event, s.emissions[i]? = some event → event ∈ s.queue ∨
    (∃ flush ∈ s.flush, event ∈ flush.events ∧ i < flush.upTo) ∨
    ∀ peer ∈ outbound.webhookPeers, outbound.configured peer = true →
      ∃ receipt ∈ s.received peer, receipt.event = event ∧ i < receipt.upTo
  scheduled : s.queue ≠ [] → s.timer = true ∨ s.flush.isSome = true

/-- A configured peer to which nothing is still to be sent has the last occurrences of the events in the order
    of their last emissions. -/
def InOrder (outbound : BroadcastOutbound P) (s : OutboundState E P) : Prop :=
  ∀ peer ∈ outbound.webhookPeers, outbound.configured peer = true → s.pendingFor peer = [] →
    ((s.received peer).map Receipt.event).dedup = s.emissions.dedup

end Model

section Lists

variable {E : Type} [DecidableEq E]

theorem dedup_append_of_nodup (earlier : List E) {later : List E} (nodup : later.Nodup) :
    (earlier ++ later).dedup = earlier.dedup.filter (· ∉ later) ++ later := by
  induction earlier with
  | nil => exact nodup.dedup
  | cons event earlier ih =>
      rw [List.cons_append]
      by_cases again : event ∈ earlier
      · rw [List.dedup_cons_of_mem (List.mem_append_left _ again), List.dedup_cons_of_mem again,
          ih]
      · by_cases behind : event ∈ later
        · rw [List.dedup_cons_of_mem (List.mem_append_right _ behind), List.dedup_cons_of_notMem again,
            List.filter_cons_of_neg (by simpa using behind), ih]
        · have new : event ∉ earlier ++ later := by
            rw [List.mem_append, not_or]
            exact ⟨again, behind⟩
          rw [List.dedup_cons_of_notMem new, List.dedup_cons_of_notMem again,
            List.filter_cons_of_pos (by simpa using behind), ih, List.cons_append]

theorem mem_enqueue {queue : List E} {event other : E} :
    other ∈ enqueue queue event ↔ other ∈ queue ∨ other = event := by
  unfold enqueue
  split
  · next queued =>
      constructor
      · exact Or.inl
      · rintro (member | rfl)
        · exact member
        · exact queued
  · simp

theorem enqueue_nodup {queue : List E} (nodup : queue.Nodup) (event : E) : (enqueue queue event).Nodup := by
  unfold enqueue
  split
  · exact nodup
  · next new => exact List.concat_eq_append ▸ nodup.concat new

theorem foldl_enqueue {events : List E} (nodup : events.Nodup) (queue : List E) :
    events.foldl enqueue queue = queue ++ events.filter (· ∉ queue) := by
  induction events generalizing queue with
  | nil => simp
  | cons event events ih =>
      rw [List.nodup_cons] at nodup
      rw [List.foldl_cons, ih nodup.2]
      by_cases queued : event ∈ queue
      · rw [enqueue, if_pos queued, List.filter_cons_of_neg (by simpa using queued)]
      · have rest : events.filter (· ∉ queue ++ [event]) = events.filter (· ∉ queue) := by
          refine List.filter_congr fun other member => ?_
          have differs : other ≠ event := fun same => nodup.1 (same ▸ member)
          simp [differs]
        rw [enqueue, if_neg queued, rest, List.filter_cons_of_pos (by simpa using queued)]
        simp

theorem requeueOutbound_eq {bound : ℕ} {events queue : List E} (nodup : events.Nodup)
    (fits : (events.filter (· ∉ queue) ++ queue).length ≤ bound) :
    requeueOutbound bound events queue = queue ++ events.filter (· ∉ queue) := by
  have length : (queue ++ events.filter (· ∉ queue)).length ≤ bound := by
    rw [List.length_append, Nat.add_comm, ← List.length_append]
    exact fits
  rw [requeueOutbound, foldl_enqueue nodup, Nat.sub_eq_zero_of_le length, List.drop_zero]

theorem filter_eq_of_subset {one other few more : List E} (subset : few ⊆ more)
    (same : one.filter (· ∉ few) = other.filter (· ∉ few)) :
    one.filter (· ∉ more) = other.filter (· ∉ more) := by
  have through : ∀ events : List E, events.filter (· ∉ more) =
      (events.filter (· ∉ few)).filter (· ∉ more) := fun events => by
    rw [List.filter_filter]
    refine List.filter_congr fun event _ => ?_
    by_cases inMore : event ∈ more
    · simp [inMore]
    · have notFew : event ∉ few := fun inFew => inMore (subset inFew)
      simp [inMore, notFew]
  rw [through one, through other, same]

theorem dedup_concat (earlier : List E) (event : E) :
    (earlier ++ [event]).dedup = earlier.dedup.filter (· ≠ event) ++ [event] := by
  rw [dedup_append_of_nodup earlier (List.nodup_singleton event)]
  simp

theorem filter_concat_notMem (events : List E) (pending : List E) (event : E) :
    events.filter (· ∉ pending.filter (· ≠ event) ++ [event]) =
      (events.filter (· ≠ event)).filter (· ∉ pending) := by
  rw [List.filter_filter]
  refine List.filter_congr fun other _ => ?_
  by_cases same : other = event
  · simp [same]
  · simp [same]

end Lists

section Losses

set_option linter.unusedSectionVars false

variable {E P : Type} [DecidableEq E] [DecidableEq P] {outbound : BroadcastOutbound P}
  {s : OutboundState E P}

theorem sendWebhookToPeer_cases (outcome : SendOutcome) :
    s.sendWebhookToPeer outbound outcome = s ∨
      ∃ flush peer others received, s.flush = some flush ∧ flush.toSend = peer :: others ∧
        (received = s.received ∨ received = s.receive flush peer) ∧
        (s.sendWebhookToPeer outbound outcome =
              { s with flush := some { flush with toSend := others, served := peer :: flush.served }
                       received := received } ∧
            (outbound.configured peer = true → received = s.receive flush peer) ∨
          s.sendWebhookToPeer outbound outcome =
            { s with flush := some { flush with toSend := others, undelivered := true }
                     received := received }) := by
  cases underWay : s.flush with
  | none => exact .inl (by rw [OutboundState.sendWebhookToPeer, underWay])
  | some flush =>
      cases peers : flush.toSend with
      | nil => exact .inl (by simp only [OutboundState.sendWebhookToPeer, underWay, peers])
      | cons peer others =>
          right
          by_cases isConfigured : outbound.configured peer = false
          · refine ⟨flush, peer, others, s.received, rfl, peers, .inl rfl, .inl ⟨?_, ?_⟩⟩
            · simp only [OutboundState.sendWebhookToPeer, underWay, peers, if_pos isConfigured]
            · rw [isConfigured]
              exact fun impossible => (by cases impossible)
          · cases outcome with
            | delivered =>
                refine ⟨flush, peer, others, _, rfl, peers, .inr rfl, .inl ⟨?_, fun _ => rfl⟩⟩
                simp only [OutboundState.sendWebhookToPeer, underWay, peers, if_neg isConfigured]
            | arrived =>
                refine ⟨flush, peer, others, _, rfl, peers, .inr rfl, .inr ?_⟩
                simp only [OutboundState.sendWebhookToPeer, underWay, peers, if_neg isConfigured]
            | failed =>
                refine ⟨flush, peer, others, _, rfl, peers, .inl rfl, .inr ?_⟩
                simp only [OutboundState.sendWebhookToPeer, underWay, peers, if_neg isConfigured]

theorem mem_received {flush : OutboundFlush E P} {peer other : P} {received : P → List (Receipt E)}
    (grown : received = s.received ∨ received = s.receive flush peer) {receipt : Receipt E}
    (member : receipt ∈ s.received other) : receipt ∈ received other := by
  obtain rfl | rfl := grown
  · exact member
  · by_cases same : other = peer
    · subst same
      rw [OutboundState.receive, Function.update_self]
      exact List.mem_append_left _ member
    · rwa [OutboundState.receive, Function.update_of_ne same]

/-- What holds of the queue and of the batch under way. -/
structure OutboundKept (outbound : BroadcastOutbound P) (s : OutboundState E P) : Prop where
  queueNodup : s.queue.Nodup
  eventsNodup : ∀ flush ∈ s.flush, flush.events.Nodup
  progress : ∀ flush ∈ s.flush, flush.undelivered = false →
    ∀ peer ∈ outbound.webhookPeers, peer ∈ flush.toSend ∨ peer ∈ flush.served
  served : ∀ flush ∈ s.flush, ∀ peer ∈ flush.served, outbound.configured peer = true →
    ∀ event ∈ flush.events, ∃ receipt ∈ s.received peer, receipt.event = event ∧ receipt.upTo = flush.upTo
  lossless : NothingLost outbound s

theorem NothingLost.of_received (lossless : NothingLost outbound s) {flush flush' : OutboundFlush E P}
    {received : P → List (Receipt E)} (underWay : s.flush = some flush)
    (same : flush'.events = flush.events ∧ flush'.upTo = flush.upTo)
    (more : ∀ peer, ∀ receipt ∈ s.received peer, receipt ∈ received peer) :
    NothingLost outbound { s with flush := some flush', received := received } := by
  refine ⟨fun i event emitted => ?_, fun _ => .inr rfl⟩
  obtain queued | ⟨inBatch, isFlush, member, inTime⟩ | delivered := lossless.kept i event emitted
  · exact .inl queued
  · rw [underWay] at isFlush
    cases isFlush
    exact .inr (.inl ⟨flush', rfl, same.1 ▸ member, same.2 ▸ inTime⟩)
  · refine .inr (.inr fun peer isPeer isConfigured => ?_)
    obtain ⟨receipt, member, isEvent⟩ := delivered peer isPeer isConfigured
    exact ⟨receipt, more peer receipt member, isEvent⟩

namespace OutboundKept

theorem start : OutboundKept outbound (startState : OutboundState E P) where
  queueNodup := List.nodup_nil
  eventsNodup := by simp [startState]
  progress := by simp [startState]
  served := by simp [startState]
  lossless := ⟨by simp [startState], by simp [startState]⟩

theorem handleOutbound (kept : OutboundKept outbound s) (fromOutside : Bool) (event : E) :
    OutboundKept outbound (s.handleOutbound fromOutside event) := by
  unfold OutboundState.handleOutbound
  split
  · exact kept
  · refine ⟨enqueue_nodup kept.queueNodup event, kept.eventsNodup, kept.progress, kept.served, ?_,
      fun _ => .inl rfl⟩
    intro i other emitted
    rcases Nat.lt_or_ge i s.emissions.length with before | last
    · rw [List.getElem?_append_left before] at emitted
      obtain queued | rest := kept.lossless.kept i other emitted
      · exact .inl (mem_enqueue.mpr (.inl queued))
      · exact .inr rest
    · rw [List.getElem?_append_right last, List.getElem?_singleton] at emitted
      split at emitted
      · cases emitted
        exact .inl (mem_enqueue.mpr (.inr rfl))
      · cases emitted

theorem take (kept : OutboundKept outbound s) (idle : s.flush = none) :
    OutboundKept outbound (s.take outbound) := by
  have batch : ∀ flush ∈ (s.take outbound).flush,
      flush = ⟨s.queue, s.emissions.length, outbound.webhookPeers, [], false⟩ := by
    simp [OutboundState.take, eq_comm]
  refine ⟨List.nodup_nil, ?_, ?_, ?_, ?_, fun queued => absurd rfl queued⟩
  · intro flush member
    rw [batch flush member]
    exact kept.queueNodup
  · intro flush member _ peer isPeer
    rw [batch flush member]
    exact .inl isPeer
  · intro flush member peer isServed
    rw [batch flush member] at isServed
    cases isServed
  · intro i event emitted
    have inTime : i < s.emissions.length := (List.getElem?_eq_some_iff.mp emitted).1
    obtain queued | ⟨flush, underWay, _⟩ | delivered := kept.lossless.kept i event emitted
    · exact .inr (.inl ⟨_, rfl, queued, inTime⟩)
    · rw [idle] at underWay
      cases underWay
    · exact .inr (.inr delivered)

theorem sendWebhookToPeer (kept : OutboundKept outbound s) (outcome : SendOutcome) :
    OutboundKept outbound (s.sendWebhookToPeer outbound outcome) := by
  obtain same | ⟨flush, peer, others, received, underWay, peers, grown, sent⟩ :=
    @sendWebhookToPeer_cases _ _ _ _ outbound s outcome
  · rwa [same]
  have more : ∀ peer, ∀ receipt ∈ s.received peer, receipt ∈ received peer := fun _ _ member =>
    mem_received grown member
  have isFlush : flush ∈ s.flush := underWay
  have servedBefore := kept.served flush isFlush
  obtain ⟨same, reached⟩ | same := sent
  · rw [same]
    refine ⟨kept.queueNodup, ?_, ?_, ?_, NothingLost.of_received kept.lossless underWay ⟨rfl, rfl⟩ more⟩
    · rintro _ ⟨⟩
      exact kept.eventsNodup flush isFlush
    · rintro _ ⟨⟩ clean other isPeer
      obtain waiting | done := kept.progress flush isFlush clean other isPeer
      · rw [peers] at waiting
        cases waiting with
        | head => exact .inr List.mem_cons_self
        | tail _ waiting => exact .inl waiting
      · exact .inr (List.mem_cons_of_mem _ done)
    · rintro _ ⟨⟩ other isServed isConfigured event member
      cases isServed with
      | head =>
          refine ⟨⟨event, flush.upTo⟩, ?_, rfl, rfl⟩
          change _ ∈ received peer
          rw [reached isConfigured, OutboundState.receive, Function.update_self]
          exact List.mem_append_right _ (List.mem_map.mpr ⟨event, member, rfl⟩)
      | tail _ isServed =>
          obtain ⟨receipt, inReceived, isEvent⟩ := servedBefore other isServed isConfigured event member
          exact ⟨receipt, more _ _ inReceived, isEvent⟩
  · rw [same]
    refine ⟨kept.queueNodup, ?_, ?_, ?_, NothingLost.of_received kept.lossless underWay ⟨rfl, rfl⟩ more⟩
    · rintro _ ⟨⟩
      exact kept.eventsNodup flush isFlush
    · rintro _ ⟨⟩ clean
      cases clean
    · rintro _ ⟨⟩ other isServed isConfigured event member
      obtain ⟨receipt, inReceived, isEvent⟩ := servedBefore other isServed isConfigured event member
      exact ⟨receipt, more _ _ inReceived, isEvent⟩

theorem settle (kept : OutboundKept outbound s) (fits : s.pending.length ≤ outbound.outboundMaxQueued) :
    OutboundKept outbound (s.settle outbound) := by
  unfold OutboundState.settle
  split
  · rename_i flush underWay
    split
    · rename_i done
      have isFlush : flush ∈ s.flush := underWay
      have nodup := kept.eventsNodup flush isFlush
      have queue : (s.finish outbound flush).queue =
          if flush.undelivered then s.queue ++ flush.events.filter (· ∉ s.queue) else s.queue := by
        unfold OutboundState.finish
        cases flush.undelivered with
        | false => rfl
        | true =>
            rw [OutboundState.pending, underWay] at fits
            exact requeueOutbound_eq nodup fits
      have ended : (s.finish outbound flush).flush = none := rfl
      refine ⟨?_, by simp [ended], by simp [ended], by simp [ended], ⟨?_, ?_⟩⟩
      · rw [queue]
        split
        · refine List.nodup_append.mpr ⟨kept.queueNodup, nodup.filter _, ?_⟩
          rintro event queued other batched rfl
          simp [queued] at batched
        · exact kept.queueNodup
      · intro i event emitted
        rw [queue]
        obtain queued | ⟨inBatch, isFlush', member, inTime⟩ | delivered := kept.lossless.kept i event emitted
        · refine .inl ?_
          split
          · exact List.mem_append_left _ queued
          · exact queued
        · rw [underWay] at isFlush'
          cases isFlush'
          split
          · by_cases queued : event ∈ s.queue
            · exact .inl (List.mem_append_left _ queued)
            · exact .inl (List.mem_append_right _ (List.mem_filter.mpr ⟨member, by simpa using queued⟩))
          · rename_i clean
            refine .inr (.inr fun peer isPeer isConfigured => ?_)
            obtain waiting | served :=
              kept.progress flush isFlush (Bool.eq_false_iff.mpr clean) peer isPeer
            · rw [done] at waiting
              cases waiting
            · obtain ⟨receipt, inReceived, isEvent, upTo⟩ :=
                kept.served flush isFlush peer served isConfigured event member
              exact ⟨receipt, inReceived, isEvent, upTo ▸ inTime⟩
        · exact .inr (.inr delivered)
      · intro queued
        left
        change (s.timer || !(s.finish outbound flush).queue.isEmpty) = true
        simp [queued]
    · exact kept
  · exact kept

theorem unset (kept : OutboundKept outbound s) (spare : s.queue = [] ∨ s.flush.isSome = true) :
    OutboundKept outbound { s with timer := false } where
  queueNodup := kept.queueNodup
  eventsNodup := kept.eventsNodup
  progress := kept.progress
  served := kept.served
  lossless := ⟨kept.lossless.kept, fun queued => .inr (spare.resolve_left queued)⟩

theorem timerFires (kept : OutboundKept outbound s) (fits : s.pending.length ≤ outbound.outboundMaxQueued) :
    OutboundKept outbound ({ s with timer := false }.flushOutboundEvents outbound) := by
  unfold OutboundState.flushOutboundEvents
  split
  · next spare => exact kept.unset spare.symm
  · next free =>
      rw [not_or, Bool.not_eq_true, Option.isSome_eq_false_iff, Option.isNone_iff_eq_none] at free
      refine ((kept.take free.1).unset (.inl rfl)).settle ?_
      rw [OutboundState.pending, free.1] at fits
      simpa [OutboundState.pending, OutboundState.take] using fits

theorem pending_sendWebhookToPeer (outcome : SendOutcome) :
    (s.sendWebhookToPeer outbound outcome).pending = s.pending ∧
      (s.sendWebhookToPeer outbound outcome).queue = s.queue ∧
      (s.sendWebhookToPeer outbound outcome).emissions = s.emissions := by
  obtain same | ⟨flush, peer, others, received, underWay, peers, grown, ⟨same, _⟩ | same⟩ :=
    @sendWebhookToPeer_cases _ _ _ _ outbound s outcome
  · rw [same]
    exact ⟨rfl, rfl, rfl⟩
  · rw [same]
    simp only [OutboundState.pending, underWay, and_self]
  · rw [same]
    simp only [OutboundState.pending, underWay, and_self]

theorem step {action : OutboundAction E} (kept : OutboundKept outbound s) (fits : Fits outbound s action) :
    OutboundKept outbound (s.step outbound action) := by
  cases action with
  | emits fromOutside event => exact kept.handleOutbound fromOutside event
  | timerFires =>
      unfold OutboundState.step
      dsimp only
      split
      · exact kept.timerFires fits
      · exact kept
  | sendEnds outcome =>
      refine (kept.sendWebhookToPeer outcome).settle ?_
      rw [(pending_sendWebhookToPeer outcome).1]
      exact fits

end OutboundKept

end Losses

section Order

set_option linter.unusedSectionVars false

variable {E P : Type} [DecidableEq E] [DecidableEq P] {outbound : BroadcastOutbound P}
  {s : OutboundState E P}

def OutboundState.receivedOrder (s : OutboundState E P) (peer : P) : List E :=
  ((s.received peer).map Receipt.event).dedup

/-- What is pending was emitted last, in its order; and apart from what is still to be sent to it, every peer
    has the last occurrences in the order of the last emissions. -/
structure OutboundOrdered (outbound : BroadcastOutbound P) (s : OutboundState E P) : Prop where
  suffix : s.pending <:+ s.emissions.dedup
  received : ∀ peer ∈ outbound.webhookPeers, outbound.configured peer = true →
    (s.receivedOrder peer).filter (· ∉ s.pendingFor peer) =
      s.emissions.dedup.filter (· ∉ s.pendingFor peer)

theorem queue_subset_pending : s.queue ⊆ s.pending := fun _ member => List.mem_append_right _ member

theorem pendingFor_subset (peer : P) : s.pendingFor peer ⊆ s.pending := by
  unfold OutboundState.pendingFor
  split
  · split
    · exact queue_subset_pending
    · exact List.Subset.refl _
  · exact queue_subset_pending

namespace OutboundOrdered

theorem start : OutboundOrdered outbound (startState : OutboundState E P) where
  suffix := List.nil_suffix
  received := by simp [startState, OutboundState.receivedOrder]

theorem received_pending (ordered : OutboundOrdered outbound s) {peer : P}
    (isPeer : peer ∈ outbound.webhookPeers) (isConfigured : outbound.configured peer = true) :
    (s.receivedOrder peer).filter (· ∉ s.pending) = s.emissions.dedup.filter (· ∉ s.pending) :=
  filter_eq_of_subset (pendingFor_subset peer) (ordered.received peer isPeer isConfigured)

theorem inOrder (ordered : OutboundOrdered outbound s) : InOrder outbound s := by
  intro peer isPeer isConfigured done
  have same := ordered.received peer isPeer isConfigured
  rw [done] at same
  simpa [OutboundState.receivedOrder] using same

theorem pending_handleOutbound {event : E} (new : event ∉ s.queue) :
    (s.handleOutbound false event).pending = s.pending.filter (· ≠ event) ++ [event] ∧
      ∀ peer, (s.handleOutbound false event).pendingFor peer =
        (s.pendingFor peer).filter (· ≠ event) ++ [event] := by
  have queue : s.queue.filter (· ≠ event) = s.queue := by
    refine List.filter_eq_self.mpr fun other member => ?_
    have differs : other ≠ event := fun same => new (same ▸ member)
    simpa using differs
  have whole : (s.handleOutbound false event).pending = s.pending.filter (· ≠ event) ++ [event] := by
    simp only [OutboundState.handleOutbound, OutboundState.pending, Bool.false_eq_true, if_false, enqueue,
      if_neg new, List.filter_append, queue]
    cases s.flush with
    | none => simp
    | some flush =>
        simp only [List.filter_filter, List.append_assoc]
        congr 1
        refine List.filter_congr fun other _ => ?_
        by_cases same : other = event
        · simp [same]
        · simp [same]
  refine ⟨whole, fun peer => ?_⟩
  have flush : (s.handleOutbound false event).flush = s.flush := rfl
  have behind : (s.handleOutbound false event).queue = s.queue.filter (· ≠ event) ++ [event] := by
    rw [queue]
    exact if_neg new
  unfold OutboundState.pendingFor
  rw [flush, whole, behind]
  cases s.flush with
  | none => rfl
  | some flush =>
      dsimp only
      split <;> rfl

theorem emissions_requeued {event : E} (ordered : OutboundOrdered outbound s)
    (last : s.queue.getLast? = some event) : (s.emissions ++ [event]).dedup = s.emissions.dedup := by
  obtain ⟨front, queue⟩ := List.getLast?_eq_some_iff.mp last
  obtain ⟨before, whole⟩ := ordered.suffix
  obtain ⟨earlier, emitted⟩ : ∃ earlier, s.emissions.dedup = earlier ++ [event] := by
    rw [← whole, OutboundState.pending, queue]
    exact ⟨_, by rw [← List.append_assoc, ← List.append_assoc]⟩
  have nodup := List.nodup_dedup s.emissions
  rw [emitted] at nodup
  have fresh : event ∉ earlier := fun member => by
    have apart := (List.nodup_append.mp nodup).2.2 event member event List.mem_cons_self
    exact apart rfl
  rw [dedup_concat, emitted, List.filter_append]
  have kept : earlier.filter (· ≠ event) = earlier := by
    refine List.filter_eq_self.mpr fun other member => ?_
    have differs : other ≠ event := fun same => fresh (same ▸ member)
    simpa using differs
  rw [kept]
  simp

theorem handleOutbound (ordered : OutboundOrdered outbound s) {fromOutside : Bool} {event : E}
    (allowed : fromOutside = false → event ∈ s.queue → s.queue.getLast? = some event) :
    OutboundOrdered outbound (s.handleOutbound fromOutside event) := by
  cases fromOutside with
  | true => exact ordered
  | false =>
      by_cases queued : event ∈ s.queue
      · have same := emissions_requeued ordered (allowed rfl queued)
        have queue : (s.handleOutbound false event).queue = s.queue := if_pos queued
        have pending : (s.handleOutbound false event).pending = s.pending := by
          unfold OutboundState.pending
          rw [queue]
          rfl
        have pendingFor : ∀ peer, (s.handleOutbound false event).pendingFor peer = s.pendingFor peer := by
          intro peer
          unfold OutboundState.pendingFor
          rw [queue, pending]
          rfl
        constructor
        · rw [pending]
          exact same ▸ ordered.suffix
        · intro peer isPeer isConfigured
          rw [pendingFor]
          exact (ordered.received peer isPeer isConfigured).trans (congrArg _ same.symm)
      · obtain ⟨pending, pendingFor⟩ := pending_handleOutbound queued
        have emitted : (s.handleOutbound false event).emissions.dedup =
            s.emissions.dedup.filter (· ≠ event) ++ [event] := dedup_concat _ _
        constructor
        · rw [pending, emitted]
          obtain ⟨before, whole⟩ := ordered.suffix
          rw [← whole, List.filter_append, List.append_assoc]
          exact List.suffix_append _ _
        · intro peer isPeer isConfigured
          have same := ordered.received peer isPeer isConfigured
          have gone : [event].filter (· ∉ (s.pendingFor peer).filter (· ≠ event) ++ [event]) = [] := by simp
          have once : (s.emissions.dedup.filter (· ≠ event)).filter (· ≠ event) =
              s.emissions.dedup.filter (· ≠ event) := by simp [List.filter_filter]
          rw [pendingFor, emitted, List.filter_append, gone, List.append_nil, filter_concat_notMem,
            filter_concat_notMem, once, List.filter_comm, List.filter_comm _ (· ≠ event) s.emissions.dedup]
          exact congrArg _ same

theorem take (ordered : OutboundOrdered outbound s) (idle : s.flush = none) :
    OutboundOrdered outbound (s.take outbound) := by
  have pending : (s.take outbound).pending = s.pending := by
    simp [OutboundState.pending, OutboundState.take, idle]
  have pendingFor : ∀ peer, (s.take outbound).pendingFor peer = s.pendingFor peer := fun peer => by
    have all : (s.take outbound).pendingFor peer = (s.take outbound).pending := by
      simp [OutboundState.pendingFor, OutboundState.take]
    rw [all, pending]
    simp [OutboundState.pending, OutboundState.pendingFor, idle]
  constructor
  · rw [pending]
    exact ordered.suffix
  · intro peer isPeer isConfigured
    rw [pendingFor]
    exact ordered.received peer isPeer isConfigured

theorem receivedOrder_receive {t : OutboundState E P} {flush : OutboundFlush E P} {peer : P}
    (nodup : flush.events.Nodup) (received : t.received = s.receive flush peer) :
    t.receivedOrder peer = (s.receivedOrder peer).filter (· ∉ flush.events) ++ flush.events := by
  have events : (flush.events.map fun event => (⟨event, flush.upTo⟩ : Receipt E)).map Receipt.event =
      flush.events := by simp [List.map_map, Function.comp_def]
  rw [OutboundState.receivedOrder, received, OutboundState.receive, Function.update_self, List.map_append,
    events, dedup_append_of_nodup _ nodup]
  rfl

theorem receivedOrder_other {t : OutboundState E P} {flush : OutboundFlush E P} {peer other : P}
    (received : t.received = s.received ∨ t.received = s.receive flush peer) (differs : other ≠ peer) :
    t.receivedOrder other = s.receivedOrder other := by
  unfold OutboundState.receivedOrder
  obtain same | same := received
  · rw [same]
  · rw [same, OutboundState.receive, Function.update_of_ne differs]

theorem received_batch (ordered : OutboundOrdered outbound s) {flush : OutboundFlush E P} {peer : P}
    (underWay : s.flush = some flush) (isPeer : peer ∈ outbound.webhookPeers)
    (isConfigured : outbound.configured peer = true) :
    ((s.receivedOrder peer).filter (· ∉ flush.events) ++ flush.events).filter (· ∉ s.queue) =
      s.emissions.dedup.filter (· ∉ s.queue) := by
  have same := ordered.received_pending isPeer isConfigured
  obtain ⟨before, whole⟩ := ordered.suffix
  have nodup := List.nodup_dedup s.emissions
  have pending : s.pending = flush.events.filter (· ∉ s.queue) ++ s.queue := by
    rw [OutboundState.pending, underWay]
  have isPending : ∀ event, event ∈ s.pending ↔ event ∈ flush.events ∨ event ∈ s.queue := fun event => by
    rw [pending, List.mem_append, List.mem_filter]
    by_cases queued : event ∈ s.queue
    · simp [queued]
    · simp [queued]
  have front : ((s.receivedOrder peer).filter (· ∉ flush.events)).filter (· ∉ s.queue) =
      (s.receivedOrder peer).filter (· ∉ s.pending) := by
    rw [List.filter_filter]
    refine List.filter_congr fun event _ => ?_
    simp only [isPending, not_or, Bool.decide_and]
    exact Bool.and_comm _ _
  have kept : before.filter (· ∉ s.pending) = before := by
    refine List.filter_eq_self.mpr fun event member => ?_
    rw [← whole] at nodup
    have apart := (List.nodup_append.mp nodup).2.2 event member
    simpa using fun inPending => apart event inPending rfl
  rw [List.filter_append, front, same, ← whole, List.filter_append, List.filter_append, kept]
  have keptQueue : before.filter (· ∉ s.queue) = before := by
    refine List.filter_eq_self.mpr fun event member => ?_
    rw [← kept] at member
    have notPending := (List.mem_filter.mp member).2
    simp only [decide_eq_true_iff, isPending, not_or] at notPending
    simpa using notPending.2
  have pendingGone : s.pending.filter (· ∉ s.pending) = [] := by simp
  have pendingLeft : s.pending.filter (· ∉ s.queue) = flush.events.filter (· ∉ s.queue) := by
    rw [pending, List.filter_append, List.filter_filter]
    simp
  rw [keptQueue, pendingGone, pendingLeft, List.append_nil]

theorem queue_subset_pendingFor (peer : P) : s.queue ⊆ s.pendingFor peer := by
  unfold OutboundState.pendingFor
  split
  · split
    · exact List.Subset.refl _
    · exact queue_subset_pending
  · exact List.Subset.refl _

theorem sendWebhookToPeer (ordered : OutboundOrdered outbound s)
    (eventsNodup : ∀ flush ∈ s.flush, flush.events.Nodup) (outcome : SendOutcome) :
    OutboundOrdered outbound (s.sendWebhookToPeer outbound outcome) := by
  obtain ⟨pending, queue, emissions⟩ := @OutboundKept.pending_sendWebhookToPeer _ _ _ _ outbound s outcome
  obtain same | ⟨flush, peer, others, received, underWay, peers, grown, sent⟩ :=
    @sendWebhookToPeer_cases _ _ _ _ outbound s outcome
  · rwa [same]
  generalize result : s.sendWebhookToPeer outbound outcome = t at pending queue emissions sent ⊢
  have receivedIs : t.received = received := by
    obtain ⟨rfl, _⟩ | rfl := sent <;> rfl
  refine ⟨by rw [pending, emissions]; exact ordered.suffix, fun other isPeer isConfigured => ?_⟩
  rw [emissions]
  by_cases batch : other = peer ∧ received = s.receive flush peer
  · -- the peer has the batch behind all else
    obtain ⟨rfl, reached⟩ := batch
    rw [receivedOrder_receive (eventsNodup flush underWay) (receivedIs.trans reached)]
    refine filter_eq_of_subset (queue_subset_pendingFor other) ?_
    rw [queue]
    exact received_batch ordered underWay isPeer isConfigured
  · have sameOrder : t.receivedOrder other = s.receivedOrder other := by
      by_cases differs : other = peer
      · have untouched := grown.resolve_right fun reached => batch ⟨differs, reached⟩
        rw [OutboundState.receivedOrder, receivedIs, untouched]
        rfl
      · exact receivedOrder_other (receivedIs ▸ grown) differs
    have samePending : t.pendingFor other = s.pendingFor other := by
      obtain ⟨rfl, reached⟩ | rfl := sent
      · have differs : other ≠ peer := fun same => batch ⟨same, reached (same ▸ isConfigured)⟩
        simp only [OutboundState.pendingFor, underWay, List.mem_cons, differs, false_or, pending]
      · simp only [OutboundState.pendingFor, underWay, pending]
    rw [sameOrder, samePending]
    exact ordered.received other isPeer isConfigured

theorem settle (ordered : OutboundOrdered outbound s) (kept : OutboundKept outbound s)
    (fits : s.pending.length ≤ outbound.outboundMaxQueued)
    (allowed : ∀ flush ∈ s.flush, flush.toSend = [] → flush.undelivered = true →
      s.queue = [] ∨ ∀ event ∈ flush.events, event ∈ s.queue) :
    OutboundOrdered outbound (s.settle outbound) := by
  unfold OutboundState.settle
  split
  · rename_i flush underWay
    split
    · rename_i done
      have isFlush : flush ∈ s.flush := underWay
      have pending : s.pending = flush.events.filter (· ∉ s.queue) ++ s.queue := by
        rw [OutboundState.pending, underWay]
      have pendingIs : (s.finish outbound flush).pending = (s.finish outbound flush).queue := rfl
      have pendingForIs : ∀ peer, (s.finish outbound flush).pendingFor peer =
          (s.finish outbound flush).queue := fun _ => rfl
      have same : ∀ peer, (s.finish outbound flush).receivedOrder peer = s.receivedOrder peer := fun _ => rfl
      have emissions : (s.finish outbound flush).emissions = s.emissions := rfl
      cases undelivered : flush.undelivered with
      | false =>
          have queue : (s.finish outbound flush).queue = s.queue := by
            rw [OutboundState.finish, undelivered]
            rfl
          constructor
          · rw [pendingIs, queue, emissions]
            exact (pending ▸ List.suffix_append _ _ : s.queue <:+ s.pending).trans ordered.suffix
          · intro peer isPeer isConfigured
            obtain waiting | served := kept.progress flush isFlush undelivered peer isPeer
            · rw [done] at waiting
              cases waiting
            · have before : s.pendingFor peer = s.queue := by
                simp only [OutboundState.pendingFor, underWay, if_pos served]
              rw [pendingForIs, queue, same, emissions, ← before]
              exact ordered.received peer isPeer isConfigured
      | true =>
          have queue : (s.finish outbound flush).queue = s.pending := by
            have requeued : (s.finish outbound flush).queue =
                s.queue ++ flush.events.filter (· ∉ s.queue) := by
              rw [OutboundState.finish, undelivered, if_pos rfl]
              exact requeueOutbound_eq (kept.eventsNodup flush isFlush) (pending ▸ fits)
            rw [requeued, pending]
            obtain empty | queued := allowed flush isFlush done undelivered
            · rw [empty]
              simp
            · have noneNew : flush.events.filter (· ∉ s.queue) = [] :=
                List.filter_eq_nil_iff.mpr fun event member => by simpa using queued event member
              rw [noneNew]
              simp
          constructor
          · rw [pendingIs, queue, emissions]
            exact ordered.suffix
          · intro peer isPeer isConfigured
            rw [pendingForIs, queue, same, emissions]
            exact ordered.received_pending isPeer isConfigured
    · exact ordered
  · exact ordered

theorem step {action : OutboundAction E} (ordered : OutboundOrdered outbound s)
    (kept : OutboundKept outbound s) (fits : Fits outbound s action) (allowed : KeepsOrder outbound s action) :
    OutboundOrdered outbound (s.step outbound action) := by
  cases action with
  | emits fromOutside event => exact ordered.handleOutbound allowed
  | timerFires =>
      unfold OutboundState.step OutboundState.flushOutboundEvents
      dsimp only
      split
      · split
        · exact ⟨ordered.suffix, ordered.received⟩
        · next free =>
            rw [not_or, Bool.not_eq_true, Option.isSome_eq_false_iff, Option.isNone_iff_eq_none] at free
            have taken := ordered.take free.1
            have keptTaken := (kept.take free.1).unset (.inl rfl)
            refine settle ⟨taken.suffix, taken.received⟩ keptTaken ?_ fun flush member _ undelivered => ?_
            · unfold Fits at fits
              rw [OutboundState.pending, free.1] at fits
              simpa [OutboundState.pending, OutboundState.take] using fits
            · cases member
              cases undelivered
      · exact ordered
  | sendEnds outcome =>
      obtain ⟨pending, queue, _⟩ := @OutboundKept.pending_sendWebhookToPeer _ _ _ _ outbound s outcome
      refine (ordered.sendWebhookToPeer kept.eventsNodup outcome).settle (kept.sendWebhookToPeer outcome)
        (pending ▸ fits) ?_
      rw [queue]
      exact allowed

end OutboundOrdered

theorem kept_of_run (run : Relation.ReflTransGen (OutboundStep outbound (Fits outbound)) startState s) :
    OutboundKept outbound s := by
  induction run with
  | refl => exact .start
  | tail _ step ih =>
      obtain ⟨action, fits⟩ := step
      exact ih.step fits

theorem ordered_of_run
    (run : Relation.ReflTransGen
      (OutboundStep outbound fun s action => Fits outbound s action ∧ KeepsOrder outbound s action)
        startState s) :
    OutboundKept outbound s ∧ OutboundOrdered outbound s := by
  induction run with
  | refl => exact ⟨.start, .start⟩
  | tail _ step ih =>
      obtain ⟨action, fits, keepsOrder⟩ := step
      obtain ⟨kept, ordered⟩ := ih
      exact ⟨kept.step fits, ordered.step kept fits keepsOrder⟩

end Order

def onePeer : BroadcastOutbound Unit := ⟨[()], fun _ => true, 10000⟩

def actAll (s : OutboundState ℕ Unit) (actions : List (OutboundAction ℕ)) : OutboundState ℕ Unit :=
  actions.foldl (OutboundState.step onePeer) s

instance (outbound : BroadcastOutbound Unit) (s : OutboundState ℕ Unit) (action : OutboundAction ℕ) :
    Decidable (Fits outbound s action) := inferInstanceAs (Decidable (_ ≤ _))

end Puter

/-
Module: Puter.Database.SQLBatcher
Purpose: The batcher of SQL statements (clients/database/SQLBatcher.js, retriableErrors.ts): calls are queued, a
  flush runs a batch of them as one text in one transaction, and after a failure runs them one by one, with
  retries on some errors. Any number of flushes are under way at once.
Trusted boundary: how a text takes its values, and how the server reads statements in a text, are a parameter;
  each statement has one result; what the server does is an event of each step
Main exports: DbError, batchValues, batcherSystem
-/
import Puter.Fs.PosixPath
import Puter.Library.Interleaving

namespace Puter

open PosixPath Interleaving

/-- An error of the driver. -/
structure DbError where
  code : Option Text
  message : Text
deriving DecidableEq, Repr

def poolAcquireTimeout : Text := "POOL_ACQUIRE_TIMEOUT".toList

def neverSentErrorCodes : List Text :=
  ["ECONNREFUSED", "EHOSTUNREACH", "ENETUNREACH", "EAI_AGAIN"].map String.toList ++ [poolAcquireTimeout]

def retriableErrorCodes : List Text :=
  ["PROTOCOL_CONNECTION_LOST", "PROTOCOL_SEQUENCE_TIMEOUT", "PROTOCOL_ENQUEUE_AFTER_FATAL_ERROR", "ECONNRESET",
    "ETIMEDOUT", "EPIPE"].map String.toList ++ neverSentErrorCodes

def retriableErrorMessages : List Text := ["Connection lost", "read ECONNRESET", "ETIMEDOUT"].map String.toList

def rolledBackErrorCodes : List Text := ["ER_LOCK_DEADLOCK", "ER_LOCK_WAIT_TIMEOUT"].map String.toList

def isRetriableError (error : DbError) : Bool :=
  error.code.any (· ∈ retriableErrorCodes) || retriableErrorMessages.any fun m => decide (m <:+: error.message)

def isNeverSentError (error : DbError) : Bool := error.code.any (· ∈ neverSentErrorCodes)

def isRolledBackError (error : DbError) : Bool := error.code.any (· ∈ rolledBackErrorCodes)

/-- How a text takes its values, which texts end in no comment or quotation, and the statements that the server
    reads in a text. -/
structure SqlDriver (ν Stmt : Type) where
  placeholders : Text → ℕ
  complete : Text → Prop
  format : Text → List ν → Text
  statements : Text → List Stmt

structure BatcherOptions where
  maxBatchSize : ℕ
  maxQueueSize : ℕ
  failureThreshold : ℕ
  cooldownMs : ℕ
  readOnly : Bool
deriving DecidableEq, Repr

/-- Why a call is rejected. -/
inductive BatcherRejection where
  | breakerOpen
  | queueOverflow
  | connAcquire
  | typeError
  | item (error : DbError)
deriving DecidableEq, Repr

/-- How a call is settled; a result may be missing. -/
inductive CallOutcome (ρ : Type) where
  | resolved (result : Option ρ)
  | rejected (reason : BatcherRejection)
deriving DecidableEq, Repr

/-- A statement that took effect for good: the call it was run for, and its result. -/
structure Application (Stmt ρ : Type) where
  call : Option ℕ
  statement : Stmt
  result : ρ
deriving DecidableEq, Repr

/-- The calls so far, the ones in the queue, the timers that are set, the breaker, and how calls were settled; and of
    the server, what was applied for good, and the transactions that were left open on idle connections. -/
structure BatcherState (ν Stmt ρ : Type) where
  calls : List (Text × Option (List ν))
  queue : List ℕ
  timeouts : ℕ
  consecutiveFailures : ℕ
  lastFailureAt : ℕ
  clock : ℕ
  settled : List (ℕ × CallOutcome ρ)
  applied : List (Application Stmt ρ)
  leftOpen : List (List (Application Stmt ρ))

/-- An item of a batch whose statements are run one by one. -/
inductive ItemPhase (ρ : Type) where
  | waiting
  | acquires (retries attempt : ℕ)
  | queries (retries : ℕ)
  | settled (outcome : Except DbError (Option ρ))

/-- A program point of a caller or of a flush, or something else that happens. -/
inductive BatcherCall (ν Stmt ρ : Type) where
  | query (sql : Text) (values : Option (List ν))
  | timerFires
  | elapse (ms : ℕ)
  /-- A connection that was given back with an open transaction is taken for the next one. -/
  | reusesConnection
  /-- A flush waits for a connection. -/
  | acquires (batch : List ℕ) (attempt : ℕ)
  | begins (batch : List ℕ)
  | queries (batch : List ℕ)
  | commits (batch : List ℕ) (pending : List (Application Stmt ρ))
  | rollsBack (batch : List ℕ) (pending : List (Application Stmt ρ))
  | fallsBack (batch : List ℕ) (items : List (ItemPhase ρ))

/-- What the pool or the server answers to an item. -/
inductive ItemEvent (ρ : Type) where
  | starts
  | connected
  | refused (error : DbError)
  | answers (results : List ρ)
  /-- An error, and the results of what took effect nevertheless. -/
  | fails (error : DbError) (results : List ρ)

/-- And to a flush. -/
inductive DbEvent (ρ : Type) where
  | succeeds
  | fails
  /-- The batch is answered, a result for each statement. -/
  | answers (results : List ρ)
  /-- The batch fails behind the statements that have these results, so many of which are committed already. -/
  | breaksOff (results : List ρ) (committed : ℕ)
  /-- A commit takes effect and is not acknowledged. -/
  | commitsUnacknowledged
  /-- A rollback fails and the transaction stays open. -/
  | staysOpen
  | item (index : ℕ) (event : ItemEvent ρ)

variable {ν Stmt ρ : Type}

/-- `sql.replace(/;+\s*$/, '')` -/
def stripSemicolons (sql : Text) : Text :=
  if (sql.rdropWhile isSpace).getLast? = some ';' then (sql.rdropWhile isSpace).rdropWhile (· = ';') else sql

namespace BatcherState

def isBreakerOpen (s : BatcherState ν Stmt ρ) (options : BatcherOptions) : Bool :=
  options.failureThreshold ≤ s.consecutiveFailures && s.clock - s.lastFailureAt < options.cooldownMs

def sqlOf (s : BatcherState ν Stmt ρ) (id : ℕ) : Text := (s.calls[id]?.map (·.1)).getD []

def valuesOf (s : BatcherState ν Stmt ρ) (id : ℕ) : List ν := (s.calls[id]?.bind (·.2)).getD []

def batchText (s : BatcherState ν Stmt ρ) (batch : List ℕ) : Text :=
  [';'].intercalate (batch.map fun id => stripSemicolons (s.sqlOf id)) ++ "; SELECT 1".toList

def batchValues (s : BatcherState ν Stmt ρ) (batch : List ℕ) : List ν := (batch.map s.valuesOf).flatten

/-- `flush`, up to the wait for a connection. -/
def flush (s : BatcherState ν Stmt ρ) (batch : List ℕ) : BatcherState ν Stmt ρ × Option (BatcherCall ν Stmt ρ) :=
  ({ s with timeouts := s.timeouts - 1 }, if batch = [] then none else some (.acquires batch 1))

def settle (s : BatcherState ν Stmt ρ) (outcomes : List (ℕ × CallOutcome ρ)) : BatcherState ν Stmt ρ :=
  { s with settled := outcomes ++ s.settled }

def rejectAll (ids : List ℕ) (reason : BatcherRejection) : List (ℕ × CallOutcome ρ) :=
  ids.map fun id => (id, CallOutcome.rejected reason)

def query (s : BatcherState ν Stmt ρ) (options : BatcherOptions) (sql : Text) (values : Option (List ν)) :
    BatcherState ν Stmt ρ × Option (BatcherCall ν Stmt ρ) :=
  let id := s.calls.length
  let called := { s with calls := s.calls ++ [(sql, values)] }
  if s.isBreakerOpen options then (called.settle (rejectAll [id] .breakerOpen), none)
  else if options.maxQueueSize = 0 then
    -- the queue is emptied, and nothing is left to shift
    ({ called with queue := [] }.settle (rejectAll s.queue .queueOverflow ++ rejectAll [id] .typeError), none)
  else
    let excess := s.queue.length + 1 - options.maxQueueSize
    let dropped := called.settle (rejectAll (s.queue.take excess) .queueOverflow)
    let queue := s.queue.drop excess ++ [id]
    if options.maxBatchSize ≤ queue.length then
      { dropped with queue := queue.drop options.maxBatchSize }.flush (queue.take options.maxBatchSize)
    else ({ dropped with queue := queue, timeouts := if queue.length = 1 then s.timeouts + 1 else s.timeouts }, none)

end BatcherState

def acquireAttempts : ℕ := 3

def itemRetryAttempts : ℕ := 2

def fallbackRetryConcurrency : ℕ := 8

def canRetry (options : BatcherOptions) (error : DbError) : Bool :=
  if options.readOnly then isRetriableError error || isRolledBackError error
  else isNeverSentError error || isRolledBackError error

def applications (batch : List ℕ) (statements : List Stmt) (results : List ρ) : List (Application Stmt ρ) :=
  (statements.zip results).zipIdx.map fun (answer, place) => ⟨batch[place]?, answer.1, answer.2⟩

def ItemPhase.isActive : ItemPhase ρ → Bool
  | .acquires _ _ | .queries _ => true
  | _ => false

def ItemPhase.isWaiting : ItemPhase ρ → Bool
  | .waiting => true
  | _ => false

def mayStart (items : List (ItemPhase ρ)) (index : ℕ) : Bool :=
  (items.countP ItemPhase.isActive < fallbackRetryConcurrency : Bool) && items.findIdx ItemPhase.isWaiting = index

def runFallbackItem (driver : SqlDriver ν Stmt) (options : BatcherOptions) (s : BatcherState ν Stmt ρ) (id : ℕ)
    (mayStart : Bool) : ItemPhase ρ → ItemEvent ρ → BatcherState ν Stmt ρ × ItemPhase ρ
  | .waiting, .starts => (s, if mayStart then .acquires 0 1 else .waiting)
  | .acquires retries _, .connected => (s, .queries retries)
  | .acquires retries attempt, .refused error =>
      (s, if attempt < acquireAttempts then .acquires retries (attempt + 1) else .settled (.error error))
  | .queries retries, .answers results =>
      let statements := driver.statements (driver.format (s.sqlOf id) (s.valuesOf id))
      if results.length = statements.length then
        ({ s with applied := s.applied ++ (statements.zip results).map fun answer => ⟨some id, answer.1, answer.2⟩ },
          .settled (.ok results.head?))
      else (s, .queries retries)
  | .queries retries, .fails error results =>
      let statements := driver.statements (driver.format (s.sqlOf id) (s.valuesOf id))
      ({ s with applied := s.applied ++ (statements.zip results).map fun answer => ⟨some id, answer.1, answer.2⟩ },
        if canRetry options error ∧ retries < itemRetryAttempts then .acquires (retries + 1) 1
        else .settled (.error error))
  | phase, _ => (s, phase)

def outcomeOf : Except DbError (Option ρ) → CallOutcome ρ
  | .ok result => .resolved result
  | .error error => .rejected (.item error)

def itemOutcomes : List (ItemPhase ρ) → Option (List (Except DbError (Option ρ)))
  | [] => some []
  | .settled outcome :: items => (itemOutcomes items).map (outcome :: ·)
  | _ :: _ => none

def settleItems (s : BatcherState ν Stmt ρ) (batch : List ℕ) (outcomes : List (Except DbError (Option ρ))) :
    BatcherState ν Stmt ρ :=
  { s.settle (batch.zip (outcomes.map outcomeOf)) with
    lastFailureAt := s.clock
    consecutiveFailures := if outcomes.any fun outcome => outcome.isOk then 0 else s.consecutiveFailures + 1 }

/-- The next step at a program point. -/
def BatcherCall.perform (driver : SqlDriver ν Stmt) (options : BatcherOptions) (s : BatcherState ν Stmt ρ) :
    BatcherCall ν Stmt ρ → DbEvent ρ → BatcherState ν Stmt ρ × Option (BatcherCall ν Stmt ρ)
  | .query sql values, _ => s.query options sql values
  | .timerFires, _ => if s.timeouts = 0 then (s, none) else { s with queue := [] }.flush s.queue
  | .elapse ms, _ => ({ s with clock := s.clock + ms }, none)
  | .reusesConnection, _ =>
      match s.leftOpen with
      | [] => (s, none)
      | pending :: others => ({ s with applied := s.applied ++ pending, leftOpen := others }, none)
  | .acquires batch _, .succeeds => (s, some (.begins batch))
  | .acquires batch attempt, _ =>
      if attempt < acquireAttempts then (s, some (.acquires batch (attempt + 1)))
      else
        ({ s.settle (BatcherState.rejectAll batch .connAcquire) with
          consecutiveFailures := s.consecutiveFailures + 1
          lastFailureAt := s.clock }, none)
  | .begins batch, .succeeds => (s, some (.queries batch))
  | .begins batch, _ => (s, some (.rollsBack batch []))
  | .queries batch, .answers results =>
      let statements := driver.statements (driver.format (s.batchText batch) (s.batchValues batch))
      if results.length = statements.length then (s, some (.commits batch (applications batch statements results)))
      else (s, some (.queries batch))
  | .queries batch, .breaksOff results committed =>
      let statements := driver.statements (driver.format (s.batchText batch) (s.batchValues batch))
      let begun := applications batch statements results
      ({ s with applied := s.applied ++ begun.take committed }, some (.rollsBack batch (begun.drop committed)))
  | .queries batch, _ => (s, some (.rollsBack batch []))
  | .commits batch pending, .succeeds =>
      ({ s.settle (batch.zipIdx.map fun (id, place) => (id, .resolved (pending[place]?.map (·.result)))) with
        applied := s.applied ++ pending
        consecutiveFailures := 0 }, none)
  | .commits batch pending, .commitsUnacknowledged =>
      ({ s with applied := s.applied ++ pending }, some (.rollsBack batch []))
  | .commits batch pending, _ => (s, some (.rollsBack batch pending))
  | .rollsBack batch pending, .staysOpen =>
      ({ s with leftOpen := pending :: s.leftOpen }, some (.fallsBack batch (batch.map fun _ => .waiting)))
  | .rollsBack batch _, _ => (s, some (.fallsBack batch (batch.map fun _ => .waiting)))
  | .fallsBack batch items, .item index event =>
      match batch[index]?, items[index]? with
      | some id, some phase =>
          let after := runFallbackItem driver options s id (mayStart items index) phase event
          (after.1, some (.fallsBack batch (items.set index after.2)))
      | _, _ => (s, some (.fallsBack batch items))
  | .fallsBack batch items, _ =>
      match itemOutcomes items with
      | some outcomes => (settleItems s batch outcomes, none)
      | none => (s, some (.fallsBack batch items))

def batcherSystem (driver : SqlDriver ν Stmt) (options : BatcherOptions)
    (issues : BatcherCall ν Stmt ρ → Prop) (permits : DbEvent ρ → Prop) :
    System (BatcherState ν Stmt ρ) (BatcherCall ν Stmt ρ) where
  issues := issues
  atom s call s' next := ∃ event, permits event ∧ call.perform driver options s event = (s', next)
  allow := fun _ _ _ => True

def BatcherState.start (clock : ℕ) : BatcherState ν Stmt ρ := ⟨[], [], 0, 0, 0, clock, [], [], []⟩

end Puter

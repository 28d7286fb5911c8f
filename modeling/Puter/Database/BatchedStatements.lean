/-
Module: Puter.Database.BatchedStatements
Purpose: What a step of a flush does for the calls of its batch. Each call is in one place: in the queue, in one
  flush, or settled; what was applied for it follows from the place. A step keeps this when no commit takes effect
  without acknowledgement, no failed rollback leaves a transaction open, no statement of a batch commits on its
  own, and the errors on which an item is run again left no effect.
Trusted boundary: the laws of the driver
Main exports: LawfulDriver, fallsBack_serves
-/
import Puter.Database.SQLBatcher

namespace Puter

open PosixPath Interleaving BatcherState

variable {ν Stmt ρ : Type}

/-- Complete texts take their values, and are read by the server, one after another; the last statement of a batch is
    one statement. -/
structure LawfulDriver (driver : SqlDriver ν Stmt) : Prop where
  formats : ∀ sql values rest more, driver.complete sql → values.length = driver.placeholders sql →
    driver.format (sql ++ ';' :: rest) (values ++ more) = driver.format sql values ++ ';' :: driver.format rest more
  splits : ∀ sql values rest, driver.complete sql → values.length = driver.placeholders sql →
    driver.statements (driver.format sql values ++ ';' :: rest) =
      driver.statements (driver.format sql values) ++ driver.statements rest
  probe : ∃ statement, driver.statements (driver.format " SELECT 1".toList []) = [statement]

/-- The text is one statement with as many values as it takes, with the semicolons at its end or without, and does not
    end in a comment. -/
structure OneStatement (driver : SqlDriver ν Stmt) (sql : Text) (values : List ν) (statement : Stmt) : Prop where
  whole : driver.statements (driver.format sql values) = [statement]
  stripped : driver.statements (driver.format (stripSemicolons sql) values) = [statement]
  complete : driver.complete (stripSemicolons sql)
  placeholders : values.length = driver.placeholders (stripSemicolons sql)

def Issues (driver : SqlDriver ν Stmt) : BatcherCall ν Stmt ρ → Prop
  | .query sql values => ∃ statement, OneStatement driver sql (values.getD []) statement
  | .timerFires | .elapse _ | .reusesConnection => True
  | _ => False

/-- The server undoes what it does not acknowledge: no batch commits on the way or without acknowledgement, no
    transaction stays open, and an item that is run again had no effect. -/
def DriverSound (options : BatcherOptions) : DbEvent ρ → Prop
  | .breaksOff _ committed => committed = 0
  | .commitsUnacknowledged | .staysOpen => False
  | .item _ (.fails error results) => canRetry options error = true → results = []
  | _ => True

def logOf (s : BatcherState ν Stmt ρ) (id : ℕ) : List (Application Stmt ρ) := s.applied.filter (·.call = some id)

def OwnStatement (driver : SqlDriver ν Stmt) (s : BatcherState ν Stmt ρ) (id : ℕ) (statement : Stmt) : Prop :=
  ∃ sql values, s.calls[id]? = some (sql, values) ∧
    driver.statements (driver.format sql (values.getD [])) = [statement]

def Once (driver : SqlDriver ν Stmt) (s : BatcherState ν Stmt ρ) (id : ℕ) (result : Option ρ) : Prop :=
  ∃ statement value, result = some value ∧ OwnStatement driver s id statement ∧
    logOf s id = [⟨some id, statement, value⟩]

def SettledWell (driver : SqlDriver ν Stmt) (s : BatcherState ν Stmt ρ) (entry : ℕ × CallOutcome ρ) : Prop :=
  match entry.2 with
  | .resolved result => Once driver s entry.1 result
  | .rejected _ => (logOf s entry.1).length ≤ 1

def PhaseWell (driver : SqlDriver ν Stmt) (s : BatcherState ν Stmt ρ) (id : ℕ) : ItemPhase ρ → Prop
  | .settled (.ok result) => Once driver s id result
  | .settled (.error _) => (logOf s id).length ≤ 1
  | _ => logOf s id = []

/-- What a transaction has done: the statements of its batch in order, and nothing for other calls. -/
def PendingWell (driver : SqlDriver ν Stmt) (s : BatcherState ν Stmt ρ) (batch : List ℕ)
    (pending : List (Application Stmt ρ)) : Prop :=
  ∃ own rest, pending = own ++ rest ∧
    List.Forall₂ (fun id application => application.call = some id ∧ OwnStatement driver s id application.statement)
      batch own ∧
    ∀ application ∈ rest, application.call = none

def owed : BatcherCall ν Stmt ρ → Multiset ℕ
  | .acquires batch _ | .begins batch | .queries batch | .commits batch _ | .rollsBack batch _ | .fallsBack batch _ =>
      (batch : Multiset ℕ)
  | _ => 0

/-- What holds of a flush, by where it is. -/
def FitsFlush (driver : SqlDriver ν Stmt) (s : BatcherState ν Stmt ρ) : BatcherCall ν Stmt ρ → Prop
  | .query sql values => ∃ statement, OneStatement driver sql (values.getD []) statement
  | .acquires batch _ | .begins batch | .queries batch => batch ≠ [] ∧ ∀ id ∈ batch, logOf s id = []
  | .commits batch pending => (∀ id ∈ batch, logOf s id = []) ∧ PendingWell driver s batch pending
  | .rollsBack batch _ => ∀ id ∈ batch, logOf s id = []
  | .fallsBack batch items => List.Forall₂ (PhaseWell driver s) batch items
  | _ => True

/-- Each call is in one place, and has had what its place says. -/
structure BatcherHolds (driver : SqlDriver ν Stmt) (options : BatcherOptions) (s : BatcherState ν Stmt ρ)
    (rest : Multiset ℕ) : Prop where
  whole : ((s.settled.map (·.1) : List ℕ) : Multiset ℕ) + (s.queue : Multiset ℕ) + rest = Multiset.range s.calls.length
  calls : ∀ call ∈ s.calls, ∃ statement, OneStatement driver call.1 (call.2.getD []) statement
  queued : ∀ id ∈ s.queue, logOf s id = []
  settled : ∀ entry ∈ s.settled, SettledWell driver s entry
  known : ∀ application ∈ s.applied, ∀ id, application.call = some id → id < s.calls.length
  closed : s.leftOpen = []
  short : s.queue.length < options.maxBatchSize
  timed : s.queue ≠ [] → 0 < s.timeouts

section Texts

variable {driver : SqlDriver ν Stmt} {s : BatcherState ν Stmt ρ}

theorem batchText_single (id : ℕ) :
    s.batchText [id] = stripSemicolons (s.sqlOf id) ++ ';' :: " SELECT 1".toList := by
  simp [batchText]

theorem batchText_cons (id second : ℕ) (rest : List ℕ) :
    s.batchText (id :: second :: rest) = stripSemicolons (s.sqlOf id) ++ ';' :: s.batchText (second :: rest) := by
  simp [batchText, List.intercalate]

theorem batch_statements (lawful : LawfulDriver driver) {batch : List ℕ} (nonempty : batch ≠ [])
    (single : ∀ id ∈ batch, ∃ statement, OneStatement driver (s.sqlOf id) (s.valuesOf id) statement) :
    ∃ own probe, driver.statements (driver.format (s.batchText batch) (s.batchValues batch)) = own ++ [probe] ∧
      List.Forall₂ (fun id statement =>
        driver.statements (driver.format (s.sqlOf id) (s.valuesOf id)) = [statement]) batch own := by
  induction batch with
  | nil => exact absurd rfl nonempty
  | cons id rest ih =>
      obtain ⟨statement, one⟩ := single id List.mem_cons_self
      have first : ∀ text values, driver.statements (driver.format (stripSemicolons (s.sqlOf id) ++ ';' :: text)
          (s.valuesOf id ++ values)) = statement :: driver.statements (driver.format text values) := by
        intro text values
        rw [lawful.formats _ _ _ _ one.complete one.placeholders, lawful.splits _ _ _ one.complete one.placeholders,
          one.stripped]
        rfl
      cases rest with
      | nil =>
          obtain ⟨probe, isProbe⟩ := lawful.probe
          refine ⟨[statement], probe, ?_, .cons one.whole .nil⟩
          rw [batchText_single, show s.batchValues [id] = s.valuesOf id ++ [] by simp [batchValues], first, isProbe]
          rfl
      | cons second others =>
          obtain ⟨own, probe, same, aligned⟩ := ih (List.cons_ne_nil _ _)
            fun other member => single other (List.mem_cons_of_mem _ member)
          refine ⟨statement :: own, probe, ?_, .cons one.whole aligned⟩
          rw [batchText_cons, show s.batchValues (id :: second :: others) =
            s.valuesOf id ++ s.batchValues (second :: others) by simp [batchValues], first, same]
          rfl

end Texts

section Transactions

variable {driver : SqlDriver ν Stmt} {s s' : BatcherState ν Stmt ρ} {batch : List ℕ}

theorem applications_aligned {R : ℕ → Stmt → Prop} {probe : Stmt} (front : List ℕ) {back : List ℕ} {own : List Stmt}
    (aligned : List.Forall₂ R back own) {results : List ρ} (sameLength : results.length = own.length + 1) :
    ∃ applied last, (((own ++ [probe]).zip results).zipIdx front.length).map
        (fun (answer, place) => (⟨(front ++ back)[place]?, answer.1, answer.2⟩ : Application Stmt ρ)) = applied ++ [last] ∧
      List.Forall₂ (fun id (application : Application Stmt ρ) => application.call = some id ∧ R id application.statement)
        back applied ∧
      last.call = none := by
  induction aligned generalizing front results with
  | nil =>
      obtain ⟨result, rfl⟩ := List.length_eq_one_iff.mp sameLength
      refine ⟨[], ⟨none, probe, result⟩, ?_, .nil, rfl⟩
      simp
  | @cons id statement rest statements own _ ih =>
      obtain ⟨result, others, rfl⟩ : ∃ result others, results = result :: others :=
        List.exists_cons_of_length_eq_add_one sameLength
      have lengths : others.length = statements.length + 1 := by simpa using sameLength
      obtain ⟨applied, last, same, alignedRest, isLast⟩ := ih (front ++ [id]) lengths
      refine ⟨⟨some id, statement, result⟩ :: applied, last, ?_, .cons ⟨rfl, own⟩ alignedRest, isLast⟩
      simp only [List.length_append, List.length_singleton, List.append_assoc, List.singleton_append] at same
      simp only [List.cons_append, List.zip_cons_cons, List.zipIdx_cons, List.map_cons, same]
      simp

theorem filter_aligned {P : ℕ → Application Stmt ρ → Prop} {own : List (Application Stmt ρ)}
    (aligned : List.Forall₂ (fun id application => application.call = some id ∧ P id application) batch own)
    (once : batch.Nodup) :
    (∀ id, id ∉ batch → own.filter (·.call = some id) = []) ∧
      ∀ (place : ℕ) (id : ℕ), batch[place]? = some id → ∃ application, own[place]? = some application ∧ P id application ∧
        application.call = some id ∧ own.filter (·.call = some id) = [application] := by
  induction aligned with
  | nil => exact ⟨fun _ _ => rfl, fun place id found => by simp at found⟩
  | @cons first application rest others holds _ ih =>
      obtain ⟨notInRest, onceRest⟩ := List.nodup_cons.mp once
      obtain ⟨outside, inside⟩ := ih onceRest
      refine ⟨fun id notIn => ?_, fun place id found => ?_⟩
      · obtain ⟨differs, notInOthers⟩ := not_or.mp (mt List.mem_cons.mpr notIn)
        rw [List.filter_cons_of_neg (by simpa [holds.1] using fun same => differs same.symm), outside id notInOthers]
      · cases place with
        | zero =>
            obtain rfl : first = id := by simpa using found
            refine ⟨application, rfl, holds.2, holds.1, ?_⟩
            rw [List.filter_cons_of_pos (by simp [holds.1]), outside first notInRest]
        | succ place =>
            have foundRest : rest[place]? = some id := by simpa using found
            obtain ⟨other, isOther, isP, isCall, filtered⟩ := inside place id foundRest
            refine ⟨other, by simpa using isOther, isP, isCall, ?_⟩
            have differs : first ≠ id := by
              rintro rfl
              exact notInRest (List.mem_of_getElem? foundRest)
            rw [List.filter_cons_of_neg (by simpa [holds.1] using differs), filtered]

theorem logOf_append (s : BatcherState ν Stmt ρ) (more : List (Application Stmt ρ)) (id : ℕ) :
    logOf { s with applied := s.applied ++ more } id = logOf s id ++ more.filter (·.call = some id) :=
  List.filter_append _ _

theorem PendingWell.committed {pending : List (Application Stmt ρ)} (well : PendingWell driver s batch pending)
    (once : batch.Nodup) :
    (∀ id, id ∉ batch → pending.filter (·.call = some id) = []) ∧
      ∀ (place : ℕ) (id : ℕ), batch[place]? = some id → ∃ application, pending[place]? = some application ∧
        application.call = some id ∧ OwnStatement driver s id application.statement ∧
        pending.filter (·.call = some id) = [application] := by
  obtain ⟨own, rest, rfl, aligned, nobody⟩ := well
  have noRest : ∀ id, rest.filter (·.call = some id) = [] := by
    intro id
    rw [List.filter_eq_nil_iff]
    intro application member
    simp [nobody application member]
  obtain ⟨outside, inside⟩ := filter_aligned aligned once
  refine ⟨fun id notIn => ?_, fun place id found => ?_⟩
  · rw [List.filter_append, outside id notIn, noRest]
    rfl
  · obtain ⟨application, isThere, isOwn, isCall, filtered⟩ := inside place id found
    refine ⟨application, ?_, isCall, isOwn, ?_⟩
    · obtain ⟨inBounds, same⟩ := List.getElem?_eq_some_iff.mp isThere
      rw [List.getElem?_append_left inBounds, isThere]
    · rw [List.filter_append, filtered, noRest]
      rfl

theorem OwnStatement.later {id : ℕ} {statement : Stmt} (own : OwnStatement driver s id statement)
    (calls : s.calls <+: s'.calls) : OwnStatement driver s' id statement := by
  obtain ⟨sql, values, isCall, reads⟩ := own
  obtain ⟨more, same⟩ := calls
  obtain ⟨inBounds, -⟩ := List.getElem?_eq_some_iff.mp isCall
  exact ⟨sql, values, by rw [← same, List.getElem?_append_left inBounds, isCall], reads⟩

theorem Once.later {id : ℕ} {result : Option ρ} (once : Once driver s id result) (calls : s.calls <+: s'.calls)
    (log : logOf s' id = logOf s id) : Once driver s' id result := by
  obtain ⟨statement, value, isResult, own, applied⟩ := once
  exact ⟨statement, value, isResult, own.later calls, log.trans applied⟩

theorem SettledWell.later {entry : ℕ × CallOutcome ρ} (well : SettledWell driver s entry)
    (calls : s.calls <+: s'.calls) (log : logOf s' entry.1 = logOf s entry.1) : SettledWell driver s' entry := by
  obtain ⟨id, outcome⟩ := entry
  cases outcome with
  | resolved result => exact Once.later well calls log
  | rejected reason => exact (congrArg List.length log).trans_le well

theorem PhaseWell.later {id : ℕ} {phase : ItemPhase ρ} (well : PhaseWell driver s id phase)
    (calls : s.calls <+: s'.calls) (log : logOf s' id = logOf s id) : PhaseWell driver s' id phase := by
  cases phase with
  | settled outcome =>
      cases outcome with
      | ok result => exact Once.later well calls log
      | error error => exact (congrArg List.length log).trans_le well
  | waiting => exact log.trans well
  | acquires retries attempt => exact log.trans well
  | queries retries => exact log.trans well

theorem forall₂_of_mem {α β : Type} {R R' : α → β → Prop} {as : List α} {bs : List β} (aligned : List.Forall₂ R as bs)
    (implies : ∀ a ∈ as, ∀ b, R a b → R' a b) : List.Forall₂ R' as bs := by
  induction aligned with
  | nil => exact .nil
  | cons holds _ ih =>
      exact .cons (implies _ List.mem_cons_self _ holds)
        (ih fun a member => implies a (List.mem_cons_of_mem _ member))

theorem FitsFlush.later {call : BatcherCall ν Stmt ρ} (fits : FitsFlush driver s call) (calls : s.calls <+: s'.calls)
    (log : ∀ id ∈ owed call, logOf s' id = logOf s id) : FitsFlush driver s' call := by
  cases call with
  | query sql values => exact fits
  | timerFires => trivial
  | elapse ms => trivial
  | reusesConnection => trivial
  | acquires batch attempt => exact ⟨fits.1, fun id member => (log id member).trans (fits.2 id member)⟩
  | begins batch => exact ⟨fits.1, fun id member => (log id member).trans (fits.2 id member)⟩
  | queries batch => exact ⟨fits.1, fun id member => (log id member).trans (fits.2 id member)⟩
  | rollsBack batch pending => exact fun id member => (log id member).trans (fits id member)
  | fallsBack batch items => exact forall₂_of_mem fits fun id member phase well => well.later calls (log id member)
  | commits batch pending =>
      obtain ⟨untouched, own, rest, isPending, aligned, nobody⟩ := fits
      refine ⟨fun id member => (log id member).trans (untouched id member), own, rest, isPending, ?_, nobody⟩
      exact forall₂_of_mem aligned fun id _ application both => ⟨both.1, both.2.later calls⟩

end Transactions

section Steps

variable {driver : SqlDriver ν Stmt} {options : BatcherOptions} {s s' : BatcherState ν Stmt ρ}
  {call : BatcherCall ν Stmt ρ} {next : Option (BatcherCall ν Stmt ρ)}

/-- What a step of a flush does: nothing for the calls of others, and each of its own is settled or stays with it. -/
structure Serves (driver : SqlDriver ν Stmt) (s s' : BatcherState ν Stmt ρ) (call : BatcherCall ν Stmt ρ)
    (next : Option (BatcherCall ν Stmt ρ)) : Prop where
  calls : s'.calls = s.calls
  queue : s'.queue = s.queue
  timeouts : s'.timeouts = s.timeouts
  closed : s'.leftOpen = s.leftOpen
  log : ∀ id, id ∉ owed call → logOf s' id = logOf s id
  known : ∀ application ∈ s'.applied, ∀ id, application.call = some id → application ∈ s.applied ∨ id ∈ owed call
  settled : ∃ outcomes, s'.settled = outcomes ++ s.settled ∧
    ((outcomes.map (·.1) : List ℕ) : Multiset ℕ) + weight owed next.toList = owed call ∧
    ∀ entry ∈ outcomes, SettledWell driver s' entry
  fits : ∀ other, next = some other → FitsFlush driver s' other

theorem Serves.stays {other : BatcherCall ν Stmt ρ} (same : owed other = owed call) (fits : FitsFlush driver s other) :
    Serves driver s s call (some other) where
  calls := rfl
  queue := rfl
  timeouts := rfl
  closed := rfl
  log := fun _ _ => rfl
  known := fun _ member _ _ => .inl member
  settled := ⟨[], rfl, by simp [same], fun _ member => nomatch member⟩
  fits := by
    rintro _ ⟨⟩
    exact fits

theorem mem_weight {others : List (BatcherCall ν Stmt ρ)} {other : BatcherCall ν Stmt ρ} (member : other ∈ others)
    {id : ℕ} (isOwed : id ∈ owed other) : id ∈ weight owed others := by
  induction others with
  | nil => cases member
  | cons first rest ih =>
      rw [weight_cons, Multiset.mem_add]
      obtain rfl | inRest := List.mem_cons.mp member
      · exact .inl isOwed
      · exact .inr (ih inRest)

theorem BatcherHolds.apart {others : Multiset ℕ} {mine : Multiset ℕ} (holds : BatcherHolds driver options s (mine + others)) :
    mine.Nodup ∧ ∀ id ∈ mine, id < s.calls.length ∧ id ∉ s.settled.map (·.1) ∧ id ∉ s.queue ∧ id ∉ others := by
  have once : (((s.settled.map (·.1) : List ℕ) : Multiset ℕ) + (s.queue : Multiset ℕ) + (mine + others)).Nodup := by
    rw [holds.whole]
    exact Multiset.nodup_range _
  obtain ⟨-, onceFlushes, apart⟩ := Multiset.nodup_add.mp once
  obtain ⟨onceMine, -, apartFlushes⟩ := Multiset.nodup_add.mp onceFlushes
  refine ⟨onceMine, fun id isMine => ⟨?_, fun isSettled => ?_, fun isQueued => ?_, fun isOther => ?_⟩⟩
  · rw [← Multiset.mem_range, ← holds.whole]
    exact Multiset.mem_add.mpr (.inr (Multiset.mem_add.mpr (.inl isMine)))
  · exact Multiset.disjoint_left.mp apart (Multiset.mem_add.mpr (.inl isSettled)) (Multiset.mem_add.mpr (.inl isMine))
  · exact Multiset.disjoint_left.mp apart (Multiset.mem_add.mpr (.inr isQueued)) (Multiset.mem_add.mpr (.inl isMine))
  · exact Multiset.disjoint_left.mp apartFlushes isMine isOther

theorem Serves.kept {others : List (BatcherCall ν Stmt ρ)} (serves : Serves driver s s' call next)
    (holds : BatcherHolds driver options s (owed call + weight owed others)) (fits : ∀ other ∈ others, FitsFlush driver s other) :
    (∀ other ∈ others, FitsFlush driver s' other) ∧ (∀ other, next = some other → FitsFlush driver s' other) ∧
      BatcherHolds driver options s' (weight owed next.toList + weight owed others) := by
  obtain ⟨-, apart⟩ := holds.apart
  obtain ⟨outcomes, isSettled, shares, well⟩ := serves.settled
  have sameCalls : s.calls <+: s'.calls := serves.calls ▸ List.prefix_rfl
  have elsewhere : ∀ id, id ∈ s.settled.map (·.1) ∨ id ∈ s.queue ∨ id ∈ weight owed others → logOf s' id = logOf s id := by
    intro id place
    refine serves.log id fun isOwed => ?_
    obtain ⟨-, notSettled, notQueued, notOthers⟩ := apart id isOwed
    obtain inSettled | inQueue | inOthers := place
    · exact notSettled inSettled
    · exact notQueued inQueue
    · exact notOthers inOthers
  refine ⟨fun other member => ?_, serves.fits, ?_⟩
  · exact (fits other member).later sameCalls fun id isOwed => elsewhere id (.inr (.inr (mem_weight member isOwed)))
  · exact {
      whole := by
        rw [isSettled, serves.queue, serves.calls, ← holds.whole, ← shares, List.map_append, ← Multiset.coe_add]
        abel
      calls := serves.calls ▸ holds.calls
      queued := fun id member => by
        rw [serves.queue] at member
        exact (elsewhere id (.inr (.inl member))).trans (holds.queued id member)
      settled := fun entry member => by
        rw [isSettled] at member
        obtain isNew | isOld := List.mem_append.mp member
        · exact well entry isNew
        · exact (holds.settled entry isOld).later sameCalls
            (elsewhere entry.1 (.inl (List.mem_map_of_mem (f := (·.1)) isOld)))
      known := fun application member id isCall => by
        rw [serves.calls]
        obtain isOld | isOwed := serves.known application member id isCall
        · exact holds.known application isOld id isCall
        · exact (apart id isOwed).1
      closed := serves.closed.trans holds.closed
      short := by
        rw [serves.queue]
        exact holds.short
      timed := by
        rw [serves.queue, serves.timeouts]
        exact holds.timed }

theorem BatcherHolds.own {rest : Multiset ℕ} (holds : BatcherHolds driver options s rest) {id : ℕ} (known : id < s.calls.length) :
    (∃ statement, OneStatement driver (s.sqlOf id) (s.valuesOf id) statement) ∧
      ∀ statement, driver.statements (driver.format (s.sqlOf id) (s.valuesOf id)) = [statement] →
        OwnStatement driver s id statement := by
  obtain ⟨⟨sql, values⟩, isCall⟩ : ∃ made, s.calls[id]? = some made := ⟨_, List.getElem?_eq_getElem known⟩
  have sameSql : s.sqlOf id = sql := by rw [sqlOf, isCall]; rfl
  have sameValues : s.valuesOf id = values.getD [] := by rw [valuesOf, isCall]; rfl
  rw [sameSql, sameValues]
  exact ⟨holds.calls _ (List.mem_of_getElem? isCall), fun statement reads => ⟨sql, values, isCall, reads⟩⟩

theorem perform_acquires {batch : List ℕ} {attempt : ℕ} {event : DbEvent ρ} (failed : event ≠ .succeeds) :
    (BatcherCall.acquires batch attempt).perform driver options s event =
      if attempt < acquireAttempts then (s, some (.acquires batch (attempt + 1)))
      else
        ({ s.settle (rejectAll batch .connAcquire) with
          consecutiveFailures := s.consecutiveFailures + 1
          lastFailureAt := s.clock }, none) := by
  cases event with
  | succeeds => exact absurd rfl failed
  | fails => rfl
  | answers results => rfl
  | breaksOff results committed => rfl
  | commitsUnacknowledged => rfl
  | staysOpen => rfl
  | item index event => rfl

theorem acquires_serves {batch : List ℕ} {attempt : ℕ} (fits : FitsFlush driver s (.acquires batch attempt))
    (event : DbEvent ρ) :
    Serves driver s ((BatcherCall.acquires batch attempt).perform driver options s event).1 (.acquires batch attempt)
      ((BatcherCall.acquires batch attempt).perform driver options s event).2 := by
  by_cases connected : event = .succeeds
  · subst connected
    exact Serves.stays rfl fits
  · rw [perform_acquires connected]
    split
    · exact Serves.stays rfl fits
    · exact {
        calls := rfl
        queue := rfl
        timeouts := rfl
        closed := rfl
        log := fun _ _ => rfl
        known := fun _ member _ _ => .inl member
        settled := by
          refine ⟨rejectAll batch .connAcquire, rfl, ?_, fun entry member => ?_⟩
          · simp [rejectAll, owed, Function.comp_def]
          · obtain ⟨id, isMine, rfl⟩ := List.mem_map.mp member
            exact (congrArg List.length (fits.2 id isMine)).trans_le (Nat.zero_le 1)
        fits := fun _ isNext => nomatch isNext }

theorem begins_serves {batch : List ℕ} (fits : FitsFlush driver s (.begins batch)) (event : DbEvent ρ) :
    Serves driver s ((BatcherCall.begins batch).perform driver options s event).1 (.begins batch)
      ((BatcherCall.begins batch).perform driver options s event).2 := by
  cases event with
  | succeeds => exact Serves.stays rfl fits
  | fails => exact Serves.stays rfl fits.2
  | answers results => exact Serves.stays rfl fits.2
  | breaksOff results committed => exact Serves.stays rfl fits.2
  | commitsUnacknowledged => exact Serves.stays rfl fits.2
  | staysOpen => exact Serves.stays rfl fits.2
  | item index event => exact Serves.stays rfl fits.2

theorem pendingWell_answers (lawful : LawfulDriver driver) {rest : Multiset ℕ} {batch : List ℕ}
    (holds : BatcherHolds driver options s ((batch : Multiset ℕ) + rest)) (nonempty : batch ≠ []) {results : List ρ}
    (answered : results.length =
      (driver.statements (driver.format (s.batchText batch) (s.batchValues batch))).length) :
    PendingWell driver s batch
      (applications batch (driver.statements (driver.format (s.batchText batch) (s.batchValues batch))) results) := by
  obtain ⟨-, apart⟩ := holds.apart
  obtain ⟨own, probe, same, aligned⟩ := batch_statements lawful nonempty fun id member => (holds.own (apart id member).1).1
  rw [same] at answered ⊢
  obtain ⟨applied, last, isApplied, alignedApplied, nobody⟩ :=
    @applications_aligned _ _ _ probe [] _ _ aligned _ (by simpa using answered)
  refine ⟨applied, [last], isApplied, ?_, fun application member => ?_⟩
  · exact forall₂_of_mem alignedApplied fun id member _ both => ⟨both.1, (holds.own (apart id member).1).2 _ both.2⟩
  · rw [List.mem_singleton.mp member, nobody]

theorem queries_serves (lawful : LawfulDriver driver) {rest : Multiset ℕ} {batch : List ℕ}
    (holds : BatcherHolds driver options s ((batch : Multiset ℕ) + rest)) (fits : FitsFlush driver s (.queries batch))
    {event : DbEvent ρ} (permitted : DriverSound options event) :
    Serves driver s ((BatcherCall.queries batch).perform driver options s event).1 (.queries batch)
      ((BatcherCall.queries batch).perform driver options s event).2 := by
  cases event with
  | answers results =>
      rw [BatcherCall.perform]
      split
      · next answered => exact Serves.stays rfl ⟨fits.2, pendingWell_answers lawful holds fits.1 answered⟩
      · exact Serves.stays rfl fits
  | breaksOff results committed =>
      obtain rfl : committed = 0 := permitted
      rw [BatcherCall.perform, List.take_zero, List.append_nil]
      exact Serves.stays rfl fits.2
  | succeeds => exact Serves.stays rfl fits.2
  | fails => exact Serves.stays rfl fits.2
  | commitsUnacknowledged => exact Serves.stays rfl fits.2
  | staysOpen => exact Serves.stays rfl fits.2
  | item index event => exact Serves.stays rfl fits.2

theorem commits_serves {rest : Multiset ℕ} {batch : List ℕ} {pending : List (Application Stmt ρ)}
    (holds : BatcherHolds driver options s ((batch : Multiset ℕ) + rest)) (fits : FitsFlush driver s (.commits batch pending))
    {event : DbEvent ρ} (permitted : DriverSound options event) :
    Serves driver s ((BatcherCall.commits batch pending).perform driver options s event).1 (.commits batch pending)
      ((BatcherCall.commits batch pending).perform driver options s event).2 := by
  obtain ⟨untouched, well⟩ := fits
  obtain ⟨outside, inside⟩ := well.committed (Multiset.coe_nodup.mp holds.apart.1)
  cases event with
  | succeeds =>
      exact {
        calls := rfl
        queue := rfl
        timeouts := rfl
        closed := rfl
        log := fun id notMine => (logOf_append s pending id).trans (by rw [outside id notMine, List.append_nil])
        known := fun application member id isCall => by
          obtain isOld | isNew := List.mem_append.mp member
          · exact .inl isOld
          · refine .inr (by_contra fun notMine => ?_)
            have among : application ∈ pending.filter (·.call = some id) :=
              List.mem_filter.mpr ⟨isNew, decide_eq_true isCall⟩
            rw [outside id notMine] at among
            cases among
        settled := by
          refine ⟨batch.zipIdx.map fun call => (call.1, .resolved (pending[call.2]?.map (·.result))), rfl, ?_, ?_⟩
          · refine (add_zero _).trans ?_
            simp [owed, Function.comp_def]
          · intro entry member
            obtain ⟨⟨id, place⟩, isPlace, rfl⟩ := List.mem_map.mp member
            have found : batch[place]? = some id := List.mem_zipIdx_iff_getElem?.mp isPlace
            obtain ⟨application, isThere, isCall, isOwn, filtered⟩ := inside place id found
            refine ⟨application.statement, application.result, by simp [isThere], isOwn, ?_⟩
            refine (logOf_append s pending id).trans ?_
            rw [untouched id (List.mem_of_getElem? found), filtered, ← isCall]
            rfl
        fits := by rintro _ ⟨⟩ }
  | commitsUnacknowledged => exact permitted.elim
  | fails => exact Serves.stays rfl untouched
  | answers results => exact Serves.stays rfl untouched
  | breaksOff results committed => exact Serves.stays rfl untouched
  | staysOpen => exact Serves.stays rfl untouched
  | item index event => exact Serves.stays rfl untouched

theorem waiting_well {batch : List ℕ} (untouched : ∀ id ∈ batch, logOf s id = []) :
    List.Forall₂ (PhaseWell driver s) batch (batch.map fun _ => (.waiting : ItemPhase ρ)) := by
  induction batch with
  | nil => exact .nil
  | cons id rest ih =>
      exact .cons (untouched id List.mem_cons_self)
        (ih fun other member => untouched other (List.mem_cons_of_mem _ member))

theorem rollsBack_serves {batch : List ℕ} {pending : List (Application Stmt ρ)}
    (fits : FitsFlush driver s (.rollsBack batch pending)) {event : DbEvent ρ} (permitted : DriverSound options event) :
    Serves driver s ((BatcherCall.rollsBack batch pending).perform driver options s event).1 (.rollsBack batch pending)
      ((BatcherCall.rollsBack batch pending).perform driver options s event).2 := by
  have starts : Serves driver s s (.rollsBack batch pending) (some (.fallsBack batch (batch.map fun _ => .waiting))) :=
    Serves.stays rfl (waiting_well fits)
  cases event with
  | staysOpen => exact permitted.elim
  | succeeds => exact starts
  | fails => exact starts
  | answers results => exact starts
  | breaksOff results committed => exact starts
  | commitsUnacknowledged => exact starts
  | item index event => exact starts

def ItemServes (driver : SqlDriver ν Stmt) (s : BatcherState ν Stmt ρ) (id : ℕ)
    (after : BatcherState ν Stmt ρ × ItemPhase ρ) : Prop :=
  ∃ more, after.1 = { s with applied := s.applied ++ more } ∧ (∀ application ∈ more, application.call = some id) ∧
    PhaseWell driver { s with applied := s.applied ++ more } id after.2

theorem ItemServes.stays {id : ℕ} {phase : ItemPhase ρ} (well : PhaseWell driver s id phase) :
    ItemServes driver s id (s, phase) := by
  refine ⟨[], by simp, fun application member => (nomatch member), ?_⟩
  simpa using well

theorem untouched_le {id : ℕ} (untouched : logOf s id = []) : (logOf s id).length ≤ 1 := by
  simp [untouched]

theorem runFallbackItem_well {id : ℕ} {statement : Stmt}
    (reads : driver.statements (driver.format (s.sqlOf id) (s.valuesOf id)) = [statement])
    (own : OwnStatement driver s id statement) {phase : ItemPhase ρ} (well : PhaseWell driver s id phase)
    (mayStart : Bool) {event : ItemEvent ρ} {index : ℕ} (permitted : DriverSound options (.item index event)) :
    ItemServes driver s id (runFallbackItem driver options s id mayStart phase event) := by
  cases phase with
  | settled outcome => exact ItemServes.stays well
  | waiting =>
      cases event with
      | starts =>
          rw [runFallbackItem]
          split
          · exact ItemServes.stays well
          · exact ItemServes.stays well
      | connected => exact ItemServes.stays well
      | refused error => exact ItemServes.stays well
      | answers results => exact ItemServes.stays well
      | fails error results => exact ItemServes.stays well
  | acquires retries attempt =>
      cases event with
      | connected => exact ItemServes.stays well
      | refused error =>
          rw [runFallbackItem]
          split
          · exact ItemServes.stays well
          · exact ItemServes.stays (untouched_le well)
      | starts => exact ItemServes.stays well
      | answers results => exact ItemServes.stays well
      | fails error results => exact ItemServes.stays well
  | queries retries =>
      have untouched : logOf s id = [] := well
      cases event with
      | answers results =>
          simp only [runFallbackItem, reads]
          split
          · next answered =>
            obtain ⟨result, rfl⟩ := List.length_eq_one_iff.mp answered
            refine ⟨[⟨some id, statement, result⟩], rfl, fun application member => ?_, statement, result, rfl, own, ?_⟩
            · rw [List.mem_singleton.mp member]
            · rw [logOf_append, untouched]
              simp
          · exact ItemServes.stays well
      | fails error results =>
          simp only [runFallbackItem, reads]
          refine ⟨_, rfl, fun application member => ?_, ?_⟩
          · obtain ⟨answer, -, rfl⟩ := List.mem_map.mp member
            rfl
          · split
            · next retried =>
              -- what is run again had no effect
              obtain rfl : results = [] := permitted retried.1
              simpa [PhaseWell] using untouched
            · refine (congrArg List.length (logOf_append s _ id)).trans_le ?_
              rw [untouched, List.nil_append]
              refine (List.length_filter_le _ _).trans ?_
              rw [List.length_map, List.length_zip]
              exact Nat.min_le_left _ _
      | starts => exact ItemServes.stays well
      | connected => exact ItemServes.stays well
      | refused error => exact ItemServes.stays well

theorem forall₂_getElem {α β : Type} {R : α → β → Prop} {as : List α} {bs : List β} (aligned : List.Forall₂ R as bs)
    {index : ℕ} {a : α} {b : β} (isA : as[index]? = some a) (isB : bs[index]? = some b) : R a b := by
  induction aligned generalizing index with
  | nil => simp at isA
  | cons holds _ ih =>
      cases index with
      | zero =>
          obtain rfl := Option.some.inj isA
          obtain rfl := Option.some.inj isB
          exact holds
      | succ index => exact ih (by simpa using isA) (by simpa using isB)

theorem forall₂_set {α β : Type} {R R' : α → β → Prop} {as : List α} {bs : List β} (aligned : List.Forall₂ R as bs)
    (once : as.Nodup) {index : ℕ} {a : α} {b : β} (isA : as[index]? = some a) (holds : R' a b)
    (others : ∀ other ∈ as, other ≠ a → ∀ b, R other b → R' other b) : List.Forall₂ R' as (bs.set index b) := by
  induction aligned generalizing index with
  | nil => simp at isA
  | @cons first _ rest _ holdsFirst alignedRest ih =>
      obtain ⟨notInRest, onceRest⟩ := List.nodup_cons.mp once
      cases index with
      | zero =>
          obtain rfl := Option.some.inj isA
          refine .cons holds (forall₂_of_mem alignedRest fun other member b => ?_)
          refine others other (List.mem_cons_of_mem _ member) ?_ b
          rintro rfl
          exact notInRest member
      | succ index =>
          have isLater : rest[index]? = some a := by simpa using isA
          refine .cons (others first List.mem_cons_self ?_ _ holdsFirst) (ih onceRest isLater
            fun other member => others other (List.mem_cons_of_mem _ member))
          rintro rfl
          exact notInRest (List.mem_of_getElem? isLater)

theorem itemOutcomes_some {items : List (ItemPhase ρ)} {outcomes : List (Except DbError (Option ρ))}
    (ended : itemOutcomes items = some outcomes) : items = outcomes.map .settled := by
  induction items generalizing outcomes with
  | nil =>
      obtain rfl := Option.some.inj ended
      rfl
  | cons phase items ih =>
      cases phase with
      | settled outcome =>
          obtain ⟨others, isOthers, rfl⟩ := Option.map_eq_some_iff.mp ended
          rw [ih isOthers]
          rfl
      | waiting => cases ended
      | acquires retries attempt => cases ended
      | queries retries => cases ended

theorem settleItems_serves {batch : List ℕ} {outcomes : List (Except DbError (Option ρ))}
    (well : List.Forall₂ (PhaseWell driver s) batch (outcomes.map .settled)) :
    Serves driver s (settleItems s batch outcomes) (.fallsBack batch (outcomes.map .settled)) none where
  calls := rfl
  queue := rfl
  timeouts := rfl
  closed := rfl
  log := fun _ _ => rfl
  known := fun _ member _ _ => .inl member
  settled := by
    have lengths : batch.length = (outcomes.map outcomeOf : List (CallOutcome ρ)).length := by
      rw [well.length_eq, List.length_map, List.length_map]
    refine ⟨batch.zip (outcomes.map outcomeOf), rfl, ?_, fun entry member => ?_⟩
    · refine (add_zero _).trans ?_
      rw [List.map_fst_zip lengths.le]
      rfl
    · rw [List.zip_map_right] at member
      obtain ⟨⟨id, outcome⟩, isPair, rfl⟩ := List.mem_map.mp member
      have settledWell : PhaseWell driver s id (.settled outcome) := by
        refine List.forall₂_zip well ?_
        rw [List.zip_map_right]
        exact List.mem_map_of_mem (f := Prod.map (fun i => i) ItemPhase.settled) isPair
      cases outcome with
      | ok result => exact settledWell
      | error error => exact settledWell
  fits := fun _ isNext => nomatch isNext

theorem fallsBack_serves {rest : Multiset ℕ} {batch : List ℕ} {items : List (ItemPhase ρ)}
    (holds : BatcherHolds driver options s ((batch : Multiset ℕ) + rest)) (fits : FitsFlush driver s (.fallsBack batch items))
    {event : DbEvent ρ} (permitted : DriverSound options event) :
    Serves driver s ((BatcherCall.fallsBack batch items).perform driver options s event).1 (.fallsBack batch items)
      ((BatcherCall.fallsBack batch items).perform driver options s event).2 := by
  have settles : Serves driver s ((BatcherCall.fallsBack batch items).perform driver options s .succeeds).1
      (.fallsBack batch items) ((BatcherCall.fallsBack batch items).perform driver options s .succeeds).2 := by
    simp only [BatcherCall.perform]
    split
    · next outcomes ended =>
      obtain rfl := itemOutcomes_some ended
      exact settleItems_serves fits
    · exact Serves.stays rfl fits
  cases event with
  | item index event =>
      rw [BatcherCall.perform]
      split
      · next id phase isId isPhase =>
        obtain ⟨once, apart⟩ := holds.apart
        have isMine : id ∈ batch := List.mem_of_getElem? isId
        obtain ⟨⟨statement, one⟩, own⟩ := holds.own (apart id isMine).1
        obtain ⟨more, isAfter, mine, well⟩ := runFallbackItem_well one.whole (own statement one.whole)
          (forall₂_getElem fits isId isPhase) (mayStart items index) permitted
        have spared : ∀ other, other ≠ id →
            logOf { s with applied := s.applied ++ more } other = logOf s other := by
          intro other differs
          rw [logOf_append, List.filter_eq_nil_iff.mpr, List.append_nil]
          intro application member
          simpa [mine application member] using differs.symm
        simp only [isAfter]
        exact {
          calls := rfl
          queue := rfl
          timeouts := rfl
          closed := rfl
          log := fun other notMine => spared other fun same => notMine (same ▸ isMine)
          known := fun application member other isCall => by
            obtain isOld | isNew := List.mem_append.mp member
            · exact .inl isOld
            · refine .inr ?_
              obtain rfl : id = other := Option.some.inj ((mine application isNew).symm.trans isCall)
              exact isMine
          settled := by
            refine ⟨[], rfl, ?_, fun _ member => nomatch member⟩
            simp [owed]
          fits := by
            rintro _ ⟨⟩
            exact forall₂_set fits (Multiset.coe_nodup.mp once) isId well fun other _ differs phase wellOther =>
              wellOther.later List.prefix_rfl (spared other differs) }
      · exact Serves.stays rfl fits
  | succeeds => exact settles
  | fails => exact settles
  | answers results => exact settles
  | breaksOff results committed => exact settles
  | commitsUnacknowledged => exact settles
  | staysOpen => exact settles

end Steps

end Puter

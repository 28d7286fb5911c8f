/-
Module: Puter.Database.BatchedCalls
Purpose: Batched calls fare as single statements do: over every run in which the server undoes what it does not
  acknowledge, each call is settled at most once and is applied at most once, a call that is resolved was applied
  once and has its own result, and no flush goes on for ever. A commit that takes effect without acknowledgement
  makes a call take effect twice.
Trusted boundary: the laws of the driver
Main exports: Requeues.kept, batched_calls
-/
import Puter.Database.BatchedStatements

namespace Puter

open PosixPath Interleaving BatcherState

variable {ν Stmt ρ : Type} {driver : SqlDriver ν Stmt} {options : BatcherOptions} {s s' : BatcherState ν Stmt ρ}
  {call : BatcherCall ν Stmt ρ} {next : Option (BatcherCall ν Stmt ρ)}

def rejectedAs (outcomes : List (ℕ × BatcherRejection)) : List (ℕ × CallOutcome ρ) :=
  outcomes.map fun entry => (entry.1, .rejected entry.2)

theorem rejectedAs_ids (outcomes : List (ℕ × BatcherRejection)) :
    (rejectedAs outcomes : List (ℕ × CallOutcome ρ)).map (·.1) = outcomes.map (·.1) := by
  simp [rejectedAs]

/-- What a step does that is no flush's: calls are added, taken from the queue for a flush, or rejected. -/
structure Requeues (driver : SqlDriver ν Stmt) (options : BatcherOptions) (s s' : BatcherState ν Stmt ρ)
    (next : Option (BatcherCall ν Stmt ρ)) : Prop where
  applied : s'.applied = s.applied
  closed : s'.leftOpen = s.leftOpen
  calls : ∃ more, s'.calls = s.calls ++ more ∧
    ∀ call ∈ more, ∃ statement, OneStatement driver call.1 (call.2.getD []) statement
  places : ∃ outcomes added, s'.settled = rejectedAs outcomes ++ s.settled ∧
    Multiset.range s'.calls.length = Multiset.range s.calls.length + added ∧
    (∀ id ∈ added, s.calls.length ≤ id) ∧
    ((outcomes.map (·.1) : List ℕ) : Multiset ℕ) + (s'.queue : Multiset ℕ) + weight owed next.toList =
      (s.queue : Multiset ℕ) + added
  starts : ∀ other, next = some other → ∃ batch, other = .acquires batch 1 ∧ batch ≠ []
  short : s'.queue.length < options.maxBatchSize
  timed : s'.queue ≠ [] → 0 < s'.timeouts

theorem Requeues.kept {others : List (BatcherCall ν Stmt ρ)} (requeues : Requeues driver options s s' next)
    (holds : BatcherHolds driver options s (weight owed others)) (fits : ∀ other ∈ others, FitsFlush driver s other) :
    (∀ other ∈ others, FitsFlush driver s' other) ∧ (∀ other, next = some other → FitsFlush driver s' other) ∧
      BatcherHolds driver options s' (weight owed next.toList + weight owed others) := by
  obtain ⟨more, isMore, oneStatement⟩ := requeues.calls
  obtain ⟨outcomes, added, isSettled, range, fresh, shares⟩ := requeues.places
  have log : ∀ id, logOf s' id = logOf s id := fun id => by
    rw [logOf, requeues.applied, logOf]
  have sameCalls : s.calls <+: s'.calls := ⟨more, isMore.symm⟩
  have untouched : ∀ id ∈ (s.queue : Multiset ℕ) + added, logOf s' id = [] := by
    intro id place
    rw [log]
    obtain isQueued | isNew := Multiset.mem_add.mp place
    · exact holds.queued id isQueued
    · refine List.filter_eq_nil_iff.mpr fun application member isCall => ?_
      exact absurd (holds.known application member id (of_decide_eq_true isCall)) (fresh id isNew).not_gt
  rw [← shares] at untouched
  refine ⟨fun other member => (fits other member).later sameCalls fun id _ => log id, fun other isNext => ?_, ?_⟩
  · obtain ⟨batch, rfl, nonempty⟩ := requeues.starts other isNext
    refine ⟨nonempty, fun id member => untouched id (Multiset.mem_add.mpr (.inr ?_))⟩
    rw [isNext]
    exact mem_weight (List.mem_singleton.mpr rfl) member
  · exact {
      whole := by
        rw [isSettled, range, ← holds.whole, List.map_append, rejectedAs_ids, ← Multiset.coe_add,
          add_right_comm _ _ added, add_assoc _ _ added, ← shares]
        abel
      calls := by
        rw [isMore]
        intro call member
        obtain isOld | isNew := List.mem_append.mp member
        · exact holds.calls call isOld
        · exact oneStatement call isNew
      queued := fun id member => untouched id (Multiset.mem_add.mpr (.inl (Multiset.mem_add.mpr (.inr member))))
      settled := fun entry member => by
        rw [isSettled] at member
        obtain isNew | isOld := List.mem_append.mp member
        · obtain ⟨⟨id, reason⟩, isOutcome, rfl⟩ := List.mem_map.mp isNew
          refine untouched_le (untouched id (Multiset.mem_add.mpr (.inl (Multiset.mem_add.mpr (.inl ?_)))))
          exact List.mem_map_of_mem (f := (·.1)) isOutcome
        · exact (holds.settled entry isOld).later sameCalls (log entry.1)
      known := fun application member id isCall => by
        rw [requeues.applied] at member
        exact (holds.known application member id isCall).trans_le sameCalls.length_le
      closed := requeues.closed.trans holds.closed
      short := requeues.short
      timed := requeues.timed }

theorem rejectAll_eq (ids : List ℕ) (reason : BatcherRejection) :
    (rejectAll ids reason : List (ℕ × CallOutcome ρ)) = rejectedAs (ids.map fun id => (id, reason)) := by
  simp [rejectAll, rejectedAs]

theorem flush_owes (s : BatcherState ν Stmt ρ) (batch : List ℕ) : weight owed (s.flush batch).2.toList = (batch : Multiset ℕ) := by
  simp only [flush]
  split
  · next isEmpty =>
    rw [isEmpty]
    rfl
  · exact add_zero _

theorem flush_starts (s : BatcherState ν Stmt ρ) (batch : List ℕ) (other : BatcherCall ν Stmt ρ)
    (isNext : (s.flush batch).2 = some other) : ∃ batch, other = .acquires batch 1 ∧ batch ≠ [] := by
  simp only [flush] at isNext
  split at isNext
  · cases isNext
  · next nonempty => exact ⟨batch, (Option.some.inj isNext).symm, nonempty⟩

theorem query_requeues {rest : Multiset ℕ} (holds : BatcherHolds driver options s rest) {sql : Text}
    {values : Option (List ν)} (one : ∃ statement, OneStatement driver sql (values.getD []) statement) :
    Requeues driver options s (s.query options sql values).1 (s.query options sql values).2 := by
  have calls : ∃ more, s.calls ++ [(sql, values)] = s.calls ++ more ∧
      ∀ call ∈ more, ∃ statement, OneStatement driver call.1 (call.2.getD []) statement := by
    refine ⟨_, rfl, fun call member => ?_⟩
    rw [List.mem_singleton.mp member]
    exact one
  have range : Multiset.range (s.calls ++ [(sql, values)]).length =
      Multiset.range s.calls.length + ({s.calls.length} : Multiset ℕ) := by
    rw [List.length_append, List.length_singleton, Multiset.range_succ, ← Multiset.singleton_add, add_comm]
  have fresh : ∀ id ∈ ({s.calls.length} : Multiset ℕ), s.calls.length ≤ id :=
    fun id member => (Multiset.mem_singleton.mp member).ge
  simp only [query]
  split
  · exact {
      applied := rfl
      closed := rfl
      calls := calls
      places := by
        refine ⟨[(s.calls.length, .breakerOpen)], {s.calls.length}, rfl, range, fresh, ?_⟩
        exact (add_zero _).trans (add_comm _ _)
      starts := fun _ isNext => nomatch isNext
      short := holds.short
      timed := holds.timed }
  · split
    · exact {
        applied := rfl
        closed := rfl
        calls := calls
        places := by
          refine ⟨s.queue.map (fun id => (id, .queueOverflow)) ++ [(s.calls.length, .typeError)], {s.calls.length}, ?_,
            range, fresh, ?_⟩
          · simp only [settle, rejectAll_eq]
            simp [rejectedAs]
          · refine (add_zero _).trans ((add_zero _).trans ?_)
            rw [List.map_append, ← Multiset.coe_add, List.map_map]
            simp [Function.comp_def]
        starts := fun _ isNext => nomatch isNext
        short := (Nat.zero_le _).trans_lt holds.short
        timed := fun nonempty => absurd rfl nonempty }
    · have length : (s.queue.drop (s.queue.length + 1 - options.maxQueueSize) ++ [s.calls.length]).length ≤
          options.maxBatchSize := by
        rw [List.length_append, List.length_drop, List.length_singleton]
        exact (Nat.succ_le_succ (Nat.sub_le _ _)).trans holds.short
      -- who is dropped, who waits and the call are the queue and the call
      have parts : (((s.queue.take (s.queue.length + 1 - options.maxQueueSize)).map
            (fun id => (id, BatcherRejection.queueOverflow))).map (·.1) : Multiset ℕ) +
          ((s.queue.drop (s.queue.length + 1 - options.maxQueueSize) ++ [s.calls.length] : List ℕ) : Multiset ℕ) =
            (s.queue : Multiset ℕ) + ({s.calls.length} : Multiset ℕ) := by
        rw [List.map_map, ← Multiset.coe_add, ← add_assoc, Multiset.coe_add]
        simp [Function.comp_def]
      split
      · exact {
          applied := rfl
          closed := rfl
          calls := calls
          places := by
            refine ⟨_, {s.calls.length}, congrArg (· ++ s.settled) (rejectAll_eq _ _), range, fresh, ?_⟩
            rw [flush_owes, add_assoc, ← parts]
            refine congrArg _ ?_
            exact (add_comm _ _).trans ((Multiset.coe_add _ _).trans (congrArg _ (List.take_append_drop _ _)))
          starts := flush_starts _ _
          short := by
            refine lt_of_eq_of_lt ?_ ((Nat.zero_le _).trans_lt holds.short)
            exact (List.length_drop ..).trans (Nat.sub_eq_zero_of_le length)
          timed := fun nonempty => absurd (List.drop_eq_nil_of_le length) nonempty }
      · next small => exact {
          applied := rfl
          closed := rfl
          calls := calls
          places := by
            refine ⟨_, {s.calls.length}, congrArg (· ++ s.settled) (rejectAll_eq _ _), range, fresh, ?_⟩
            exact (add_zero _).trans parts
          starts := fun _ isNext => nomatch isNext
          short := not_le.mp small
          timed := fun _ => by
            dsimp only
            split
            · exact Nat.succ_pos _
            · next several =>
              refine holds.timed fun isEmpty => several ?_
              rw [isEmpty, List.drop_nil]
              rfl }

theorem timerFires_requeues {rest : Multiset ℕ} (holds : BatcherHolds driver options s rest) (event : DbEvent ρ) :
    Requeues driver options s (BatcherCall.timerFires.perform driver options s event).1
      (BatcherCall.timerFires.perform driver options s event).2 := by
  have calls : ∃ more, s.calls = s.calls ++ more ∧
      ∀ call ∈ more, ∃ statement, OneStatement driver call.1 (call.2.getD []) statement :=
    ⟨[], (List.append_nil _).symm, List.forall_mem_nil _⟩
  simp only [BatcherCall.perform]
  split
  · exact {
      applied := rfl
      closed := rfl
      calls := calls
      places := ⟨[], 0, rfl, (add_zero _).symm, fun _ member => absurd member (Multiset.notMem_zero _), by simp⟩
      starts := by rintro _ ⟨⟩
      short := holds.short
      timed := holds.timed }
  · exact {
      applied := rfl
      closed := rfl
      calls := calls
      places := by
        refine ⟨[], 0, rfl, (add_zero _).symm, fun _ member => absurd member (Multiset.notMem_zero _), ?_⟩
        rw [flush_owes]
        simp [flush]
      starts := flush_starts _ _
      short := (Nat.zero_le _).trans_lt holds.short
      timed := fun nonempty => absurd rfl nonempty }

theorem batcherPerform_kept (lawful : LawfulDriver driver) {others : List (BatcherCall ν Stmt ρ)}
    (holds : BatcherHolds driver options s (owed call + weight owed others))
    (fitsOthers : ∀ other ∈ others, FitsFlush driver s other) (fits : FitsFlush driver s call) {event : DbEvent ρ}
    (permitted : DriverSound options event) :
    (∀ other ∈ others, FitsFlush driver (call.perform driver options s event).1 other) ∧
      (∀ other, (call.perform driver options s event).2 = some other →
        FitsFlush driver (call.perform driver options s event).1 other) ∧
      BatcherHolds driver options (call.perform driver options s event).1
        (weight owed (call.perform driver options s event).2.toList + weight owed others) := by
  have none : (0 : Multiset ℕ) + weight owed others = weight owed others := zero_add _
  cases call with
  | query sql values =>
      rw [show owed (.query sql values : BatcherCall ν Stmt ρ) = 0 from rfl, none] at holds
      exact (query_requeues holds fits).kept holds fitsOthers
  | timerFires =>
      rw [show owed (.timerFires : BatcherCall ν Stmt ρ) = 0 from rfl, none] at holds
      exact (timerFires_requeues holds event).kept holds fitsOthers
  | elapse ms =>
      refine ⟨fun other member => (fitsOthers other member).later List.prefix_rfl fun _ _ => rfl,
        by rintro _ ⟨⟩, ?_⟩
      exact { holds with
        queued := holds.queued
        settled := fun entry member => (holds.settled entry member).later List.prefix_rfl rfl }
  | reusesConnection =>
      have idle : (BatcherCall.reusesConnection : BatcherCall ν Stmt ρ).perform driver options s event = (s, Option.none) := by
        simp only [BatcherCall.perform, holds.closed]
      rw [idle]
      exact ⟨fitsOthers, by rintro _ ⟨⟩, holds⟩
  | acquires batch attempt => exact (acquires_serves fits event).kept holds fitsOthers
  | begins batch => exact (begins_serves fits event).kept holds fitsOthers
  | queries batch => exact (queries_serves lawful holds fits permitted).kept holds fitsOthers
  | commits batch pending => exact (commits_serves holds fits permitted).kept holds fitsOthers
  | rollsBack batch pending => exact (rollsBack_serves fits permitted).kept holds fitsOthers
  | fallsBack batch items => exact (fallsBack_serves holds fits permitted).kept holds fitsOthers

theorem run_batcherHolds (lawful : LawfulDriver driver) (batches : 0 < options.maxBatchSize) {clock : ℕ}
    {c : Config (BatcherState ν Stmt ρ) (BatcherCall ν Stmt ρ)}
    (run : Run (batcherSystem driver options (Issues driver) (DriverSound options)) ⟨.start clock, []⟩ c) :
    Weighed (FitsFlush driver) owed (BatcherHolds driver options) c := by
  refine run_weighed run ⟨fun _ member => (nomatch member), ?_⟩ ?_ ?_
  · exact {
      whole := rfl
      calls := fun _ member => nomatch member
      queued := fun _ member => nomatch member
      settled := fun _ member => nomatch member
      known := fun _ member => nomatch member
      closed := rfl
      short := batches
      timed := fun nonempty => absurd rfl nonempty }
  · intro s p rest issued holds
    cases p with
    | query sql values => exact ⟨issued, (zero_add rest).symm ▸ holds⟩
    | timerFires => exact ⟨trivial, (zero_add rest).symm ▸ holds⟩
    | elapse ms => exact ⟨trivial, (zero_add rest).symm ▸ holds⟩
    | reusesConnection => exact ⟨trivial, (zero_add rest).symm ▸ holds⟩
    | acquires batch attempt => exact issued.elim
    | begins batch => exact issued.elim
    | queries batch => exact issued.elim
    | commits batch pending => exact issued.elim
    | rollsBack batch pending => exact issued.elim
    | fallsBack batch items => exact issued.elim
  · rintro s others p s' next - ⟨event, permitted, isStep⟩ fitsOthers fits holds
    obtain ⟨rfl, rfl⟩ := Prod.mk.inj isStep
    exact batcherPerform_kept lawful holds fitsOthers fits permitted

section Ends

def itemRank : ItemPhase ρ → ℕ
  | .waiting => 16
  | .acquires retries attempt => 5 * (itemRetryAttempts - retries) + (acquireAttempts - attempt) + 2
  | .queries retries => 5 * (itemRetryAttempts - retries) + 1
  | .settled _ => 0

def flushRank : BatcherCall ν Stmt ρ → ℕ
  | .acquires batch attempt => 16 * batch.length + 6 + (acquireAttempts - attempt)
  | .begins batch => 16 * batch.length + 5
  | .queries batch => 16 * batch.length + 4
  | .commits batch _ => 16 * batch.length + 3
  | .rollsBack batch _ => 16 * batch.length + 2
  | .fallsBack _ items => (items.map itemRank).sum + 1
  | _ => 0

def BatcherCall.isFlush : BatcherCall ν Stmt ρ → Bool
  | .query _ _ | .timerFires | .elapse _ | .reusesConnection => false
  | _ => true

def Lowers (call : BatcherCall ν Stmt ρ) (next : Option (BatcherCall ν Stmt ρ)) : Prop :=
  ∀ other, next = some other → flushRank other < flushRank call

theorem Lowers.done : Lowers call none := fun _ isNext => nomatch isNext

theorem Lowers.goesOn {other : BatcherCall ν Stmt ρ} (less : flushRank other < flushRank call) :
    Lowers call (some other) := by
  rintro _ ⟨⟩
  exact less

theorem sum_set_lt {α : Type} (f : α → ℕ) {items : List α} {index : ℕ} {a b : α} (found : items[index]? = some a)
    (less : f b < f a) : ((items.set index b).map f).sum < (items.map f).sum := by
  induction items generalizing index with
  | nil => simp at found
  | cons first rest ih =>
      cases index with
      | zero =>
          obtain rfl := Option.some.inj found
          exact Nat.add_lt_add_right less _
      | succ index => exact Nat.add_lt_add_left (ih (by simpa using found)) _

theorem runFallbackItem_retried_lowers (error : DbError) (retries : ℕ) :
    itemRank (if canRetry options error ∧ retries < itemRetryAttempts then (.acquires (retries + 1) 1 : ItemPhase ρ)
      else .settled (.error error)) < itemRank (.queries retries : ItemPhase ρ) := by
  split
  · next retried =>
    have allowed := retried.2
    simp only [itemRank, itemRetryAttempts, acquireAttempts] at allowed ⊢
    omega
  · exact Nat.succ_pos _

theorem runFallbackItem_lowers (id : ℕ) (mayStart : Bool) (phase : ItemPhase ρ) (event : ItemEvent ρ) :
    runFallbackItem driver options s id mayStart phase event = (s, phase) ∨
      itemRank (runFallbackItem driver options s id mayStart phase event).2 < itemRank phase := by
  cases phase with
  | settled outcome => exact .inl rfl
  | waiting =>
      cases event with
      | starts =>
          rw [runFallbackItem]
          split
          · exact .inr (show 14 < 16 by omega)
          · exact .inl rfl
      | connected => exact .inl rfl
      | refused error => exact .inl rfl
      | answers results => exact .inl rfl
      | fails error results => exact .inl rfl
  | acquires retries attempt =>
      cases event with
      | connected => exact .inr (Nat.add_lt_add_of_le_of_lt (Nat.le_add_right _ _) (Nat.lt_succ_self 1))
      | refused error =>
          refine .inr ?_
          rw [runFallbackItem]
          split
          · next again =>
            simp only [itemRank]
            omega
          · exact Nat.succ_pos _
      | starts => exact .inl rfl
      | answers results => exact .inl rfl
      | fails error results => exact .inl rfl
  | queries retries =>
      cases event with
      | answers results =>
          simp only [runFallbackItem]
          split
          · exact .inr (Nat.succ_pos _)
          · exact .inl rfl
      | fails error results => exact .inr (runFallbackItem_retried_lowers error retries)
      | starts => exact .inl rfl
      | connected => exact .inl rfl
      | refused error => exact .inl rfl

theorem waiting_rank (batch : List ℕ) :
    ((batch.map fun _ => (.waiting : ItemPhase ρ)).map itemRank).sum = 16 * batch.length := by
  induction batch with
  | nil => rfl
  | cons id rest ih =>
      simp only [List.map_cons, List.sum_cons, ih, List.length_cons, itemRank]
      omega

theorem perform_lowers (isFlush : call.isFlush) (event : DbEvent ρ) :
    call.perform driver options s event = (s, some call) ∨ Lowers call (call.perform driver options s event).2 := by
  cases call with
  | query sql values => cases isFlush
  | timerFires => cases isFlush
  | elapse ms => cases isFlush
  | reusesConnection => cases isFlush
  | acquires batch attempt =>
      refine .inr ?_
      by_cases connected : event = .succeeds
      · subst connected
        refine Lowers.goesOn ?_
        simp only [flushRank]
        omega
      · rw [perform_acquires connected]
        split
        · refine Lowers.goesOn ?_
          simp only [flushRank]
          omega
        · exact Lowers.done
  | begins batch =>
      refine .inr ?_
      cases event with
      | succeeds => exact Lowers.goesOn (Nat.lt_succ_self _)
      | _ => exact Lowers.goesOn (Nat.add_lt_add_left (by omega) _)
  | queries batch =>
      cases event with
      | answers results =>
          rw [BatcherCall.perform]
          split
          · exact .inr (Lowers.goesOn (Nat.lt_succ_self _))
          · exact .inl rfl
      | _ => exact .inr (Lowers.goesOn (Nat.add_lt_add_left (by omega) _))
  | commits batch pending =>
      refine .inr ?_
      cases event with
      | succeeds => exact Lowers.done
      | _ => exact Lowers.goesOn (Nat.lt_succ_self _)
  | rollsBack batch pending =>
      have falls : Lowers (.rollsBack batch pending : BatcherCall ν Stmt ρ)
          (some (.fallsBack batch (batch.map fun _ => .waiting))) := by
        refine Lowers.goesOn ?_
        rw [flushRank, flushRank, waiting_rank]
        exact Nat.lt_succ_self _
      cases event with
      | _ => exact .inr falls
  | fallsBack batch items =>
      have settles : (BatcherCall.fallsBack batch items).perform driver options s .succeeds =
            (s, some (.fallsBack batch items)) ∨
          Lowers (.fallsBack batch items) ((BatcherCall.fallsBack batch items).perform driver options s .succeeds).2 := by
        simp only [BatcherCall.perform]
        split
        · exact .inr Lowers.done
        · exact .inl rfl
      cases event with
      | item index event =>
          rw [BatcherCall.perform]
          split
          · next id phase isId isPhase =>
            obtain same | less := @runFallbackItem_lowers _ _ _ driver options s id (mayStart items index) phase event
            · obtain ⟨inBounds, rfl⟩ := List.getElem?_eq_some_iff.mp isPhase
              refine .inl ?_
              simp only [same, List.set_getElem_self]
            · exact .inr (Lowers.goesOn (Nat.succ_lt_succ (sum_set_lt itemRank isPhase less)))
          · exact .inl rfl
      | _ => exact settles

theorem itemOutcomes_of_settled {items : List (ItemPhase ρ)}
    (settled : ∀ phase ∈ items, phase.isActive = false ∧ phase.isWaiting = false) :
    ∃ outcomes, itemOutcomes items = some outcomes := by
  induction items with
  | nil => exact ⟨[], rfl⟩
  | cons phase items ih =>
      obtain ⟨outcomes, ended⟩ := ih fun other member => settled other (List.mem_cons_of_mem _ member)
      obtain ⟨notActive, notWaiting⟩ := settled phase List.mem_cons_self
      cases phase with
      | settled outcome => exact ⟨outcome :: outcomes, by rw [itemOutcomes, ended]; rfl⟩
      | waiting => cases notWaiting
      | acquires retries attempt => cases notActive
      | queries retries => cases notActive

theorem items_goOn (driver : SqlDriver ν Stmt) (options : BatcherOptions) (items : List (ItemPhase ρ)) :
    (∃ outcomes, itemOutcomes items = some outcomes) ∨
      ∃ index phase event, items[index]? = some phase ∧ DriverSound options (.item index event : DbEvent ρ) ∧
        ∀ (s : BatcherState ν Stmt ρ) id,
          itemRank (runFallbackItem driver options s id (mayStart items index) phase event).2 < itemRank phase := by
  by_cases active : ∃ phase ∈ items, phase.isActive = true
  · obtain ⟨phase, member, isActive⟩ := active
    obtain ⟨index, isPhase⟩ := List.mem_iff_getElem?.mp member
    refine .inr ⟨index, phase, ?_⟩
    cases phase with
    | acquires retries attempt =>
        refine ⟨.connected, isPhase, trivial, fun s id => ?_⟩
        exact Nat.add_lt_add_of_le_of_lt (Nat.le_add_right _ _) (Nat.lt_succ_self 1)
    | queries retries =>
        exact ⟨.fails ⟨none, []⟩ [], isPhase, fun _ => rfl, fun s id => runFallbackItem_retried_lowers _ retries⟩
    | waiting => cases isActive
    | settled outcome => cases isActive
  · have idle : ∀ phase ∈ items, phase.isActive = false := by
      intro phase member
      exact Bool.eq_false_iff.mpr fun isActive => active ⟨phase, member, isActive⟩
    by_cases waits : ∃ phase ∈ items, phase.isWaiting = true
    · -- all workers are free for the first item that waits
      have inBounds : items.findIdx ItemPhase.isWaiting < items.length := List.findIdx_lt_length.mpr waits
      have isWaiting := List.findIdx_getElem (w := inBounds)
      have free : items.countP ItemPhase.isActive = 0 :=
        List.countP_eq_zero.mpr fun phase member => by simp [idle phase member]
      have starts : mayStart items (items.findIdx ItemPhase.isWaiting) = true := by
        simp [mayStart, free, fallbackRetryConcurrency]
      refine .inr ⟨_, _, .starts, List.getElem?_eq_getElem inBounds, trivial, fun s id => ?_⟩
      rw [starts]
      cases isPhase : items[items.findIdx ItemPhase.isWaiting] with
      | waiting => exact show 14 < 16 by omega
      | acquires retries attempt =>
          rw [isPhase] at isWaiting
          cases isWaiting
      | queries retries =>
          rw [isPhase] at isWaiting
          cases isWaiting
      | settled outcome =>
          rw [isPhase] at isWaiting
          cases isWaiting
    · refine .inl (itemOutcomes_of_settled fun phase member => ⟨idle phase member, ?_⟩)
      exact Bool.eq_false_iff.mpr fun isWaiting => waits ⟨phase, member, isWaiting⟩

theorem perform_goesOn (isFlush : call.isFlush) (fits : FitsFlush driver s call) :
    ∃ event : DbEvent ρ, DriverSound options event ∧ Lowers call (call.perform driver options s event).2 := by
  cases call with
  | query sql values => cases isFlush
  | timerFires => cases isFlush
  | elapse ms => cases isFlush
  | reusesConnection => cases isFlush
  | acquires batch attempt =>
      refine ⟨.succeeds, trivial, Lowers.goesOn ?_⟩
      simp only [flushRank]
      omega
  | begins batch => exact ⟨.succeeds, trivial, Lowers.goesOn (Nat.lt_succ_self _)⟩
  | queries batch => exact ⟨.fails, trivial, Lowers.goesOn (Nat.add_lt_add_left (by omega) _)⟩
  | commits batch pending => exact ⟨.succeeds, trivial, Lowers.done⟩
  | rollsBack batch pending =>
      refine ⟨.succeeds, trivial, Lowers.goesOn ?_⟩
      rw [flushRank, flushRank, waiting_rank]
      exact Nat.lt_succ_self _
  | fallsBack batch items =>
      obtain ⟨outcomes, ended⟩ | ⟨index, phase, event, isPhase, permitted, less⟩ := items_goOn driver options items
      · refine ⟨.succeeds, trivial, ?_⟩
        simp only [BatcherCall.perform, ended]
        exact Lowers.done
      · have inBounds : index < batch.length := by
          rw [List.Forall₂.length_eq fits]
          exact (List.getElem?_eq_some_iff.mp isPhase).1
        refine ⟨.item index event, permitted, ?_⟩
        simp only [BatcherCall.perform, isPhase, List.getElem?_eq_getElem inBounds]
        exact Lowers.goesOn (Nat.succ_lt_succ (sum_set_lt itemRank isPhase (less s _)))

end Ends

/-- What the callers of a batcher have: single statements. -/
structure CallsServed (driver : SqlDriver ν Stmt) (options : BatcherOptions)
    (c : Config (BatcherState ν Stmt ρ) (BatcherCall ν Stmt ρ)) : Prop where
  /-- No call is settled twice. -/
  once : (c.shared.settled.map (·.1)).Nodup
  /-- A call that is not settled is in a flush, or waits for one with a timer. -/
  somewhere : ∀ id < c.shared.calls.length,
    id ∈ c.shared.settled.map (·.1) ∨ (id ∈ c.shared.queue ∧ 0 < c.shared.timeouts) ∨
      ∃ call ∈ c.inFlight, call.isFlush ∧ id ∈ owed call
  /-- Each step of a flush changes nothing or leaves less to do, and there is such a step. -/
  ends : ∀ call ∈ c.inFlight, call.isFlush →
    (∀ event, call.perform driver options c.shared event = (c.shared, some call) ∨
      Lowers call (call.perform driver options c.shared event).2) ∧
    ∃ event, DriverSound options event ∧ Lowers call (call.perform driver options c.shared event).2
  /-- A resolved call was applied once and has the result of its own statement. -/
  resolved : ∀ id result, (id, CallOutcome.resolved result) ∈ c.shared.settled → Once driver c.shared id result
  /-- No call is applied twice. -/
  applied : ∀ id, (logOf c.shared id).length ≤ 1

theorem isFlush_of_owed {id : ℕ} (isOwed : id ∈ owed call) : call.isFlush := by
  cases call with
  | query sql values => exact absurd isOwed (Multiset.notMem_zero id)
  | timerFires => exact absurd isOwed (Multiset.notMem_zero id)
  | elapse ms => exact absurd isOwed (Multiset.notMem_zero id)
  | reusesConnection => exact absurd isOwed (Multiset.notMem_zero id)
  | _ => rfl

theorem exists_of_mem_weight {others : List (BatcherCall ν Stmt ρ)} {id : ℕ} (member : id ∈ weight owed others) :
    ∃ call ∈ others, id ∈ owed call := by
  induction others with
  | nil => exact absurd member (Multiset.notMem_zero id)
  | cons first rest ih =>
      rw [weight_cons] at member
      obtain isFirst | isRest := Multiset.mem_add.mp member
      · exact ⟨first, List.mem_cons_self, isFirst⟩
      · obtain ⟨call, isCall, isOwed⟩ := ih isRest
        exact ⟨call, List.mem_cons_of_mem _ isCall, isOwed⟩

theorem Once.log_le {id : ℕ} {result : Option ρ} (once : Once driver s id result) : (logOf s id).length ≤ 1 := by
  obtain ⟨statement, value, -, -, log⟩ := once
  rw [log]
  exact le_rfl

theorem FitsFlush.log_le (fits : FitsFlush driver s call) {id : ℕ} (isOwed : id ∈ owed call) :
    (logOf s id).length ≤ 1 := by
  cases call with
  | query sql values => exact absurd isOwed (Multiset.notMem_zero id)
  | timerFires => exact absurd isOwed (Multiset.notMem_zero id)
  | elapse ms => exact absurd isOwed (Multiset.notMem_zero id)
  | reusesConnection => exact absurd isOwed (Multiset.notMem_zero id)
  | acquires batch attempt => exact untouched_le (fits.2 id isOwed)
  | begins batch => exact untouched_le (fits.2 id isOwed)
  | queries batch => exact untouched_le (fits.2 id isOwed)
  | commits batch pending => exact untouched_le (fits.1 id isOwed)
  | rollsBack batch pending => exact untouched_le (fits id isOwed)
  | fallsBack batch items =>
      obtain ⟨place, isPlace⟩ := List.mem_iff_getElem?.mp (Multiset.mem_coe.mp isOwed)
      have inBounds : place < items.length := by
        rw [← List.Forall₂.length_eq fits]
        exact (List.getElem?_eq_some_iff.mp isPlace).1
      have well := forall₂_getElem fits isPlace (List.getElem?_eq_getElem inBounds)
      cases isPhase : items[place] with
      | settled outcome =>
          rw [isPhase] at well
          cases outcome with
          | ok result => exact Once.log_le well
          | error error => exact well
      | waiting =>
          rw [isPhase] at well
          exact untouched_le well
      | acquires retries attempt =>
          rw [isPhase] at well
          exact untouched_le well
      | queries retries =>
          rw [isPhase] at well
          exact untouched_le well

/-- In every run in which the server undoes what it does not acknowledge, calls fare as single statements do. -/
theorem batched_calls (lawful : LawfulDriver driver) (batches : 0 < options.maxBatchSize) {clock : ℕ}
    {c : Config (BatcherState ν Stmt ρ) (BatcherCall ν Stmt ρ)}
    (run : Run (batcherSystem driver options (Issues driver) (DriverSound options)) ⟨.start clock, []⟩ c) :
    CallsServed driver options c := by
  obtain ⟨fits, holds⟩ := run_batcherHolds lawful batches run
  have place : ∀ id < c.shared.calls.length, id ∈ c.shared.settled.map (·.1) ∨ id ∈ c.shared.queue ∨
      ∃ call ∈ c.inFlight, id ∈ owed call := by
    intro id known
    rw [← Multiset.mem_range, ← holds.whole] at known
    obtain settledOrQueued | inFlight := Multiset.mem_add.mp known
    · obtain isSettled | isQueued := Multiset.mem_add.mp settledOrQueued
      · exact .inl isSettled
      · exact .inr (.inl isQueued)
    · exact .inr (.inr (exists_of_mem_weight inFlight))
  exact {
    once := by
      have all : (((c.shared.settled.map (·.1) : List ℕ) : Multiset ℕ) + (c.shared.queue : Multiset ℕ) +
          weight owed c.inFlight).Nodup := by
        rw [holds.whole]
        exact Multiset.nodup_range _
      exact Multiset.coe_nodup.mp (Multiset.nodup_add.mp (Multiset.nodup_add.mp all).1).1
    somewhere := fun id known => by
      obtain isSettled | isQueued | ⟨call, inFlight, isOwed⟩ := place id known
      · exact .inl isSettled
      · exact .inr (.inl ⟨isQueued, holds.timed (List.ne_nil_of_mem isQueued)⟩)
      · exact .inr (.inr ⟨call, inFlight, isFlush_of_owed isOwed, isOwed⟩)
    ends := fun call inFlight isFlush =>
      ⟨perform_lowers isFlush, perform_goesOn isFlush (fits call inFlight)⟩
    resolved := fun id result member => holds.settled _ member
    applied := fun id => by
      by_cases known : id < c.shared.calls.length
      · obtain isSettled | isQueued | ⟨call, inFlight, isOwed⟩ := place id known
        · obtain ⟨⟨_, outcome⟩, member, rfl⟩ := List.mem_map.mp isSettled
          have well := holds.settled _ member
          cases outcome with
          | resolved result => exact Once.log_le well
          | rejected reason => exact well
        · exact untouched_le (holds.queued id isQueued)
        · exact (fits call inFlight).log_le isOwed
      · refine untouched_le (List.filter_eq_nil_iff.mpr fun application member isCall => known ?_)
        exact holds.known application member id (of_decide_eq_true isCall) }

section Alone

def BatcherCall.follow (driver : SqlDriver ν Stmt) (options : BatcherOptions) :
    List (DbEvent ρ) → BatcherState ν Stmt ρ × Option (BatcherCall ν Stmt ρ) →
      BatcherState ν Stmt ρ × Option (BatcherCall ν Stmt ρ)
  | event :: events, (s, some call) => follow driver options events (call.perform driver options s event)
  | _, ended => ended

theorem follow_run {permits : DbEvent ρ → Prop} {issues : BatcherCall ν Stmt ρ → Prop} {events : List (DbEvent ρ)}
    (permitted : ∀ event ∈ events, permits event) (place : BatcherState ν Stmt ρ × Option (BatcherCall ν Stmt ρ)) :
    Run (batcherSystem driver options issues permits) ⟨place.1, place.2.toList⟩
      ⟨(BatcherCall.follow driver options events place).1, (BatcherCall.follow driver options events place).2.toList⟩ := by
  induction events generalizing place with
  | nil => exact .refl
  | cons event events ih =>
      obtain ⟨s, call⟩ := place
      cases call with
      | none => exact .refl
      | some call =>
          refine .head (.alone trivial ⟨event, permitted event List.mem_cons_self, rfl⟩) ?_
          exact ih (fun other member => permitted other (List.mem_cons_of_mem _ member)) _

theorem called_run {permits : DbEvent ρ → Prop} {issues : BatcherCall ν Stmt ρ → Prop} {events : List (DbEvent ρ)}
    (issued : issues call) (permitted : ∀ event ∈ events, permits event) :
    Run (batcherSystem driver options issues permits) ⟨s, []⟩
      ⟨(BatcherCall.follow driver options events (s, some call)).1,
        (BatcherCall.follow driver options events (s, some call)).2.toList⟩ :=
  .head (@Step.issue _ _ (batcherSystem driver options issues permits) ⟨s, []⟩ call issued)
    (follow_run permitted (s, some call))

def plainDriver : SqlDriver ℕ Text := ⟨fun _ => 0, fun sql => ';' ∉ sql, fun sql _ => sql, List.splitOn ';'⟩

theorem plainDriver_lawful : LawfulDriver plainDriver where
  formats := fun _ _ _ _ _ _ => rfl
  splits := fun sql values rest complete _ => by
    have alone : sql.splitOn ';' = [sql] := List.splitOn_eq_singleton complete
    exact (List.splitOn_append_cons_self_of_not_mem complete rest).trans (congrArg (· ++ rest.splitOn ';') alone.symm)
  probe := ⟨" SELECT 1".toList, List.splitOn_eq_singleton (by decide)⟩

def flushEach : BatcherOptions := ⟨1, 100, 5, 1000, false⟩

def incrementSql : Text := "UPDATE t SET n = n + 1".toList

theorem increment_oneStatement : OneStatement plainDriver incrementSql [] incrementSql where
  whole := List.splitOn_eq_singleton (by decide)
  stripped := by decide +kernel
  complete := show ';' ∉ stripSemicolons incrementSql by decide +kernel
  placeholders := rfl

theorem increment_issues : Issues plainDriver (.query incrementSql none : BatcherCall ℕ Text ℕ) :=
  ⟨incrementSql, increment_oneStatement⟩

/-- A write that is committed at once is applied once. -/
theorem batched_calls_committed :
    ∃ c, CallsServed plainDriver flushEach c ∧ c.inFlight = [] ∧
      c.shared.settled = [(0, CallOutcome.resolved (some 7))] ∧ c.shared.applied.map (·.call) = [some 0, none] := by
  have permitted : ∀ event ∈ [.succeeds, .succeeds, .succeeds, .answers [7, 1], .succeeds],
      DriverSound flushEach (event : DbEvent ℕ) := by
    simp [DriverSound]
  refine ⟨_, @batched_calls ℕ Text ℕ _ flushEach plainDriver_lawful (by decide) 0 _
    (called_run increment_issues permitted), ?_, ?_, ?_⟩
  · decide +kernel
  · decide +kernel
  · decide +kernel

/-- A commit takes effect, and its acknowledgement is lost: the write is run again, and applied twice. -/
theorem lost_acknowledgement_applies_twice :
    ∃ c, Run (batcherSystem plainDriver flushEach (Issues plainDriver) fun _ => True) ⟨.start 0, []⟩ c ∧
      c.inFlight = [] ∧ c.shared.settled = [(0, CallOutcome.resolved (some 8))] ∧ (logOf c.shared 0).length = 2 := by
  have permitted : ∀ event ∈ [.succeeds, .succeeds, .succeeds, .answers [7, 1], .commitsUnacknowledged, .fails,
      .item 0 .starts, .item 0 .connected, .item 0 (.answers [8]), .succeeds], (fun (_ : DbEvent ℕ) => True) event :=
    fun _ _ => trivial
  exact ⟨_, called_run increment_issues permitted, by decide +kernel, by decide +kernel, by decide +kernel⟩

end Alone

end Puter

/-
Module: Puter.Metering.ClaimSettling
Purpose: The settling of a claim on a metering counter (`#settle` of MeteringBufferStore.ts) over a store that refuses
  some writes for good: batches are halved until a path is left alone that is refused, and the paths that were ever
  refused are remembered by name, for all counters at once.
Trusted boundary: a KV increment adds each amount under its own path, or fails and changes nothing; the calls to the
  cache succeed
Main exports: AmountEntries, settles_exactly_iff
-/
import Puter.Library.StateRun
import Puter.Metering.MeteringBuffer

namespace Puter

open StateRun

abbrev AmountEntries := List (String × ℚ)

/-- The paths of an amounts map (`Object.keys`). -/
def pathsOf (entries : AmountEntries) : List String := entries.map Prod.fst

def amountOf (entries : AmountEntries) (path : String) : ℚ :=
  ((entries.filter fun entry => entry.1 = path).map Prod.snd).sum

def tallyOf (entries : AmountEntries) : FlatAmounts where
  keys := (pathsOf entries).toFinset
  amount := amountOf entries
  amount_outside path absent := by
    have none : entries.filter (fun entry => entry.1 = path) = [] := by
      apply List.filter_eq_nil_iff.mpr
      intro entry member isPath
      apply absent
      rw [List.mem_toFinset, ← of_decide_eq_true isPath]
      exact List.mem_map_of_mem member
    rw [amountOf, none]
    rfl

/-- An error that a KV increment throws. -/
structure SettleError where
  name : String
  statusCode : Option ℤ
deriving DecidableEq, Repr

abbrev SettleStore := String → AmountEntries → Option SettleError

/-- An amount of a counter. -/
structure CounterAmount where
  key : String
  path : String
  amount : ℚ
deriving DecidableEq, Repr

/-- What the settling of claims works on: the KV store, the cache, the paths that are known to be unwritable, the
    oldest first, and a record of the amounts written and of those dropped. -/
structure SettleStores where
  kv : String → FlatAmounts
  cache : MeterCache
  unwritablePaths : List String
  written : List CounterAmount
  dropped : List CounterAmount

abbrev SettleRun := EStateM SettleError SettleStores

namespace MeteringBufferStore

def unwritablePathMemoLimit : ℕ := 1000

def isPermanentSettleError (error : SettleError) : Bool :=
  error.name == "ValidationException" || error.statusCode.any fun status => 400 ≤ status && status < 500

def pickAmounts (amounts : AmountEntries) (paths : List String) : AmountEntries :=
  paths.filterMap fun path => (amounts.lookup path).map fun amount => (path, amount)

def chunkAmounts (env : BufferEnv) (amounts : AmountEntries) : List AmountEntries :=
  (chunkPathsForIncr env (pathsOf amounts)).map (pickAmounts amounts)

def remembered (path : String) (memo : List String) : List String :=
  let kept := if unwritablePathMemoLimit ≤ memo.length then memo.tail else memo
  if path ∈ kept then kept else kept ++ [path]

def rememberUnwritable (path : String) : SettleRun Unit :=
  modify fun s => { s with unwritablePaths := remembered path s.unwritablePaths }

def ofCounter (key : String) (amounts : AmountEntries) : List CounterAmount :=
  amounts.map fun entry => ⟨key, entry.1, entry.2⟩

def recordDrop (key : String) (amounts : AmountEntries) : SettleRun Unit :=
  modify fun s => { s with dropped := s.dropped ++ ofCounter key amounts }

def dropFromClaim (nonce : ℕ) (paths : List String) : SettleRun Unit :=
  modify fun s => { s with cache := s.cache.dropFromClaim nonce paths }

def retireClaim (key : String) (nonce : ℕ) : SettleRun Unit :=
  modify fun s => { s with cache := s.cache.retire key nonce }

def writeBatch (key : String) (nonce : ℕ) (batch : AmountEntries) : SettleRun FlatAmounts := do
  modify fun s => { s with
    kv := Function.update s.kv key ((s.kv key).merge (tallyOf batch))
    written := s.written ++ ofCounter key batch }
  let settled := (← get).kv key
  dropFromClaim nonce (pathsOf batch)
  return settled

def giveUp (key : String) (nonce : ℕ) (batch : AmountEntries) : SettleRun Unit := do
  forEach rememberUnwritable ((pathsOf batch).take 1)
  recordDrop key batch
  dropFromClaim nonce (pathsOf batch)

def workLeft (pending : List AmountEntries) : ℕ := (pending.map fun batch => batch.length ^ 2 + 1).sum

theorem length_pickAmounts_le (amounts : AmountEntries) (paths : List String) :
    (pickAmounts amounts paths).length ≤ paths.length := List.length_filterMap_le _ _

theorem workLeft_lt_cons (batch : AmountEntries) (pending : List AmountEntries) :
    workLeft pending < workLeft (batch :: pending) := by
  simp only [workLeft, List.map_cons, List.sum_cons]
  omega

theorem workLeft_halved {batch front back : AmountEntries} (pending : List AmountEntries) (several : 1 < batch.length)
    (frontShort : front.length ≤ (batch.length + 1) / 2) (backShort : back.length ≤ batch.length - (batch.length + 1) / 2) :
    workLeft (front :: back :: pending) < workLeft (batch :: pending) := by
  simp only [workLeft, List.map_cons, List.sum_cons]
  generalize batch.length = whole at several frontShort backShort ⊢
  obtain ⟨middle, isMiddle⟩ : ∃ middle, middle = (whole + 1) / 2 := ⟨_, rfl⟩
  rw [← isMiddle] at frontShort backShort
  have fronts : front.length ^ 2 ≤ middle ^ 2 := Nat.pow_le_pow_left frontShort 2
  have backs : back.length ^ 2 ≤ (whole - middle) ^ 2 := Nat.pow_le_pow_left backShort 2
  obtain ⟨rest, rfl⟩ : ∃ rest, whole = middle + rest := ⟨whole - middle, by omega⟩
  rw [Nat.add_sub_cancel_left] at backs
  have cross : 1 ≤ middle * rest := Nat.mul_pos (by omega) (by omega)
  nlinarith only [fronts, backs, cross]

/-- The loop of `#settle` over the batches that are pending, with the last answer of the store and the number of
    paths written. -/
def writeBatches (store : SettleStore) (key : String) (nonce : ℕ) :
    (pending : List AmountEntries) → (settled : Option FlatAmounts) → (written : ℕ) → SettleRun (Option FlatAmounts × ℕ)
  | [], settled, written => return (settled, written)
  | batch :: pending, settled, written =>
      match store key batch with
      | none => do
          let counter ← writeBatch key nonce batch
          writeBatches store key nonce pending (some counter) (written + batch.length)
      | some error =>
          if isPermanentSettleError error = false then throw error
          else if 1 < batch.length then
            let paths := pathsOf batch
            let middle := (batch.length + 1) / 2
            writeBatches store key nonce
              (pickAmounts batch (paths.take middle) :: pickAmounts batch (paths.drop middle) :: pending) settled written
          else do
            giveUp key nonce batch
            writeBatches store key nonce pending settled written
termination_by pending => workLeft pending
decreasing_by
  · exact workLeft_lt_cons batch pending
  · rename_i several
    have lengths := length_pickAmounts_le batch (paths.take middle)
    have lengths' := length_pickAmounts_le batch (paths.drop middle)
    simp only [paths, pathsOf, List.length_take, List.length_drop, List.length_map] at lengths lengths'
    apply workLeft_halved pending several
    · exact lengths.trans (Nat.min_le_left _ _)
    · exact lengths'
  · exact workLeft_lt_cons batch pending

/-- The end of `#settle`: the counter as the store has it now becomes the base, unless nothing was written. -/
def adopt (key : String) (nonce : ℕ) (settled : Option FlatAmounts) (written : ℕ) : SettleRun Unit :=
  match settled with
  | some counter =>
      if written = 0 then retireClaim key nonce
      else modify fun s => { s with cache := s.cache.settle key nonce counter }
  | none => retireClaim key nonce

/-- `#settle`, of a claim with its amounts. -/
def settle (env : BufferEnv) (store : SettleStore) (key : String) (nonce : ℕ) (amounts : AmountEntries) :
    SettleRun Unit := do
  if amounts = [] then retireClaim key nonce
  else
    let memo := (← get).unwritablePaths
    let known := (pathsOf amounts).filter fun path => path ∈ memo
    runIf (known ≠ []) do
      recordDrop key (pickAmounts amounts known)
      dropFromClaim nonce known
    let others := (pathsOf amounts).filter fun path => path ∉ memo
    let (settled, written) ← writeBatches store key nonce (chunkAmounts env (pickAmounts amounts others)) none 0
    adopt key nonce settled written

end MeteringBufferStore

open MeteringBufferStore

/-- A call of `#settle`. -/
structure SettleCall where
  key : String
  nonce : ℕ
  amounts : AmountEntries
  distinct : (pathsOf amounts).Nodup

/-- The store refuses a batch, for good, exactly when it has a path that is refused for the counter. -/
structure RefusesPairs (store : SettleStore) (refused : String → String → Bool) : Prop where
  accepts : ∀ key batch, store key batch = none ↔ ∀ path ∈ pathsOf batch, refused key path = false
  permanent : ∀ key batch error, store key batch = some error → isPermanentSettleError error = true

def accepted (refused : String → String → Bool) (key : String) (entries : AmountEntries) : AmountEntries :=
  entries.filter fun entry => !refused key entry.1

def rejected (refused : String → String → Bool) (key : String) (entries : AmountEntries) : AmountEntries :=
  entries.filter fun entry => refused key entry.1

/-- Every amount that is not refused is written once, and exactly the others are dropped. -/
structure SettledExactly (refused : String → String → Bool) (call : SettleCall) (s s' : SettleStores) : Prop where
  kv : ∀ key path, (s'.kv key).amount path = (s.kv key).amount path +
    if key = call.key then amountOf (accepted refused key call.amounts) path else 0
  written : s'.written = s.written ++ ofCounter call.key (accepted refused call.key call.amounts)
  dropped : ∃ drops, s'.dropped = s.dropped ++ drops ∧ drops.Perm (ofCounter call.key (rejected refused call.key call.amounts))

def OnlyRefusedKnown (refused : String → String → Bool) (call : SettleCall) (s : SettleStores) : Prop :=
  ∀ path ∈ pathsOf call.amounts, path ∈ s.unwritablePaths → refused call.key path = true

section Entries

variable {amounts entries others : AmountEntries} {refused : String → String → Bool} {key : String}

theorem amountOf_append (entries others : AmountEntries) (path : String) :
    amountOf (entries ++ others) path = amountOf entries path + amountOf others path := by
  simp [amountOf]

theorem accepted_append (refused : String → String → Bool) (key : String) (entries others : AmountEntries) :
    accepted refused key (entries ++ others) = accepted refused key entries ++ accepted refused key others :=
  List.filter_append ..

theorem rejected_append (refused : String → String → Bool) (key : String) (entries others : AmountEntries) :
    rejected refused key (entries ++ others) = rejected refused key entries ++ rejected refused key others :=
  List.filter_append ..

theorem ofCounter_append (key : String) (entries others : AmountEntries) :
    ofCounter key (entries ++ others) = ofCounter key entries ++ ofCounter key others := List.map_append ..

theorem lookup_of_entry (distinct : (pathsOf amounts).Nodup) {path : String} {amount : ℚ}
    (member : (path, amount) ∈ amounts) : amounts.lookup path = some amount := by
  induction amounts with
  | nil => cases member
  | cons first amounts ih =>
      obtain ⟨fresh, rest⟩ := List.nodup_cons.mp distinct
      obtain rfl | later := List.mem_cons.mp member
      · exact List.lookup_cons_self
      · have differs : path ≠ first.1 := by
          rintro rfl
          exact fresh (List.mem_map.mpr ⟨_, later, rfl⟩)
        rw [List.lookup_cons, beq_false_of_ne differs]
        exact ih rest later

theorem pickAmounts_pathsOf (distinct : (pathsOf amounts).Nodup) (part : ∀ entry ∈ entries, entry ∈ amounts) :
    pickAmounts amounts (pathsOf entries) = entries := by
  unfold pickAmounts pathsOf
  rw [List.filterMap_map]
  conv_rhs => rw [← List.filterMap_some (l := entries)]
  apply List.filterMap_congr
  intro entry member
  simp [lookup_of_entry distinct (part entry member)]

theorem pickAmounts_filter (distinct : (pathsOf amounts).Nodup) (keep : String → Bool) :
    pickAmounts amounts ((pathsOf amounts).filter keep) = amounts.filter fun entry => keep entry.1 := by
  have paths : (pathsOf amounts).filter keep = pathsOf (amounts.filter fun entry => keep entry.1) := List.filter_map ..
  rw [paths]
  exact pickAmounts_pathsOf distinct fun entry member => (List.mem_filter.mp member).1

theorem pickAmounts_halves (distinct : (pathsOf amounts).Nodup) (middle : ℕ) :
    pickAmounts amounts ((pathsOf amounts).take middle) ++ pickAmounts amounts ((pathsOf amounts).drop middle) = amounts := by
  have whole : pickAmounts amounts (pathsOf amounts) = amounts := pickAmounts_pathsOf distinct fun _ member => member
  conv_rhs => rw [← whole, ← List.take_append_drop middle (pathsOf amounts)]
  exact List.filterMap_append.symm

theorem chunkAmounts_flatten (env : BufferEnv) (distinct : (pathsOf amounts).Nodup) :
    (chunkAmounts env amounts).flatten = amounts := by
  have whole : pickAmounts amounts (chunkPathsForIncr env (pathsOf amounts)).flatten = amounts := by
    rw [chunkPathsForIncr_flatten]
    exact pickAmounts_pathsOf distinct fun _ member => member
  conv_rhs => rw [← whole]
  exact (List.filterMap_flatten ..).symm

theorem nodup_of_flatten {pending : List AmountEntries} (distinct : (pathsOf pending.flatten).Nodup)
    {batch : AmountEntries} (member : batch ∈ pending) : (pathsOf batch).Nodup :=
  distinct.sublist ((List.sublist_flatten_of_mem member).map Prod.fst)

end Entries

/-- What the loop over some batches with these entries has done. -/
structure BatchesDone (refused : String → String → Bool) (key : String) (entries : AmountEntries) (s s' : SettleStores) :
    Prop where
  kv : ∀ other path, (s'.kv other).amount path = (s.kv other).amount path +
    if other = key then amountOf (accepted refused key entries) path else 0
  written : s'.written = s.written ++ ofCounter key (accepted refused key entries)
  dropped : s'.dropped = s.dropped ++ ofCounter key (rejected refused key entries)

section Batches

variable {store : SettleStore} {refused : String → String → Bool} {key : String} {nonce : ℕ}

theorem BatchesDone.nothing (s : SettleStores) : BatchesDone refused key [] s s where
  kv other path := by simp [accepted, amountOf]
  written := by simp [accepted, ofCounter]
  dropped := by simp [rejected, ofCounter]

theorem BatchesDone.trans {entries others : AmountEntries} {s middle s' : SettleStores}
    (first : BatchesDone refused key entries s middle) (second : BatchesDone refused key others middle s') :
    BatchesDone refused key (entries ++ others) s s' where
  kv other path := by
    rw [second.kv, first.kv, accepted_append, amountOf_append]
    split <;> ring
  written := by rw [second.written, first.written, accepted_append, ofCounter_append, List.append_assoc]
  dropped := by rw [second.dropped, first.dropped, rejected_append, ofCounter_append, List.append_assoc]

variable (key nonce) in
theorem writeBatch_done {batch : AmountEntries} (taken : ∀ path ∈ pathsOf batch, refused key path = false) (s : SettleStores) :
    ∃ counter s', writeBatch key nonce batch s = .ok counter s' ∧ BatchesDone refused key batch s s' := by
  have allAccepted : accepted refused key batch = batch := by
    apply List.filter_eq_self.mpr
    intro entry member
    simp [taken entry.1 (List.mem_map_of_mem member)]
  have noneRejected : rejected refused key batch = [] := by
    apply List.filter_eq_nil_iff.mpr
    intro entry member
    simp [taken entry.1 (List.mem_map_of_mem member)]
  refine ⟨_, _, rfl, ?_, ?_, ?_⟩
  · intro other path
    rw [allAccepted]
    by_cases same : other = key
    · subst same
      simp [Tally.merge, tallyOf]
    · simp [same]
  · rw [allAccepted]
  · simp [noneRejected, ofCounter]

variable (key nonce) in
theorem giveUp_done {entry : String × ℚ} (isRefused : refused key entry.1 = true) (s : SettleStores) :
    ∃ s', giveUp key nonce [entry] s = .ok () s' ∧ BatchesDone refused key [entry] s s' := by
  have noneAccepted : accepted refused key [entry] = [] := by simp [accepted, isRefused]
  have allRejected : rejected refused key [entry] = [entry] := by simp [rejected, isRefused]
  refine ⟨_, rfl, ?_, ?_, ?_⟩
  · intro other path
    simp [noneAccepted, amountOf]
  · simp [noneAccepted, ofCounter]
  · rw [allRejected]

theorem RefusesPairs.some_refused (refusing : RefusesPairs store refused) {batch : AmountEntries} {error : SettleError}
    (isError : store key batch = some error) : ∃ entry ∈ batch, refused key entry.1 = true := by
  by_contra noneRefused
  have taken : store key batch = none := by
    rw [refusing.accepts]
    intro path member
    obtain ⟨entry, isEntry, rfl⟩ := List.mem_map.mp member
    exact Bool.eq_false_iff.mpr fun isRefused => noneRefused ⟨entry, isEntry, isRefused⟩
  rw [taken] at isError
  cases isError

variable (key nonce) in
theorem writeBatches_done (refusing : RefusesPairs store refused) (pending : List AmountEntries)
    (settled : Option FlatAmounts) (written : ℕ) (distinct : ∀ batch ∈ pending, (pathsOf batch).Nodup) (s : SettleStores) :
    ∃ answer s', writeBatches store key nonce pending settled written s = .ok answer s' ∧
      BatchesDone refused key pending.flatten s s' := by
  induction pending, settled, written using writeBatches.induct store key generalizing s with
  | case1 settled written =>
      rw [writeBatches]
      exact ⟨_, s, rfl, .nothing s⟩
  | case2 batch pending settled written taken ih =>
      obtain ⟨counter, middle, wrote, first⟩ :=
        writeBatch_done key nonce ((refusing.accepts key batch).mp taken) s
      obtain ⟨answer, s', ran, rest⟩ :=
        ih counter (fun batch member => distinct batch (List.mem_cons_of_mem _ member)) middle
      refine ⟨answer, s', ?_, first.trans rest⟩
      rw [writeBatches, taken]
      exact (bind_of_ok wrote).trans ran
  | case3 batch pending settled written error isError temporary =>
      rw [refusing.permanent key batch error isError] at temporary
      cases temporary
  | case4 batch pending settled written error isError permanent several paths middle ih =>
      have halves := pickAmounts_halves (distinct batch List.mem_cons_self) middle
      have stillDistinct : ∀ other ∈ pickAmounts batch (paths.take middle) :: pickAmounts batch (paths.drop middle) :: pending,
          (pathsOf other).Nodup := by
        have whole : (pathsOf (pickAmounts batch (paths.take middle) ++ pickAmounts batch (paths.drop middle))).Nodup := by
          rw [halves]
          exact distinct batch List.mem_cons_self
        rw [pathsOf, List.map_append, List.nodup_append'] at whole
        intro other member
        obtain rfl | member := List.mem_cons.mp member
        · exact whole.1
        · obtain rfl | member := List.mem_cons.mp member
          · exact whole.2.1
          · exact distinct other (List.mem_cons_of_mem _ member)
      obtain ⟨answer, s', ran, done⟩ := ih stillDistinct s
      refine ⟨answer, s', ?_, ?_⟩
      · rw [writeBatches, isError]
        simp only [if_neg permanent, if_pos several]
        exact ran
      · rw [List.flatten_cons, List.flatten_cons, ← List.append_assoc, halves] at done
        exact done
  | case5 batch pending settled written error isError permanent single ih =>
      obtain ⟨entry, member, isRefused⟩ := refusing.some_refused isError
      obtain rfl : batch = [entry] := by
        obtain ⟨only, rfl⟩ := List.length_eq_one_iff.mp (by
          have := List.length_pos_of_mem member
          omega : batch.length = 1)
        rw [List.mem_singleton.mp member]
      obtain ⟨middle, gaveUp, first⟩ := giveUp_done key nonce isRefused s
      obtain ⟨answer, s', ran, rest⟩ :=
        ih (fun batch member => distinct batch (List.mem_cons_of_mem _ member)) middle
      refine ⟨answer, s', ?_, first.trans rest⟩
      rw [writeBatches, isError]
      simp only [if_neg permanent, if_neg single]
      exact (bind_of_ok gaveUp).trans ran

end Batches

section Settling

variable {store : SettleStore} {refused : String → String → Bool}

def knownEntries (call : SettleCall) (s : SettleStores) : AmountEntries :=
  call.amounts.filter fun entry => entry.1 ∈ s.unwritablePaths

def triedEntries (call : SettleCall) (s : SettleStores) : AmountEntries :=
  call.amounts.filter fun entry => entry.1 ∉ s.unwritablePaths

/-- What settling a claim does: it drops what is remembered unseen, and tries the rest. -/
structure SettledAround (refused : String → String → Bool) (call : SettleCall) (s s' : SettleStores) : Prop where
  kv : ∀ key path, (s'.kv key).amount path = (s.kv key).amount path +
    if key = call.key then amountOf (accepted refused key (triedEntries call s)) path else 0
  written : s'.written = s.written ++ ofCounter call.key (accepted refused call.key (triedEntries call s))
  dropped : s'.dropped = s.dropped ++ ofCounter call.key (knownEntries call s) ++
    ofCounter call.key (rejected refused call.key (triedEntries call s))

theorem SettledAround.of_empty {call : SettleCall} (nothing : call.amounts = []) {s s' : SettleStores}
    (sameKv : s'.kv = s.kv) (sameWritten : s'.written = s.written) (sameDropped : s'.dropped = s.dropped) :
    SettledAround refused call s s' where
  kv key path := by simp [sameKv, triedEntries, nothing, accepted, amountOf]
  written := by simp [sameWritten, triedEntries, nothing, accepted, ofCounter]
  dropped := by simp [sameDropped, triedEntries, knownEntries, nothing, rejected, ofCounter]

theorem dropKnown_run (key : String) (nonce : ℕ) (known : List String) (entries : AmountEntries)
    (noneKnown : known = [] → entries = []) (s : SettleStores) :
    ∃ s', runIf (known ≠ []) (do recordDrop key entries; dropFromClaim nonce known) s = .ok () s' ∧
      s'.kv = s.kv ∧ s'.written = s.written ∧ s'.dropped = s.dropped ++ ofCounter key entries := by
  by_cases nothing : known = []
  · refine ⟨s, runIf_ok.mpr (.inr ⟨by simp [nothing], rfl⟩), rfl, rfl, ?_⟩
    simp [noneKnown nothing, ofCounter]
  · exact ⟨_, runIf_ok.mpr (.inl ⟨by simp [nothing], rfl⟩), rfl, rfl, rfl⟩

theorem adopt_run (key : String) (nonce : ℕ) (settled : Option FlatAmounts) (written : ℕ) (s : SettleStores) :
    ∃ s', adopt key nonce settled written s = .ok () s' ∧
      s'.kv = s.kv ∧ s'.written = s.written ∧ s'.dropped = s.dropped := by
  cases settled with
  | none => exact ⟨_, rfl, rfl, rfl, rfl⟩
  | some counter =>
      by_cases nothing : written = 0
      · simp only [adopt, if_pos nothing]
        exact ⟨_, rfl, rfl, rfl, rfl⟩
      · simp only [adopt, if_neg nothing]
        exact ⟨_, rfl, rfl, rfl, rfl⟩

theorem settle_around (env : BufferEnv) (refusing : RefusesPairs store refused) (call : SettleCall) (s : SettleStores) :
    ∃ s', settle env store call.key call.nonce call.amounts s = .ok () s' ∧ SettledAround refused call s s' := by
  by_cases nothing : call.amounts = []
  · rw [settle, if_pos nothing]
    exact ⟨_, rfl, .of_empty nothing rfl rfl rfl⟩
  rw [settle, if_neg nothing]
  have known : pickAmounts call.amounts ((pathsOf call.amounts).filter fun path => path ∈ s.unwritablePaths) =
      knownEntries call s := pickAmounts_filter call.distinct _
  have tried : pickAmounts call.amounts ((pathsOf call.amounts).filter fun path => path ∉ s.unwritablePaths) =
      triedEntries call s := pickAmounts_filter call.distinct _
  have triedDistinct : (pathsOf (triedEntries call s)).Nodup :=
    call.distinct.sublist (List.filter_sublist.map Prod.fst)
  have flat := chunkAmounts_flatten env triedDistinct
  obtain ⟨middle, droppedKnown, sameKv, sameWritten, isDropped⟩ := dropKnown_run call.key call.nonce
    ((pathsOf call.amounts).filter fun path => path ∈ s.unwritablePaths) (knownEntries call s)
    (fun noneKnown => by rw [← known, noneKnown]; rfl) s
  obtain ⟨answer, later, wrote, done⟩ := writeBatches_done call.key call.nonce refusing
    (chunkAmounts env (triedEntries call s)) none 0
    (fun batch member => nodup_of_flatten (by rw [flat]; exact triedDistinct) member) middle
  rw [flat] at done
  obtain ⟨s', adopted, lastKv, lastWritten, lastDropped⟩ := adopt_run call.key call.nonce answer.1 answer.2 later
  refine ⟨s', ?_, ?_, ?_, ?_⟩
  · have readsMemo : (get : SettleRun SettleStores) s = .ok s s := rfl
    rw [bind_of_ok readsMemo]
    simp only [known, tried]
    rw [bind_of_ok droppedKnown, bind_of_ok wrote]
    exact adopted
  · intro key path
    rw [lastKv, done.kv, sameKv]
    split
    · rename_i same
      rw [same]
    · rfl
  · rw [lastWritten, done.written, sameWritten]
  · rw [lastDropped, done.dropped, isDropped]

theorem accepted_triedEntries {call : SettleCall} {s : SettleStores} (only : OnlyRefusedKnown refused call s) :
    accepted refused call.key (triedEntries call s) = accepted refused call.key call.amounts := by
  rw [accepted, accepted, triedEntries, List.filter_filter]
  apply List.filter_congr
  intro entry member
  by_cases isKnown : entry.1 ∈ s.unwritablePaths
  · simp [only entry.1 (List.mem_map_of_mem member) isKnown]
  · simp [isKnown]

theorem rejected_triedEntries {call : SettleCall} {s : SettleStores} (only : OnlyRefusedKnown refused call s) :
    (knownEntries call s ++ rejected refused call.key (triedEntries call s)).Perm
      (rejected refused call.key call.amounts) := by
  have known : knownEntries call s =
      (rejected refused call.key call.amounts).filter fun entry => entry.1 ∈ s.unwritablePaths := by
    rw [knownEntries, rejected, List.filter_filter]
    apply List.filter_congr
    intro entry member
    by_cases isKnown : entry.1 ∈ s.unwritablePaths
    · simp [isKnown, only entry.1 (List.mem_map_of_mem member) isKnown]
    · simp [isKnown]
  have tried : rejected refused call.key (triedEntries call s) =
      (rejected refused call.key call.amounts).filter fun entry => !decide (entry.1 ∈ s.unwritablePaths) := by
    rw [rejected, rejected, triedEntries, List.filter_comm]
    apply List.filter_congr
    intro entry _
    rw [decide_not]
  rw [known, tried]
  exact List.filter_append_perm _ _

theorem settledExactly_iff {call : SettleCall} {s s' : SettleStores} (around : SettledAround refused call s s') :
    SettledExactly refused call s s' ↔ OnlyRefusedKnown refused call s := by
  constructor
  · intro exact path listed isKnown
    by_contra notRefused
    obtain ⟨entry, member, rfl⟩ := List.mem_map.mp listed
    have isWritten : (⟨call.key, entry.1, entry.2⟩ : CounterAmount) ∈
        ofCounter call.key (accepted refused call.key (triedEntries call s)) := by
      rw [List.append_cancel_left (around.written.symm.trans exact.written)]
      apply List.mem_map.mpr
      exact ⟨entry, List.mem_filter.mpr ⟨member, by simpa using notRefused⟩, rfl⟩
    obtain ⟨other, isTried, same⟩ := List.mem_map.mp isWritten
    obtain ⟨-, samePath, -⟩ := CounterAmount.mk.inj same
    have unknown := (List.mem_filter.mp (List.mem_filter.mp isTried).1).2
    rw [samePath] at unknown
    exact of_decide_eq_true unknown isKnown
  · intro only
    refine ⟨?_, ?_, ?_⟩
    · intro key path
      rw [around.kv]
      split
      · rename_i same
        rw [same, accepted_triedEntries only]
      · rfl
    · rw [around.written, accepted_triedEntries only]
    · refine ⟨_, around.dropped.trans (List.append_assoc ..), ?_⟩
      rw [← ofCounter_append]
      exact (rejected_triedEntries only).map _

end Settling

/-- Something holds of each of some calls of `#settle`, in the state in which the call is made. -/
def EachCall (env : BufferEnv) (store : SettleStore) (holds : SettleCall → SettleStores → Prop) :
    List SettleCall → SettleStores → Prop
  | [], _ => True
  | call :: rest, s =>
      holds call s ∧ EachCall env store holds rest (finalState (settle env store call.key call.nonce call.amounts s))

theorem EachCall.congr {env : BufferEnv} {store : SettleStore} {holds holds' : SettleCall → SettleStores → Prop}
    (same : ∀ call s, holds call s ↔ holds' call s) (calls : List SettleCall) (s : SettleStores) :
    EachCall env store holds calls s ↔ EachCall env store holds' calls s := by
  induction calls generalizing s with
  | nil => exact Iff.rfl
  | cons call rest ih => exact and_congr (same call s) (ih _)

def SettlesExactly (env : BufferEnv) (store : SettleStore) (refused : String → String → Bool) (call : SettleCall)
    (s : SettleStores) : Prop :=
  ∃ s', settle env store call.key call.nonce call.amounts s = .ok () s' ∧ SettledExactly refused call s s'

theorem settlesExactly_iff (env : BufferEnv) {store : SettleStore} {refused : String → String → Bool}
    (refusing : RefusesPairs store refused) (call : SettleCall) (s : SettleStores) :
    SettlesExactly env store refused call s ↔ OnlyRefusedKnown refused call s := by
  obtain ⟨s', ran, around⟩ := settle_around env refusing call s
  rw [← settledExactly_iff around]
  constructor
  · rintro ⟨s'', ran', exact⟩
    obtain rfl : s' = s'' := by simpa using ran.symm.trans ran'
    exact exact
  · exact fun exact => ⟨s', ran, exact⟩

/-- Each call of a run settles exactly when, in the state that it is made in, no path of its claim is remembered
    that is not refused for its own counter. -/
theorem settles_exactly_iff (env : BufferEnv) (store : SettleStore) (refused : String → String → Bool)
    (refusing : RefusesPairs store refused) (calls : List SettleCall) (s : SettleStores) :
    EachCall env store (SettlesExactly env store refused) calls s ↔
      EachCall env store (OnlyRefusedKnown refused) calls s := by
  apply EachCall.congr
  exact settlesExactly_iff env refusing

def pairsStore (refused : String → String → Bool) : SettleStore := fun key batch =>
  if (pathsOf batch).any (refused key) then some ⟨"ValidationException", some 400⟩ else none

theorem pairsStore_refuses (refused : String → String → Bool) : RefusesPairs (pairsStore refused) refused where
  accepts key batch := by simp [pairsStore]
  permanent key batch error isError := by
    unfold pairsStore at isError
    split at isError
    · rw [← Option.some.inj isError]
      rfl
    · cases isError

def appCounterFull (key path : String) : Bool := key == "usage:app" && path == "claude"

def hundredByteEnv : BufferEnv := ⟨fun _ => 0, fun paths => 100 * paths.length⟩

def freshStores : SettleStores where
  kv _ := .empty
  cache := ⟨fun _ => .empty, fun _ => .empty, ∅, ∅, fun _ => 0, ∅, fun _ => none, fun _ => none⟩
  unwritablePaths := []
  written := []
  dropped := []

def claudeCall (key : String) : SettleCall := ⟨key, 0, [("claude", 5)], by decide⟩

/-- A run of one call, with nothing remembered. -/
theorem settles_exactly_first :
    EachCall hundredByteEnv (pairsStore appCounterFull) (SettlesExactly hundredByteEnv (pairsStore appCounterFull) appCounterFull)
      [claudeCall "usage:actor"] freshStores := by
  apply (settles_exactly_iff hundredByteEnv _ appCounterFull (pairsStore_refuses _) _ _).mpr
  refine ⟨?_, trivial⟩
  intro path _ isKnown
  cases isKnown

theorem claude_remembered :
    (finalState (settle hundredByteEnv (pairsStore appCounterFull) "usage:app" 0 [("claude", 5)] freshStores)).unwritablePaths =
      ["claude"] := by
  have isRefused : pairsStore appCounterFull "usage:app" [("claude", 5)] = some ⟨"ValidationException", some 400⟩ := rfl
  have chunked : chunkAmounts hundredByteEnv [("claude", 5)] = [[("claude", 5)]] := rfl
  have loop : writeBatches (pairsStore appCounterFull) "usage:app" 0 [[("claude", 5)]] none 0 = (do
      giveUp "usage:app" 0 [("claude", 5)]
      return (none, 0)) := by
    rw [writeBatches, isRefused, writeBatches]
    rfl
  rw [settle, if_neg (List.cons_ne_nil _ _)]
  change (finalState ((do
    let (settled, written) ←
      writeBatches (pairsStore appCounterFull) "usage:app" 0 (chunkAmounts hundredByteEnv [("claude", 5)]) none 0
    adopt "usage:app" 0 settled written) freshStores)).unwritablePaths = _
  rw [chunked, loop]
  rfl

/-- What the counter of the app refuses is dropped from the counter of the actor, which takes it. -/
theorem settle_drops_accepted :
    ¬ EachCall hundredByteEnv (pairsStore appCounterFull)
      (SettlesExactly hundredByteEnv (pairsStore appCounterFull) appCounterFull)
      [claudeCall "usage:app", claudeCall "usage:actor"] freshStores := by
  rintro ⟨-, second, -⟩
  have only := (settlesExactly_iff hundredByteEnv (pairsStore_refuses _) _ _).mp second "claude" (by decide)
  have remembered : "claude" ∈ ["claude"] := List.mem_singleton_self _
  rw [← claude_remembered] at remembered
  cases only remembered

end Puter

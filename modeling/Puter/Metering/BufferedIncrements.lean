/-
Module: Puter.Metering.BufferedIncrements
Purpose: An increment of a metering counter whose steps may fail (MeteringBufferStore.ts): the buffered write, the
  seeding of the base by a KV read and a script, and the write-through to the KV store. One try block has the first
  three, so the write-through repeats an amount that is buffered already when it is the seeding that fails.
Trusted boundary: a failed script or KV call changes nothing
Main exports: StepFailures, counted_once_iff
-/
import Puter.Library.StateRun
import Puter.Metering.BufferConservation

namespace Puter

open StateRun

/-- The steps that an increment is made of. -/
inductive MeterStep where
  | meterIncr
  | kvGet
  | meterSeed
  | kvIncr
deriving DecidableEq, Repr

abbrev StepFailures := MeterStep → Bool

abbrev MeterRun := EStateM MeterStep BufferState

namespace MeteringBufferStore

variable (fails : StepFailures) (key : String) (amounts : FlatAmounts)

/-- `#buffer`, with the delta and the base that it answers. -/
def buffer : MeterRun (FlatAmounts × FlatAmounts) := do
  refuseIf (fails .meterIncr) .meterIncr
  modify fun s => { s with cache := s.cache.incr key amounts }
  let s ← get
  return (s.cache.delta key, s.cache.base key)

def seedBase : MeterRun FlatAmounts := do
  refuseIf (fails .kvGet) .kvGet
  let persisted := (← get).kv key
  refuseIf (fails .meterSeed) .meterSeed
  modify fun s => { s with cache := s.cache.seed key persisted }
  return (← get).cache.base key

def writeThrough : MeterRun FlatAmounts := do
  refuseIf (fails .kvIncr) .kvIncr
  modify fun s => { s with kv := Function.update s.kv key ((s.kv key).merge amounts) }
  return (← get).kv key

/-- What `incr` answers: the running total, and whether it is known to account for every deployment. -/
structure IncrResult where
  res : FlatAmounts
  exact : Bool

/-- The base that `incr` adds the delta to: the one it was answered, or one that it seeds. -/
def resolveBase (base : FlatAmounts) : MeterRun FlatAmounts :=
  if base.keys ≠ ∅ then pure base else seedBase fails key

/-- The try block of `incr`. -/
def bufferedIncr : MeterRun IncrResult := do
  let (delta, base) ← buffer fails key amounts
  let resolved ← resolveBase fails key base
  return ⟨resolved.merge delta, false⟩

def incr : MeterRun IncrResult :=
  tryCatch (bufferedIncr fails key amounts) fun _ => do
    let res ← writeThrough fails key amounts
    return ⟨res, true⟩

def incrAux : MeterRun Unit :=
  tryCatch (do let _ ← buffer fails key amounts) fun _ => do let _ ← writeThrough fails key amounts

end MeteringBufferStore

open MeteringBufferStore

def BufferState.counted (s : BufferState) (key path : String) : ℚ :=
  (s.kv key).amount path + (s.cache.delta key).amount path + s.claimed key path

def Grew (times : ℚ) (key : String) (amounts : FlatAmounts) (s s' : BufferState) : Prop :=
  ∀ other path, s'.counted other path =
    s.counted other path + if other = key then times * amounts.amount path else 0

def CountsOnce {α : Type} (key : String) (amounts : FlatAmounts) (s : BufferState) :
    EStateM.Result MeterStep BufferState α → Prop
  | .ok _ s' => Grew 1 key amounts s s'
  | .error _ s' => Grew 0 key amounts s s'

def NothingRepeated (fails : StepFailures) (key : String) (amounts : FlatAmounts) (s : BufferState) : Prop :=
  fails .meterIncr = true ∨ (s.cache.base key).keys ≠ ∅ ∨ (fails .kvGet = false ∧ fails .meterSeed = false) ∨
    ∀ path, amounts.amount path = 0

section Growth

variable {key : String} {amounts : FlatAmounts} {s s' s'' : BufferState} {times more : ℚ}

theorem claimed_congr (pending : s'.cache.pending = s.cache.pending)
    (index : s'.cache.pendingIndex = s.cache.pendingIndex) (nonces : s'.nextNonce = s.nextNonce)
    (other path : String) : s'.claimed other path = s.claimed other path := by
  have live : ∀ nonce, s'.liveOn other nonce ↔ s.liveOn other nonce := by
    intro nonce
    unfold BufferState.liveOn
    rw [pending, index]
  unfold BufferState.claimed BufferState.carried
  simp only [nonces, pending, live]

theorem Grew.refl (key : String) (amounts : FlatAmounts) (s : BufferState) : Grew 0 key amounts s s := by
  intro other path
  simp

theorem Grew.trans (first : Grew times key amounts s s') (second : Grew more key amounts s' s'') :
    Grew (times + more) key amounts s s'' := by
  intro other path
  rw [second, first, add_assoc]
  split
  · rw [add_mul]
  · rw [add_zero]

theorem Grew.unique (grew : Grew times key amounts s s') : Grew more key amounts s s' ↔
    times = more ∨ ∀ path, amounts.amount path = 0 := by
  constructor
  · intro grew'
    by_contra differs
    obtain ⟨notSame, notZero⟩ := not_or.mp differs
    obtain ⟨path, filled⟩ := not_forall.mp notZero
    have same := (grew key path).symm.trans (grew' key path)
    simp only [if_true, add_right_inj] at same
    exact notSame (mul_right_cancel₀ filled same)
  · rintro (rfl | zero)
    · exact grew
    · intro other path
      rw [grew, zero, mul_zero, mul_zero]

theorem grew_incr (s : BufferState) (key : String) (amounts : FlatAmounts) :
    Grew 1 key amounts s { s with cache := s.cache.incr key amounts } := by
  intro other path
  have claims : BufferState.claimed { s with cache := s.cache.incr key amounts } other path = s.claimed other path :=
    claimed_congr rfl rfl rfl other path
  unfold BufferState.counted
  rw [claims]
  by_cases isKey : other = key
  · subst isKey
    simp [MeterCache.incr]
    ring
  · simp [MeterCache.incr, isKey]

theorem grew_seed (s : BufferState) (key : String) (amounts persisted : FlatAmounts) :
    Grew 0 key amounts s { s with cache := s.cache.seed key persisted } := by
  intro other path
  rw [MeterCache.seed_claims]
  have claims : BufferState.claimed { s with cache := { s.cache with base := (s.cache.seed key persisted).base } } other
      path = s.claimed other path := claimed_congr rfl rfl rfl other path
  unfold BufferState.counted
  rw [claims]
  simp

theorem grew_write (s : BufferState) (key : String) (amounts : FlatAmounts) :
    Grew 1 key amounts s { s with kv := Function.update s.kv key ((s.kv key).merge amounts) } := by
  intro other path
  have claims : BufferState.claimed { s with kv := Function.update s.kv key ((s.kv key).merge amounts) } other path =
      s.claimed other path := claimed_congr rfl rfl rfl other path
  unfold BufferState.counted
  rw [claims]
  by_cases isKey : other = key
  · subst isKey
    simp
    ring
  · simp [isKey]

end Growth

section Steps

variable {fails : StepFailures} {key : String} {amounts : FlatAmounts} {s s' : BufferState}

theorem buffer_ok {answer : FlatAmounts × FlatAmounts} (ran : buffer fails key amounts s = .ok answer s') :
    fails .meterIncr = false ∧ Grew 1 key amounts s s' ∧ answer.2 = s.cache.base key := by
  obtain ⟨_, _, check, ran⟩ := bind_ok.mp ran
  obtain ⟨passes, rfl⟩ := refuseIf_ok.mp check
  obtain ⟨_, _, changed, ran⟩ := bind_ok.mp ran
  obtain rfl := modify_ok.mp changed
  obtain ⟨_, _, got, ran⟩ := bind_ok.mp ran
  obtain ⟨rfl, rfl⟩ := get_ok.mp got
  obtain ⟨rfl, rfl⟩ := pure_ok.mp ran
  exact ⟨passes, grew_incr s key amounts, rfl⟩

theorem buffer_error {e : MeterStep} (ran : buffer fails key amounts s = .error e s') :
    fails .meterIncr = true ∧ s' = s := by
  obtain failed | ⟨_, _, -, ran⟩ := bind_error.mp ran
  · obtain ⟨refused, -, rfl⟩ := refuseIf_error.mp failed
    exact ⟨refused, rfl⟩
  obtain failed | ⟨_, _, -, ran⟩ := bind_error.mp ran
  · exact absurd failed modify_error
  obtain failed | ⟨_, _, -, ran⟩ := bind_error.mp ran
  · exact absurd failed get_error
  · exact absurd ran pure_error

theorem seedBase_ok {answer : FlatAmounts} (ran : seedBase fails key s = .ok answer s') :
    (fails .kvGet = false ∧ fails .meterSeed = false) ∧ Grew 0 key amounts s s' := by
  obtain ⟨_, _, check, ran⟩ := bind_ok.mp ran
  obtain ⟨read, rfl⟩ := refuseIf_ok.mp check
  obtain ⟨_, _, got, ran⟩ := bind_ok.mp ran
  obtain ⟨rfl, rfl⟩ := get_ok.mp got
  obtain ⟨_, _, check, ran⟩ := bind_ok.mp ran
  obtain ⟨seeded, rfl⟩ := refuseIf_ok.mp check
  obtain ⟨_, _, changed, ran⟩ := bind_ok.mp ran
  obtain rfl := modify_ok.mp changed
  obtain ⟨_, _, got, ran⟩ := bind_ok.mp ran
  obtain ⟨rfl, rfl⟩ := get_ok.mp got
  obtain ⟨-, rfl⟩ := pure_ok.mp ran
  exact ⟨⟨read, seeded⟩, grew_seed s key amounts (s.kv key)⟩

theorem seedBase_error {e : MeterStep} (ran : seedBase fails key s = .error e s') :
    ¬ (fails .kvGet = false ∧ fails .meterSeed = false) ∧ s' = s := by
  obtain failed | ⟨_, _, check, ran⟩ := bind_error.mp ran
  · obtain ⟨refused, -, rfl⟩ := refuseIf_error.mp failed
    exact ⟨by simp [refused], rfl⟩
  obtain ⟨-, rfl⟩ := refuseIf_ok.mp check
  obtain failed | ⟨_, _, got, ran⟩ := bind_error.mp ran
  · exact absurd failed get_error
  obtain ⟨rfl, rfl⟩ := get_ok.mp got
  obtain failed | ⟨_, _, -, ran⟩ := bind_error.mp ran
  · obtain ⟨refused, -, rfl⟩ := refuseIf_error.mp failed
    exact ⟨by simp [refused], rfl⟩
  obtain failed | ⟨_, _, -, ran⟩ := bind_error.mp ran
  · exact absurd failed modify_error
  obtain failed | ⟨_, _, -, ran⟩ := bind_error.mp ran
  · exact absurd failed get_error
  · exact absurd ran pure_error

theorem writeThrough_ok {answer : FlatAmounts} (ran : writeThrough fails key amounts s = .ok answer s') :
    Grew 1 key amounts s s' := by
  obtain ⟨_, _, check, ran⟩ := bind_ok.mp ran
  obtain ⟨-, rfl⟩ := refuseIf_ok.mp check
  obtain ⟨_, _, changed, ran⟩ := bind_ok.mp ran
  obtain rfl := modify_ok.mp changed
  obtain ⟨_, _, got, ran⟩ := bind_ok.mp ran
  obtain ⟨rfl, rfl⟩ := get_ok.mp got
  obtain ⟨-, rfl⟩ := pure_ok.mp ran
  exact grew_write s key amounts

theorem writeThrough_error {e : MeterStep} (ran : writeThrough fails key amounts s = .error e s') : s' = s := by
  obtain failed | ⟨_, _, -, ran⟩ := bind_error.mp ran
  · exact (refuseIf_error.mp failed).2.2.symm
  obtain failed | ⟨_, _, -, ran⟩ := bind_error.mp ran
  · exact absurd failed modify_error
  obtain failed | ⟨_, _, -, ran⟩ := bind_error.mp ran
  · exact absurd failed get_error
  · exact absurd ran pure_error

theorem bufferedIncr_ok {answer : IncrResult} (ran : bufferedIncr fails key amounts s = .ok answer s') :
    Grew 1 key amounts s s' ∧ NothingRepeated fails key amounts s := by
  obtain ⟨⟨delta, base⟩, between, buffered, ran⟩ := bind_ok.mp ran
  obtain ⟨-, grew, rfl⟩ := buffer_ok buffered
  obtain ⟨resolved, _, seeded, ran⟩ := bind_ok.mp ran
  obtain ⟨-, rfl⟩ := pure_ok.mp ran
  unfold resolveBase at seeded
  split at seeded
  next filled =>
    obtain ⟨-, rfl⟩ := pure_ok.mp seeded
    exact ⟨grew, .inr (.inl filled)⟩
  next =>
    obtain ⟨works, seeded⟩ := @seedBase_ok _ _ amounts _ _ _ seeded
    refine ⟨?_, .inr (.inr (.inl works))⟩
    simpa using grew.trans seeded

theorem bufferedIncr_error {e : MeterStep} (ran : bufferedIncr fails key amounts s = .error e s') :
    fails .meterIncr = true ∧ s' = s ∨
      Grew 1 key amounts s s' ∧ (NothingRepeated fails key amounts s → ∀ path, amounts.amount path = 0) := by
  obtain failed | ⟨⟨delta, base⟩, between, buffered, ran⟩ := bind_error.mp ran
  · exact .inl (buffer_error failed)
  obtain ⟨passes, grew, rfl⟩ := buffer_ok buffered
  obtain seeded | ⟨_, _, -, ran⟩ := bind_error.mp ran
  · unfold resolveBase at seeded
    split at seeded
    · exact absurd seeded pure_error
    next empty =>
      obtain ⟨broken, rfl⟩ := seedBase_error seeded
      refine .inr ⟨grew, ?_⟩
      rintro (refused | filled | works | zero)
      · rw [passes] at refused
        cases refused
      · exact absurd filled empty
      · exact absurd works broken
      · exact zero
  · exact absurd ran pure_error

theorem countsOnce_fallback {times : ℚ} {before : BufferState} (grew : Grew times key amounts before s) :
    CountsOnce key amounts before
        ((do let res ← writeThrough fails key amounts; return (⟨res, true⟩ : IncrResult)) s) ↔
      times = 0 ∨ ∀ path, amounts.amount path = 0 := by
  cases ran : (do let res ← writeThrough fails key amounts; return (⟨res, true⟩ : IncrResult) : MeterRun _) s with
  | ok answer s' =>
      obtain ⟨_, _, wrote, ran⟩ := bind_ok.mp ran
      obtain ⟨-, rfl⟩ := pure_ok.mp ran
      have twice := grew.trans (writeThrough_ok wrote)
      rw [CountsOnce, twice.unique]
      simp
  | error e s' =>
      obtain failed | ⟨_, _, -, ran⟩ := bind_error.mp ran
      · obtain rfl := writeThrough_error failed
        rw [CountsOnce, grew.unique]
      · exact absurd ran pure_error

theorem countsOnce_incr :
    CountsOnce key amounts s (incr fails key amounts s) ↔ NothingRepeated fails key amounts s := by
  unfold incr
  cases ran : bufferedIncr fails key amounts s with
  | ok answer s' =>
      obtain ⟨grew, sound⟩ := bufferedIncr_ok ran
      rw [tryCatch_of_ok ran]
      exact iff_of_true grew sound
  | error e s' =>
      rw [tryCatch_of_error ran]
      obtain ⟨refused, rfl⟩ | ⟨grew, repeated⟩ := bufferedIncr_error ran
      · rw [countsOnce_fallback (.refl key amounts s')]
        exact iff_of_true (.inl rfl) (.inl refused)
      · rw [countsOnce_fallback grew]
        constructor
        · rintro (never | zero)
          · exact absurd never one_ne_zero
          · exact .inr (.inr (.inr zero))
        · exact fun sound => .inr (repeated sound)

theorem countsOnce_incrAux (fails : StepFailures) (key : String) (amounts : FlatAmounts) (s : BufferState) :
    CountsOnce key amounts s (incrAux fails key amounts s) := by
  unfold incrAux
  cases ran : (do let _ ← buffer fails key amounts : MeterRun Unit) s with
  | ok answer s' =>
      rw [tryCatch_of_ok ran]
      obtain ⟨_, _, buffered, ended⟩ := bind_ok.mp ran
      obtain ⟨-, rfl⟩ := pure_ok.mp ended
      exact (buffer_ok buffered).2.1
  | error e s' =>
      rw [tryCatch_of_error ran]
      obtain failed | ⟨_, _, -, ended⟩ := bind_error.mp ran
      · obtain ⟨-, rfl⟩ := buffer_error failed
        cases wrote : (do let _ ← writeThrough fails key amounts : MeterRun Unit) s' with
        | ok answer s'' =>
            obtain ⟨_, _, through, ended⟩ := bind_ok.mp wrote
            obtain ⟨-, rfl⟩ := pure_ok.mp ended
            exact writeThrough_ok through
        | error e s'' =>
            obtain failed | ⟨_, _, -, ended⟩ := bind_error.mp wrote
            · obtain rfl := writeThrough_error failed
              exact .refl key amounts s''
            · exact absurd ended pure_error
      · exact absurd ended pure_error

end Steps

/-- Whatever steps fail, `incr` and `incrAux` count their amounts once, as long as no seeding fails after the amounts
    are buffered. -/
theorem counted_once_iff (fails : StepFailures) (key : String) (amounts : FlatAmounts) (s : BufferState) :
    CountsOnce key amounts s (incr fails key amounts s) ∧ CountsOnce key amounts s (incrAux fails key amounts s) ↔
      NothingRepeated fails key amounts s := by
  rw [and_iff_left (countsOnce_incrAux fails key amounts s)]
  exact countsOnce_incr

/-- One unit for a new counter, whose base cannot be read: it is buffered, and written through as well. -/
theorem incr_counts_twice : ¬ CountsOnce "a" (.single "units" 1) (.start fun _ => .empty)
    (incr (· = .kvGet) "a" (.single "units" 1) (.start fun _ => .empty)) := by
  rw [countsOnce_incr]
  rintro (refused | filled | ⟨read, -⟩ | zero)
  · cases refused
  · exact filled rfl
  · cases read
  · exact absurd (zero "units") (by simp [Tally.single])

end Puter

/-
Module: Puter.Share.DailyQuota
Purpose: The daily limit on new shares and invites under any interleaving of one user's calls. A call
  increments the counter of its day before it writes, and decrements a counter when it fails; the key of
  both is computed from the clock of the moment. While every decrement runs on the UTC day of the slot that
  it gives back, a day has no more successes than the limit and its counter holds exactly the slots that were
  reserved on it. A call that fails behind midnight takes a slot off the counter of the day behind.
Trusted boundary: the UTC day of a moment stands for the date that the key spells out; the body of a call
  (the grant and the index row) only succeeds or fails
Main exports: QuotaState, BudgetKept, daily_limit_kept
-/
import Puter.Library.Interleaving

namespace Puter

open Interleaving

def millisPerDay : ℕ := 86400000

def dailyQuotaTtl : ℕ := 2 * 24 * 60 * 60

/-- The day in the key that `dailyQuotaKey` builds. -/
def dailyQuotaKey (now : ℕ) : ℕ := now / millisPerDay

/-- The row of a counter: its count, and the second at which it lapses. -/
structure QuotaRow where
  count : ℤ
  expireAt : ℕ
deriving DecidableEq, Repr

/-- The clock in milliseconds and the counters of one user under their days. For the day of a slot it is
    counted how many calls succeeded with such a slot, and how many slots no call gives back any more: the
    store took the increment and did not answer, or could not be reached for the decrement. -/
structure QuotaState where
  now : ℕ
  rows : ℕ → Option QuotaRow
  succeeded : ℕ → ℕ
  leaked : ℕ → ℕ

namespace QuotaState

def start (now : ℕ) : QuotaState := ⟨now, fun _ => none, fun _ => 0, fun _ => 0⟩

def today (s : QuotaState) : ℕ := dailyQuotaKey s.now

def count (s : QuotaState) (day : ℕ) : ℤ := ((s.rows day).map (·.count)).getD 0

def liveCount (s : QuotaState) (day : ℕ) : ℤ :=
  match s.rows day with
  | some row => if row.expireAt ≤ s.now / 1000 then 0 else row.count
  | none => 0

end QuotaState

def incrementDailyShareCount (s : QuotaState) (amount : ℤ) : QuotaState × ℤ :=
  let used := s.liveCount s.today + amount
  ({ s with rows := Function.update s.rows s.today (some ⟨used, s.now / 1000 + dailyQuotaTtl⟩) }, used)

/-- A call's place in the daily budget: no slot is needed, a slot of the day is held, or the limit is
    reached and the increment has to be taken back. -/
inductive Reservation where
  | noop
  | slot (day : ℕ)
  | overLimit (day : ℕ)
deriving DecidableEq, Repr

def reserveDailyQuota (limit : ℤ) (s : QuotaState) : QuotaState × Reservation :=
  if limit ≤ 0 then (s, .noop)
  else
    let (after, used) := incrementDailyShareCount s 1
    (after, if limit < used then .overLimit s.today else .slot s.today)

/-- What becomes of a request to the store: it is answered, it is taken and its answer is lost, or it is
    not taken. -/
inductive KvFate where
  | answered
  | answerLost
  | notTaken
deriving DecidableEq, Repr

/-- Where a call stands. Sharing and inviting go through the same points: a call for somebody who has access,
    or an invite already, reserves nothing; the others reserve, write, and give their slot back when the
    writing fails. The clock goes on at any time. -/
inductive QuotaCall where
  | reserves (already : Bool)
  | writes (slot : Option ℕ)
  | releases (slot : ℕ) (reaches : Bool)
  | timePasses
deriving DecidableEq, Repr

/-- What a step meets: the fate of the request, whether the writing succeeds, whether a release reaches the
    store, and how much time passes. -/
structure QuotaEvent where
  fate : KvFate
  succeeds : Bool
  reaches : Bool
  elapsed : ℕ
deriving DecidableEq, Repr

namespace QuotaState

def succeed (s : QuotaState) (day : ℕ) : QuotaState :=
  { s with succeeded := Function.update s.succeeded day (s.succeeded day + 1) }

def leak (s : QuotaState) (day : ℕ) : QuotaState :=
  { s with leaked := Function.update s.leaked day (s.leaked day + 1) }

end QuotaState

def QuotaCall.reserve (limit : ℤ) (s : QuotaState) (event : QuotaEvent) : QuotaState × Option QuotaCall :=
  match event.fate, reserveDailyQuota limit s with
  | .notTaken, (_, .slot _) | .notTaken, (_, .overLimit _) => (s, none)
  | .answerLost, (after, .slot day) | .answerLost, (after, .overLimit day) => (after.leak day, none)
  | .answered, (after, .slot day) => (after, some (.writes (some day)))
  | .answered, (after, .overLimit day) => (after, some (.releases day event.reaches))
  | _, (after, .noop) => (after, some (.writes none))

def QuotaCall.perform (limit : ℤ) (s : QuotaState) (event : QuotaEvent) :
    QuotaCall → QuotaState × Option QuotaCall
  | .reserves already => if already then (s, some (.writes none)) else QuotaCall.reserve limit s event
  | .writes none => (s, none)
  | .writes (some day) =>
      if event.succeeds then (s.succeed day, none) else (s, some (.releases day event.reaches))
  -- The key is computed anew: it names the day of the release.
  | .releases _ true => ((incrementDailyShareCount s (-1)).1, none)
  | .releases day false => (s.leak day, none)
  | .timePasses => ({ s with now := s.now + event.elapsed }, none)

def ReleasesInTime (s : QuotaState) (_ : List QuotaCall) (call : QuotaCall) : Prop :=
  ∀ day, call = .releases day true → s.today = day

def quotaSystem (limit : ℤ) (allow : QuotaState → List QuotaCall → QuotaCall → Prop) :
    System QuotaState QuotaCall where
  issues call := (∃ already, call = .reserves already) ∨ call = .timePasses
  atom s call s' next := ∃ event, call.perform limit s event = (s', next)
  allow := allow

def QuotaCall.holds (day : ℕ) : QuotaCall → ℕ
  | .writes (some slot) => if slot = day then 1 else 0
  | .releases slot _ => if slot = day then 1 else 0
  | _ => 0

/-- The budget is kept: on each day no more shares and invites with a slot of the day succeeded than the limit,
    and the counter of the day holds those, the slots that calls in flight hold, and the slots of the day that
    leaked. So a call that has failed and given its slot back is in the counter of no day. -/
structure BudgetKept (limit : ℤ) (c : Config QuotaState QuotaCall) : Prop where
  limited : ∀ day, (c.shared.succeeded day : ℤ) ≤ max limit 0
  ownDay : ∀ day, c.shared.count day =
    c.shared.succeeded day + c.shared.leaked day + weight (QuotaCall.holds day) c.inFlight

section Days

variable {limit : ℤ} {s s' : QuotaState} {day slot : ℕ} {reaches : Bool}

/-- What holds of the day while its slots are given back in time: `writing` and `releasing` slots of the day
    are held by calls in flight. -/
structure DayHolds (limit : ℤ) (day : ℕ) (s : QuotaState) (held : ℕ × ℕ) : Prop where
  counted : s.count day = s.succeeded day + s.leaked day + (held.1 + held.2 : ℕ)
  limited : ((s.succeeded day + held.1 : ℕ) : ℤ) ≤ max limit 0
  /-- A counter lapses behind the end of its day only. -/
  outlives : ∀ row, s.rows day = some row → (day + 1) * 86400 ≤ row.expireAt

def QuotaCall.heldOf (day : ℕ) : QuotaCall → ℕ × ℕ
  | .writes (some slot) => (if slot = day then 1 else 0, 0)
  | .releases slot _ => (0, if slot = day then 1 else 0)
  | _ => (0, 0)

theorem QuotaCall.holds_eq (call : QuotaCall) : call.holds day = (call.heldOf day).1 + (call.heldOf day).2 := by
  cases call with
  | reserves already => rfl
  | writes slot => cases slot <;> rfl
  | releases slot reaches => simp [QuotaCall.holds, QuotaCall.heldOf]
  | timePasses => rfl

theorem weight_holds (calls : List QuotaCall) :
    weight (QuotaCall.holds day) calls =
      (weight (QuotaCall.heldOf day) calls).1 + (weight (QuotaCall.heldOf day) calls).2 := by
  induction calls with
  | nil => rfl
  | cons call calls ih =>
      simp only [weight_cons, ih, QuotaCall.holds_eq, Prod.fst_add, Prod.snd_add]
      omega

theorem seconds_before_end (now : ℕ) : now / 1000 < (dailyQuotaKey now + 1) * 86400 := by
  simp only [dailyQuotaKey, millisPerDay]
  omega

theorem end_before_expiry (now : ℕ) : (dailyQuotaKey now + 1) * 86400 ≤ now / 1000 + dailyQuotaTtl := by
  simp only [dailyQuotaKey, millisPerDay, dailyQuotaTtl]
  omega

theorem DayHolds.liveCount {held : ℕ × ℕ} (holds : DayHolds limit day s held) (isToday : s.today = day) :
    s.liveCount day = s.count day := by
  unfold QuotaState.liveCount QuotaState.count
  cases row : s.rows day with
  | none => rfl
  | some found =>
      have later := holds.outlives found row
      have before : s.now / 1000 < (day + 1) * 86400 := isToday ▸ seconds_before_end s.now
      simp [show ¬ found.expireAt ≤ s.now / 1000 by omega]

@[simp] theorem increment_succeeded (amount : ℤ) :
    (incrementDailyShareCount s amount).1.succeeded = s.succeeded := rfl

@[simp] theorem increment_leaked (amount : ℤ) : (incrementDailyShareCount s amount).1.leaked = s.leaked := rfl

@[simp] theorem increment_now (amount : ℤ) : (incrementDailyShareCount s amount).1.now = s.now := rfl

theorem increment_rows_of_ne (amount : ℤ) (other : day ≠ s.today) :
    (incrementDailyShareCount s amount).1.rows day = s.rows day :=
  Function.update_of_ne other _ _

theorem increment_count_of_ne (amount : ℤ) (other : day ≠ s.today) :
    (incrementDailyShareCount s amount).1.count day = s.count day := by
  rw [QuotaState.count, increment_rows_of_ne amount other, QuotaState.count]

theorem increment_count (amount : ℤ) :
    (incrementDailyShareCount s amount).1.count s.today = (incrementDailyShareCount s amount).2 := by
  simp [QuotaState.count, incrementDailyShareCount]

theorem DayHolds.increment {held : ℕ × ℕ} (holds : DayHolds limit day s held) (amount : ℤ) :
    (incrementDailyShareCount s amount).1.count day = s.count day + (if s.today = day then amount else 0) ∧
      ∀ row, (incrementDailyShareCount s amount).1.rows day = some row → (day + 1) * 86400 ≤ row.expireAt := by
  by_cases isToday : s.today = day
  · subst isToday
    refine ⟨?_, ?_⟩
    · rw [increment_count, if_pos rfl]
      simp [incrementDailyShareCount, holds.liveCount rfl]
    · intro row found
      simp only [incrementDailyShareCount, Function.update_self, Option.some.injEq] at found
      subst found
      exact end_before_expiry s.now
  · have other : day ≠ s.today := fun same => isToday same.symm
    rw [increment_count_of_ne amount other, increment_rows_of_ne amount other, if_neg isToday]
    exact ⟨(add_zero _).symm, holds.outlives⟩

variable {rest : ℕ × ℕ}

theorem DayHolds.slotTaken (holds : DayHolds limit day s rest)
    (allowed : (incrementDailyShareCount s 1).2 ≤ limit) :
    DayHolds limit day (incrementDailyShareCount s 1).1
      ((QuotaCall.writes (some s.today)).heldOf day + rest) := by
  obtain ⟨counted, outlives⟩ := holds.increment 1
  have before := holds.counted
  have limited := holds.limited
  by_cases isToday : s.today = day
  · have used : (incrementDailyShareCount s 1).2 = s.count day + 1 := by
      rw [← increment_count, isToday, counted, if_pos isToday]
    refine ⟨?_, ?_, outlives⟩
    · rw [counted, before]
      simp only [QuotaCall.heldOf, if_pos isToday, increment_succeeded, increment_leaked, Prod.fst_add,
        Prod.snd_add]
      omega
    · simp only [QuotaCall.heldOf, if_pos isToday, increment_succeeded, Prod.fst_add]
      omega
  · refine ⟨?_, ?_, outlives⟩
    · rw [counted, before]
      simp only [QuotaCall.heldOf, if_neg isToday, increment_succeeded, increment_leaked, Prod.fst_add,
        Prod.snd_add]
      omega
    · simp only [QuotaCall.heldOf, if_neg isToday, increment_succeeded, Prod.fst_add]
      omega

theorem DayHolds.overLimit (holds : DayHolds limit day s rest) (reaches : Bool) :
    DayHolds limit day (incrementDailyShareCount s 1).1
      ((QuotaCall.releases s.today reaches).heldOf day + rest) := by
  obtain ⟨counted, outlives⟩ := holds.increment 1
  have before := holds.counted
  have limited := holds.limited
  refine ⟨?_, ?_, outlives⟩
  · rw [counted, before]
    simp only [QuotaCall.heldOf, increment_succeeded, increment_leaked, Prod.fst_add, Prod.snd_add]
    split <;> omega
  · simp only [QuotaCall.heldOf, increment_succeeded, Prod.fst_add]
    omega

theorem DayHolds.lost (holds : DayHolds limit day s rest) :
    DayHolds limit day ((incrementDailyShareCount s 1).1.leak s.today) rest := by
  obtain ⟨counted, outlives⟩ := holds.increment 1
  have before := holds.counted
  refine ⟨?_, holds.limited, outlives⟩
  have leaked : ((incrementDailyShareCount s 1).1.leak s.today).leaked day =
      s.leaked day + if s.today = day then 1 else 0 := by
    by_cases isToday : s.today = day
    · subst isToday
      simp [QuotaState.leak]
    · simp [QuotaState.leak, Function.update_of_ne (Ne.symm isToday), if_neg isToday]
  have same : ((incrementDailyShareCount s 1).1.leak s.today).count day =
      (incrementDailyShareCount s 1).1.count day := rfl
  have kept : ((incrementDailyShareCount s 1).1.leak s.today).succeeded day = s.succeeded day := rfl
  rw [same, counted, before, leaked, kept]
  split <;> omega

theorem DayHolds.release (inTime : s.today = slot)
    (holds : DayHolds limit day s ((QuotaCall.releases slot true).heldOf day + rest)) :
    DayHolds limit day (incrementDailyShareCount s (-1)).1 rest := by
  obtain ⟨counted, outlives⟩ := holds.increment (-1)
  have before := holds.counted
  have limited := holds.limited
  subst inTime
  simp only [QuotaCall.heldOf, Prod.fst_add, Prod.snd_add] at before limited
  refine ⟨?_, ?_, outlives⟩
  · rw [counted, before, increment_succeeded, increment_leaked]
    split <;> omega
  · rw [increment_succeeded]
    omega

theorem DayHolds.leak (holds : DayHolds limit day s ((QuotaCall.releases slot reaches).heldOf day + rest)) :
    DayHolds limit day (s.leak slot) rest := by
  have before := holds.counted
  have limited := holds.limited
  simp only [QuotaCall.heldOf, Prod.fst_add, Prod.snd_add] at before limited
  have leaked : (s.leak slot).leaked day = s.leaked day + if slot = day then 1 else 0 := by
    by_cases same : slot = day
    · subst same
      simp [QuotaState.leak]
    · simp [QuotaState.leak, Function.update_of_ne (Ne.symm same), if_neg same]
  refine ⟨?_, ?_, holds.outlives⟩
  · rw [leaked, show (s.leak slot).count day = s.count day from rfl, before,
      show (s.leak slot).succeeded day = s.succeeded day from rfl]
    split <;> omega
  · rw [show (s.leak slot).succeeded day = s.succeeded day from rfl]
    omega

theorem DayHolds.succeed (holds : DayHolds limit day s ((QuotaCall.writes (some slot)).heldOf day + rest)) :
    DayHolds limit day (s.succeed slot) rest := by
  have before := holds.counted
  have limited := holds.limited
  simp only [QuotaCall.heldOf, Prod.fst_add, Prod.snd_add] at before limited
  have succeeded : (s.succeed slot).succeeded day = s.succeeded day + if slot = day then 1 else 0 := by
    by_cases same : slot = day
    · subst same
      simp [QuotaState.succeed]
    · simp [QuotaState.succeed, Function.update_of_ne (Ne.symm same), if_neg same]
  refine ⟨?_, ?_, holds.outlives⟩
  · rw [succeeded, show (s.succeed slot).count day = s.count day from rfl, before,
      show (s.succeed slot).leaked day = s.leaked day from rfl]
    split <;> omega
  · rw [succeeded]
    split at limited
    · rw [if_pos (by assumption)]
      omega
    · rw [if_neg (by assumption)]
      omega

theorem zero_left (rest : ℕ × ℕ) : (0, 0) + rest = rest := zero_add rest

theorem reserve_holds (holds : DayHolds limit day s rest) (event : QuotaEvent) :
    DayHolds limit day (QuotaCall.reserve limit s event).1
      (weight (QuotaCall.heldOf day) (QuotaCall.reserve limit s event).2.toList + rest) := by
  have noSlot : DayHolds limit day s ((0, 0) + rest) := (zero_left rest).symm ▸ holds
  unfold QuotaCall.reserve reserveDailyQuota
  by_cases off : limit ≤ 0
  · simp only [if_pos off]
    cases event.fate <;> exact noSlot
  · simp only [if_neg off]
    by_cases exceeds : limit < (incrementDailyShareCount s 1).2
    · cases event.fate with
      | answered => simpa [if_pos exceeds, weight] using holds.overLimit event.reaches
      | answerLost => simpa [if_pos exceeds] using holds.lost
      | notTaken => simpa [if_pos exceeds] using holds
    · cases event.fate with
      | answered => simpa [if_neg exceeds, weight] using holds.slotTaken (not_lt.mp exceeds)
      | answerLost => simpa [if_neg exceeds] using holds.lost
      | notTaken => simpa [if_neg exceeds] using holds

theorem perform_holds {call : QuotaCall} (inTime : ReleasesInTime s [] call)
    (holds : DayHolds limit day s (call.heldOf day + rest)) (event : QuotaEvent) :
    DayHolds limit day (call.perform limit s event).1
      (weight (QuotaCall.heldOf day) (call.perform limit s event).2.toList + rest) := by
  cases call with
  | reserves already =>
      rw [show (QuotaCall.reserves already).heldOf day = (0, 0) from rfl, zero_left] at holds
      cases already with
      | true => simpa [QuotaCall.perform, QuotaCall.heldOf, zero_left] using holds
      | false => exact reserve_holds holds event
  | writes taken =>
      cases taken with
      | none =>
          rw [show (QuotaCall.writes none).heldOf day = (0, 0) from rfl, zero_left] at holds
          simpa [QuotaCall.perform] using holds
      | some slot =>
          cases succeeds : event.succeeds with
          | true => simpa [QuotaCall.perform, succeeds] using holds.succeed
          | false =>
              have limited := holds.limited
              have counted := holds.counted
              simp only [QuotaCall.perform, succeeds, Bool.false_eq_true, if_false, Option.toList_some,
                weight_cons, weight_nil, add_zero]
              simp only [QuotaCall.heldOf, Prod.fst_add, Prod.snd_add] at limited counted
              refine ⟨?_, ?_, holds.outlives⟩
              · simp only [QuotaCall.heldOf, Prod.fst_add, Prod.snd_add]
                omega
              · simp only [QuotaCall.heldOf, Prod.fst_add]
                omega
  | releases slot reaches =>
      cases reaches with
      | true => simpa [QuotaCall.perform] using holds.release (inTime slot rfl)
      | false => simpa [QuotaCall.perform] using holds.leak
  | timePasses =>
      rw [show QuotaCall.timePasses.heldOf day = (0, 0) from rfl, zero_left] at holds
      simpa [QuotaCall.perform] using (⟨holds.counted, holds.limited, holds.outlives⟩ :
        DayHolds limit day { s with now := s.now + event.elapsed } rest)

theorem run_dayHolds {now : ℕ} {c : Config QuotaState QuotaCall}
    (run : Run (quotaSystem limit ReleasesInTime) ⟨.start now, []⟩ c) :
    DayHolds limit day c.shared (weight (QuotaCall.heldOf day) c.inFlight) := by
  refine (@run_weighed _ _ _ _ _ (fun _ _ => True) (QuotaCall.heldOf day) (DayHolds limit day) _ _ run
    ⟨fun _ _ => trivial, ?_⟩ ?_ ?_).holds
  · exact ⟨rfl, le_max_right limit 0, fun _ found => nomatch found⟩
  · rintro s call rest (⟨already, rfl⟩ | rfl) holds
    · exact ⟨trivial, (zero_left rest).symm ▸ holds⟩
    · exact ⟨trivial, (zero_left rest).symm ▸ holds⟩
  · rintro s others call s' next inTime ⟨event, step⟩ - - holds
    have kept := perform_holds inTime holds event
    rw [step] at kept
    exact ⟨fun _ _ => trivial, fun _ _ => trivial, kept⟩

end Days

/-- In every run of one user's shares and invites in which each decrement runs on the day of its slot, no day
    sees more successes with a slot than the limit, and a call that failed is in the counter of no day. -/
theorem daily_limit_kept (limit : ℤ) (now : ℕ) (c : Config QuotaState QuotaCall)
    (run : Run (quotaSystem limit ReleasesInTime) ⟨.start now, []⟩ c) : BudgetKept limit c where
  limited day := by
    have holds : DayHolds limit day c.shared _ := run_dayHolds run
    have limited := holds.limited
    omega
  ownDay day := by
    have holds : DayHolds limit day c.shared _ := run_dayHolds run
    rw [holds.counted, weight_holds]

def answered (succeeds : Bool) : QuotaEvent := ⟨.answered, succeeds, true, 0⟩

def shareAfter (s : QuotaState) : QuotaState := (incrementDailyShareCount s 1).1.succeed s.today

theorem share_run {limit : ℤ} {allow : QuotaState → List QuotaCall → QuotaCall → Prop} {s : QuotaState}
    (limits : 0 < limit) (free : (incrementDailyShareCount s 1).2 ≤ limit)
    (reserving : allow s [] (.reserves false))
    (writing : allow (incrementDailyShareCount s 1).1 [] (.writes (some s.today))) :
    Run (quotaSystem limit allow) ⟨s, []⟩ ⟨shareAfter s, []⟩ := by
  have issued : Run (quotaSystem limit allow) ⟨s, []⟩ ⟨s, [.reserves false]⟩ :=
    .single (.issue (.inl ⟨false, rfl⟩))
  have reserved : Run (quotaSystem limit allow) ⟨s, [.reserves false]⟩
      ⟨(incrementDailyShareCount s 1).1, [.writes (some s.today)]⟩ := by
    refine .single (@Step.alone _ _ (quotaSystem _ _) _ _ _ (some (.writes (some s.today))) reserving
      ⟨answered true, ?_⟩)
    simp [QuotaCall.perform, QuotaCall.reserve, reserveDailyQuota, answered, not_le.mpr limits, not_lt.mpr free]
  have written : Run (quotaSystem limit allow) ⟨(incrementDailyShareCount s 1).1, [.writes (some s.today)]⟩
      ⟨shareAfter s, []⟩ :=
    .single (@Step.alone _ _ (quotaSystem _ _) _ _ _ none writing ⟨answered true, rfl⟩)
  exact (issued.trans reserved).trans written

/-- One share is made on a day with a limit of one. -/
theorem daily_limit_kept_one : BudgetKept 1 ⟨shareAfter (.start 0), []⟩ :=
  daily_limit_kept 1 0 _
    (share_run (by decide) (by decide) (fun _ same => nomatch same) (fun _ same => nomatch same))

def beforeMidnight : QuotaState := .start (millisPerDay - 1000)

abbrev anyRelease : System QuotaState QuotaCall := quotaSystem 1 fun _ _ _ => True

def lateRelease : QuotaState :=
  let reserved := (incrementDailyShareCount beforeMidnight 1).1
  (incrementDailyShareCount { reserved with now := reserved.now + 2000 } (-1)).1

theorem lateRelease_run :
    Run anyRelease ⟨beforeMidnight, []⟩ ⟨lateRelease, []⟩ := by
  let reserved := (incrementDailyShareCount beforeMidnight 1).1
  let nextDay : QuotaState := { reserved with now := reserved.now + 2000 }
  have issued : Run anyRelease ⟨beforeMidnight, []⟩
      ⟨reserved, [.writes (some 0)]⟩ :=
    (Relation.ReflTransGen.single (.issue (.inl ⟨false, rfl⟩))).tail
      (@Step.alone _ _ anyRelease _ _ _ (some (.writes (some 0))) trivial ⟨answered true, rfl⟩)
  have passed : Run anyRelease ⟨reserved, [.writes (some 0)]⟩
      ⟨nextDay, [.writes (some 0)]⟩ :=
    (Relation.ReflTransGen.single (.issue (.inr rfl))).tail
      (@Step.completes _ _ anyRelease _ _ _ [.writes (some 0)] trivial
        ⟨⟨.answered, true, true, 2000⟩, rfl⟩)
  have released : Run anyRelease ⟨nextDay, [.writes (some 0)]⟩ ⟨lateRelease, []⟩ :=
    (Relation.ReflTransGen.single
      (@Step.alone _ _ anyRelease _ _ _ (some (.releases 0 true)) trivial ⟨answered false, rfl⟩)).tail
      (@Step.alone _ _ anyRelease _ _ _ none trivial ⟨answered true, rfl⟩)
  exact (issued.trans passed).trans released

/-- The counter of the new day stands at minus one: two shares succeed on it under a limit of one. -/
theorem late_release_widens_next_day :
    ¬ ∀ limit now c, Run (quotaSystem limit fun _ _ _ => True) ⟨.start now, []⟩ c → BudgetKept limit c := by
  intro kept
  have first : Run anyRelease ⟨lateRelease, []⟩ ⟨shareAfter lateRelease, []⟩ :=
    share_run (by decide) (by decide) trivial trivial
  have second : Run anyRelease ⟨shareAfter lateRelease, []⟩
      ⟨shareAfter (shareAfter lateRelease), []⟩ :=
    share_run (by decide) (by decide) trivial trivial
  have budget := kept 1 _ _ ((lateRelease_run.trans first).trans second)
  have twice := budget.limited 1
  revert twice
  decide

end Puter

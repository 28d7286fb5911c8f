/-
Module: Puter.RateLimit.RedisWindow
Purpose: The sliding window that the Redis backend keeps for one key. A call adds its hit in one block with
  the pruning and the count, and takes it back in a later command when the count is over the limit. The
  block gives the key the length of the window to live from the time it runs, which is later than its
  timestamp, so a block that runs late can find the key gone while hits it has to count are in its window.
  Where no block does, no window has more admitted hits than the limit; and a call is rejected only for
  that many others, whatever the keys do.
Trusted boundary: Redis runs a block as one step, and removes a key after its time to live
Main exports: Hit, checkRedisSystem, checkRedis_limits
-/
import Puter.Library.Interleaving
import Puter.Library.ScoredSet

namespace Puter

open Interleaving

/-- A member of the sorted set, `${now}:${randomUUID()}`. The identifiers are drawn in order. -/
structure Hit where
  stamp : ℕ
  uuid : ℕ
deriving DecidableEq, Repr

/-- The hit's timestamp is in the half-open window that starts at `start`. -/
def Hit.within (window start : ℕ) (hit : Hit) : Bool :=
  decide (start ≤ hit.stamp) && decide (hit.stamp < start + window)

/-- The hit is still in the window that ends at `now`. -/
def Hit.lasts (window now : ℕ) (hit : Hit) : Bool := decide (now < hit.stamp + window)

/-- A call that was over the limit, and the calls in its window that were admitted or had not returned when
    its block ran. -/
structure Rejection where
  hit : Hit
  rivals : List Hit

/-- The key, and what the calls have come to: the hits that were admitted, those that were added and not
    decided or withdrawn yet, and the rejections. -/
structure WindowState where
  clock : ℕ
  key : ScoredSet Hit
  latest : ℕ
  nextUuid : ℕ
  admitted : List Hit
  undecided : List Hit
  rejected : List Rejection

/-- A program point of `checkRedis`, or time that passes. -/
inductive RateCall where
  /-- `Date.now()`. -/
  | check
  /-- The `MULTI` block. -/
  | multi (now : ℕ)
  /-- `ZREM` of a hit over the limit. -/
  | withdraw (hit : Hit)
  | elapse (ms : ℕ)

def WindowState.rivals (s : WindowState) (window now : ℕ) : List Hit :=
  (s.admitted ++ s.undecided).filter (Hit.lasts window now)

def WindowState.nextHit (s : WindowState) (now : ℕ) : Hit := ⟨now, s.nextUuid⟩

def RateCall.perform (limit window : ℕ) (s : WindowState) : RateCall → WindowState × Option RateCall
  | .check => (s, some (.multi s.clock))
  | .multi now =>
      let hit := s.nextHit now
      let key := s.key.enter s.clock window now hit
      let s' := { s with key := key, latest := now, nextUuid := s.nextUuid + 1 }
      if key.zcard > limit then
        ({ s' with undecided := hit :: s.undecided
                   rejected := ⟨hit, s.rivals window now⟩ :: s.rejected }, some (.withdraw hit))
      else ({ s' with admitted := hit :: s.admitted }, none)
  | .withdraw hit =>
      ({ s with key := s.key.onKey s.clock fun key => key.zrem hit
                undecided := s.undecided.erase hit }, none)
  | .elapse ms => ({ s with clock := s.clock + ms }, none)

def RateCall.InTurn (s : WindowState) : RateCall → Prop
  | .multi now => s.latest ≤ now
  | _ => True

/-- Any number of calls of `checkRedis` on one key with a fixed limit and window. -/
def checkRedisSystem (limit window : ℕ) (allow : WindowState → List RateCall → RateCall → Prop) :
    System WindowState RateCall where
  issues call := call = .check ∨ ∃ ms, call = .elapse ms
  atom s call s' next := call.InTurn s ∧ call.perform limit window s = (s', next)
  allow := allow

def WindowState.start (clock : ℕ) : WindowState := ⟨clock, .empty, 0, 0, [], [], []⟩

def WindowState.Limited (limit window : ℕ) (s : WindowState) : Prop :=
  ∀ start, (s.admitted.filter (Hit.within window start)).length ≤ limit

/-- At least as many other calls as the limit had their timestamps in the window of the rejected one. -/
structure Rejection.Crowded (limit window : ℕ) (rejection : Rejection) : Prop where
  apart : rejection.rivals.Nodup
  enough : limit ≤ rejection.rivals.length
  others : rejection.hit ∉ rejection.rivals
  near : ∀ rival ∈ rejection.rivals,
    rival.stamp ≤ rejection.hit.stamp ∧ rejection.hit.stamp < rival.stamp + window

def FindsItsWindow (window : ℕ) (s : WindowState) (_ : List RateCall) : RateCall → Prop
  | .multi now => s.key.gone s.clock → ∀ hit ∈ s.admitted, hit.stamp + window ≤ now
  | _ => True

theorem within_cons {limit window : ℕ} {hits : List Hit} {hit : Hit}
    (limited : ∀ start, (hits.filter (Hit.within window start)).length ≤ limit)
    (room : (hits.filter (Hit.lasts window hit.stamp)).length + 1 ≤ limit) (start : ℕ) :
    ((hit :: hits).filter (Hit.within window start)).length ≤ limit := by
  rw [List.filter_cons]
  split
  · rename_i inside
    simp only [Hit.within, Bool.and_eq_true, decide_eq_true_eq] at inside
    -- A window with the new hit ends after it, so its other hits have not left the window yet.
    have narrower : (hits.filter (Hit.within window start)).length ≤
        (hits.filter (Hit.lasts window hit.stamp)).length := by
      refine (List.monotone_filter_right hits fun old within => ?_).length_le
      simp only [Hit.within, Hit.lasts, Bool.and_eq_true, decide_eq_true_eq] at within ⊢
      omega
    rw [List.length_cons]
    omega
  · exact limited start

/-- What the state keeps. -/
structure Windowed (limit window : ℕ) (s : WindowState) : Prop where
  distinct : s.key.Distinct
  scored : ∀ entry ∈ s.key.members, entry.2 = entry.1.stamp
  known : ∀ entry ∈ (s.key.current s.clock).members, entry.1 ∈ s.admitted ++ s.undecided
  counted : ∀ hit ∈ s.admitted, s.latest < hit.stamp + window → (hit, hit.stamp) ∈ s.key.members
  past : ∀ hit ∈ s.admitted ++ s.undecided, hit.stamp ≤ s.latest ∧ hit.uuid < s.nextUuid
  apart : (s.admitted ++ s.undecided).Nodup
  limited : s.Limited limit window
  crowded : ∀ rejection ∈ s.rejected, rejection.Crowded limit window

def RateCall.Withdraws (s : WindowState) : RateCall → Prop
  | .withdraw hit => hit.uuid < s.nextUuid ∧ hit ∉ s.admitted
  | _ => True

section Block

variable {limit window now : ℕ} {s : WindowState}

theorem Windowed.fresh (windowed : Windowed limit window s) (now : ℕ) :
    s.nextHit now ∉ s.admitted ++ s.undecided := by
  intro member
  exact absurd (windowed.past _ member).2 (lt_irrefl _)

theorem Windowed.entered (windowed : Windowed limit window s) {entry : Hit × ℕ}
    (found : entry ∈ (s.key.enter s.clock window now (s.nextHit now)).members) :
    entry = (s.nextHit now, now) ∨ entry ∈ s.key.members ∧ entry.1 ∈ s.rivals window now := by
  rcases ScoredSet.mem_enter.mp found with isNew | ⟨⟨old, recent⟩, _⟩
  · exact .inl isNew
  · have stored := (ScoredSet.mem_current.mp old).2
    refine .inr ⟨stored, List.mem_filter.mpr ⟨windowed.known entry old, ?_⟩⟩
    rw [windowed.scored entry stored] at recent
    exact decide_eq_true recent

theorem Windowed.still_counted (windowed : Windowed limit window s) (inTurn : s.latest ≤ now)
    (finds : FindsItsWindow window s [] (.multi now)) {hit : Hit} (admitted : hit ∈ s.admitted)
    (lasts : now < hit.stamp + window) :
    (hit, hit.stamp) ∈ (s.key.enter s.clock window now (s.nextHit now)).members := by
  have there : s.key.gone s.clock = false := by
    by_contra absent
    have left := finds (by simpa using absent) hit admitted
    omega
  have stored := windowed.counted hit admitted (by omega)
  have other : hit ≠ s.nextHit now := by
    rintro rfl
    exact windowed.fresh now (List.mem_append_left _ admitted)
  exact ScoredSet.mem_enter.mpr (.inr ⟨⟨ScoredSet.mem_current.mpr ⟨there, stored⟩, lasts⟩, other⟩)

theorem Windowed.limited_admit (windowed : Windowed limit window s) (inTurn : s.latest ≤ now)
    (finds : FindsItsWindow window s [] (.multi now))
    (room : (s.key.enter s.clock window now (s.nextHit now)).zcard ≤ limit) (start : ℕ) :
    ((s.nextHit now :: s.admitted).filter (Hit.within window start)).length ≤ limit := by
  refine within_cons windowed.limited ?_ start
  have notAdmitted : s.nextHit now ∉ s.admitted := fun member =>
    windowed.fresh now (List.mem_append_left _ member)
  have apart : (s.nextHit now :: s.admitted.filter (Hit.lasts window now)).Nodup :=
    List.nodup_cons.mpr ⟨fun member => notAdmitted (List.mem_of_mem_filter member),
      (List.nodup_append.mp windowed.apart).1.filter _⟩
  have inside : ∀ hit ∈ s.nextHit now :: s.admitted.filter (Hit.lasts window now),
      hit ∈ (s.key.enter s.clock window now (s.nextHit now)).names := by
    intro hit member
    rcases List.mem_cons.mp member with rfl | counted
    · exact List.mem_map_of_mem (ScoredSet.mem_enter.mpr (.inl rfl))
    · obtain ⟨admitted, lasts⟩ := List.mem_filter.mp counted
      exact List.mem_map_of_mem
        (windowed.still_counted inTurn finds admitted (of_decide_eq_true lasts))
  exact (ScoredSet.length_le_zcard apart inside).trans room

theorem Windowed.crowded_reject (windowed : Windowed limit window s) (inTurn : s.latest ≤ now)
    (exceeds : limit < (s.key.enter s.clock window now (s.nextHit now)).zcard) :
    Rejection.Crowded limit window ⟨s.nextHit now, s.rivals window now⟩ where
  apart := windowed.apart.filter _
  enough := by
    have inside : ∀ entry ∈ (s.key.enter s.clock window now (s.nextHit now)).members,
        entry.1 ∈ s.nextHit now :: s.rivals window now := by
      intro entry found
      rcases windowed.entered found with rfl | ⟨_, rival⟩
      · exact List.mem_cons_self
      · exact List.mem_cons_of_mem _ rival
    have bound := ScoredSet.zcard_le_length (windowed.distinct.enter _ _ _ _) inside
    rw [List.length_cons] at bound
    exact Nat.le_of_lt_succ (exceeds.trans_le bound)
  others member := windowed.fresh now (List.mem_of_mem_filter member)
  near rival member := by
    obtain ⟨known, lasts⟩ := List.mem_filter.mp member
    exact ⟨(windowed.past rival known).1.trans inTurn, of_decide_eq_true lasts⟩

theorem Windowed.multi (windowed : Windowed limit window s) (inTurn : s.latest ≤ now)
    (finds : FindsItsWindow window s [] (.multi now)) :
    Windowed limit window (RateCall.perform limit window s (.multi now)).1 := by
  have pastNow : ∀ hit ∈ s.admitted ++ s.undecided, hit.stamp ≤ now ∧ hit.uuid < s.nextUuid + 1 := by
    intro hit member
    obtain ⟨earlier, drawn⟩ := windowed.past hit member
    exact ⟨earlier.trans inTurn, drawn.trans (Nat.lt_succ_self _)⟩
  have scored : ∀ entry ∈ (s.key.enter s.clock window now (s.nextHit now)).members,
      entry.2 = entry.1.stamp := by
    intro entry found
    rcases windowed.entered found with rfl | ⟨stored, _⟩
    · rfl
    · exact windowed.scored entry stored
  have known : ∀ entry ∈ ((s.key.enter s.clock window now (s.nextHit now)).current s.clock).members,
      entry.1 = s.nextHit now ∨ entry.1 ∈ s.admitted ++ s.undecided := by
    intro entry found
    rcases windowed.entered (ScoredSet.mem_current.mp found).2 with rfl | ⟨_, rival⟩
    · exact .inl rfl
    · exact .inr (List.mem_of_mem_filter rival)
  have fresh := windowed.fresh now
  rw [List.mem_append, not_or] at fresh
  simp only [RateCall.perform]
  split
  · rename_i exceeds
    exact {
      distinct := windowed.distinct.enter _ _ _ _
      scored := scored
      known := by
        intro entry found
        rcases known entry found with isNew | old
        · exact List.mem_append_right _ (isNew ▸ List.mem_cons_self)
        · rcases List.mem_append.mp old with admitted | undecided
          · exact List.mem_append_left _ admitted
          · exact List.mem_append_right _ (List.mem_cons_of_mem _ undecided)
      counted := fun hit admitted lasts => windowed.still_counted inTurn finds admitted lasts
      past := by
        intro hit member
        rcases List.mem_append.mp member with admitted | undecided
        · exact pastNow hit (List.mem_append_left _ admitted)
        · rcases List.mem_cons.mp undecided with rfl | old
          · exact ⟨le_refl _, Nat.lt_succ_self _⟩
          · exact pastNow hit (List.mem_append_right _ old)
      apart := by
        refine List.nodup_middle.mpr (List.nodup_cons.mpr ⟨?_, windowed.apart⟩)
        exact windowed.fresh now
      limited := windowed.limited
      crowded := by
        intro rejection member
        rcases List.mem_cons.mp member with rfl | old
        · exact windowed.crowded_reject inTurn exceeds
        · exact windowed.crowded rejection old }
  · rename_i room
    exact {
      distinct := windowed.distinct.enter _ _ _ _
      scored := scored
      known := by
        intro entry found
        rcases known entry found with isNew | old
        · exact List.mem_append_left _ (isNew ▸ List.mem_cons_self)
        · exact List.mem_cons_of_mem _ old
      counted := by
        intro hit member lasts
        rcases List.mem_cons.mp member with rfl | admitted
        · exact ScoredSet.mem_enter.mpr (.inl rfl)
        · exact windowed.still_counted inTurn finds admitted lasts
      past := by
        intro hit member
        rcases List.mem_cons.mp member with rfl | old
        · exact ⟨le_refl _, Nat.lt_succ_self _⟩
        · exact pastNow hit old
      apart := List.nodup_cons.mpr ⟨windowed.fresh now, windowed.apart⟩
      limited := windowed.limited_admit inTurn finds (Nat.le_of_not_lt room)
      crowded := windowed.crowded }

end Block

section Step

variable {limit window : ℕ} {s : WindowState} {others : List RateCall} {call : RateCall}

theorem Windowed.withdraw (windowed : Windowed limit window s) {hit : Hit}
    (withdraws : hit ∉ s.admitted) :
    Windowed limit window (RateCall.perform limit window s (.withdraw hit)).1 := by
  have sublist : List.Sublist (s.admitted ++ s.undecided.erase hit) (s.admitted ++ s.undecided) :=
    List.Sublist.append (List.Sublist.refl _) List.erase_sublist
  cases absent : s.key.gone s.clock with
  | true =>
      simp only [RateCall.perform, ScoredSet.onKey_of_gone absent]
      exact {
        distinct := windowed.distinct
        scored := windowed.scored
        known := by
          intro entry found
          rw [(ScoredSet.mem_current.mp found).1] at absent
          cases absent
        counted := windowed.counted
        past := fun other member => windowed.past other (sublist.subset member)
        apart := windowed.apart.sublist sublist
        limited := windowed.limited
        crowded := windowed.crowded }
  | false =>
      simp only [RateCall.perform, ScoredSet.onKey_of_there absent]
      exact {
        distinct := windowed.distinct.zrem hit
        scored := fun entry found => windowed.scored entry (ScoredSet.mem_zrem.mp found).1
        known := by
          intro entry found
          obtain ⟨stored, other⟩ := ScoredSet.mem_zrem.mp (ScoredSet.mem_current.mp found).2
          rcases List.mem_append.mp (windowed.known entry (ScoredSet.mem_current.mpr ⟨absent, stored⟩))
            with admitted | undecided
          · exact List.mem_append_left _ admitted
          · exact List.mem_append_right _ ((List.mem_erase_of_ne other).mpr undecided)
        counted := by
          intro other admitted lasts
          refine ScoredSet.mem_zrem.mpr ⟨windowed.counted other admitted lasts, ?_⟩
          rintro rfl
          exact withdraws admitted
        past := fun other member => windowed.past other (sublist.subset member)
        apart := windowed.apart.sublist sublist
        limited := windowed.limited
        crowded := windowed.crowded }

theorem Windowed.elapse (windowed : Windowed limit window s) (ms : ℕ) :
    Windowed limit window (RateCall.perform limit window s (.elapse ms)).1 :=
  { windowed with
    known := fun entry found => windowed.known entry (ScoredSet.mem_current_later found) }

theorem perform_windowed (finds : FindsItsWindow window s others call) (inTurn : call.InTurn s)
    (windowed : Windowed limit window s) (withdraws : call.Withdraws s) :
    Windowed limit window (call.perform limit window s).1 := by
  cases call with
  | check => exact windowed
  | multi now => exact windowed.multi inTurn finds
  | withdraw hit => exact windowed.withdraw withdraws.2
  | elapse ms => exact windowed.elapse ms

theorem perform_admitted (limit window : ℕ) (s : WindowState) (call : RateCall) :
    s.nextUuid ≤ (call.perform limit window s).1.nextUuid ∧
      ∀ hit ∈ (call.perform limit window s).1.admitted, hit ∈ s.admitted ∨ s.nextUuid ≤ hit.uuid := by
  cases call with
  | multi now =>
      simp only [RateCall.perform]
      split
      · exact ⟨Nat.le_succ _, fun hit admitted => .inl admitted⟩
      · refine ⟨Nat.le_succ _, fun hit member => ?_⟩
        rcases List.mem_cons.mp member with rfl | admitted
        · exact .inr (le_refl _)
        · exact .inl admitted
  | _ => exact ⟨le_refl _, fun hit admitted => .inl admitted⟩

theorem withdraws_after {other : RateCall} (withdraws : other.Withdraws s) :
    other.Withdraws (call.perform limit window s).1 := by
  cases other with
  | withdraw hit =>
      obtain ⟨drawn, notAdmitted⟩ := withdraws
      obtain ⟨grows, admits⟩ := perform_admitted limit window s call
      refine ⟨drawn.trans_le grows, fun admitted => ?_⟩
      rcases admits hit admitted with old | new
      · exact notAdmitted old
      · omega
  | _ => trivial

theorem perform_withdraws (windowed : Windowed limit window s) {next : RateCall}
    (continues : (call.perform limit window s).2 = some next) :
    next.Withdraws (call.perform limit window s).1 := by
  cases call with
  | check =>
      cases continues
      trivial
  | multi now =>
      simp only [RateCall.perform] at continues ⊢
      split at continues
      · rename_i exceeds
        cases continues
        rw [if_pos exceeds]
        exact ⟨Nat.lt_succ_self _, fun admitted =>
          windowed.fresh now (List.mem_append_left _ admitted)⟩
      · cases continues
  | withdraw hit => cases continues
  | elapse ms => cases continues

end Step

theorem Windowed.start (limit window clock : ℕ) : Windowed limit window (.start clock) where
  distinct := ScoredSet.Distinct.empty
  scored _ found := absurd found ScoredSet.mem_empty
  known _ found := absurd (ScoredSet.mem_current.mp found).2 ScoredSet.mem_empty
  counted _ admitted := by cases admitted
  past _ member := by cases member
  apart := List.nodup_nil
  limited _ := Nat.zero_le _
  crowded _ member := by cases member

/-- In any interleaving in which no block finds the key gone while an admitted hit is in its window, every
    window has at most the limit of admitted hits, and every rejected call had as many rivals. -/
theorem checkRedis_limits {limit window clock : ℕ} {d : Config WindowState RateCall}
    (run : Run (checkRedisSystem limit window (FindsItsWindow window)) ⟨.start clock, []⟩ d) :
    d.shared.Limited limit window ∧
      ∀ rejection ∈ d.shared.rejected, rejection.Crowded limit window := by
  have supported : Supported (Windowed limit window) (fun s call => call.Withdraws s) d := by
    refine run_supported run ⟨Windowed.start limit window clock, fun _ member => by cases member⟩ ?_ ?_
    · rintro s call (rfl | ⟨ms, rfl⟩) _
      · trivial
      · trivial
    · rintro s others call s' next allowed ⟨inTurn, performed⟩ windowed withdraws
      have reached : (call.perform limit window s).1 = s' := congrArg Prod.fst performed
      have goesOn : (call.perform limit window s).2 = next := congrArg Prod.snd performed
      have permitted : FindsItsWindow window s others call := allowed
      subst reached
      exact ⟨perform_windowed permitted inTurn windowed withdraws,
        fun following isNext => perform_withdraws windowed (goesOn.trans isNext),
        fun other relies => withdraws_after relies⟩
  exact ⟨supported.holds.limited, supported.holds.crowded⟩

/-- With a limit of one a minute, a call is admitted, and one that follows in half a minute is rejected. -/
theorem oneAMinute_limits :
    ∃ d, Run (checkRedisSystem 1 60000 (FindsItsWindow 60000)) ⟨.start 0, []⟩ d ∧
      d.shared.admitted = [⟨0, 0⟩] ∧ d.shared.rejected.length = 1 ∧
        d.shared.Limited 1 60000 ∧ ∀ rejection ∈ d.shared.rejected, rejection.Crowded 1 60000 := by
  have run : Run (checkRedisSystem 1 60000 (FindsItsWindow 60000)) ⟨.start 0, []⟩ _ :=
    .head (.issue (.inl rfl)) <|
    .head (.goesOn trivial ⟨trivial, rfl⟩) <|
    .head (.completes (fun _ hit admitted => by cases admitted) ⟨le_refl _, rfl⟩) <|
    .head (.issue (.inr ⟨30000, rfl⟩)) <|
    .head (.completes trivial ⟨trivial, rfl⟩) <|
    .head (.issue (.inl rfl)) <|
    .head (.goesOn trivial ⟨trivial, rfl⟩) <|
    .head (.goesOn (fun absent => absurd absent (by decide)) ⟨Nat.zero_le _, rfl⟩) <|
    .single (.completes trivial ⟨trivial, rfl⟩)
  exact ⟨_, run, rfl, rfl, checkRedis_limits run⟩

/-- A call whose block runs a minute and a millisecond after the first one's, with a timestamp from within
    the minute, finds the key gone, and both are admitted. -/
theorem lateBlock_admits_second :
    ∃ d, Run (checkRedisSystem 1 60000 fun _ _ _ => True) ⟨.start 0, []⟩ d ∧
      d.shared.admitted = [⟨59999, 1⟩, ⟨0, 0⟩] ∧ ¬ d.shared.Limited 1 60000 := by
  have run : Run (checkRedisSystem 1 60000 fun _ _ _ => True) ⟨.start 0, []⟩ _ :=
    .head (.issue (.inl rfl)) <|
    .head (.goesOn trivial ⟨trivial, rfl⟩) <|
    .head (.completes trivial ⟨le_refl _, rfl⟩) <|
    .head (.issue (.inr ⟨59999, rfl⟩)) <|
    .head (.completes trivial ⟨trivial, rfl⟩) <|
    -- The second call takes its timestamp, and its block is late.
    .head (.issue (.inl rfl)) <|
    .head (.goesOn trivial ⟨trivial, rfl⟩) <|
    .head (.issue (.inr ⟨2, rfl⟩)) <|
    .head (.completes trivial ⟨trivial, rfl⟩) <|
    .single (.completes trivial ⟨Nat.zero_le _, rfl⟩)
  refine ⟨_, run, rfl, fun limited => ?_⟩
  have both := limited 0
  revert both
  decide

end Puter

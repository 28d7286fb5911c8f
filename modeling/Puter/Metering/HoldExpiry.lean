/-
Module: Puter.Metering.HoldExpiry
Purpose: The holds of an actor as the cache keeps them (stores/metering/CreditHoldStore.ts): members of one sorted set,
  scored by their deadlines, under a key that goes with a time to live of its own. Over every run what is outstanding is
  what a ledger of the holds has that are not released and not over: the key outlives each of them.
Trusted boundary: ids are drawn fresh and have no colon in them; the cache answers. Times and times to live are whole
  milliseconds.
Main exports: HoldCacheState, outstanding_eq_live
-/
import Puter.Core.Actor
import Puter.Library.ScoredSet

namespace Puter

/-- The set under the actor's key, and what the takes so far answered, in their order. -/
structure HoldCacheState where
  key : ScoredSet Text
  drawn : ℕ
  members : ℕ → Option Text

namespace CreditHoldStore

def keyTtlSlackMs : ℕ := 60 * 1000

def settled (key : ScoredSet Text) : ScoredSet Text := if key.members = [] then .empty else key

/-- `PTTL`, of a key that is not gone. -/
def pttl (key : ScoredSet Text) (clock : ℕ) : ℤ :=
  if key.members = [] then -2 else (key.deadline.map fun deadline => (deadline : ℤ) - clock).getD (-1)

def takeScript (key : ScoredSet Text) (clock : ℕ) (member : Text) (deadline keyTtl : ℕ) : ScoredSet Text :=
  let found := key.current clock
  let ttl := pttl found clock
  let added := found.zadd deadline member
  if ttl < keyTtl then added.pexpire clock keyTtl else added

/-- `tonumber`, of decimal digits. -/
def tonumber (digits : Text) : Option ℕ :=
  if digits ≠ [] ∧ digits.all Char.isDigit then some (Nat.ofDigitChars 10 digits 0) else none

def amountOn (member : Text) : ℕ :=
  match member.dropWhile (· ≠ ':') with
  | [] => 0
  | _ :: digits => (tonumber digits).getD 0

/-- `tostring`, read back as a number: it has fourteen digits and is rounded to the even one between two. -/
def tostring (total : ℕ) : ℕ :=
  if total < 10 ^ 14 then total
  else
    let unit := 10 ^ (Nat.log 10 total - 13)
    let digits := total / unit
    let rest := total % unit
    if unit < 2 * rest ∨ unit = 2 * rest ∧ digits % 2 = 1 then (digits + 1) * unit else digits * unit

/-- `SUM_SCRIPT`. It answers the total and leaves the set pruned. -/
def sumScript (key : ScoredSet Text) (clock now : ℕ) : ℕ × ScoredSet Text :=
  let kept := (key.current clock).zremrangebyscore now
  (tostring (kept.names.map amountOn).sum, settled kept)

/-- The member of a hold: its id and its amount in decimal digits. (From 10 ^ 21 on the source writes an exponent, which
    reads back as the same number.) -/
def holdMember (uuid : Text) (amount : ℕ) : Text := uuid ++ ':' :: Nat.toDigits 10 amount

/-- `take`, with the id that is drawn. -/
def take (key : ScoredSet Text) (now : ℕ) (uuid : Text) (amount : ℚ) (ttlMs : ℕ) : Option Text × ScoredSet Text :=
  if amount ≤ 0 then (none, key)
  else
    let member := holdMember uuid ⌈amount⌉.toNat
    (some member, takeScript key now member (now + ttlMs) (ttlMs + keyTtlSlackMs))

def refresh (key : ScoredSet Text) (now : ℕ) (member : Option Text) (ttlMs : ℕ) : ScoredSet Text :=
  match member with
  | none => key
  | some member => takeScript key now member (now + ttlMs) (ttlMs + keyTtlSlackMs)

def release (key : ScoredSet Text) (now : ℕ) (member : Option Text) : ScoredSet Text :=
  match member with
  | none => key
  | some member => settled ((key.current now).zrem member)

def outstanding (key : ScoredSet Text) (now : ℕ) : ℕ × ScoredSet Text := sumScript key now now

end CreditHoldStore

open CreditHoldStore

/-- What is called: a refresh and a release are of what an earlier take answered. -/
inductive HoldOp where
  | take (amount : ℚ) (ttlMs : ℕ)
  | refresh (handle ttlMs : ℕ)
  | release (handle : ℕ)
  | outstanding
deriving DecidableEq, Repr

/-- A call and its time. -/
structure HoldCall where
  now : ℕ
  op : HoldOp
deriving DecidableEq, Repr

namespace HoldCacheState

def fresh : HoldCacheState := ⟨.empty, 0, fun _ => none⟩

def after (randomUUID : ℕ → Text) (s : HoldCacheState) (call : HoldCall) : HoldCacheState :=
  match call.op with
  | .take amount ttlMs =>
      let (member, key) := take s.key call.now (randomUUID s.drawn) amount ttlMs
      ⟨key, s.drawn + 1, Function.update s.members s.drawn member⟩
  | .refresh handle ttlMs => { s with key := refresh s.key call.now (s.members handle) ttlMs }
  | .release handle => { s with key := release s.key call.now (s.members handle) }
  | .outstanding => { s with key := (outstanding s.key call.now).2 }

def run (randomUUID : ℕ → Text) (calls : List HoldCall) : HoldCacheState := calls.foldl (after randomUUID) fresh

end HoldCacheState

/-- A hold that was taken: what it commits, and its latest deadline unless it was released since. -/
structure LedgerHold where
  amount : ℕ
  deadline : Option ℕ
deriving DecidableEq, Repr

/-- The holds that were taken, in their order. A take of nothing takes none. -/
structure HoldLedger where
  taken : ℕ
  hold : ℕ → Option LedgerHold

namespace HoldLedger

def fresh : HoldLedger := ⟨0, fun _ => none⟩

def redate (ledger : HoldLedger) (handle : ℕ) (deadline : Option ℕ) : HoldLedger :=
  let redated := (ledger.hold handle).map fun hold => { hold with deadline := deadline }
  { ledger with hold := Function.update ledger.hold handle redated }

def after (ledger : HoldLedger) (call : HoldCall) : HoldLedger :=
  match call.op with
  | .take amount ttlMs =>
      ⟨ledger.taken + 1, Function.update ledger.hold ledger.taken
        (if amount ≤ 0 then none else some ⟨⌈amount⌉.toNat, some (call.now + ttlMs)⟩)⟩
  | .refresh handle ttlMs => ledger.redate handle (some (call.now + ttlMs))
  | .release handle => ledger.redate handle none
  | .outstanding => ledger

def run (calls : List HoldCall) : HoldLedger := calls.foldl after fresh

def liveAmount (now : ℕ) : Option LedgerHold → ℕ
  | some ⟨amount, some deadline⟩ => if now < deadline then amount else 0
  | _ => 0

def live (ledger : HoldLedger) (now : ℕ) : ℕ :=
  ((List.range ledger.taken).map fun handle => liveAmount now (ledger.hold handle)).sum

end HoldLedger

/-- Ids are drawn once each, and have no colon. -/
structure DrawsFresh (randomUUID : ℕ → Text) : Prop where
  injective : Function.Injective randomUUID
  noColon : ∀ draw, ':' ∉ randomUUID draw

section Members

variable {randomUUID : ℕ → Text}

theorem holdMember_inj (draws : DrawsFresh randomUUID) {one other amount another : ℕ}
    (same : holdMember (randomUUID one) amount = holdMember (randomUUID other) another) : one = other := by
  apply draws.injective
  have front (handle n : ℕ) : (holdMember (randomUUID handle) n).takeWhile (· ≠ ':') = randomUUID handle := by
    have all : ∀ c ∈ randomUUID handle, decide (c ≠ ':') = true := by
      intro c member
      simp only [decide_eq_true_eq]
      rintro rfl
      exact draws.noColon handle member
    rw [holdMember, List.takeWhile_append_of_pos all]
    simp
  rw [← front one amount, same, front]

theorem amountOn_holdMember (draws : DrawsFresh randomUUID) (handle amount : ℕ) :
    amountOn (holdMember (randomUUID handle) amount) = amount := by
  have all : ∀ c ∈ randomUUID handle, decide (c ≠ ':') = true := by
    intro c member
    simp only [decide_eq_true_eq]
    rintro rfl
    exact draws.noColon handle member
  have digits : (Nat.toDigits 10 amount).all Char.isDigit = true := by
    rw [List.all_eq_true]
    exact fun c member => Nat.isDigit_of_mem_toDigits (by decide) (by decide) member
  rw [amountOn, holdMember, List.dropWhile_append_of_pos all]
  simp [tonumber, digits, Nat.toDigits_ne_nil]

end Members

/-- A key has the holds that are not over by a time, each under its latest deadline, and outlives its members. -/
structure KeyAgrees (randomUUID : ℕ → Text) (clock : ℕ) (key : ScoredSet Text) (hold : ℕ → Option LedgerHold) :
    Prop where
  distinct : key.Distinct
  live : ∀ member score, clock < score → ((member, score) ∈ key.members ↔
    ∃ handle amount, hold handle = some ⟨amount, some score⟩ ∧ member = holdMember (randomUUID handle) amount)
  lasting : key.members ≠ [] → ∃ expiry, key.deadline = some expiry ∧ ∀ entry ∈ key.members, entry.2 ≤ expiry

namespace KeyAgrees

variable {randomUUID : ℕ → Text} {clock : ℕ} {key : ScoredSet Text} {hold : ℕ → Option LedgerHold}

theorem fresh (randomUUID : ℕ → Text) (clock : ℕ) : KeyAgrees randomUUID clock .empty fun _ => none where
  distinct := .empty
  live member score _ := by simp
  lasting some := absurd rfl some

theorem later (agrees : KeyAgrees randomUUID clock key hold) {now : ℕ} (passes : clock ≤ now) :
    KeyAgrees randomUUID now key hold where
  distinct := agrees.distinct
  live member score isLive := agrees.live member score (passes.trans_lt isLive)
  lasting := agrees.lasting

theorem current (agrees : KeyAgrees randomUUID clock key hold) : KeyAgrees randomUUID clock (key.current clock) hold := by
  cases gone : key.gone clock with
  | false => rwa [ScoredSet.current, if_neg (by simp [gone])]
  | true =>
      rw [ScoredSet.current, if_pos gone]
      refine ⟨.empty, ?_, fun some => absurd rfl some⟩
      intro member score isLive
      rw [← agrees.live member score isLive]
      refine iff_of_false ScoredSet.mem_empty ?_
      intro found
      obtain ⟨expiry, ends, dominates⟩ := agrees.lasting (List.ne_nil_of_mem found)
      have bound : score ≤ expiry := dominates _ found
      simp only [ScoredSet.gone, ends, Option.any_some, decide_eq_true_eq] at gone
      omega

theorem settled (agrees : KeyAgrees randomUUID clock key hold) :
    KeyAgrees randomUUID clock (CreditHoldStore.settled key) hold := by
  unfold CreditHoldStore.settled
  split
  next none =>
    refine ⟨.empty, ?_, fun some => absurd rfl some⟩
    intro member score isLive
    rw [← agrees.live member score isLive, none]
    rfl
  · exact agrees

theorem prune (agrees : KeyAgrees randomUUID clock key hold) :
    KeyAgrees randomUUID clock (key.zremrangebyscore clock) hold where
  distinct := agrees.distinct.zremrangebyscore _
  live member score isLive := by
    rw [ScoredSet.mem_zremrangebyscore, ← agrees.live member score isLive]
    exact and_iff_left (Int.ofNat_lt.mpr isLive)
  lasting some := by
    obtain ⟨entry, member⟩ := List.exists_mem_of_ne_nil _ some
    obtain ⟨expiry, ends, dominates⟩ :=
      agrees.lasting (List.ne_nil_of_mem (ScoredSet.mem_zremrangebyscore.mp member).1)
    exact ⟨expiry, ends, fun entry member => dominates entry (ScoredSet.mem_zremrangebyscore.mp member).1⟩

theorem zrem (draws : DrawsFresh randomUUID) (agrees : KeyAgrees randomUUID clock key hold) {handle amount : ℕ}
    {deadline : Option ℕ} (taken : hold handle = some ⟨amount, deadline⟩) :
    KeyAgrees randomUUID clock (key.zrem (holdMember (randomUUID handle) amount))
      (Function.update hold handle (some ⟨amount, none⟩)) where
  distinct := agrees.distinct.zrem _
  live member score isLive := by
    rw [ScoredSet.mem_zrem, agrees.live member score isLive]
    constructor
    · rintro ⟨⟨other, another, isHold, rfl⟩, differs⟩
      have apart : other ≠ handle := by
        rintro rfl
        rw [taken] at isHold
        cases isHold
        exact differs rfl
      exact ⟨other, another, by rw [Function.update_of_ne apart, isHold], rfl⟩
    · rintro ⟨other, another, isHold, rfl⟩
      have apart : other ≠ handle := by
        rintro rfl
        rw [Function.update_self] at isHold
        cases isHold
      rw [Function.update_of_ne apart] at isHold
      exact ⟨⟨other, another, isHold, rfl⟩, fun same => apart (holdMember_inj draws same)⟩
  lasting some := by
    obtain ⟨entry, member⟩ := List.exists_mem_of_ne_nil _ some
    obtain ⟨expiry, ends, dominates⟩ := agrees.lasting (List.ne_nil_of_mem (ScoredSet.mem_zrem.mp member).1)
    exact ⟨expiry, ends, fun entry member => dominates entry (ScoredSet.mem_zrem.mp member).1⟩

theorem lasting_takeScript {found : ScoredSet Text} {clock deadline keyTtl : ℕ} (covers : deadline ≤ clock + keyTtl)
    (lasting : found.members ≠ [] → ∃ expiry, found.deadline = some expiry ∧ ∀ entry ∈ found.members, entry.2 ≤ expiry)
    (member : Text) :
    let added := found.zadd deadline member
    ∃ expiry, (if pttl found clock < keyTtl then added.pexpire clock keyTtl else added).deadline = some expiry ∧
      ∀ entry ∈ added.members, entry.2 ≤ expiry := by
  intro added
  have entries : ∀ entry ∈ added.members, entry.2 = deadline ∨ entry ∈ found.members := by
    intro entry isEntry
    obtain rfl | ⟨before, -⟩ := ScoredSet.mem_zadd.mp isEntry
    · exact .inl rfl
    · exact .inr before
  by_cases none : found.members = []
  · have ttl : pttl found clock < keyTtl := by
      rw [pttl, if_pos none]
      omega
    rw [if_pos ttl]
    refine ⟨clock + keyTtl, rfl, ?_⟩
    intro entry isEntry
    obtain isNew | before := entries entry isEntry
    · rwa [isNew]
    · rw [none] at before
      cases before
  · obtain ⟨expiry, ends, dominates⟩ := lasting none
    have ttl : pttl found clock = (expiry : ℤ) - clock := by simp [pttl, none, ends]
    rw [ttl]
    split
    · refine ⟨clock + keyTtl, rfl, ?_⟩
      intro entry isEntry
      obtain isNew | before := entries entry isEntry
      · rwa [isNew]
      · have bound := dominates entry before
        omega
    · refine ⟨expiry, ends, ?_⟩
      intro entry isEntry
      obtain isNew | before := entries entry isEntry
      · omega
      · exact dominates entry before

theorem takeScript (draws : DrawsFresh randomUUID) (agrees : KeyAgrees randomUUID clock key hold) {handle amount : ℕ}
    (own : ∀ before, hold handle = some before → before.amount = amount) (ttlMs : ℕ) :
    KeyAgrees randomUUID clock
      (CreditHoldStore.takeScript key clock (holdMember (randomUUID handle) amount) (clock + ttlMs) (ttlMs + keyTtlSlackMs))
      (Function.update hold handle (some ⟨amount, some (clock + ttlMs)⟩)) := by
  have found := agrees.current
  have members : (CreditHoldStore.takeScript key clock (holdMember (randomUUID handle) amount) (clock + ttlMs)
      (ttlMs + keyTtlSlackMs)).members =
        ((key.current clock).zadd (clock + ttlMs) (holdMember (randomUUID handle) amount)).members := by
    unfold CreditHoldStore.takeScript
    dsimp only
    split <;> rfl
  refine ⟨?_, ?_, ?_⟩
  · rw [ScoredSet.Distinct, ScoredSet.names, members]
    exact found.distinct.zadd _ _
  · intro member score isLive
    rw [members, ScoredSet.mem_zadd, found.live member score isLive]
    constructor
    · rintro (same | ⟨⟨other, another, isHold, rfl⟩, differs⟩)
      · obtain ⟨rfl, rfl⟩ := Prod.mk.inj same
        exact ⟨handle, amount, Function.update_self .., rfl⟩
      · have apart : other ≠ handle := by
          rintro rfl
          obtain rfl : another = amount := own _ isHold
          exact differs rfl
        exact ⟨other, another, by rw [Function.update_of_ne apart, isHold], rfl⟩
    · rintro ⟨other, another, isHold, rfl⟩
      by_cases same : other = handle
      · subst same
        rw [Function.update_self] at isHold
        cases isHold
        exact .inl rfl
      · rw [Function.update_of_ne same] at isHold
        exact .inr ⟨⟨other, another, isHold, rfl⟩, fun isSame => same (holdMember_inj draws isSame)⟩
  · intro _
    rw [members]
    exact lasting_takeScript (by omega) found.lasting _

end KeyAgrees

/-- The cache has what the ledger has. -/
structure HoldsAgree (randomUUID : ℕ → Text) (clock : ℕ) (s : HoldCacheState) (ledger : HoldLedger) : Prop where
  drawn : s.drawn = ledger.taken
  members : ∀ handle, s.members handle = (ledger.hold handle).map fun hold => holdMember (randomUUID handle) hold.amount
  untaken : ∀ handle, ledger.taken ≤ handle → ledger.hold handle = none
  key : KeyAgrees randomUUID clock s.key ledger.hold

namespace HoldsAgree

variable {randomUUID : ℕ → Text} {clock : ℕ} {s : HoldCacheState} {ledger : HoldLedger}

theorem fresh (randomUUID : ℕ → Text) (clock : ℕ) : HoldsAgree randomUUID clock .fresh .fresh :=
  ⟨rfl, fun _ => rfl, fun _ _ => rfl, .fresh randomUUID clock⟩

theorem redate (agrees : HoldsAgree randomUUID clock s ledger) (handle : ℕ) (deadline : Option ℕ) {now : ℕ}
    {key : ScoredSet Text} (keyAgrees : KeyAgrees randomUUID now key (ledger.redate handle deadline).hold) :
    HoldsAgree randomUUID now { s with key := key } (ledger.redate handle deadline) where
  drawn := agrees.drawn
  members other := by
    by_cases same : other = handle
    · subst same
      simp [HoldLedger.redate, agrees.members, Function.comp_def]
    · simp [HoldLedger.redate, agrees.members, same]
  untaken other isLater := by
    by_cases same : other = handle
    · subst same
      simp [HoldLedger.redate, agrees.untaken other isLater]
    · simp [HoldLedger.redate, same, agrees.untaken other isLater]
  key := keyAgrees

theorem after (draws : DrawsFresh randomUUID) (agrees : HoldsAgree randomUUID clock s ledger) {call : HoldCall}
    (passes : clock ≤ call.now) :
    HoldsAgree randomUUID call.now (s.after randomUUID call) (ledger.after call) := by
  obtain ⟨now, op⟩ := call
  have key := agrees.key.later passes
  cases op with
  | take amount ttlMs =>
      have isNew := agrees.untaken ledger.taken le_rfl
      refine ⟨by simp [HoldCacheState.after, HoldLedger.after, agrees.drawn], ?_, ?_, ?_⟩
      · intro handle
        by_cases same : handle = ledger.taken
        · subst same
          by_cases nothing : amount ≤ 0
          · simp [HoldCacheState.after, HoldLedger.after, agrees.drawn, take, nothing]
          · simp [HoldCacheState.after, HoldLedger.after, agrees.drawn, take, nothing]
        · simp [HoldCacheState.after, HoldLedger.after, agrees.drawn, same, agrees.members]
      · intro handle isLater
        have apart : handle ≠ ledger.taken := Nat.ne_of_gt isLater
        simp only [HoldLedger.after, Function.update_of_ne apart]
        exact agrees.untaken handle (Nat.le_of_succ_le isLater)
      · by_cases nothing : amount ≤ 0
        · simp only [HoldCacheState.after, HoldLedger.after, take, if_pos nothing]
          rwa [← isNew, Function.update_eq_self]
        · simp only [HoldCacheState.after, HoldLedger.after, take, if_neg nothing, agrees.drawn]
          exact key.takeScript draws (fun before isHold => by rw [isNew] at isHold; cases isHold) ttlMs
  | refresh handle ttlMs =>
      apply agrees.redate handle (some (now + ttlMs))
      simp only [agrees.members, HoldLedger.redate]
      cases taken : ledger.hold handle with
      | none => rwa [Option.map_none, Option.map_none, ← taken, Function.update_eq_self]
      | some hold =>
          exact key.takeScript draws (fun before isHold => by rw [taken] at isHold; cases isHold; rfl) ttlMs
  | release handle =>
      apply agrees.redate handle none
      simp only [agrees.members, HoldLedger.redate]
      cases taken : ledger.hold handle with
      | none => rwa [Option.map_none, Option.map_none, ← taken, Function.update_eq_self]
      | some hold => exact (key.current.zrem draws taken).settled
  | outstanding =>
      exact ⟨agrees.drawn, agrees.members, agrees.untaken, key.current.prune.settled⟩

theorem run (draws : DrawsFresh randomUUID) {calls : List HoldCall} {now : ℕ}
    (ordered : (calls.map HoldCall.now ++ [now]).Pairwise (· ≤ ·)) :
    HoldsAgree randomUUID now (.run randomUUID calls) (.run calls) := by
  induction calls using List.reverseRecOn generalizing now with
  | nil => exact fresh randomUUID now
  | append_singleton calls call ih =>
      rw [List.map_append, List.map_singleton, List.pairwise_append] at ordered
      obtain ⟨before, -, isLast⟩ := ordered
      have agrees := ih before
      have stepped := after draws agrees (le_refl call.now)
      rw [HoldCacheState.run, HoldLedger.run, List.foldl_concat, List.foldl_concat]
      have passes : call.now ≤ now := isLast call.now (by simp) now (by simp)
      exact ⟨stepped.drawn, stepped.members, stepped.untaken, stepped.key.later passes⟩

end HoldsAgree

section Sum

variable {randomUUID : ℕ → Text} {now : ℕ} {s : HoldCacheState} {ledger : HoldLedger}

def liveMember (randomUUID : ℕ → Text) (ledger : HoldLedger) (now handle : ℕ) : Option Text :=
  match ledger.hold handle with
  | some ⟨amount, some deadline⟩ => if now < deadline then some (holdMember (randomUUID handle) amount) else none
  | _ => none

theorem liveMember_eq_some {member : Text} {handle : ℕ} :
    liveMember randomUUID ledger now handle = some member ↔ ∃ amount deadline, now < deadline ∧
      ledger.hold handle = some ⟨amount, some deadline⟩ ∧ member = holdMember (randomUUID handle) amount := by
  unfold liveMember
  split
  next amount deadline isHold =>
    by_cases isLive : now < deadline
    · simp [isHold, isLive, eq_comm]
    · simp [isHold, isLive]
  next other =>
    refine iff_of_false (Option.some_ne_none _).symm ?_
    rintro ⟨amount, deadline, -, isHold, -⟩
    exact other amount deadline isHold

def liveMembers (randomUUID : ℕ → Text) (ledger : HoldLedger) (now : ℕ) : List Text :=
  (List.range ledger.taken).filterMap (liveMember randomUUID ledger now)

theorem liveAmount_eq (draws : DrawsFresh randomUUID) (handle : ℕ) :
    HoldLedger.liveAmount now (ledger.hold handle) =
      ((liveMember randomUUID ledger now handle).map amountOn).getD 0 := by
  unfold liveMember
  cases ledger.hold handle with
  | none => rfl
  | some hold =>
      obtain ⟨amount, deadline⟩ := hold
      cases deadline with
      | none => rfl
      | some deadline =>
          by_cases isLive : now < deadline
          · simp [HoldLedger.liveAmount, isLive, amountOn_holdMember draws]
          · simp [HoldLedger.liveAmount, isLive]

theorem sum_liveMembers (draws : DrawsFresh randomUUID) :
    ((liveMembers randomUUID ledger now).map amountOn).sum = ledger.live now := by
  unfold liveMembers HoldLedger.live
  generalize List.range ledger.taken = handles
  induction handles with
  | nil => rfl
  | cons handle handles ih =>
      rw [List.filterMap_cons, List.map_cons, List.sum_cons, ← ih, liveAmount_eq draws]
      cases liveMember randomUUID ledger now handle with
      | none => simp
      | some member => simp

theorem kept_perm_liveMembers (draws : DrawsFresh randomUUID) (agrees : HoldsAgree randomUUID now s ledger) :
    ((s.key.current now).zremrangebyscore now).names.Perm (liveMembers randomUUID ledger now) := by
  have kept := agrees.key.current.prune
  apply (List.perm_ext_iff_of_nodup kept.distinct ?_).mpr
  · intro member
    rw [ScoredSet.mem_names, liveMembers, List.mem_filterMap]
    simp only [liveMember_eq_some]
    constructor
    · rintro ⟨score, found⟩
      have isLive : now < score := Int.ofNat_lt.mp (ScoredSet.mem_zremrangebyscore.mp found).2
      obtain ⟨handle, amount, isHold, rfl⟩ := (kept.live member score isLive).mp found
      refine ⟨handle, ?_, amount, score, isLive, isHold, rfl⟩
      rw [List.mem_range]
      by_contra isLater
      rw [agrees.untaken handle (not_lt.mp isLater)] at isHold
      cases isHold
    · rintro ⟨handle, -, amount, deadline, isLive, isHold, rfl⟩
      exact ⟨deadline, (kept.live _ deadline isLive).mpr ⟨handle, amount, isHold, rfl⟩⟩
  · apply List.nodup_range.filterMap
    intro one other member isOne isOther
    obtain ⟨amount, -, -, -, rfl⟩ := liveMember_eq_some.mp isOne
    obtain ⟨another, -, -, -, same⟩ := liveMember_eq_some.mp isOther
    exact holdMember_inj draws same

end Sum

/-- After every run, what is outstanding is what the holds commit that were taken, are not released since and are not
    over. -/
theorem outstanding_eq_live (randomUUID : ℕ → Text) (draws : DrawsFresh randomUUID) (calls : List HoldCall) (now : ℕ)
    (ordered : (calls.map HoldCall.now ++ [now]).Pairwise (· ≤ ·)) (small : (HoldLedger.run calls).live now < 10 ^ 14) :
    (outstanding (HoldCacheState.run randomUUID calls).key now).1 = (HoldLedger.run calls).live now := by
  have agrees := HoldsAgree.run draws ordered
  have total : ((((HoldCacheState.run randomUUID calls).key.current now).zremrangebyscore now).names.map amountOn).sum =
      (HoldLedger.run calls).live now :=
    ((kept_perm_liveMembers draws agrees).map amountOn).sum_eq.trans (sum_liveMembers draws)
  rw [outstanding, sumScript, total, tostring, if_pos small]

section TwoHolds

def numberedHold (draw : ℕ) : Text := "hold-".toList ++ Nat.toDigits 10 draw

theorem numberedHold_fresh : DrawsFresh numberedHold where
  injective one other same := by
    have digits := List.append_cancel_left same
    rw [← Nat.ofDigitChars_ten_toDigits (n := one), digits, Nat.ofDigitChars_ten_toDigits]
  noColon draw isColon := by
    obtain front | digit := List.mem_append.mp isColon
    · revert front
      decide
    · have isDigit := Nat.isDigit_of_mem_toDigits (by decide) (by decide) digit
      revert isDigit
      decide

/-- A hold that is refreshed for a shorter time than the other was taken for, which is released. -/
theorem outstanding_of_two :
    (outstanding (HoldCacheState.run numberedHold
      [⟨0, .take (5 / 2) 50⟩, ⟨10, .take 4 600000⟩, ⟨20, .refresh 0 1000⟩, ⟨30, .release 1⟩]).key 90).1 = 3 :=
  (outstanding_eq_live numberedHold numberedHold_fresh _ 90 (by decide) (by decide +kernel)).trans (by decide +kernel)

end TwoHolds

end Puter

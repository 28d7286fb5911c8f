/-
Module: Puter.Library.Interleaving
Purpose: Concurrent runs of multi-step calls over one shared state. A call is a program point; one
  atomic step reads and writes the shared state and yields the call's next program point, or none when
  the call is done. The module gives the run relation, the rule that carries an invariant over runs, and
  the debt rule: when every bad key is owed by a call that is still in flight, a run that has no
  call left in flight has no bad key. The support rule carries an invariant on which the calls in flight
  rely, and the weight rule a relation between the shared state and the sum of what they have
  outstanding.
Trusted boundary: none
Main exports: Config, run_weighed
-/
import Mathlib

namespace Interleaving

/-- A configuration: the shared state and the program points of the calls in flight. -/
structure Config (σ π : Type*) where
  shared : σ
  inFlight : List π

/-- A concurrent system. `issues` says which program points a new call may start at, `atom` is the
    atomic step of one call on the shared state, and `allow` restricts, from the state before the
    step and the other calls in flight, the steps a run may take. -/
structure System (σ π : Type*) where
  issues : π → Prop
  atom : σ → π → σ → Option π → Prop
  allow : σ → List π → π → Prop

variable {σ π κ : Type*}

/-- One step of the system: a call starts, or any one call in flight performs its next atomic step.
    The scheduler is unconstrained, so every interleaving is a run. -/
inductive Step (S : System σ π) : Config σ π → Config σ π → Prop where
  | issue {c : Config σ π} {p : π} : S.issues p → Step S c ⟨c.shared, p :: c.inFlight⟩
  | advance {s s' : σ} {earlier later : List π} {p : π} {next : Option π} :
      S.allow s (earlier ++ later) p → S.atom s p s' next →
      Step S ⟨s, earlier ++ p :: later⟩ ⟨s', earlier ++ (next.toList ++ later)⟩

theorem Step.goesOn {S : System σ π} {s s' : σ} {p q : π} {later : List π}
    (allowed : S.allow s later p) (atom : S.atom s p s' (some q)) :
    Step S ⟨s, p :: later⟩ ⟨s', q :: later⟩ :=
  @Step.advance _ _ S s s' [] later p (some q) allowed atom

theorem Step.completes {S : System σ π} {s s' : σ} {p : π} {later : List π}
    (allowed : S.allow s later p) (atom : S.atom s p s' none) :
    Step S ⟨s, p :: later⟩ ⟨s', later⟩ :=
  @Step.advance _ _ S s s' [] later p none allowed atom

theorem Step.alone {S : System σ π} {s s' : σ} {p : π} {next : Option π} (allowed : S.allow s [] p)
    (atom : S.atom s p s' next) : Step S ⟨s, [p]⟩ ⟨s', next.toList⟩ := by
  have step := @Step.advance _ _ S s s' [] [] p next allowed atom
  simpa using step

abbrev Run (S : System σ π) : Config σ π → Config σ π → Prop := Relation.ReflTransGen (Step S)

def System.unrestricted (S : System σ π) : System σ π := { S with allow := fun _ _ _ => True }

theorem run_preserves {S : System σ π} {Inv : Config σ π → Prop} {c d : Config σ π}
    (run : Run S c d) (initial : Inv c) (kept : ∀ a b, Inv a → Step S a b → Inv b) : Inv d := by
  induction run with
  | refl => exact initial
  | tail _ step ih => exact kept _ _ ih step

/-- Every bad key of the shared state is owed by some call in flight. -/
def Indebted (Bad : σ → κ → Prop) (Owes : π → κ → Prop) (c : Config σ π) : Prop :=
  ∀ k, Bad c.shared k → ∃ p ∈ c.inFlight, Owes p k

/-- One atomic step settles its debts: each key that is bad afterwards is owed by the stepping call's
    continuation or by another call, or it was bad before and the stepping call did not owe it. -/
def Settles (S : System σ π) (Bad : σ → κ → Prop) (Owes : π → κ → Prop) : Prop :=
  ∀ s others p s' next, S.allow s others p → S.atom s p s' next → ∀ k, Bad s' k →
    (∃ q, (next = some q ∨ q ∈ others) ∧ Owes q k) ∨ (Bad s k ∧ ¬ Owes p k)

theorem step_indebted {S : System σ π} {Bad : σ → κ → Prop} {Owes : π → κ → Prop}
    (settles : Settles S Bad Owes) {c d : Config σ π} (indebted : Indebted Bad Owes c)
    (step : Step S c d) : Indebted Bad Owes d := by
  intro k bad
  cases step with
  | issue _ =>
      obtain ⟨p, member, owes⟩ := indebted k bad
      exact ⟨p, List.mem_cons_of_mem _ member, owes⟩
  | @advance s s' earlier later p next allowed atom =>
      rcases settles s _ p s' next allowed atom k bad with ⟨q, place, owes⟩ | ⟨badBefore, free⟩
      · refine ⟨q, ?_, owes⟩
        rcases place with rfl | member
        · simp
        · rcases List.mem_append.mp member with inEarlier | inLater
          · exact List.mem_append_left _ inEarlier
          · exact List.mem_append_right _ (List.mem_append_right _ inLater)
      · obtain ⟨q, member, owes⟩ := indebted k badBefore
        refine ⟨q, ?_, owes⟩
        -- The stepping call owed nothing for `k`, so the debtor is one of the others.
        rcases List.mem_append.mp member with inEarlier | inRest
        · exact List.mem_append_left _ inEarlier
        · rcases List.mem_cons.mp inRest with rfl | inLater
          · exact absurd owes free
          · exact List.mem_append_right _ (List.mem_append_right _ inLater)

theorem run_indebted {S : System σ π} {Bad : σ → κ → Prop} {Owes : π → κ → Prop}
    (settles : Settles S Bad Owes) {c d : Config σ π} (run : Run S c d)
    (indebted : Indebted Bad Owes c) : Indebted Bad Owes d :=
  run_preserves run indebted fun _ _ inv step => step_indebted settles inv step

theorem quiescent_of_run {S : System σ π} {Bad : σ → κ → Prop} {Owes : π → κ → Prop}
    (settles : Settles S Bad Owes) {c d : Config σ π} (run : Run S c d)
    (initial : ∀ k, ¬ Bad c.shared k) (quiescent : d.inFlight = []) (k : κ) : ¬ Bad d.shared k := by
  intro bad
  have indebted : Indebted Bad Owes d :=
    run_indebted settles run fun key badKey => absurd badKey (initial key)
  obtain ⟨p, member, _⟩ := indebted k bad
  rw [quiescent] at member
  cases member

/-- The shared state keeps an invariant, and each call in flight has what it relies on. -/
structure Supported (Holds : σ → Prop) (Relies : σ → π → Prop) (c : Config σ π) : Prop where
  holds : Holds c.shared
  relies : ∀ p ∈ c.inFlight, Relies c.shared p

theorem run_supported {S : System σ π} {Holds : σ → Prop} {Relies : σ → π → Prop} {c d : Config σ π}
    (run : Run S c d) (initial : Supported Holds Relies c)
    (issued : ∀ s p, S.issues p → Holds s → Relies s p)
    (kept : ∀ s others p s' next, S.allow s others p → S.atom s p s' next → Holds s → Relies s p →
      Holds s' ∧ (∀ q, next = some q → Relies s' q) ∧ ∀ q, Relies s q → Relies s' q) :
    Supported Holds Relies d := by
  refine run_preserves run initial ?_
  intro a b supported step
  cases step with
  | @issue _ p starts =>
      refine ⟨supported.holds, fun q member => ?_⟩
      rcases List.mem_cons.mp member with rfl | old
      · exact issued _ _ starts supported.holds
      · exact supported.relies q old
  | @advance s s' earlier later p next allowed atom =>
      obtain ⟨holds, continues, spares⟩ :=
        kept s _ p s' next allowed atom supported.holds (supported.relies p (by simp))
      refine ⟨holds, fun q member => ?_⟩
      rcases List.mem_append.mp member with before | rest
      · exact spares q (supported.relies q (List.mem_append_left _ before))
      · rcases List.mem_append.mp rest with isNext | behind
        · exact continues q (Option.mem_toList.mp isNext)
        · exact spares q (supported.relies q
            (List.mem_append_right _ (List.mem_cons_of_mem _ behind)))

theorem run_supported_others {S : System σ π} {Holds : σ → Prop} {Relies : σ → π → Prop} {c d : Config σ π}
    (run : Run S c d) (initial : Supported Holds Relies c)
    (issued : ∀ s p, S.issues p → Holds s → Relies s p)
    (kept : ∀ s others p s' next, S.allow s others p → S.atom s p s' next → Holds s → Relies s p →
      Holds s' ∧ (∀ q, next = some q → Relies s' q) ∧ ∀ q ∈ others, Relies s q → Relies s' q) :
    Supported Holds Relies d := by
  refine run_preserves run initial ?_
  intro a b supported step
  cases step with
  | @issue _ p starts =>
      refine ⟨supported.holds, fun q member => ?_⟩
      rcases List.mem_cons.mp member with rfl | old
      · exact issued _ _ starts supported.holds
      · exact supported.relies q old
  | @advance s s' earlier later p next allowed atom =>
      obtain ⟨holds, continues, spares⟩ :=
        kept s _ p s' next allowed atom supported.holds (supported.relies p (by simp))
      have spared : ∀ q ∈ earlier ++ later, Relies s' q := fun q other => by
        refine spares q other (supported.relies q ?_)
        rcases List.mem_append.mp other with before | behind
        · exact List.mem_append_left _ before
        · exact List.mem_append_right _ (List.mem_cons_of_mem _ behind)
      refine ⟨holds, fun q member => ?_⟩
      rcases List.mem_append.mp member with before | rest
      · exact spared q (List.mem_append_left _ before)
      · rcases List.mem_append.mp rest with isNext | behind
        · exact continues q (Option.mem_toList.mp isNext)
        · exact spared q (List.mem_append_right _ behind)

theorem run_supported_indebted {S : System σ π} {Holds : σ → Prop} {Relies : σ → π → Prop}
    {Bad : σ → κ → Prop} {Owes : π → κ → Prop} {c d : Config σ π} (run : Run S c d)
    (supported : Supported Holds Relies c) (indebted : Indebted Bad Owes c)
    (issued : ∀ s p, S.issues p → Holds s → Relies s p)
    (kept : ∀ s others p s' next, S.allow s others p → S.atom s p s' next → Holds s → Relies s p →
      (∀ q ∈ others, Relies s q) → (∀ k, Bad s k → Owes p k ∨ ∃ q ∈ others, Owes q k) →
        Holds s' ∧ (∀ q, next = some q → Relies s' q) ∧ (∀ q ∈ others, Relies s' q) ∧
          ∀ k, Bad s' k → (∃ q, next = some q ∧ Owes q k) ∨ ∃ q ∈ others, Owes q k) :
    Supported Holds Relies d ∧ Indebted Bad Owes d := by
  refine @run_preserves _ _ S (fun c => Supported Holds Relies c ∧ Indebted Bad Owes c) _ _ run
    ⟨supported, indebted⟩ ?_
  rintro a b ⟨supported, indebted⟩ step
  cases step with
  | @issue _ p starts =>
      refine ⟨⟨supported.holds, fun q member => ?_⟩, fun k bad => ?_⟩
      · rcases List.mem_cons.mp member with rfl | old
        · exact issued _ _ starts supported.holds
        · exact supported.relies q old
      · obtain ⟨q, member, owes⟩ := indebted k bad
        exact ⟨q, List.mem_cons_of_mem _ member, owes⟩
  | @advance s s' earlier later p next allowed atom =>
      have among : ∀ q, q ∈ earlier ++ p :: later ↔ q = p ∨ q ∈ earlier ++ later := by
        intro q
        simp only [List.mem_append, List.mem_cons]
        tauto
      have amongNext : ∀ q,
          q ∈ earlier ++ (next.toList ++ later) ↔ next = some q ∨ q ∈ earlier ++ later := by
        intro q
        simp only [List.mem_append, Option.mem_toList]
        tauto
      obtain ⟨holds, continues, spares, owed⟩ := kept s _ p s' next allowed atom supported.holds
        (supported.relies p ((among p).mpr (.inl rfl)))
        (fun q member => supported.relies q ((among q).mpr (.inr member)))
        fun k bad => by
          obtain ⟨q, member, owes⟩ := indebted k bad
          rcases (among q).mp member with rfl | other
          · exact .inl owes
          · exact .inr ⟨q, other, owes⟩
      refine ⟨⟨holds, fun q member => ?_⟩, fun k bad => ?_⟩
      · rcases (amongNext q).mp member with isNext | other
        · exact continues q isNext
        · exact spares q other
      · rcases owed k bad with ⟨q, isNext, owes⟩ | ⟨q, other, owes⟩
        · exact ⟨q, (amongNext q).mpr (.inl isNext), owes⟩
        · exact ⟨q, (amongNext q).mpr (.inr other), owes⟩

section Weight

variable {M : Type*} [AddCommMonoid M]

def weight (owed : π → M) (calls : List π) : M := (calls.map owed).sum

@[simp] theorem weight_nil (owed : π → M) : weight owed [] = 0 := rfl

@[simp] theorem weight_cons (owed : π → M) (p : π) (calls : List π) :
    weight owed (p :: calls) = owed p + weight owed calls := by
  simp [weight]

@[simp] theorem weight_append (owed : π → M) (earlier later : List π) :
    weight owed (earlier ++ later) = weight owed earlier + weight owed later := by
  simp [weight]

theorem weight_middle (owed : π → M) (earlier later : List π) (p : π) :
    weight owed (earlier ++ p :: later) = owed p + weight owed (earlier ++ later) := by
  simp only [weight_append, weight_cons]
  exact add_left_comm _ _ _

theorem weight_next (owed : π → M) (earlier later : List π) (next : Option π) :
    weight owed (earlier ++ (next.toList ++ later)) =
      weight owed next.toList + weight owed (earlier ++ later) := by
  simp only [weight_append]
  exact add_left_comm _ _ _

theorem weight_prodMk {N : Type*} [AddCommMonoid N] (owed : π → M) (owed' : π → N) (calls : List π) :
    weight (fun p => (owed p, owed' p)) calls = (weight owed calls, weight owed' calls) := by
  induction calls with
  | nil => rfl
  | cons p calls ih => simp only [weight_cons, ih, Prod.mk_add_mk]

/-- Each call in flight fits the shared state, and the shared state is related to the sum of what they
    have outstanding. -/
structure Weighed (Fits : σ → π → Prop) (owed : π → M) (Holds : σ → M → Prop) (c : Config σ π) :
    Prop where
  fits : ∀ p ∈ c.inFlight, Fits c.shared p
  holds : Holds c.shared (weight owed c.inFlight)

theorem run_weighed {S : System σ π} {Fits : σ → π → Prop} {owed : π → M} {Holds : σ → M → Prop}
    {c d : Config σ π} (run : Run S c d) (initial : Weighed Fits owed Holds c)
    (issued : ∀ s p rest, S.issues p → Holds s rest → Fits s p ∧ Holds s (owed p + rest))
    (kept : ∀ s others p s' next, S.allow s others p → S.atom s p s' next →
      (∀ q ∈ others, Fits s q) → Fits s p → Holds s (owed p + weight owed others) →
      (∀ q ∈ others, Fits s' q) ∧ (∀ q, next = some q → Fits s' q) ∧
        Holds s' (weight owed next.toList + weight owed others)) :
    Weighed Fits owed Holds d := by
  refine run_preserves run initial ?_
  intro a b weighed step
  cases step with
  | @issue _ p starts =>
      obtain ⟨fits, holds⟩ := issued _ p _ starts weighed.holds
      refine ⟨fun q member => ?_, by rwa [weight_cons]⟩
      rcases List.mem_cons.mp member with rfl | old
      · exact fits
      · exact weighed.fits q old
  | @advance s s' earlier later p next allowed atom =>
      have holds : Holds s (weight owed (earlier ++ p :: later)) := weighed.holds
      rw [weight_middle] at holds
      have others : ∀ q ∈ earlier ++ later, Fits s q := by
        intro q member
        refine weighed.fits q ?_
        rcases List.mem_append.mp member with before | behind
        · exact List.mem_append_left _ before
        · exact List.mem_append_right _ (List.mem_cons_of_mem _ behind)
      obtain ⟨fits, fitsNext, holds'⟩ :=
        kept s _ p s' next allowed atom others (weighed.fits p (by simp)) holds
      refine ⟨fun q member => ?_, by rwa [weight_next]⟩
      rcases List.mem_append.mp member with before | rest
      · exact fits q (List.mem_append_left _ before)
      · rcases List.mem_append.mp rest with isNext | behind
        · exact fitsNext q (Option.mem_toList.mp isNext)
        · exact fits q (List.mem_append_right _ behind)

end Weight

end Interleaving

/-
Module: Puter.Library.StateRun
Purpose: Inversion of runs of stateful computations that may throw. A sequence of steps that ends well
  has run each of its steps well; one that throws has run some of them well and stopped in the next; and
  a check that lets the run go on changed nothing.
Trusted boundary: none
Main exports: bind_ok, ReadsOnly.skip, Leaves, Answers
-/
import Mathlib

namespace StateRun

variable {ε σ α β : Type}

theorem bind_ok {first : EStateM ε σ α} {next : α → EStateM ε σ β} {s s' : σ} {b : β} :
    (first >>= next) s = .ok b s' ↔
      ∃ a between, first s = .ok a between ∧ next a between = .ok b s' := by
  change EStateM.bind first next s = .ok b s' ↔ _
  unfold EStateM.bind
  cases first s with
  | ok a between => simp
  | error e between => simp

theorem bind_error {first : EStateM ε σ α} {next : α → EStateM ε σ β} {s s' : σ} {e : ε} :
    (first >>= next) s = .error e s' ↔
      first s = .error e s' ∨ ∃ a between, first s = .ok a between ∧ next a between = .error e s' := by
  change EStateM.bind first next s = .error e s' ↔ _
  unfold EStateM.bind
  cases first s with
  | ok a between => simp
  | error e between => simp

theorem pure_error {a : α} {s s' : σ} {e : ε} :
    ¬ (pure a : EStateM ε σ α) s = .error e s' := by
  intro error
  cases error

theorem throw_error {e e' : ε} {s s' : σ} :
    (throw e : EStateM ε σ α) s = .error e' s' ↔ e = e' ∧ s = s' := by
  change EStateM.Result.error e s = .error e' s' ↔ _
  simp

theorem modify_error {change : σ → σ} {s s' : σ} {e : ε} :
    ¬ (modify change : EStateM ε σ Unit) s = .error e s' := by
  intro error
  cases error

theorem get_error {s s' : σ} {e : ε} : ¬ (get : EStateM ε σ σ) s = .error e s' := by
  intro error
  cases error

theorem set_error {s s' new : σ} {e : ε} : ¬ (set new : EStateM ε σ PUnit) s = .error e s' := by
  intro error
  cases error

theorem pure_ok {a b : α} {s s' : σ} :
    (pure a : EStateM ε σ α) s = .ok b s' ↔ a = b ∧ s = s' := by
  change EStateM.Result.ok a s = .ok b s' ↔ _
  simp

theorem throw_ok {e : ε} {s s' : σ} {a : α} :
    ¬ (throw e : EStateM ε σ α) s = .ok a s' := by
  intro ok
  cases ok

theorem modify_ok {change : σ → σ} {s s' : σ} {u : Unit} :
    (modify change : EStateM ε σ Unit) s = .ok u s' ↔ change s = s' := by
  change EStateM.Result.ok () (change s) = .ok u s' ↔ _
  simp

theorem get_ok {s s' a : σ} : (get : EStateM ε σ σ) s = .ok a s' ↔ s = a ∧ s = s' := by
  change EStateM.Result.ok s s = .ok a s' ↔ _
  simp

theorem set_ok {s s' new : σ} {u : PUnit} :
    (set new : EStateM ε σ PUnit) s = .ok u s' ↔ new = s' := by
  change EStateM.Result.ok PUnit.unit new = .ok u s' ↔ _
  simp

theorem tryCatch_ok {body : EStateM ε σ α} {handle : ε → EStateM ε σ α} {s s' : σ} {a : α} :
    tryCatch body handle s = .ok a s' ↔
      body s = .ok a s' ∨ ∃ e stopped, body s = .error e stopped ∧ handle e stopped = .ok a s' := by
  change EStateM.tryCatch body handle s = .ok a s' ↔ _
  unfold EStateM.tryCatch
  cases body s with
  | ok b between => simp
  | error e between => simp [EStateM.Backtrackable.restore, EStateM.dummyRestore]

theorem tryCatch_error {body : EStateM ε σ α} {handle : ε → EStateM ε σ α} {s s' : σ} {e : ε} :
    tryCatch body handle s = .error e s' ↔
      ∃ thrown stopped, body s = .error thrown stopped ∧ handle thrown stopped = .error e s' := by
  change EStateM.tryCatch body handle s = .error e s' ↔ _
  unfold EStateM.tryCatch
  cases body s with
  | ok b between => simp
  | error e between => simp [EStateM.Backtrackable.restore, EStateM.dummyRestore]

section Prefixes

variable {first body : EStateM ε σ α} {next : α → EStateM ε σ β} {handle : ε → EStateM ε σ α} {s s' : σ} {a : α} {e : ε}

theorem bind_of_ok (ran : first s = .ok a s') : (first >>= next) s = next a s' := by
  change EStateM.bind first next s = _
  unfold EStateM.bind
  rw [ran]

theorem bind_of_error (ran : first s = .error e s') : (first >>= next) s = .error e s' := by
  change EStateM.bind first next s = _
  unfold EStateM.bind
  rw [ran]

theorem bind_of_same {first' : EStateM ε σ α} (same : first s = first' s') :
    (first >>= next) s = (first' >>= next) s' := by
  change EStateM.bind first next s = EStateM.bind first' next s'
  unfold EStateM.bind
  rw [same]

theorem tryCatch_of_ok (ran : body s = .ok a s') : tryCatch body handle s = .ok a s' := tryCatch_ok.mpr (.inl ran)

theorem tryCatch_of_error (ran : body s = .error e s') : tryCatch body handle s = handle e s' := by
  change EStateM.tryCatch body handle s = _
  unfold EStateM.tryCatch
  rw [ran]
  rfl

theorem bind_tryCatch_of_error (ran : body s = .error e s') :
    (tryCatch body handle >>= next) s = (handle e >>= next) s' := by
  change EStateM.bind (tryCatch body handle) next s = EStateM.bind (handle e) next s'
  simp only [EStateM.bind, tryCatch_of_error ran]

end Prefixes

def succeedsWith (test : α → σ → Bool) : EStateM.Result ε σ α → Bool
  | .ok a s => test a s
  | .error _ _ => false

theorem exists_of_succeedsWith {test : α → σ → Bool} {result : EStateM.Result ε σ α}
    (succeeds : succeedsWith test result = true) :
    ∃ a s, result = .ok a s ∧ test a s = true := by
  cases result with
  | ok a s => exact ⟨a, s, rfl, succeeds⟩
  | error e s => cases succeeds

def failsWith (test : ε → σ → Bool) : EStateM.Result ε σ α → Bool
  | .ok _ _ => false
  | .error e s => test e s

theorem exists_of_failsWith {test : ε → σ → Bool} {result : EStateM.Result ε σ α}
    (fails : failsWith test result = true) : ∃ e s, result = .error e s ∧ test e s = true := by
  cases result with
  | ok a s => cases fails
  | error e s => exact ⟨e, s, rfl, fails⟩

def refuseIf (refused : Bool) (error : ε) : EStateM ε σ Unit :=
  if refused then throw error else pure ()

theorem refuseIf_ok {refused : Bool} {error : ε} {s s' : σ} {u : Unit} :
    refuseIf refused error s = .ok u s' ↔ refused = false ∧ s = s' := by
  cases refused with
  | true => simp [refuseIf, throw_ok]
  | false => simp [refuseIf, pure_ok]

theorem refuseIf_error {refused : Bool} {error e : ε} {s s' : σ} :
    refuseIf refused error s = .error e s' ↔ refused = true ∧ error = e ∧ s = s' := by
  cases refused with
  | true => simp [refuseIf, throw_error]
  | false => simp [refuseIf, pure_error]

def runIf (wanted : Bool) (body : EStateM ε σ Unit) : EStateM ε σ Unit :=
  if wanted then body else pure ()

theorem runIf_ok {wanted : Bool} {body : EStateM ε σ Unit} {s s' : σ} {u : Unit} :
    runIf wanted body s = .ok u s' ↔
      wanted = true ∧ body s = .ok u s' ∨ wanted = false ∧ s = s' := by
  cases wanted with
  | true => simp [runIf]
  | false => simp [runIf, pure_ok]

theorem runIf_error {wanted : Bool} {body : EStateM ε σ Unit} {s s' : σ} {e : ε} :
    runIf wanted body s = .error e s' ↔ wanted = true ∧ body s = .error e s' := by
  cases wanted with
  | true => simp [runIf]
  | false => simp [runIf, pure_error]

def orThrow (error : ε) : Option α → EStateM ε σ α
  | some a => pure a
  | none => throw error

theorem orThrow_ok {error : ε} {found : Option α} {a : α} {s s' : σ} :
    orThrow error found s = .ok a s' ↔ found = some a ∧ s = s' := by
  cases found with
  | some b => simp [orThrow, pure_ok]
  | none => simp [orThrow, throw_ok]

theorem orThrow_error {error e : ε} {found : Option α} {s s' : σ} :
    orThrow error found s = .error e s' ↔ found = none ∧ error = e ∧ s = s' := by
  cases found with
  | some b => simp [orThrow, pure_error]
  | none => simp [orThrow, throw_error]

def forEach (step : α → EStateM ε σ Unit) : List α → EStateM ε σ Unit
  | [] => pure ()
  | item :: rest => do
      step item
      forEach step rest

theorem forEach_concat_ok {step : α → EStateM ε σ Unit} {items : List α} {item : α} {s s' : σ} :
    forEach step (items ++ [item]) s = .ok () s' ↔
      ∃ between, forEach step items s = .ok () between ∧ step item between = .ok () s' := by
  induction items generalizing s with
  | nil => simp [forEach, pure_ok]
  | cons first rest ih =>
      simp only [List.cons_append, forEach, bind_ok, ih]
      constructor
      · rintro ⟨_, between, ran, last, rounds, ended⟩
        exact ⟨last, ⟨(), between, ran, rounds⟩, ended⟩
      · rintro ⟨last, ⟨_, between, ran, rounds⟩, ended⟩
        exact ⟨(), between, ran, last, rounds, ended⟩

theorem forEach_append_of_ok {step : α → EStateM ε σ Unit} {items rest : List α} {s s' : σ}
    (ran : forEach step items s = .ok () s') : forEach step (items ++ rest) s = forEach step rest s' := by
  induction items generalizing s with
  | nil =>
      have ⟨_, same⟩ := pure_ok.mp ran
      rw [same, List.nil_append]
  | cons item items ih =>
      have ⟨_, between, one, others⟩ := bind_ok.mp ran
      exact (bind_of_ok one).trans (ih others)

theorem forEach_preserves {step : α → EStateM ε σ Unit} {Related : List α → σ → Prop}
    {items : List α}
    (keeps : ∀ item rest s s', Related (item :: rest) s → step item s = .ok () s' →
      Related rest s')
    {s s' : σ} (start : Related items s) (ran : forEach step items s = .ok () s') :
    Related [] s' := by
  induction items generalizing s with
  | nil =>
      obtain ⟨_, rfl⟩ := pure_ok.mp ran
      exact start
  | cons item rest ih =>
      obtain ⟨_, between, first, others⟩ := bind_ok.mp ran
      exact ih (keeps item rest s between start first) others

theorem forEach_error {step : α → EStateM ε σ Unit} {items : List α}
    (never : ∀ item s e s', ¬ step item s = .error e s') {s s' : σ} {e : ε} :
    ¬ forEach step items s = .error e s' := by
  intro ran
  induction items generalizing s with
  | nil => exact pure_error ran
  | cons item rest ih =>
      obtain failed | ⟨_, between, -, others⟩ := bind_error.mp ran
      · exact never item s e s' failed
      · exact ih others

def finalState : EStateM.Result ε σ α → σ
  | .ok _ s => s
  | .error _ s => s

theorem finalState_modify {change : σ → σ} {s : σ} :
    finalState ((modify change : EStateM ε σ Unit) s) = change s := rfl

theorem finalState_bind {holds : σ → Prop} {first : EStateM ε σ α} {next : α → EStateM ε σ β} {s : σ}
    (thrown : ∀ e s', first s = .error e s' → holds s')
    (went : ∀ a s', first s = .ok a s' → holds (finalState (next a s'))) :
    holds (finalState ((first >>= next) s)) := by
  cases ran : (first >>= next) s with
  | ok b s' =>
      obtain ⟨a, between, one, two⟩ := bind_ok.mp ran
      have ended := went a between one
      rwa [two] at ended
  | error e s' =>
      obtain failed | ⟨a, between, one, two⟩ := bind_error.mp ran
      · exact thrown e s' failed
      · have ended := went a between one
        rwa [two] at ended

theorem finalState_tryCatch {holds : σ → Prop} {body : EStateM ε σ α}
    {handle : ε → EStateM ε σ α} {s : σ}
    (went : ∀ a s', body s = .ok a s' → holds s')
    (caught : ∀ e s', body s = .error e s' → holds (finalState (handle e s'))) :
    holds (finalState (tryCatch body handle s)) := by
  change holds (finalState (EStateM.tryCatch body handle s))
  unfold EStateM.tryCatch
  cases ran : body s with
  | ok a s' => exact went a s' ran
  | error e s' => exact caught e s' ran

section FinalState

variable {first body : EStateM ε σ α} {next : α → EStateM ε σ β} {handle : ε → EStateM ε σ α} {s s' : σ}
  {a : α} {e : ε}

theorem finalState_tryCatch_error (ran : body s = .error e s') :
    finalState (tryCatch body handle s) = finalState (handle e s') := by
  change finalState (EStateM.tryCatch body handle s) = _
  unfold EStateM.tryCatch
  rw [ran]
  rfl

theorem finalState_tryCatch_same {body body' : EStateM ε σ α} {handle : ε → EStateM ε σ α}
    (same : body s = body' s') : finalState (tryCatch body handle s) = finalState (tryCatch body' handle s') := by
  change finalState (EStateM.tryCatch body handle s) = finalState (EStateM.tryCatch body' handle s')
  unfold EStateM.tryCatch
  rw [same]

end FinalState

/-- However a computation ends, the state after it is related to the state before it. -/
def Keeps (related : σ → σ → Prop) (body : EStateM ε σ α) : Prop :=
  ∀ s, related s (finalState (body s))

namespace Keeps

variable {related : σ → σ → Prop} {body : EStateM ε σ α}

theorem ok (keeps : Keeps related body) {s s' : σ} {a : α} (ran : body s = .ok a s') :
    related s s' := by
  have kept := keeps s
  rwa [ran] at kept

theorem error (keeps : Keeps related body) {s s' : σ} {e : ε} (ran : body s = .error e s') :
    related s s' := by
  have kept := keeps s
  rwa [ran] at kept

variable [IsPreorder σ related]

theorem pure (a : α) : Keeps related (pure a : EStateM ε σ α) := fun s => refl_of related s

theorem throw (e : ε) : Keeps related (throw e : EStateM ε σ α) := fun s => refl_of related s

theorem get : Keeps related (get : EStateM ε σ σ) := fun s => refl_of related s

theorem bind {first : EStateM ε σ α} {next : α → EStateM ε σ β} (firstKeeps : Keeps related first)
    (nextKeeps : ∀ a, Keeps related (next a)) : Keeps related (first >>= next) := by
  intro s
  cases ran : (first >>= next) s with
  | ok b s' =>
      obtain ⟨a, between, one, two⟩ := bind_ok.mp ran
      exact trans_of related (firstKeeps.ok one) ((nextKeeps a).ok two)
  | error e s' =>
      obtain failed | ⟨a, between, one, two⟩ := bind_error.mp ran
      · exact firstKeeps.error failed
      · exact trans_of related (firstKeeps.ok one) ((nextKeeps a).error two)

theorem refuseIf (refused : Bool) (e : ε) :
    Keeps related (refuseIf refused e : EStateM ε σ Unit) := by
  cases refused with
  | true => exact throw e
  | false => exact pure ()

theorem runIf {wanted : Bool} {body : EStateM ε σ Unit} (keeps : wanted = true → Keeps related body) :
    Keeps related (runIf wanted body) := by
  cases wanted with
  | true => exact keeps rfl
  | false => exact pure ()

theorem orThrow (e : ε) (found : Option α) :
    Keeps related (orThrow e found : EStateM ε σ α) := by
  cases found with
  | some a => exact pure a
  | none => exact throw e

theorem forEach {step : α → EStateM ε σ Unit} {items : List α}
    (keeps : ∀ item ∈ items, Keeps related (step item)) : Keeps related (forEach step items) := by
  induction items with
  | nil => exact pure ()
  | cons item rest ih =>
      exact bind (keeps item List.mem_cons_self) fun _ =>
        ih fun other later => keeps other (List.mem_cons_of_mem _ later)

theorem tryCatch {handle : ε → EStateM ε σ α} (keeps : Keeps related body)
    (caught : ∀ e, Keeps related (handle e)) : Keeps related (tryCatch body handle) := by
  intro s
  apply finalState_tryCatch
  · exact fun _ s' ran => keeps.ok ran
  · exact fun e s' ran => trans_of related (keeps.error ran) (caught e s')

end Keeps

def within {τ : Type} (part : τ → σ) (replace : τ → σ → τ) (body : EStateM ε σ α) : EStateM ε τ α :=
  fun t => match body (part t) with
    | .ok a s => .ok a (replace t s)
    | .error e s => .error e (replace t s)

section Within

variable {τ : Type} {part : τ → σ} {replace : τ → σ → τ} {body : EStateM ε σ α} {t t' : τ}

theorem within_ok {a : α} :
    within part replace body t = .ok a t' ↔ ∃ s, body (part t) = .ok a s ∧ replace t s = t' := by
  unfold within
  cases body (part t) <;> simp

theorem within_error {e : ε} :
    within part replace body t = .error e t' ↔
      ∃ s, body (part t) = .error e s ∧ replace t s = t' := by
  unfold within
  cases body (part t) <;> simp

theorem finalState_within :
    finalState (within part replace body t) = replace t (finalState (body (part t))) := by
  unfold within
  cases body (part t) <;> rfl

end Within

def outcome : EStateM.Result ε σ α → Except ε α
  | .ok a _ => .ok a
  | .error e _ => .error e

/-- From related states two computations end alike, and in related states. -/
def Agree (related : σ → σ → Prop) (one other : EStateM ε σ α) : Prop :=
  ∀ s t, related s t →
    outcome (one s) = outcome (other t) ∧ related (finalState (one s)) (finalState (other t))

namespace Agree

variable {related : σ → σ → Prop}

theorem pure (a : α) : Agree related (pure a : EStateM ε σ α) (pure a) :=
  fun _ _ start => ⟨rfl, start⟩

theorem throw (e : ε) : Agree related (throw e : EStateM ε σ α) (throw e) :=
  fun _ _ start => ⟨rfl, start⟩

theorem modify {change : σ → σ} (keeps : ∀ s t, related s t → related (change s) (change t)) :
    Agree related (modify change : EStateM ε σ Unit) (modify change) :=
  fun s t start => ⟨rfl, keeps s t start⟩

theorem cases {one other : EStateM ε σ α} (agree : Agree related one other) {s t : σ}
    (start : related s t) :
    (∃ a s' t', one s = .ok a s' ∧ other t = .ok a t' ∧ related s' t') ∨
      ∃ e s' t', one s = .error e s' ∧ other t = .error e t' ∧ related s' t' := by
  obtain ⟨same, ends⟩ := agree s t start
  cases left : one s with
  | ok a s' =>
      cases right : other t with
      | ok b t' =>
          rw [left, right] at same ends
          cases same
          exact .inl ⟨a, s', t', rfl, rfl, ends⟩
      | error e t' =>
          rw [left, right] at same
          cases same
  | error e s' =>
      cases right : other t with
      | ok b t' =>
          rw [left, right] at same
          cases same
      | error e' t' =>
          rw [left, right] at same ends
          cases same
          exact .inr ⟨e, s', t', rfl, rfl, ends⟩

theorem bind {one other : EStateM ε σ α} {next next' : α → EStateM ε σ β}
    (first : Agree related one other) (rest : ∀ a, Agree related (next a) (next' a)) :
    Agree related (one >>= next) (other >>= next') := by
  intro s t start
  change outcome (EStateM.bind one next s) = outcome (EStateM.bind other next' t) ∧
    related (finalState (EStateM.bind one next s)) (finalState (EStateM.bind other next' t))
  unfold EStateM.bind
  rcases first.cases start with ⟨a, s', t', left, right, between⟩ | ⟨e, s', t', left, right, ends⟩
  · rw [left, right]
    exact rest a s' t' between
  · rw [left, right]
    exact ⟨rfl, ends⟩

theorem get {next next' : σ → EStateM ε σ α}
    (rest : ∀ s t, related s t → outcome (next s s) = outcome (next' t t) ∧
      related (finalState (next s s)) (finalState (next' t t))) :
    Agree related (get >>= next) (get >>= next') := rest

theorem refuseIf (refused : Bool) (e : ε) :
    Agree related (refuseIf refused e : EStateM ε σ Unit) (StateRun.refuseIf refused e) := by
  cases refused with
  | true => exact throw e
  | false => exact pure ()

theorem forEach {step step' : α → EStateM ε σ Unit} {items : List α}
    (steps : ∀ item ∈ items, Agree related (step item) (step' item)) :
    Agree related (forEach step items) (StateRun.forEach step' items) := by
  induction items with
  | nil => exact pure ()
  | cons item rest ih =>
      exact bind (steps item List.mem_cons_self) fun _ =>
        ih fun other later => steps other (List.mem_cons_of_mem _ later)

theorem tryCatch {one other : EStateM ε σ α} {handle handle' : ε → EStateM ε σ α}
    (body : Agree related one other) (caught : ∀ e, Agree related (handle e) (handle' e)) :
    Agree related (tryCatch one handle) (tryCatch other handle') := by
  intro s t start
  change outcome (EStateM.tryCatch one handle s) = outcome (EStateM.tryCatch other handle' t) ∧
    related (finalState (EStateM.tryCatch one handle s))
      (finalState (EStateM.tryCatch other handle' t))
  unfold EStateM.tryCatch
  rcases body.cases start with ⟨a, s', t', left, right, ends⟩ | ⟨e, s', t', left, right, stopped⟩
  · rw [left, right]
    exact ⟨rfl, ends⟩
  · rw [left, right]
    exact caught e s' t' stopped

end Agree

/-- The state is the same after a computation, however it ends. -/
abbrev ReadsOnly (body : EStateM ε σ α) : Prop := Keeps Eq body

theorem ReadsOnly.keeps {related : σ → σ → Prop} [Std.Refl related] {body : EStateM ε σ α}
    (reads : ReadsOnly body) : Keeps related body := by
  intro s
  rw [← reads s]
  exact refl_of related s

theorem ReadsOnly.skip {first : EStateM ε σ α} {next : α → EStateM ε σ β} (reads : ReadsOnly first)
    {s s' : σ} {b : β} (ran : (first >>= next) s = .ok b s') :
    ∃ a, first s = .ok a s ∧ next a s = .ok b s' := by
  obtain ⟨a, between, one, two⟩ := bind_ok.mp ran
  obtain rfl := reads.ok one
  exact ⟨a, one, two⟩

section Leaves

variable {well thrown : σ → σ → Prop} {first : EStateM ε σ α} {next : α → EStateM ε σ β}

/-- The state after a computation is related to the state before it by one relation where the computation
    ends well, and by another where it throws. -/
structure Leaves (well thrown : σ → σ → Prop) (body : EStateM ε σ α) : Prop where
  ok : ∀ s a s', body s = .ok a s' → well s s'
  error : ∀ s e s', body s = .error e s' → thrown s s'

theorem Leaves.of_keeps (keeps : Keeps thrown first) (weaker : ∀ s s', thrown s s' → well s s') :
    Leaves well thrown first :=
  ⟨fun s _ s' ran => weaker s s' (keeps.ok ran), fun _ _ _ ran => keeps.error ran⟩

theorem Leaves.keeps (leaves : Leaves well thrown first) (weaker : ∀ s s', thrown s s' → well s s') :
    Keeps well first := by
  intro s
  cases ran : first s with
  | ok a s' => exact leaves.ok s a s' ran
  | error e s' => exact weaker s s' (leaves.error s e s' ran)

theorem Leaves.skip [Std.Refl thrown] (reads : ReadsOnly first)
    (rest : ∀ a s, first s = .ok a s → Leaves well thrown (next a)) :
    Leaves well thrown (first >>= next) := by
  constructor
  · intro s b s' ran
    obtain ⟨a, one, two⟩ := reads.skip ran
    exact (rest a s one).ok s b s' two
  · intro s e s' ran
    obtain failed | ⟨a, between, one, two⟩ := bind_error.mp ran
    · exact reads.error failed ▸ refl_of thrown s
    · obtain rfl := reads.ok one
      exact (rest a s one).error s e s' two

theorem Leaves.bind [IsTrans σ thrown] (keeps : Keeps thrown first)
    (composes : ∀ s t u, thrown s t → well t u → well s u) (rest : ∀ a, Leaves well thrown (next a)) :
    Leaves well thrown (first >>= next) := by
  constructor
  · intro s b s' ran
    obtain ⟨a, between, one, two⟩ := bind_ok.mp ran
    exact composes s between s' (keeps.ok one) ((rest a).ok between b s' two)
  · intro s e s' ran
    obtain failed | ⟨a, between, one, two⟩ := bind_error.mp ran
    · exact keeps.error failed
    · exact trans_of thrown (keeps.ok one) ((rest a).error between e s' two)

theorem Leaves.andThen {one two well stoppedOne stoppedTwo thrown : σ → σ → Prop}
    (firstLeaves : Leaves one stoppedOne first)
    (nextLeaves : ∀ a, Leaves two stoppedTwo (next a)) (ended : ∀ s t u, one s t → two t u → well s u)
    (stopped : ∀ s t, stoppedOne s t → thrown s t) (later : ∀ s t u, one s t → stoppedTwo t u → thrown s u) :
    Leaves well thrown (first >>= next) := by
  constructor
  · intro s b s' ran
    have ⟨a, between, left, right⟩ := bind_ok.mp ran
    exact ended s between s' (firstLeaves.ok s a between left) ((nextLeaves a).ok between b s' right)
  · intro s e s' ran
    cases bind_error.mp ran with
    | inl failed => exact stopped s s' (firstLeaves.error s e s' failed)
    | inr went =>
        have ⟨a, between, left, right⟩ := went
        exact later s between s' (firstLeaves.ok s a between left) ((nextLeaves a).error between e s' right)

theorem Leaves.result (leaves : Leaves well thrown first) (f : α → β) :
    Leaves well thrown (first >>= fun a => pure (f a)) := by
  constructor
  · intro s b s' ran
    obtain ⟨a, between, one, two⟩ := bind_ok.mp ran
    obtain ⟨-, rfl⟩ := pure_ok.mp two
    exact leaves.ok s a between one
  · intro s e s' ran
    obtain failed | ⟨a, between, -, two⟩ := bind_error.mp ran
    · exact leaves.error s e s' failed
    · exact absurd two pure_error

theorem Leaves.mono {well' thrown' : σ → σ → Prop} (leaves : Leaves well thrown first)
    (wells : ∀ s s', well s s' → well' s s') (throws : ∀ s s', thrown s s' → thrown' s s') :
    Leaves well' thrown' first :=
  ⟨fun s a s' ran => wells s s' (leaves.ok s a s' ran), fun s e s' ran =>
    throws s s' (leaves.error s e s' ran)⟩

theorem Leaves.of_reads [Std.Refl well] [Std.Refl thrown] (reads : ReadsOnly first) :
    Leaves well thrown first :=
  ⟨fun s _ _ ran => reads.ok ran ▸ refl_of well s, fun s _ _ ran => reads.error ran ▸ refl_of thrown s⟩

end Leaves

section Answers

variable {good : α → Prop} {fair : ε → Prop} {s : σ}

/-- From a state a computation gives a good answer or throws a fair error, and leaves the state as it is. -/
structure Answers (good : α → Prop) (fair : ε → Prop) (s : σ) (body : EStateM ε σ α) : Prop where
  ok : ∀ a s', body s = .ok a s' → s = s' ∧ good a
  error : ∀ e s', body s = .error e s' → s = s' ∧ fair e

namespace Answers

theorem pure {a : α} (isGood : good a) : Answers good fair s (pure a) := by
  constructor
  · intro b s' ran
    obtain ⟨rfl, rfl⟩ := pure_ok.mp ran
    exact ⟨rfl, isGood⟩
  · exact fun e s' ran => absurd ran pure_error

theorem throw {e : ε} (isFair : fair e) : Answers good fair s (throw e) := by
  constructor
  · exact fun a s' ran => absurd ran throw_ok
  · intro e' s' ran
    obtain ⟨rfl, rfl⟩ := throw_error.mp ran
    exact ⟨rfl, isFair⟩

theorem bind {between : α → Prop} {good : β → Prop} {first : EStateM ε σ α} {next : α → EStateM ε σ β}
    (one : Answers between fair s first) (rest : ∀ a, between a → Answers good fair s (next a)) :
    Answers good fair s (first >>= next) := by
  constructor
  · intro b s' ran
    obtain ⟨a, _, ran, rest'⟩ := bind_ok.mp ran
    obtain ⟨rfl, holds⟩ := one.ok a _ ran
    exact (rest a holds).ok b s' rest'
  · intro e s' ran
    obtain failed | ⟨a, _, ran, rest'⟩ := bind_error.mp ran
    · exact one.error e s' failed
    · obtain ⟨rfl, holds⟩ := one.ok a _ ran
      exact (rest a holds).error e s' rest'

theorem refuseIf {refused : Bool} {e : ε} (isFair : refused = true → fair e) :
    Answers (fun _ => refused = false) fair s (refuseIf refused e) := by
  cases refused with
  | true => exact throw (isFair rfl)
  | false => exact pure rfl

theorem mono {good' : α → Prop} {body : EStateM ε σ α} (answers : Answers good fair s body)
    (weaker : ∀ a, good a → good' a) : Answers good' fair s body :=
  ⟨fun a s' ran => (answers.ok a s' ran).imp_right (weaker a), answers.error⟩

end Answers

end Answers

end StateRun

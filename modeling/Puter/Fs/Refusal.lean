/-
Module: Puter.Fs.Refusal
Purpose: What a refusal leaves behind. The checks of the filesystem calls only read, a removal that is
  refused has changed nothing, and one that is allowed goes through.
Trusted boundary: none
Main exports: getEntryByPath_reads, makeWay_error
-/
import Puter.Fs.CopyTree

namespace Puter

open PosixPath StateRun FSEntryStore PathForest FSService

variable {env : FsEnv} {s s' : FsState}

theorem getEntryByPath_reads (path : Text) : ReadsOnly (getEntryByPath path) :=
  .bind (normalized_reads path) fun _ => .bind .get fun _ => .pure _

theorem assertCrossAppDeleteAllowed_reads (env : FsEnv) (path : Text) :
    ReadsOnly (assertCrossAppDeleteAllowed env path) :=
  .bind .get fun _ => .refuseIf _ _

theorem assertCanRestructure_reads (env : FsEnv) (entry : FSEntry) (userId : Nat) :
    ReadsOnly (assertCanRestructure env entry userId) :=
  .bind .get fun _ => .refuseIf _ _

theorem assertUsableName_reads (name : Text) : ReadsOnly (assertUsableName name) :=
  .bind (.refuseIf _ _) fun _ => .bind (.refuseIf _ _) fun _ => .refuseIf _ _

theorem assertRemovable_reads (env : FsEnv) (userId : Nat) (input : RemoveInput) :
    ReadsOnly (assertRemovable env userId input) :=
  .bind (.runIf fun _ => assertCrossAppDeleteAllowed_reads env _) fun _ =>
    assertCanRestructure_reads env _ _

theorem assertMovable_reads (env : FsEnv) (userId : Nat) (input : MoveInput) :
    ReadsOnly (assertMovable env userId input) :=
  .bind (assertCrossAppDeleteAllowed_reads env _) fun _ =>
    .bind (assertCanRestructure_reads env _ _) fun _ =>
      .bind (.refuseIf _ _) fun _ => .bind (.refuseIf _ _) fun _ => .bind (.refuseIf _ _) fun _ =>
        assertUsableName_reads _

theorem assertCopyable_reads (input : CopyInput) : ReadsOnly (assertCopyable input) :=
  .bind (.refuseIf _ _) fun _ => .bind (.refuseIf _ _) fun _ => assertUsableName_reads _

theorem firstFree_reads (candidatePath : Nat → Text) (attempts suffix : Nat) :
    ReadsOnly (firstFree candidatePath attempts suffix) := by
  induction attempts generalizing suffix with
  | zero => exact .pure _
  | succ attempts ih =>
      refine .bind (getEntryByPath_reads _) fun found => ?_
      cases found with
      | none => exact .pure _
      | some entry => exact ih _

theorem findDedupedName_reads (parent : FSEntry) (name : Text) :
    ReadsOnly (findDedupedName parent name) := by
  refine .bind (firstFree_reads _ _ _) fun found => ?_
  cases found with
  | none => exact .throw _
  | some suffix => exact .pure _

theorem normalized_plain_error {path : Text} (plain : PlainPath path) {e : FsError} :
    ¬ normalized path s = .error e s' := by
  intro ran
  unfold normalized at ran
  rw [plain.normalizePath_eq] at ran
  exact pure_error ran

theorem getEntryByPath_error {path : Text} {e : FsError}
    (ran : getEntryByPath path s = .error e s') : storedAt s.entries path = none := by
  obtain failed | ⟨_, _, -, ran⟩ := bind_error.mp ran
  · unfold normalized at failed
    unfold storedAt
    cases norm : normalizePath path with
    | ok normalizedPath =>
        rw [norm] at failed
        exact absurd failed pure_error
    | error e' => rfl
  obtain failed | ⟨_, _, -, ran⟩ := bind_error.mp ran
  · exact absurd failed get_error
  · exact absurd ran pure_error

theorem assertUsableName_error {name : Text} {e : FsError}
    (ran : assertUsableName name s = .error e s') : ¬ UsableName name := by
  intro usable
  unfold assertUsableName at ran
  obtain failed | ⟨_, _, -, ran⟩ := bind_error.mp ran
  · obtain ⟨blank, -⟩ := refuseIf_error.mp failed
    exact usable.notBlank (by simpa using blank)
  obtain failed | ⟨_, _, -, ran⟩ := bind_error.mp ran
  · obtain ⟨slash, -⟩ := refuseIf_error.mp failed
    exact usable.noSlash (by simpa using slash)
  · obtain ⟨dots, -⟩ := refuseIf_error.mp ran
    simp [usable.notDot, usable.notDots] at dots

theorem assertCrossAppDeleteAllowed_error {path : Text} {e : FsError}
    (ran : assertCrossAppDeleteAllowed env path s = .error e s') :
    env.crossAppDeleteAllowed s path = false := by
  unfold assertCrossAppDeleteAllowed at ran
  obtain failed | ⟨_, _, got, ran⟩ := bind_error.mp ran
  · exact absurd failed get_error
  · obtain ⟨rfl, rfl⟩ := get_ok.mp got
    simpa using (refuseIf_error.mp ran).1

theorem assertCanRestructure_error {entry : FSEntry} {userId : Nat} {e : FsError}
    (ran : assertCanRestructure env entry userId s = .error e s') :
    mayRestructure env s entry userId = false := by
  unfold assertCanRestructure at ran
  obtain failed | ⟨_, _, got, ran⟩ := bind_error.mp ran
  · exact absurd failed get_error
  · obtain ⟨rfl, rfl⟩ := get_ok.mp got
    simpa using (refuseIf_error.mp ran).1

theorem assertRemovable_error {userId : Nat} {input : RemoveInput} {e : FsError}
    (ran : assertRemovable env userId input s = .error e s') :
    mayRemove env s userId input = false := by
  unfold assertRemovable at ran
  unfold mayRemove
  obtain failed | ⟨_, between, first, ran⟩ := bind_error.mp ran
  · obtain ⟨asked, failed⟩ := runIf_error.mp failed
    rw [assertCrossAppDeleteAllowed_error failed]
    simp_all
  · obtain rfl : s = between :=
      Keeps.ok (.runIf fun _ => assertCrossAppDeleteAllowed_reads env _) first
    rw [assertCanRestructure_error ran, Bool.and_false]

theorem removeStorage_error {entry : FSEntry} {e : FsError} :
    ¬ removeStorage env entry s = .error e s' := by
  intro ran
  exact modify_error (runIf_error.mp ran).2

theorem removeDirectory_error {input : RemoveInput} (plain : PlainPath input.entry.path)
    (whole : input.recursive = true) {e : FsError} : ¬ removeDirectory env input s = .error e s' := by
  intro ran
  unfold removeDirectory at ran
  obtain failed | ⟨_, _, -, ran⟩ := bind_error.mp ran
  · unfold listDescendantsByPath at failed
    obtain failed | ⟨_, _, norm, failed⟩ := bind_error.mp failed
    · exact normalized_plain_error plain failed
    obtain ⟨rfl, rfl⟩ := (normalized_plain plain).mp norm
    obtain failed | ⟨_, _, -, failed⟩ := bind_error.mp failed
    · exact plain.ne_root (by simpa using (refuseIf_error.mp failed).1)
    obtain failed | ⟨_, _, -, failed⟩ := bind_error.mp failed
    · exact get_error failed
    · exact pure_error failed
  obtain failed | ⟨_, _, -, ran⟩ := bind_error.mp ran
  · simp [refuseIf_error, whole] at failed
  obtain failed | ⟨_, _, -, ran⟩ := bind_error.mp ran
  · exact forEach_error (fun _ _ _ _ => removeStorage_error) failed
  obtain failed | ⟨_, _, -, ran⟩ := bind_error.mp ran
  · exact modify_error failed
  · exact modify_error (runIf_error.mp ran).2

theorem removeLeaf_error {entry : FSEntry} {e : FsError} :
    ¬ removeLeaf env entry s = .error e s' := by
  intro ran
  obtain failed | ⟨_, _, -, ran⟩ := bind_error.mp ran
  · exact removeStorage_error failed
  · exact modify_error ran

theorem remove_error {userId : Nat} {input : RemoveInput} (plain : PlainPath input.entry.path)
    (whole : input.recursive = true) {e : FsError}
    (ran : remove env userId input s = .error e s') :
    mayRemove env s userId input = false ∧ s = s' := by
  unfold remove at ran
  obtain failed | ⟨_, _, -, ran⟩ := bind_error.mp ran
  · exact ⟨assertRemovable_error failed, (assertRemovable_reads env userId input).error failed⟩
  · split at ran
    · exact absurd ran (removeDirectory_error plain whole)
    · exact absurd ran removeLeaf_error

theorem makeWay_error (kept : WellKept s) {userId : Nat} {overwrite dedupeName : Bool}
    {destination : FSEntry} {name : Text} {collision : Option FSEntry} {e : FsError}
    (found : ∀ c, collision = some c → c ∈ s.entries)
    (ran : makeWay env userId overwrite dedupeName destination name collision s = .error e s') :
    s = s' ∧ ∀ c, collision = some c → overwrite = true →
      mayRemove env s userId { entry := c, recursive := true } = false := by
  cases collision with
  | none => exact absurd ran pure_error
  | some c =>
      unfold makeWay at ran
      dsimp only at ran
      split at ran
      next asked =>
        obtain failed | ⟨_, _, -, ran⟩ := bind_error.mp ran
        · obtain ⟨refused, rfl⟩ := remove_error (kept.plainPath c (found c rfl)) rfl failed
          refine ⟨rfl, fun c' isCollision _ => ?_⟩
          cases isCollision
          exact refused
        · exact absurd ran pure_error
      next notAsked =>
        refine ⟨?_, fun _ _ asked => absurd asked notAsked⟩
        split at ran
        · exact (findDedupedName_reads destination name).error ran
        · exact (throw_error.mp ran).2

theorem remove_allowed {userId : Nat} {input : RemoveInput} {u : Unit}
    (ran : remove env userId input s = .ok u s') : mayRemove env s userId input = true := by
  unfold remove at ran
  obtain ⟨_, _, checks, -⟩ := bind_ok.mp ran
  exact (assertRemovable_ok checks).1

theorem makeWay_cleared (kept : WellKept s) {userId : Nat} {overwrite dedupeName : Bool}
    {destination : FSEntry} {name result : Text} {collision : Option FSEntry}
    (found : ∀ c, collision = some c → c ∈ s.entries)
    (ran : makeWay env userId overwrite dedupeName destination name collision s = .ok result s') :
    s = s' ∧ (collision = none ∨ overwrite = false) ∨
      ∃ c, collision = some c ∧ overwrite = true ∧
        mayRemove env s userId { entry := c, recursive := true } = true ∧
        Removed s s' { entry := c, recursive := true } := by
  cases collision with
  | none => exact Or.inl ⟨(pure_ok.mp ran).2, Or.inl rfl⟩
  | some c =>
      unfold makeWay at ran
      dsimp only at ran
      split at ran
      next asked =>
        obtain ⟨_, between, gone, ran⟩ := bind_ok.mp ran
        obtain ⟨rfl, rfl⟩ := pure_ok.mp ran
        exact Or.inr ⟨c, rfl, asked, remove_allowed gone, remove_ok kept (found c rfl) gone⟩
      next notAsked =>
        refine Or.inl ⟨?_, Or.inr (by simpa using notAsked)⟩
        split at ran
        · exact (findDedupedName_reads destination name).ok ran
        · exact absurd ran throw_ok

theorem Removed.entriesWithout {c : FSEntry} {recursive : Bool}
    (removed : Removed s s' { entry := c, recursive := recursive }) :
    s'.entries = entriesWithout s.entries c := by
  rw [removed.entries]
  apply List.filter_congr
  intro e _
  simp [goesWith]

end Puter

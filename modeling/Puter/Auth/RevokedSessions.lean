/-
Module: Puter.Auth.RevokedSessions
Purpose: A revoked session stays revoked: once a revocation has returned, no later lookup by uuid finds a
  session it answers for. The table keeps the row revoked over every run; the cache is what may hold an
  unrevoked copy, when a fill lands late or when a revocation returns past a copy it did not delete.
Trusted boundary: none
Main exports: getByUuid_after_revocation
-/
import Puter.Auth.SessionStore

namespace Puter

open Interleaving

def DistinctUuids (rows : List SessionRow) : Prop := (rows.map SessionRow.uuid).Nodup

namespace SessionState

def Revoked (s : SessionState) (uuid : Text) : Prop :=
  (∃ row ∈ s.rows, row.uuid = uuid) ∧ ∀ row ∈ s.rows, row.uuid = uuid → row.revokedAt.isSome

def Cleared (s : SessionState) (uuid : Text) : Prop :=
  ∀ copy, s.cache (.uuid uuid) = some copy → copy.revokedAt.isSome

end SessionState

/-- What one step may make of the table. -/
inductive RowsChange (s : SessionState) : List SessionRow → Prop where
  | same : RowsChange s s.rows
  | inserted {row : SessionRow} (fresh : ∀ other ∈ s.rows, other.uuid ≠ row.uuid)
      (free : conflicts s.rows row = false) : RowsChange s (s.rows ++ [row])
  | revoked {revocation : Revocation} : RowsChange s (s.rows.map (revocation.apply s.clock))

theorem insert_rows {s : SessionState} {row : SessionRow}
    (fresh : ∀ other ∈ s.rows, other.uuid ≠ row.uuid) : RowsChange s (s.insert row).rows := by
  rw [SessionState.insert]
  cases clash : conflicts s.rows row with
  | true => exact .same
  | false => exact .inserted fresh clash

theorem perform_rows {s : SessionState} {call : SessionCall} (fresh : call.DrawsFresh s) :
    RowsChange s (call.perform s).1.rows := by
  cases call with
  | create row => exact insert_rows fresh
  | slotInsert call => exact insert_rows fresh
  | update revocation keys => exact .revoked
  | lookup uuid afterRevocation =>
      simp only [SessionCall.perform]
      split
      · exact .same
      · exact .same
  | select revocation =>
      simp only [SessionCall.perform]
      split
      · exact .same
      · exact .same
  | slotLookup call =>
      simp only [SessionCall.perform]
      split
      · exact .same
      · exact .same
  | slotSelect call =>
      simp only [SessionCall.perform]
      split
      · exact .same
      · exact .same
  | _ => exact .same

theorem perform_returned (s : SessionState) (call : SessionCall) :
    s.returned ⊆ (call.perform s).1.returned := by
  cases call with
  | create row => simp [SessionCall.perform]
  | slotInsert call => simp [SessionCall.perform]
  | lookup uuid afterRevocation =>
      simp only [SessionCall.perform]
      split
      · exact List.Subset.refl _
      · exact List.Subset.refl _
  | select revocation =>
      simp only [SessionCall.perform]
      split
      · exact List.subset_append_right _ _
      · exact List.Subset.refl _
  | deleteAgain keys answersFor => exact List.subset_append_right _ _
  | slotLookup call =>
      simp only [SessionCall.perform]
      split
      · exact List.Subset.refl _
      · exact List.Subset.refl _
  | slotSelect call =>
      simp only [SessionCall.perform]
      split
      · exact List.Subset.refl _
      · exact List.Subset.refl _
  | _ => exact List.Subset.refl _

namespace Revocation

variable {revocation : Revocation} {now : ℕ} {row : SessionRow}

@[simp] theorem apply_uuid : (revocation.apply now row).uuid = row.uuid := by
  unfold apply
  split
  · rfl
  · rfl

@[simp] theorem apply_slot : (revocation.apply now row).slot = row.slot := by
  unfold apply
  split
  · rfl
  · rfl

theorem apply_of_revoked (revoked : row.revokedAt.isSome) : revocation.apply now row = row := by
  have notNone : row.revokedAt.isNone = false := by simpa using revoked
  simp [apply, notNone]

theorem apply_of_covers (covered : revocation.covers row) :
    (revocation.apply now row).revokedAt.isSome := by
  unfold apply
  split
  · rfl
  · rename_i spared
    simpa [covered, Option.isSome_iff_ne_none] using spared

theorem revoked_of_select_nil {rows : List SessionRow} (nothing : revocation.select rows = [])
    (member : row ∈ rows) (covered : revocation.covers row) : row.revokedAt.isSome := by
  have found : rows.filter (fun row => revocation.covers row && row.revokedAt.isNone) = [] := by
    cases revocation with
    | session uuid => simpa [select] using nothing
    | cascade rootUuid => simpa [select] using nothing
  have spared := List.filter_eq_nil_iff.mp found row member
  simpa [covered, Option.isSome_iff_ne_none] using spared

end Revocation

theorem RowsChange.distinct {s : SessionState} {rows : List SessionRow} (change : RowsChange s rows)
    (distinct : DistinctUuids s.rows) : DistinctUuids rows := by
  cases change with
  | same => exact distinct
  | @inserted row fresh free =>
      rw [DistinctUuids, List.map_append]
      refine List.Nodup.append distinct (by simp) ?_
      intro uuid old new
      obtain ⟨other, member, rfl⟩ := List.mem_map.mp old
      exact fresh other member (List.mem_singleton.mp new)
  | @revoked revocation =>
      have same : (s.rows.map fun row => (revocation.apply s.clock row).uuid) =
          s.rows.map SessionRow.uuid := List.map_congr_left fun row _ => Revocation.apply_uuid
      rw [DistinctUuids, List.map_map]
      exact same ▸ distinct

theorem RowsChange.spares {s : SessionState} {rows : List SessionRow} (change : RowsChange s rows)
    {uuid : Text} (revoked : s.Revoked uuid) :
    (∃ row ∈ rows, row.uuid = uuid) ∧ ∀ row ∈ rows, row.uuid = uuid → row.revokedAt.isSome := by
  obtain ⟨⟨row, member, rfl⟩, all⟩ := revoked
  cases change with
  | same => exact ⟨⟨row, member, rfl⟩, all⟩
  | @inserted added fresh free =>
      refine ⟨⟨row, List.mem_append_left _ member, rfl⟩, fun other place sameUuid => ?_⟩
      rcases List.mem_append.mp place with old | new
      · exact all other old sameUuid
      · rw [List.mem_singleton.mp new] at sameUuid
        exact absurd sameUuid.symm (fresh row member)
  | revoked =>
      refine ⟨⟨_, List.mem_map_of_mem member, Revocation.apply_uuid⟩, fun other place sameUuid => ?_⟩
      obtain ⟨before, beforeMember, rfl⟩ := List.mem_map.mp place
      rw [Revocation.apply_uuid] at sameUuid
      have revokedBefore := all before beforeMember sameUuid
      rwa [Revocation.apply_of_revoked revokedBefore]

theorem revoked_of_row {s : SessionState} (distinct : DistinctUuids s.rows) {row : SessionRow}
    (member : row ∈ s.rows) (revoked : row.revokedAt.isSome) : s.Revoked row.uuid := by
  refine ⟨⟨row, member, rfl⟩, fun other place sameUuid => ?_⟩
  rw [List.inj_on_of_nodup_map distinct place member sameUuid]
  exact revoked

/-- A fill lands before any revocation of its session has returned, unless its copy is a revoked one; and a
    revocation returns, after its second delete or having found nothing to revoke, only when no unrevoked
    copy of a session it answers for stays in the cache. -/
def ClearsBeforeReturn (s : SessionState) (_ : List SessionCall) : SessionCall → Prop
  | .fill copy => copy.revokedAt = none → copy.uuid ∉ s.returned
  | .select revocation => revocation.select s.rows = [] →
      ∀ uuid ∈ revocation.answersFor s.rows, s.Cleared uuid
  | .deleteAgain keys answersFor => ∀ uuid ∈ answersFor, .uuid uuid ∉ keys → s.Cleared uuid
  | _ => True

def StaysRevoked (s : SessionState) : Prop :=
  ∀ answer ∈ s.answers, answer.afterRevocation = true → answer.res = none

/-- What the state keeps: the sessions of returned revocations are revoked in the table and have no
    unrevoked copy in the cache. -/
structure Withdrawn (s : SessionState) : Prop where
  distinct : DistinctUuids s.rows
  gone : ∀ uuid ∈ s.returned, s.Revoked uuid ∧ s.Cleared uuid
  answered : StaysRevoked s

/-- What a call in flight relies on: a lookup that is to find nothing looks for a session that a returned
    revocation answers for, and a revocation past its update has revoked what it answers for. -/
def SessionCall.Relies (s : SessionState) : SessionCall → Prop
  | .lookup uuid afterRevocation => afterRevocation = true → uuid ∈ s.returned
  | .read uuid afterRevocation => afterRevocation = true → uuid ∈ s.returned
  | .deleteAgain _ answersFor => ∀ uuid ∈ answersFor, s.Revoked uuid
  | _ => True

section Step

variable {s : SessionState} {others : List SessionCall} {call : SessionCall}

theorem perform_spares (fresh : call.DrawsFresh s) {other : SessionCall} (relies : other.Relies s) :
    other.Relies (call.perform s).1 := by
  cases other with
  | lookup uuid afterRevocation => exact fun after => perform_returned s call (relies after)
  | read uuid afterRevocation => exact fun after => perform_returned s call (relies after)
  | deleteAgain keys answersFor =>
      exact fun uuid member => (perform_rows fresh).spares (relies uuid member)
  | _ => trivial

theorem cleared_deleteCacheKeys {uuid : Text} (cleared : s.Cleared uuid)
    (keys : List SessionCacheKey) : (s.deleteCacheKeys keys).Cleared uuid := by
  intro copy cached
  simp only [SessionState.deleteCacheKeys] at cached
  split at cached
  · cases cached
  · exact cleared copy cached

theorem cleared_of_mem_keys {uuid : Text} {keys : List SessionCacheKey} (member : .uuid uuid ∈ keys) :
    (s.deleteCacheKeys keys).Cleared uuid := by
  intro copy cached
  simp [SessionState.deleteCacheKeys, member] at cached

theorem perform_cleared (allowed : ClearsBeforeReturn s others call) {uuid : Text}
    (returned : uuid ∈ s.returned) (cleared : s.Cleared uuid) :
    (call.perform s).1.Cleared uuid := by
  cases call with
  | fill copy =>
      intro found cached
      by_cases same : copy.uuid = uuid
      · subst same
        simp only [SessionCall.perform, SessionState.writeCacheKey, Function.update_self,
          Option.some.injEq] at cached
        subst cached
        rw [Option.isSome_iff_ne_none]
        exact fun unrevoked => allowed unrevoked returned
      · refine cleared found ?_
        simpa [SessionCall.perform, SessionState.writeCacheKey, Function.update_apply, Ne.symm same]
          using cached
  | slotSettle call lookedAt row =>
      intro found cached
      refine cleared found ?_
      simpa [SessionCall.perform, SessionState.writeCacheKey, SessionState.serve, Function.update_apply]
        using cached
  | create row => simpa [SessionCall.perform, SessionState.Cleared] using cleared
  | slotInsert call => simpa [SessionCall.perform, SessionState.Cleared] using cleared
  | delete revocation keys => exact cleared_deleteCacheKeys cleared keys
  | deleteAgain keys answersFor => exact cleared_deleteCacheKeys cleared keys
  | lapse key => exact cleared_deleteCacheKeys cleared [key]
  | lookup uuid afterRevocation =>
      simp only [SessionCall.perform]
      split
      · exact cleared
      · exact cleared
  | select revocation =>
      simp only [SessionCall.perform]
      split
      · exact cleared
      · exact cleared
  | slotLookup call =>
      simp only [SessionCall.perform]
      split
      · exact cleared
      · exact cleared
  | slotSelect call =>
      simp only [SessionCall.perform]
      split
      · exact cleared
      · exact cleared
  | _ => exact cleared

theorem perform_returns (allowed : ClearsBeforeReturn s others call) (distinct : DistinctUuids s.rows)
    (relies : call.Relies s) {uuid : Text} (returned : uuid ∈ (call.perform s).1.returned) :
    uuid ∈ s.returned ∨ (call.perform s).1.Revoked uuid ∧ (call.perform s).1.Cleared uuid := by
  cases call with
  | select revocation =>
      simp only [SessionCall.perform] at returned ⊢
      split at returned
      · rename_i nothing
        rcases List.mem_append.mp returned with new | old
        · refine .inr ⟨?_, allowed nothing uuid new⟩
          obtain ⟨row, member, rfl⟩ := List.mem_map.mp new
          obtain ⟨stored, covered⟩ := List.mem_filter.mp member
          exact revoked_of_row distinct stored
            (Revocation.revoked_of_select_nil nothing stored covered)
        · exact .inl old
      · exact .inl returned
  | deleteAgain keys answersFor =>
      rcases List.mem_append.mp returned with new | old
      · refine .inr ⟨relies uuid new, ?_⟩
        by_cases member : .uuid uuid ∈ keys
        · exact cleared_of_mem_keys member
        · exact cleared_deleteCacheKeys (allowed uuid new member) keys
      · exact .inl old
  | create row => exact .inl (by simpa [SessionCall.perform] using returned)
  | slotInsert call => exact .inl (by simpa [SessionCall.perform] using returned)
  | lookup uuid afterRevocation =>
      simp only [SessionCall.perform] at returned
      split at returned
      · exact .inl returned
      · exact .inl returned
  | slotLookup call =>
      simp only [SessionCall.perform] at returned
      split at returned
      · exact .inl returned
      · exact .inl returned
  | slotSelect call =>
      simp only [SessionCall.perform] at returned
      split at returned
      · exact .inl returned
      · exact .inl returned
  | _ => exact .inl returned

theorem filter_isActive_of_revoked {found : Option SessionRow} {now : ℕ}
    (revoked : ∀ row, found = some row → row.revokedAt.isSome) :
    found.filter (·.isActive now) = none := by
  cases found with
  | none => rfl
  | some row =>
      have inactive : row.isActive now = false := by
        rw [SessionRow.isActive, Option.isNone_eq_false_iff.mpr (revoked row rfl), Bool.false_and]
      simp [inactive]

theorem perform_answers (withdrawn : Withdrawn s) (relies : call.Relies s) :
    StaysRevoked (call.perform s).1 := by
  have answered := withdrawn.answered
  cases call with
  | lookup uuid afterRevocation =>
      simp only [SessionCall.perform]
      split
      · rename_i copy cached
        intro answer member after
        rcases List.mem_cons.mp member with rfl | old
        · change (some copy).filter (·.isActive s.clock) = none
          refine filter_isActive_of_revoked fun row same => ?_
          cases same
          exact (withdrawn.gone uuid (relies after)).2 copy cached
        · exact answered answer old after
      · exact answered
  | read uuid afterRevocation =>
      intro answer member after
      rcases List.mem_cons.mp member with rfl | old
      · refine filter_isActive_of_revoked fun row found => ?_
        have sameUuid : row.uuid = uuid := by simpa using List.find?_some found
        exact (withdrawn.gone uuid (relies after)).1.2 row (List.mem_of_find?_eq_some found) sameUuid
      · exact answered answer old after
  | create row => simpa [SessionCall.perform, StaysRevoked] using answered
  | slotInsert call => simpa [SessionCall.perform, StaysRevoked] using answered
  | select revocation =>
      simp only [SessionCall.perform]
      split
      · exact answered
      · exact answered
  | slotLookup call =>
      simp only [SessionCall.perform]
      split
      · exact answered
      · exact answered
  | slotSelect call =>
      simp only [SessionCall.perform]
      split
      · exact answered
      · exact answered
  | _ => exact answered

theorem perform_continues (distinct : DistinctUuids s.rows) (relies : call.Relies s)
    {next : SessionCall} (continues : (call.perform s).2 = some next) :
    next.Relies (call.perform s).1 := by
  cases call with
  | get uuid =>
      cases continues
      exact fun after => List.contains_iff_mem.mp after
  | lookup uuid afterRevocation =>
      simp only [SessionCall.perform] at continues ⊢
      split at continues
      · cases continues
      · cases continues
        exact relies
  | read uuid afterRevocation =>
      obtain ⟨row, _, rfl⟩ := Option.map_eq_some_iff.mp continues
      trivial
  | create row =>
      simp only [SessionCall.perform] at continues
      split at continues
      · cases continues
      · cases continues
        trivial
  | select revocation =>
      simp only [SessionCall.perform] at continues
      split at continues
      · cases continues
      · cases continues
        trivial
  | update revocation keys =>
      cases continues
      intro uuid member
      obtain ⟨row, covered, rfl⟩ := List.mem_map.mp member
      obtain ⟨stored, covers⟩ := List.mem_filter.mp covered
      have change : RowsChange s (s.revoke revocation).rows := .revoked
      have nowRevoked : (revocation.apply s.clock row).revokedAt.isSome :=
        Revocation.apply_of_covers covers
      have revoked := revoked_of_row (change.distinct distinct) (List.mem_map_of_mem stored)
        nowRevoked
      rwa [Revocation.apply_uuid] at revoked
  | slotLookup call =>
      simp only [SessionCall.perform] at continues
      split at continues
      · cases continues
      · cases continues
        trivial
  | slotSelect call =>
      simp only [SessionCall.perform] at continues
      split at continues
      · cases continues
        trivial
      · cases continues
        trivial
  | _ =>
      cases continues
      try trivial

theorem perform_withdrawn (allowed : ClearsBeforeReturn s others call) (fresh : call.DrawsFresh s)
    (withdrawn : Withdrawn s) (relies : call.Relies s) : Withdrawn (call.perform s).1 where
  distinct := (perform_rows fresh).distinct withdrawn.distinct
  gone uuid returned := by
    rcases perform_returns allowed withdrawn.distinct relies returned with old | new
    · obtain ⟨revoked, cleared⟩ := withdrawn.gone uuid old
      exact ⟨(perform_rows fresh).spares revoked, perform_cleared allowed old cleared⟩
    · exact new
  answered := perform_answers withdrawn relies

end Step

def loginSession : SessionRow where
  uuid := "3f0c".toList
  userId := 7
  kind := .web
  parentSessionId := none
  appUid := none
  workerName := none
  legacyTokenUid := none
  accessTokenUid := none
  createdVia := none
  lastIp := none
  lastUserAgent := none
  expiresAt := none
  revokedAt := none

def loginState : SessionState := .start 100 [loginSession] fun _ => none

end Puter

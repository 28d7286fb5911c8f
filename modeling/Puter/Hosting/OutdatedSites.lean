/-
Module: Puter.Hosting.OutdatedSites
Purpose: When the cache of sites answers with what is. An update or a deletion publishes to the cache after it
  has written, but the cache writes that a primary read and create leave behind write over whatever stands
  there, and those of a replica read fill a key that has lapsed. In runs where no such write brings back a
  row that an update or a deletion has changed or removed and returned, getBySubdomain never answers with
  one of these.
Trusted boundary: none
Main exports: Timely, getBySubdomain_not_outdated
-/
import Puter.Hosting.SubdomainStore

namespace Puter

open Interleaving

variable {ν : Type}

/-- A cache write of a reader or of `create` that takes effect does not bring a row that an update or a deletion
    has changed or removed since the row was read, and that has returned. -/
def Timely (s : SiteState ν) : SiteCall ν → Prop
  | .getPopulates subdomain primary (some row) =>
      primary = true ∨ s.cache.get s.clock subdomain = none → row.version ∉ s.outdated
  | .createPublishes row => row.version ∉ s.outdated
  | _ => True

def TimelyMutations (s : SiteState ν) (others : List (SiteCall ν)) (call : SiteCall ν) : Prop :=
  SeparateMutations s others call ∧ Timely s call

def SiteState.IsVersion (s : SiteState ν) (version : ℕ) (subdomain : Text) : Prop :=
  s.named[version]? = some subdomain

def SiteState.IsGone (s : SiteState ν) (version : ℕ) : Prop := ∀ row ∈ s.table, row.version ≠ version

structure SiteHolds (s : SiteState ν) : Prop where
  drawn : ∀ row ∈ s.table, row.uuid < s.named.length ∧ row.subdomain ≠ []
  versions : ∀ row ∈ s.table, s.IsVersion row.version row.subdomain
  apart : ∀ row ∈ s.table, ∀ other ∈ s.table, row.uuid = other.uuid → row = other
  distinct : ∀ row ∈ s.table, ∀ other ∈ s.table, row.version = other.version → row = other
  gone : ∀ version ∈ s.outdated, version < s.named.length ∧ s.IsGone version
  cached : ∀ key row, s.cache.get s.clock key = some (some row) →
    row.subdomain = key ∧ s.IsVersion row.version key ∧ row.version ∉ s.outdated
  answered : ∀ answer ∈ s.answers, ∀ row, answer.row = some row → row.version ∉ answer.outdated

/-- What a caller relies on. -/
def SiteCall.Relies (s : SiteState ν) : SiteCall ν → Prop
  | .getSelects _ _ outdated => outdated ⊆ s.outdated
  | .getPopulates subdomain _ row =>
      ∀ found, row = some found → found.subdomain = subdomain ∧ s.IsVersion found.version subdomain
  | .createPublishes row => s.IsVersion row.version row.subdomain
  | .updateReads uuid userId _ _ replaced =>
      ∀ version ∈ replaced, s.IsGone version ∧
        ∃ row ∈ s.table, row.matches uuid userId = true ∧ s.IsVersion version row.subdomain
  | .updateDrops uuid _ _ after replaced | .updatePublishes uuid _ after replaced =>
      (∀ row, after = some row → row ∈ s.table ∧ row.uuid = uuid) ∧
        ∀ version ∈ replaced, s.IsGone version ∧ ∃ row, after = some row ∧ s.IsVersion version row.subdomain
  | .deleteWrites uuid userId row =>
      uuid < s.named.length ∧ ∀ found ∈ s.table, found.matches uuid userId = true → row = some found
  | .deletePublishes _ row removed =>
      ∀ version ∈ removed, s.IsGone version ∧
        ∃ found, row = some found ∧ found.subdomain ≠ [] ∧ s.IsVersion version found.subdomain
  | .get _ _ | .create _ _ _ _ | .update _ _ _ | .updateWrites _ _ _ _ | .deleteByUuid _ _ | .elapse _ => True

section Frames

variable {s s' : SiteState ν}

theorem SiteState.IsVersion.later {version : ℕ} {subdomain : Text} (known : s.IsVersion version subdomain)
    (named : s.named <+: s'.named) : s'.IsVersion version subdomain := by
  obtain ⟨more, isMore⟩ := named
  unfold SiteState.IsVersion
  rw [← isMore, List.getElem?_append_left (List.getElem?_eq_some_iff.mp known).1]
  exact known

theorem SiteState.IsVersion.lt {version : ℕ} {subdomain : Text} (known : s.IsVersion version subdomain) :
    version < s.named.length := (List.getElem?_eq_some_iff.mp known).1

theorem SubdomainRow.uuid_of_matches {uuid : ℕ} {userId : Option ℕ} {row : SubdomainRow ν}
    (matched : row.matches uuid userId = true) : row.uuid = uuid := by
  simp only [SubdomainRow.matches, Bool.and_eq_true, decide_eq_true_eq] at matched
  exact matched.1

theorem SiteCall.Relies.later {call : SiteCall ν} (relies : call.Relies s) (holds : SiteHolds s)
    (named : s.named <+: s'.named) (outdated : s.outdated ⊆ s'.outdated)
    (gone : ∀ version < s.named.length, s.IsGone version → s'.IsGone version)
    (same : ∀ row : SubdomainRow ν, call.worksOn = some row.uuid → row.uuid < s.named.length →
      (row ∈ s'.table ↔ row ∈ s.table)) : call.Relies s' := by
  have stays : ∀ {row : SubdomainRow ν}, call.worksOn = some row.uuid → row ∈ s.table → row ∈ s'.table :=
    fun {row} works stands => (same row works (holds.drawn row stands).1).mpr stands
  cases call with
  | getSelects subdomain primary before => exact List.Subset.trans relies outdated
  | getPopulates subdomain primary row =>
      exact fun found isRow => ⟨(relies found isRow).1, (relies found isRow).2.later named⟩
  | createPublishes row => exact SiteState.IsVersion.later relies named
  | updateReads uuid userId allowed before replaced =>
      intro version member
      obtain ⟨isGone, row, stands, matched, known⟩ := relies version member
      have works : (SiteCall.updateReads uuid userId allowed before replaced).worksOn = some row.uuid :=
        congrArg some (SubdomainRow.uuid_of_matches matched).symm
      exact ⟨gone version known.lt isGone, row, stays works stands, matched, known.later named⟩
  | updateDrops uuid allowed before after replaced =>
      refine ⟨fun row isAfter => ?_, fun version member => ?_⟩
      · obtain ⟨stands, rfl⟩ := relies.1 row isAfter
        exact ⟨stays rfl stands, rfl⟩
      · obtain ⟨isGone, row, isAfter, known⟩ := relies.2 version member
        exact ⟨gone version known.lt isGone, row, isAfter, known.later named⟩
  | updatePublishes uuid allowed after replaced =>
      refine ⟨fun row isAfter => ?_, fun version member => ?_⟩
      · obtain ⟨stands, rfl⟩ := relies.1 row isAfter
        exact ⟨stays rfl stands, rfl⟩
      · obtain ⟨isGone, row, isAfter, known⟩ := relies.2 version member
        exact ⟨gone version known.lt isGone, row, isAfter, known.later named⟩
  | deleteWrites uuid userId row =>
      refine ⟨relies.1.trans_le named.length_le, fun found stands matched => ?_⟩
      have works : (SiteCall.deleteWrites uuid userId row).worksOn = some found.uuid :=
        congrArg some (SubdomainRow.uuid_of_matches matched).symm
      have drawn : found.uuid < s.named.length := SubdomainRow.uuid_of_matches matched ▸ relies.1
      exact relies.2 found ((same found works drawn).mp stands) matched
  | deletePublishes uuid row removed =>
      intro version member
      obtain ⟨isGone, found, isRow, nonempty, known⟩ := relies version member
      exact ⟨gone version known.lt isGone, found, isRow, nonempty, known.later named⟩
  | get subdomain primary => trivial
  | create subdomain userId given assigned => trivial
  | update uuid userId patch => trivial
  | updateWrites uuid userId allowed before => trivial
  | deleteByUuid uuid userId => trivial
  | elapse ms => trivial

end Frames

section Steps

variable {s : SiteState ν}

namespace SiteHolds

theorem start (clock : ℕ) : SiteHolds (SiteState.start clock : SiteState ν) where
  drawn _ member := nomatch member
  versions _ member := nomatch member
  apart _ member := nomatch member
  distinct _ member := nomatch member
  gone _ member := nomatch member
  cached _ _ stands := nomatch stands
  answered _ member := nomatch member

theorem current (holds : SiteHolds s) {row : SubdomainRow ν} (stands : row ∈ s.table) :
    row.version ∉ s.outdated := fun outdated => (holds.gone _ outdated).2 row stands rfl

theorem answers (holds : SiteHolds s) {answer : SiteAnswer ν}
    (fits : ∀ row, answer.row = some row → row.version ∉ answer.outdated) :
    SiteHolds { s with answers := answer :: s.answers } := by
  refine { holds with answered := fun other member => ?_ }
  obtain rfl | old := List.mem_cons.mp member
  · exact fits
  · exact holds.answered other old

theorem publishes (holds : SiteHolds s) {key : Text} {cell : Option (SubdomainRow ν)} {expiry : ℕ}
    {replaced : List ℕ} (known : ∀ version ∈ replaced, s.IsGone version ∧ s.IsVersion version key)
    (fits : ∀ row, cell = some row →
      row.subdomain = key ∧ s.IsVersion row.version key ∧ row.version ∉ replaced ++ s.outdated) :
    SiteHolds { s with cache := s.cache.put key cell expiry, outdated := replaced ++ s.outdated } := by
  refine { holds with gone := fun version member => ?_, cached := fun other row stands => ?_ }
  · obtain new | old := List.mem_append.mp member
    · exact ⟨(known version new).2.lt, (known version new).1⟩
    · exact holds.gone version old
  · rw [ExpiringKeys.get_put] at stands
    split at stands
    · next isKey =>
        split at stands
        · rw [isKey]
          exact fits row (Option.some.inj stands)
        · cases stands
    · next differs =>
        obtain ⟨isKey, version, fresh⟩ := holds.cached other row stands
        refine ⟨isKey, version, fun outdated => ?_⟩
        obtain new | old := List.mem_append.mp outdated
        · exact differs (Option.some.inj (version.symm.trans (known _ new).2))
        · exact fresh old

theorem populates (holds : SiteHolds s) {key : Text} {cell : Option (SubdomainRow ν)} {expiry : ℕ}
    (fits : ∀ row, cell = some row → s.cache.get s.clock key = none →
      row.subdomain = key ∧ s.IsVersion row.version key ∧ row.version ∉ s.outdated) :
    SiteHolds { s with cache := (s.cache.putNew s.clock key cell expiry).2 } := by
  unfold ExpiringKeys.putNew
  split
  · exact holds
  · next free =>
      have absent : s.cache.get s.clock key = none := by simpa using free
      exact @publishes ν s holds key cell expiry [] (fun _ member => (by cases member))
        fun row isRow => fits row isRow absent

theorem drops (holds : SiteHolds s) (key : Text) : SiteHolds { s with cache := s.cache.erase key } := by
  refine { holds with cached := fun other row stands => ?_ }
  rw [ExpiringKeys.get_erase] at stands
  split at stands
  · cases stands
  · exact holds.cached other row stands

theorem elapses (holds : SiteHolds s) (ms : ℕ) : SiteHolds { s with clock := s.clock + ms } :=
  { holds with cached := fun key row stands =>
      holds.cached key row (ExpiringKeys.get_later (Nat.le_add_right s.clock ms) stands) }

theorem inserts (holds : SiteHolds s) {subdomain : Text} (nonempty : subdomain ≠ []) (userId : ℕ)
    (columns : List (Text × ν)) :
    SiteHolds { s with
      table := s.table ++ [⟨s.named.length, subdomain, userId, columns, s.named.length⟩]
      named := s.named ++ [subdomain] } := by
  have grows : s.named <+: s.named ++ [subdomain] := List.prefix_append _ _
  have old : ∀ row ∈ s.table, row.version < s.named.length := fun row stands => (holds.versions row stands).lt
  constructor
  · rintro row member
    obtain stands | new := List.mem_append.mp member
    · exact ⟨(holds.drawn row stands).1.trans_le grows.length_le, (holds.drawn row stands).2⟩
    · cases List.mem_singleton.mp new
      exact ⟨by simp, nonempty⟩
  · rintro row member
    obtain stands | new := List.mem_append.mp member
    · exact (holds.versions row stands).later grows
    · cases List.mem_singleton.mp new
      exact List.getElem?_concat_length
  · rintro row member other member' same
    obtain stands | new := List.mem_append.mp member
    · obtain stands' | new' := List.mem_append.mp member'
      · exact holds.apart row stands other stands' same
      · cases List.mem_singleton.mp new'
        exact absurd same (holds.drawn row stands).1.ne
    · cases List.mem_singleton.mp new
      obtain stands' | new' := List.mem_append.mp member'
      · exact absurd same.symm (holds.drawn other stands').1.ne
      · exact (List.mem_singleton.mp new').symm
  · rintro row member other member' same
    obtain stands | new := List.mem_append.mp member
    · obtain stands' | new' := List.mem_append.mp member'
      · exact holds.distinct row stands other stands' same
      · cases List.mem_singleton.mp new'
        exact absurd same (old row stands).ne
    · cases List.mem_singleton.mp new
      obtain stands' | new' := List.mem_append.mp member'
      · exact absurd same.symm (old other stands').ne
      · exact (List.mem_singleton.mp new').symm
  · intro version outdated
    obtain ⟨drawn, isGone⟩ := holds.gone version outdated
    refine ⟨drawn.trans_le grows.length_le, fun row member => ?_⟩
    obtain stands | new := List.mem_append.mp member
    · exact isGone row stands
    · cases List.mem_singleton.mp new
      exact drawn.ne'
  · intro key row stands
    obtain ⟨isKey, version, fresh⟩ := holds.cached key row stands
    exact ⟨isKey, version.later grows, fresh⟩
  · exact holds.answered

theorem removes (holds : SiteHolds s) (kept : SubdomainRow ν → Bool) :
    SiteHolds { s with table := s.table.filter kept } where
  drawn row member := holds.drawn row (List.mem_of_mem_filter member)
  versions row member := holds.versions row (List.mem_of_mem_filter member)
  apart row member other member' :=
    holds.apart row (List.mem_of_mem_filter member) other (List.mem_of_mem_filter member')
  distinct row member other member' :=
    holds.distinct row (List.mem_of_mem_filter member) other (List.mem_of_mem_filter member')
  gone version outdated :=
    ⟨(holds.gone version outdated).1, fun row member =>
      (holds.gone version outdated).2 row (List.mem_of_mem_filter member)⟩
  cached := holds.cached
  answered := holds.answered

theorem mem_writeColumns (holds : SiteHolds s) {uuid : ℕ} {userId : Option ℕ} {allowed : List (Text × ν)}
    {before : SubdomainRow ν} (stands : before ∈ s.table) (matched : before.matches uuid userId = true)
    {row : SubdomainRow ν} :
    row ∈ (s.writeColumns uuid userId allowed).table ↔
      row = { before with columns := allowed ++ before.columns, version := s.named.length } ∨
        row ∈ s.table ∧ row.uuid ≠ uuid := by
  have isUuid := SubdomainRow.uuid_of_matches matched
  have only : ∀ other ∈ s.table, other.matches uuid userId = true → other = before :=
    fun other stands' matched' => holds.apart other stands' before stands
      ((SubdomainRow.uuid_of_matches matched').trans isUuid.symm)
  simp only [SiteState.writeColumns, List.mem_map]
  constructor
  · rintro ⟨other, stands', rfl⟩
    split
    · next matched' => exact .inl (only other stands' matched' ▸ rfl)
    · next unmatched =>
        refine .inr ⟨stands', fun same => unmatched ?_⟩
        rwa [holds.apart other stands' before stands (same.trans isUuid.symm)]
  · rintro (rfl | ⟨stands', differs⟩)
    · exact ⟨before, stands, if_pos matched⟩
    · exact ⟨row, stands', if_neg fun matched' => differs (SubdomainRow.uuid_of_matches matched')⟩

theorem getByUuid_eq (holds : SiteHolds s) {uuid : ℕ} {userId : Option ℕ} {row : SubdomainRow ν}
    (stands : row ∈ s.table) (matched : row.matches uuid userId = true) : s.getByUuid uuid userId = some row := by
  unfold SiteState.getByUuid
  cases found : s.table.find? (·.matches uuid userId) with
  | none => exact absurd matched (List.find?_eq_none.mp found row stands)
  | some other =>
      have sameUuid := (SubdomainRow.uuid_of_matches (List.find?_some found)).trans
        (SubdomainRow.uuid_of_matches matched).symm
      rw [holds.apart other (List.mem_of_find?_eq_some found) row stands sameUuid]

theorem writes (holds : SiteHolds s) {uuid : ℕ} {userId : Option ℕ} (allowed : List (Text × ν))
    {before : SubdomainRow ν} (stands : before ∈ s.table) (matched : before.matches uuid userId = true) :
    SiteHolds (s.writeColumns uuid userId allowed) := by
  have isUuid := SubdomainRow.uuid_of_matches matched
  have named : (s.writeColumns uuid userId allowed).named = s.named ++ [before.subdomain] := by
    rw [SiteState.writeColumns, holds.getByUuid_eq stands matched]
    rfl
  have grows : s.named <+: (s.writeColumns uuid userId allowed).named := named ▸ List.prefix_append _ _
  have old : ∀ row ∈ s.table, row.version < s.named.length := fun row stands => (holds.versions row stands).lt
  have member_iff := fun row => @mem_writeColumns ν s holds uuid userId allowed before stands matched row
  constructor
  · intro row member
    obtain rfl | ⟨kept, -⟩ := (member_iff row).mp member
    · exact ⟨(holds.drawn before stands).1.trans_le grows.length_le, (holds.drawn before stands).2⟩
    · exact ⟨(holds.drawn row kept).1.trans_le grows.length_le, (holds.drawn row kept).2⟩
  · intro row member
    obtain rfl | ⟨kept, -⟩ := (member_iff row).mp member
    · rw [SiteState.IsVersion, named]
      exact List.getElem?_concat_length
    · exact (holds.versions row kept).later grows
  · intro row member other member' same
    obtain rfl | ⟨kept, differs⟩ := (member_iff row).mp member
    · obtain rfl | ⟨-, differs'⟩ := (member_iff other).mp member'
      · rfl
      · exact absurd (same.symm.trans isUuid) differs'
    · obtain rfl | ⟨kept', -⟩ := (member_iff other).mp member'
      · exact absurd (same.trans isUuid) differs
      · exact holds.apart row kept other kept' same
  · intro row member other member' same
    obtain rfl | ⟨kept, -⟩ := (member_iff row).mp member
    · obtain rfl | ⟨kept', -⟩ := (member_iff other).mp member'
      · rfl
      · exact absurd same.symm (old other kept').ne
    · obtain rfl | ⟨kept', -⟩ := (member_iff other).mp member'
      · exact absurd same (old row kept).ne
      · exact holds.distinct row kept other kept' same
  · intro version outdated
    obtain ⟨drawn, isGone⟩ := holds.gone version outdated
    refine ⟨drawn.trans_le grows.length_le, fun row member => ?_⟩
    obtain rfl | ⟨kept, -⟩ := (member_iff row).mp member
    · exact drawn.ne'
    · exact isGone row kept
  · intro key row cached
    obtain ⟨isKey, version, fresh⟩ := holds.cached key row cached
    exact ⟨isKey, version.later grows, fresh⟩
  · exact holds.answered

theorem writeColumns_none {uuid : ℕ} {userId : Option ℕ} {allowed : List (Text × ν)}
    (none_matches : ∀ row ∈ s.table, row.matches uuid userId = false) :
    s.writeColumns uuid userId allowed = s ∧ s.versionsOf uuid userId = [] := by
  have notFound : s.getByUuid uuid userId = none :=
    List.find?_eq_none.mpr fun row stands => by simp [none_matches row stands]
  have unchanged : s.table.map (fun row => if row.matches uuid userId then
      { row with columns := allowed ++ row.columns, version := s.named.length } else row) = s.table := by
    rw [List.map_congr_left fun row stands => if_neg (by simp [none_matches row stands])]
    exact List.map_id s.table
  constructor
  · rw [SiteState.writeColumns, unchanged, notFound]
    simp
  · rw [SiteState.versionsOf, List.filter_eq_nil_iff.mpr fun row stands => by simp [none_matches row stands]]
    rfl

end SiteHolds

theorem SiteHolds.refreshes (holds : SiteHolds s) {row : SubdomainRow ν} {replaced : List ℕ}
    (known : ∀ version ∈ replaced, s.IsGone version ∧ s.IsVersion version row.subdomain)
    (isVersion : s.IsVersion row.version row.subdomain) (nonempty : row.subdomain ≠ [])
    (fresh : row.version ∉ replaced ++ s.outdated) :
    SiteHolds { s.refreshCache row with outdated := replaced ++ s.outdated } := by
  rw [SiteState.refreshCache, if_neg nonempty]
  refine holds.publishes known ?_
  rintro _ ⟨⟩
  exact ⟨rfl, isVersion, fresh⟩

theorem SiteHolds.step {others : List (SiteCall ν)} {call : SiteCall ν} (holds : SiteHolds s)
    (relies : call.Relies s) (allowed : TimelyMutations s others call) :
    SiteHolds (call.perform s).1 ∧ ∀ next, (call.perform s).2 = some next → next.Relies (call.perform s).1 := by
  obtain ⟨separate, timely⟩ := allowed
  cases call with
  | get subdomain primary =>
      simp only [SiteCall.perform]
      split
      · exact ⟨holds.answers fun _ impossible => (by cases impossible), fun _ impossible => (by cases impossible)⟩
      · split
        · refine ⟨holds, ?_⟩
          rintro _ ⟨⟩
          exact List.Subset.refl _
        · split
          · next cached stands =>
              refine ⟨holds.answers fun row isRow => ?_, fun _ impossible => (by cases impossible)⟩
              exact (holds.cached subdomain row (isRow ▸ stands)).2.2
          · refine ⟨holds, ?_⟩
            rintro _ ⟨⟩
            exact List.Subset.refl _
  | getSelects subdomain primary outdated =>
      have found : ∀ row, s.selectSubdomain subdomain = some row → row ∈ s.table ∧ row.subdomain = subdomain :=
        fun row isRow => ⟨List.mem_of_find?_eq_some isRow, by simpa using List.find?_some isRow⟩
      refine ⟨holds.answers fun row isRow old => ?_, ?_⟩
      · exact holds.current (found row isRow).1 (relies old)
      · rintro _ ⟨⟩ row isRow
        obtain ⟨stands, rfl⟩ := found row isRow
        exact ⟨rfl, holds.versions row stands⟩
  | getPopulates subdomain primary row =>
      refine ⟨?_, fun _ impossible => (by cases impossible)⟩
      cases primary with
      | true =>
          refine @SiteHolds.publishes ν s holds subdomain row _ [] (fun _ member => (by cases member)) ?_
          rintro found rfl
          exact ⟨(relies found rfl).1, (relies found rfl).2, timely (.inl rfl)⟩
      | false =>
          refine holds.populates ?_
          rintro found rfl lapsed
          exact ⟨(relies found rfl).1, (relies found rfl).2, timely (.inr lapsed)⟩
  | create subdomain userId given assigned =>
      simp only [SiteCall.perform]
      split
      · exact ⟨holds, fun _ impossible => (by cases impossible)⟩
      · next valid =>
          rw [not_or] at valid
          refine ⟨holds.inserts valid.2 userId (given ++ assigned), ?_⟩
          rintro _ ⟨⟩
          exact List.getElem?_concat_length
  | createPublishes row =>
      refine ⟨?_, fun _ impossible => (by cases impossible)⟩
      by_cases nonempty : row.subdomain = []
      · rw [SiteCall.perform, SiteState.refreshCache, if_pos nonempty]
        exact holds
      · rw [SiteCall.perform, SiteState.refreshCache, if_neg nonempty]
        refine @SiteHolds.publishes ν s holds row.subdomain (some row) _ [] (fun _ member => (by cases member)) ?_
        rintro _ ⟨⟩
        exact ⟨rfl, relies, timely⟩
  | update uuid userId patch =>
      simp only [SiteCall.perform]
      split
      · exact ⟨holds, fun _ impossible => (by cases impossible)⟩
      · refine ⟨holds, ?_⟩
        rintro _ ⟨⟩
        trivial
  | updateWrites uuid userId allowed before =>
      by_cases matching : ∃ row ∈ s.table, row.matches uuid userId = true
      · obtain ⟨row, stands, matched⟩ := matching
        have isUuid := SubdomainRow.uuid_of_matches matched
        have member_iff := fun other =>
          @SiteHolds.mem_writeColumns ν s holds uuid userId allowed row stands matched other
        refine ⟨holds.writes allowed stands matched, ?_⟩
        rintro _ ⟨⟩ version replaced
        obtain ⟨found, member, rfl⟩ := List.mem_map.mp replaced
        obtain ⟨stands', matched'⟩ := List.mem_filter.mp member
        obtain rfl : found = row :=
          holds.apart found stands' row stands ((SubdomainRow.uuid_of_matches matched').trans isUuid.symm)
        have isVersion := holds.versions found stands
        refine ⟨fun other among => ?_, _, (member_iff _).mpr (.inl rfl), matched, isVersion.later ?_⟩
        · obtain rfl | ⟨kept, differs⟩ := (member_iff other).mp among
          · exact isVersion.lt.ne'
          · exact fun same => differs ((congrArg _ (holds.distinct other kept found stands same)).trans isUuid)
        · exact List.prefix_append _ _
      · have unmatched : ∀ row ∈ s.table, row.matches uuid userId = false := fun row stands =>
          Bool.eq_false_iff.mpr fun matched => matching ⟨row, stands, matched⟩
        have nothing := @SiteHolds.writeColumns_none ν s uuid userId allowed unmatched
        simp only [SiteCall.perform]
        rw [nothing.1, nothing.2]
        refine ⟨holds, ?_⟩
        rintro _ ⟨⟩ version impossible
        cases impossible
  | updateReads uuid userId allowed before replaced =>
      refine ⟨holds, ?_⟩
      rintro _ ⟨⟩
      refine ⟨fun row found => ?_, fun version member => ?_⟩
      · exact ⟨List.mem_of_find?_eq_some found, SubdomainRow.uuid_of_matches (List.find?_some found)⟩
      · obtain ⟨isGone, row, stands, matched, known⟩ := relies version member
        exact ⟨isGone, row, holds.getByUuid_eq stands matched, known⟩
  | updateDrops uuid allowed before after replaced =>
      constructor
      · simp only [SiteCall.perform]
        split
        · exact holds
        · split
          · exact holds
          · exact holds.drops _
      · rintro _ ⟨⟩
        exact relies
  | updatePublishes uuid allowed after replaced =>
      refine ⟨?_, fun _ impossible => (by cases impossible)⟩
      cases after with
      | none =>
          have nothing : replaced = [] := List.eq_nil_iff_forall_not_mem.mpr fun version member => by
            obtain ⟨-, row, impossible, -⟩ := relies.2 version member
            cases impossible
          subst nothing
          exact holds
      | some row =>
          have stands := (relies.1 row rfl).1
          have isVersion := holds.versions row stands
          have known : ∀ version ∈ replaced, s.IsGone version ∧ s.IsVersion version row.subdomain := by
            intro version member
            obtain ⟨isGone, other, same, named⟩ := relies.2 version member
            cases same
            exact ⟨isGone, named⟩
          refine @SiteHolds.refreshes ν s holds { row with columns := allowed ++ row.columns } replaced known
            isVersion (holds.drawn row stands).2 fun outdated => ?_
          obtain new | old := List.mem_append.mp outdated
          · exact (known _ new).1 row stands rfl
          · exact holds.current stands old
  | deleteByUuid uuid userId =>
      refine ⟨holds, ?_⟩
      rintro _ ⟨⟩
      exact ⟨(separate uuid rfl).1, fun found stands matched => holds.getByUuid_eq stands matched⟩
  | deleteWrites uuid userId row =>
      refine ⟨holds.removes _, ?_⟩
      rintro _ ⟨⟩ version removed
      obtain ⟨found, member, rfl⟩ := List.mem_map.mp removed
      obtain ⟨stands, matched⟩ := List.mem_filter.mp member
      refine ⟨fun other among same => ?_, found, relies.2 found stands matched, (holds.drawn found stands).2,
        holds.versions found stands⟩
      obtain ⟨stands', unmatched⟩ := List.mem_filter.mp among
      rw [holds.distinct other stands' found stands same, matched] at unmatched
      cases unmatched
  | deletePublishes uuid row removed =>
      refine ⟨?_, fun _ impossible => (by cases impossible)⟩
      by_cases nothing : removed = []
      · subst nothing
        simp only [SiteCall.perform]
        split
        · exact holds
        · split
          · exact holds
          · exact @SiteHolds.publishes ν s holds _ none _ [] (fun _ member => (by cases member))
              fun _ impossible => (by cases impossible)
      · obtain ⟨version, member⟩ := List.exists_mem_of_ne_nil removed nothing
        obtain ⟨-, found, rfl, nonempty, -⟩ := relies version member
        simp only [SiteCall.perform, if_neg nonempty]
        refine holds.publishes (fun version member => ?_) fun _ impossible => (by cases impossible)
        obtain ⟨isGone, other, same, -, named⟩ := relies version member
        cases same
        exact ⟨isGone, named⟩
  | elapse ms => exact ⟨holds.elapses ms, fun _ impossible => (by cases impossible)⟩

theorem SiteCall.perform_spares {others : List (SiteCall ν)} {call : SiteCall ν} (holds : SiteHolds s)
    (separate : SeparateMutations s others call) {other : SiteCall ν} (member : other ∈ others)
    (relies : other.Relies s) : other.Relies (call.perform s).1 := by
  have elsewhere : ∀ {uuid : ℕ}, call.mutates = some uuid → ∀ row : SubdomainRow ν,
      other.worksOn = some row.uuid → row.uuid ≠ uuid := by
    rintro uuid isCall row works rfl
    exact (separate _ isCall).2 other member works
  cases call with
  | get subdomain primary =>
      simp only [SiteCall.perform]
      split
      · exact relies.later holds List.prefix_rfl (List.Subset.refl _) (fun _ _ gone => gone) fun _ _ _ => Iff.rfl
      · split
        · exact relies
        · split
          · exact relies.later holds List.prefix_rfl (List.Subset.refl _) (fun _ _ gone => gone)
              fun _ _ _ => Iff.rfl
          · exact relies
  | create subdomain userId given assigned =>
      simp only [SiteCall.perform]
      split
      · exact relies
      · refine relies.later holds (List.prefix_append _ _) (List.Subset.refl _) (fun version drawn gone => ?_)
          fun row _ drawn => ?_
        · intro row among
          obtain stands | new := List.mem_append.mp among
          · exact gone row stands
          · cases List.mem_singleton.mp new
            exact drawn.ne'
        · refine ⟨fun among => ?_, List.mem_append_left _⟩
          obtain stands | new := List.mem_append.mp among
          · exact stands
          · cases List.mem_singleton.mp new
            exact absurd drawn (lt_irrefl _)
  | updateWrites uuid userId allowed before =>
      refine relies.later holds (List.prefix_append _ _) (List.Subset.refl _) (fun version drawn gone => ?_)
        fun row works _ => ?_
      · intro row among
        obtain ⟨old, stands, rfl⟩ := List.mem_map.mp among
        split
        · exact drawn.ne'
        · exact gone old stands
      · have differs := elsewhere rfl row works
        refine ⟨fun among => ?_, fun stands => List.mem_map.mpr ⟨row, stands, if_neg fun matched =>
          differs (SubdomainRow.uuid_of_matches matched)⟩⟩
        obtain ⟨old, stands, rfl⟩ := List.mem_map.mp among
        split at differs
        · next matched => exact absurd (SubdomainRow.uuid_of_matches matched) differs
        · next unmatched =>
            rw [if_neg unmatched]
            exact stands
  | deleteWrites uuid userId row =>
      refine relies.later holds List.prefix_rfl (List.Subset.refl _)
        (fun version _ gone row among => gone row (List.mem_of_mem_filter among)) fun row works _ => ?_
      refine ⟨List.mem_of_mem_filter, fun stands => List.mem_filter.mpr ⟨stands, ?_⟩⟩
      rw [Bool.not_eq_true', Bool.eq_false_iff]
      exact fun matched => elsewhere rfl row works (SubdomainRow.uuid_of_matches matched)
  | updatePublishes uuid allowed after replaced =>
      have frame : ∀ published : SiteState ν, published.named = s.named → published.table = s.table →
          other.Relies { published with outdated := replaced ++ s.outdated } := fun published named table => by
        refine relies.later holds (named ▸ List.prefix_rfl) (List.subset_append_right _ _)
          (fun version _ gone row among => gone row (table ▸ among)) fun row _ _ => ?_
        rw [table]
      simp only [SiteCall.perform]
      cases after with
      | none => exact frame s rfl rfl
      | some row =>
          simp only [SiteState.refreshCache]
          split
          · exact frame s rfl rfl
          · exact frame _ rfl rfl
  | deletePublishes uuid row removed =>
      exact relies.later holds List.prefix_rfl (List.subset_append_right _ _) (fun _ _ gone => gone)
        fun _ _ _ => Iff.rfl
  | createPublishes row =>
      simp only [SiteCall.perform, SiteState.refreshCache]
      split
      · exact relies
      · exact relies.later holds List.prefix_rfl (List.Subset.refl _) (fun _ _ gone => gone) fun _ _ _ => Iff.rfl
  | update uuid userId patch =>
      simp only [SiteCall.perform]
      split <;> exact relies
  | getSelects subdomain primary outdated =>
      exact relies.later holds List.prefix_rfl (List.Subset.refl _) (fun _ _ gone => gone) fun _ _ _ => Iff.rfl
  | getPopulates subdomain primary row =>
      exact relies.later holds List.prefix_rfl (List.Subset.refl _) (fun _ _ gone => gone) fun _ _ _ => Iff.rfl
  | updateReads uuid userId allowed before replaced => exact relies
  | updateDrops uuid allowed before after replaced =>
      exact relies.later holds List.prefix_rfl (List.Subset.refl _) (fun _ _ gone => gone) fun _ _ _ => Iff.rfl
  | deleteByUuid uuid userId => exact relies
  | elapse ms =>
      exact relies.later holds List.prefix_rfl (List.Subset.refl _) (fun _ _ gone => gone) fun _ _ _ => Iff.rfl

end Steps

section Runs

variable {c : Config (SiteState ν) (SiteCall ν)} {clock : ℕ}

theorem sites_supported (run : Run (siteSystem TimelyMutations) ⟨.start clock, []⟩ c) :
    Supported SiteHolds (fun s call => call.Relies s) c := by
  refine run_supported_others run ⟨SiteHolds.start clock, fun _ member => nomatch member⟩ ?_ ?_
  · intro s call issues holds
    cases call with
    | get subdomain primary => trivial
    | create subdomain userId given assigned => trivial
    | update uuid userId patch => trivial
    | deleteByUuid uuid userId => trivial
    | elapse ms => trivial
    | _ => exact absurd issues id
  · intro s others call s' next allowed atom holds relies
    obtain ⟨rfl, rfl⟩ : (call.perform s).1 = s' ∧ (call.perform s).2 = next := by
      rw [show call.perform s = (s', next) from atom]
      exact ⟨rfl, rfl⟩
    obtain ⟨holds', continues⟩ := holds.step relies allowed
    exact ⟨holds', continues, fun other member others =>
      SiteCall.perform_spares holds allowed.1 member others⟩

/-- In every run whose cache writes are timely, `getBySubdomain` does not answer with a row as an update or a
    deletion found it that had returned when it was called. -/
theorem getBySubdomain_not_outdated (run : Run (siteSystem TimelyMutations) ⟨.start clock, []⟩ c)
    {answer : SiteAnswer ν} (answered : answer ∈ c.shared.answers) {row : SubdomainRow ν}
    (isRow : answer.row = some row) : row.version ∉ answer.outdated :=
  (sites_supported run).holds.answered answer answered row isRow

end Runs

theorem separate_alone {s : SiteState ν} {call : SiteCall ν}
    (drawn : ∀ uuid, call.mutates = some uuid → uuid < s.named.length) : SeparateMutations s [] call :=
  fun uuid mutates => ⟨drawn uuid mutates, fun _ member => nomatch member⟩

/-- A site is created, deleted, and created anew by someone else: the answer is the new one. -/
theorem getBySubdomain_not_outdated_again : ∃ s : SiteState ℕ,
    Run (siteSystem TimelyMutations) ⟨.start 0, []⟩ ⟨s, []⟩ ∧
      ∃ answer ∈ s.answers, ∃ row, answer.row = some row ∧ answer.outdated = [0] ∧ row.version ∉ answer.outdated := by
  have noMutation : ∀ {s : SiteState ℕ} {call : SiteCall ℕ}, call.mutates = none → SeparateMutations s [] call :=
    fun free => separate_alone fun _ mutates => nomatch free.symm.trans mutates
  have ofFirst : ∀ {s : SiteState ℕ} {call : SiteCall ℕ}, call.mutates = some 0 → 0 < s.named.length →
      SeparateMutations s [] call :=
    fun first drawn => separate_alone fun _ mutates => Option.some.inj (first.symm.trans mutates) ▸ drawn
  have run : ∃ s : SiteState ℕ, Run (siteSystem TimelyMutations) ⟨.start 0, []⟩ ⟨s, []⟩ ∧
      (⟨['s'], [0], some ⟨1, ['s'], 2, [], 1⟩⟩ : SiteAnswer ℕ) ∈ s.answers :=
    ⟨_, .head (.issue (show (siteSystem TimelyMutations).issues (.create ['s'] 1 [] []) from trivial)) <|
      .head (.goesOn ⟨noMutation rfl, trivial⟩ rfl) <|
      .head (.completes ⟨noMutation rfl, show (0 : ℕ) ∉ [] by decide⟩ rfl) <|
      .head (.issue (show (siteSystem TimelyMutations).issues (.deleteByUuid 0 none) from trivial)) <|
      .head (.goesOn ⟨ofFirst rfl (by decide), trivial⟩ rfl) <|
      .head (.goesOn ⟨ofFirst rfl (by decide), trivial⟩ rfl) <|
      .head (.completes ⟨ofFirst rfl (by decide), trivial⟩ rfl) <|
      .head (.issue (show (siteSystem TimelyMutations).issues (.create ['s'] 2 [] []) from trivial)) <|
      .head (.goesOn ⟨noMutation rfl, trivial⟩ rfl) <|
      .head (.completes ⟨noMutation rfl, show (1 : ℕ) ∉ [0] by decide⟩ rfl) <|
      .head (.issue (show (siteSystem TimelyMutations).issues (.get ['s'] false) from trivial)) <|
      .single (.completes ⟨noMutation rfl, trivial⟩ rfl), List.mem_cons_self⟩
  obtain ⟨s, run, answered⟩ := run
  exact ⟨s, run, _, answered, _, rfl, rfl, getBySubdomain_not_outdated run answered rfl⟩

/-- A primary read finds the site just before it is deleted, and caches it after that: who asks next is served the
    deleted site. -/
theorem getBySubdomain_outdated : ∃ s : SiteState ℕ,
    Run (siteSystem SeparateMutations) ⟨.start 0, []⟩ ⟨s, []⟩ ∧
      ∃ answer ∈ s.answers, ∃ row, answer.row = some row ∧ row.version ∈ answer.outdated := by
  have separate : ∀ {s : SiteState ℕ} {others : List (SiteCall ℕ)} {call : SiteCall ℕ},
      (∀ uuid, call.mutates = some uuid → uuid = 0 ∧ 0 < s.named.length) →
      (∀ other ∈ others, other.worksOn = none) → SeparateMutations s others call :=
    fun drawn free uuid mutates => ⟨(drawn uuid mutates).1 ▸ (drawn uuid mutates).2, fun other member works =>
      nomatch (free other member).symm.trans works⟩
  exact ⟨_, .head (.issue (show (siteSystem SeparateMutations).issues (.create ['s'] 1 [] []) from trivial)) <|
    .head (.goesOn (separate (fun _ none => nomatch none) fun _ none => nomatch none) rfl) <|
    .head (.completes (separate (fun _ none => nomatch none) fun _ none => nomatch none) rfl) <|
    .head (.issue (show (siteSystem SeparateMutations).issues (.get ['s'] true) from trivial)) <|
    .head (.goesOn (separate (fun _ none => nomatch none) fun _ none => nomatch none) rfl) <|
    .head (.goesOn (separate (fun _ none => nomatch none) fun _ none => nomatch none) rfl) <|
    .head (.issue (show (siteSystem SeparateMutations).issues (.deleteByUuid 0 none) from trivial)) <|
    .head (.goesOn (separate (by rintro _ ⟨⟩; decide) (List.forall_mem_singleton.mpr rfl)) rfl) <|
    .head (.goesOn (separate (by rintro _ ⟨⟩; decide) (List.forall_mem_singleton.mpr rfl)) rfl) <|
    .head (.completes (separate (by rintro _ ⟨⟩; decide) (List.forall_mem_singleton.mpr rfl)) rfl) <|
    .head (.completes (separate (fun _ none => nomatch none) fun _ none => nomatch none) rfl) <|
    .head (.issue (show (siteSystem SeparateMutations).issues (.get ['s'] false) from trivial)) <|
    .single (.completes (separate (fun _ none => nomatch none) fun _ none => nomatch none) rfl),
    ⟨['s'], [0], some ⟨0, ['s'], 1, [], 0⟩⟩, List.mem_cons_self, _, rfl, List.mem_cons_self⟩

end Puter

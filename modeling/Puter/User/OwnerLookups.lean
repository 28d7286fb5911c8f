/-
Module: Puter.User.OwnerLookups
Purpose: Cached lookups of users answer as the table does. Each key of the cache holds a current row that may stand
  under it, the address only that of its owner; a write keeps this as long as it does not take an address from
  its owner without touching an identifying column, for only then are the old keys dropped.
Trusted boundary: none
Main exports: RowKept, lookups_follow_table
-/
import Puter.User.UserStore

namespace Puter

open PosixPath FanOutCache

variable {ν : Type}

/-- What the columns of a row keep to: the canonical form stands beside the address, texts are such as their columns
    take, there is a name, and a referral code is in canonical form. -/
structure RowKept (canonical : Text → Text) (row : UserRecord ν) : Prop where
  clean : row.cleanEmail = row.email.map canonical
  latin1 : row.username.all isStorableAsLatin1 = true ∧ row.email.all isStorableAsLatin1 = true
  named : row.username.isSome = true
  code : ∀ code, row.referralCode = some code → normalizeReferralCode code = some code

structure TableKept (canonical : Text → Text) (table : List (UserRecord ν)) : Prop where
  unique : UniqueIndexes table
  rows : ∀ row ∈ table, RowKept canonical row

def UserColumn.Canonical : UserColumn ν → Prop
  | .username value => value.isSome = true
  | .referralCode value => ∀ code, value = some code → normalizeReferralCode code = some code
  | _ => True

/-- The patch keeps the canonical form beside the address, and names and codes in order. -/
structure KeepsRows (canonical : Text → Text) (table : List (UserRecord ν)) (userId : ℕ) (patch : List (UserColumn ν)) :
    Prop where
  clean : ∀ row ∈ table, row.id = userId →
    (row.patched patch).cleanEmail = (row.patched patch).email.map canonical
  columns : ∀ column ∈ patch, column.Canonical

/-- The patch touches an identifying column, or leaves its address to whom it belongs, among the rows it is for. -/
def KeepsOwner (table : List (UserRecord ν)) (userId : ℕ) (patch : List (UserColumn ν)) (guard : UserRecord ν → Bool) :
    Prop :=
  patch.any UserColumn.isIdentity = true ∨
    ∀ row ∈ table, row.id = userId → guard row = true → ∀ address, row.email = some address → address ≠ [] →
      row.owns = true → (row.patched patch).owns = true

/-- What is asked of a call. -/
def Meets (canonical : Text → Text) (s : UserState ν) : UserCall ν → Prop
  | .update userId patch => KeepsRows canonical s.table userId patch ∧ KeepsOwner s.table userId patch fun _ => true
  | .claimPlaceholder userId patch => KeepsRows canonical s.table userId patch
  | .claimReferralCode _ code => normalizeReferralCode code = some code
  | _ => True

def MeetsAll (canonical : Text → Text) : UserState ν → List (UserCall ν) → Prop
  | _, [] => True
  | s, call :: calls => Meets canonical s call ∧ MeetsAll canonical (s.perform call) calls

variable {canonical : Text → Text} {table : List (UserRecord ν)} {row : UserRecord ν} {key : UserKey}

section Rows

theorem eq_of_nodup_filterMap {α β : Type} {f : α → Option β} {items : List α} (once : (items.filterMap f).Nodup)
    {first second : α} (isFirst : first ∈ items) (isSecond : second ∈ items) {value : β}
    (ofFirst : f first = some value) (ofSecond : f second = some value) : first = second := by
  induction items with
  | nil => cases isFirst
  | cons item rest ih =>
      have inRest : ∀ other ∈ rest, f other = some value → value ∈ rest.filterMap f := fun other member gives =>
        List.mem_filterMap.mpr ⟨other, member, gives⟩
      have headOnly : f item = some value → value ∉ rest.filterMap f := by
        intro gives
        rw [List.filterMap_cons_some gives] at once
        exact (List.nodup_cons.mp once).1
      obtain rfl | firstInRest := List.mem_cons.mp isFirst
      · obtain rfl | secondInRest := List.mem_cons.mp isSecond
        · rfl
        · exact absurd (inRest second secondInRest ofSecond) (headOnly ofFirst)
      · obtain rfl | secondInRest := List.mem_cons.mp isSecond
        · exact absurd (inRest first firstInRest ofFirst) (headOnly ofSecond)
        · refine ih ?_ firstInRest secondInRest
          exact once.sublist ((List.sublist_cons_self item rest).filterMap f)

theorem RowKept.normalizeRow_eq (kept : RowKept canonical row) : normalizeRow row = row := by
  obtain ⟨name, isName⟩ := Option.isSome_iff_exists.mp kept.named
  have sameCode : row.referralCode.bind normalizeReferralCode = row.referralCode := by
    cases isCode : row.referralCode with
    | none => rfl
    | some code => exact kept.code code isCode
  rw [normalizeRow, sameCode, isName]
  cases row
  cases isName
  rfl

theorem mem_keyOf {make : Text → UserKey} {value : Option Text} :
    key ∈ keyOf make value ↔ ∃ text, value = some text ∧ text ≠ [] ∧ key = make text := by
  rw [keyOf, Option.mem_toList, Option.map_eq_some_iff]
  constructor
  · rintro ⟨text, isText, rfl⟩
    obtain ⟨isValue, nonempty⟩ := Option.filter_eq_some_iff.mp isText
    exact ⟨text, isValue, by simpa using nonempty, rfl⟩
  · rintro ⟨text, isValue, nonempty, rfl⟩
    exact ⟨text, Option.filter_eq_some_iff.mpr ⟨isValue, by simpa using nonempty⟩, rfl⟩

theorem matches_of_key (isKey : key ∈ cacheKeysForUser row) : row.matches key = true := by
  rw [cacheKeysForUser, List.mem_append, List.mem_append, List.mem_append, List.mem_cons, mem_keyOf, mem_keyOf, mem_keyOf,
    mem_keyOf] at isKey
  obtain (((rfl | isUuid) | isName) | isEmail) | isCode := isKey
  · exact decide_eq_true rfl
  · obtain ⟨text, value, -, rfl⟩ := isUuid
    exact decide_eq_true (Option.some.inj value)
  · obtain ⟨text, value, -, rfl⟩ := isName
    exact decide_eq_true value
  · obtain ⟨text, value, -, rfl⟩ := isEmail
    exact decide_eq_true value
  · obtain ⟨text, value, -, rfl⟩ := isCode
    exact decide_eq_true value

theorem cacheKeysToWrite_subset (row : UserRecord ν) : cacheKeysToWrite row ⊆ cacheKeysForUser row := by
  rw [cacheKeysToWrite]
  split
  · exact List.Subset.refl _
  · exact List.filter_subset_self _

theorem owns_of_emailKey {address : Text} (isKey : .email address ∈ cacheKeysToWrite row) : row.owns = true := by
  by_contra others
  rw [cacheKeysToWrite, if_neg others, List.mem_filter] at isKey
  have found := of_decide_eq_true (matches_of_key isKey.1)
  rw [found] at isKey
  simp at isKey

end Rows

section Lookups

theorem find?_unique {α : Type} {p : α → Bool} {items : List α} {item : α} (member : item ∈ items) (found : p item = true)
    (only : ∀ other ∈ items, p other = true → other = item) : items.find? p = some item := by
  obtain ⟨first, isFirst⟩ := Option.isSome_iff_exists.mp (List.find?_isSome.mpr ⟨item, member, found⟩)
  rw [isFirst, only first (List.mem_of_find?_eq_some isFirst) (by simpa using List.find?_some isFirst)]

instance : Std.Total (@OwnerOrder ν) where
  total first second := by
    simp only [OwnerOrder]
    cases first.emailConfirmed <;> cases second.emailConfirmed <;> cases first.password.isSome <;>
      cases second.password.isSome <;> simp <;> omega

instance : IsTrans (UserRecord ν) OwnerOrder where
  trans first second third := by
    simp only [OwnerOrder]
    cases first.emailConfirmed <;> cases second.emailConfirmed <;> cases third.emailConfirmed <;>
      cases first.password.isSome <;> cases second.password.isSome <;> cases third.password.isSome <;> simp <;> omega

theorem OwnerOrder.owns {first second : UserRecord ν} (order : OwnerOrder first second) (owns : second.owns = true) :
    first.owns = true := by
  rw [UserRecord.owns, Bool.or_eq_true] at owns ⊢
  obtain confirmed | ⟨same, password | ⟨samePassword, -⟩⟩ := order
  · cases isConfirmed : first.emailConfirmed with
    | true => exact .inl rfl
    | false =>
        rw [isConfirmed] at confirmed
        exact absurd confirmed (Nat.not_lt_zero _)
  · cases hasPassword : first.password.isSome with
    | true => exact .inr rfl
    | false =>
        rw [hasPassword] at password
        exact absurd password (Nat.not_lt_zero _)
  · rwa [same, samePassword] at owns

theorem TableKept.select_eq (kept : TableKept canonical table) (member : row ∈ table)
    (isKey : key ∈ cacheKeysToWrite row) : selectUser table key = some row := by
  have found := matches_of_key (cacheKeysToWrite_subset row isKey)
  cases key with
  | id value =>
      refine find?_unique member found fun other isOther same => ?_
      exact List.inj_on_of_nodup_map kept.unique.ids isOther member
        ((of_decide_eq_true same).trans (of_decide_eq_true found).symm)
  | uuid value =>
      refine find?_unique member found fun other isOther same => ?_
      exact List.inj_on_of_nodup_map kept.unique.uuids isOther member
        ((of_decide_eq_true same).trans (of_decide_eq_true found).symm)
  | username value =>
      refine find?_unique member found fun other isOther same => ?_
      exact eq_of_nodup_filterMap kept.unique.usernames isOther member (of_decide_eq_true same) (of_decide_eq_true found)
  | referralCode value =>
      refine find?_unique member found fun other isOther same => ?_
      exact eq_of_nodup_filterMap kept.unique.referralCodes isOther member (of_decide_eq_true same)
        (of_decide_eq_true found)
  | email address =>
      have owns := owns_of_emailKey isKey
      have ownedBy : ∀ other ∈ table, other.owns = true → other.email = some address →
          other.ownedAddress = some (canonical address) := by
        intro other isOther isOwner isEmail
        rw [UserRecord.ownedAddress, if_pos isOwner, isEmail, (kept.rows other isOther).clean, isEmail]
        rfl
      have holders : row ∈ (table.filter (·.matches (.email address))).insertionSort OwnerOrder :=
        (List.mem_insertionSort _).mpr (List.mem_filter.mpr ⟨member, found⟩)
      rw [selectUser]
      cases sorted : (table.filter (·.matches (.email address))).insertionSort OwnerOrder with
      | nil =>
          rw [sorted] at holders
          cases holders
      | cons first rest =>
          have isHolder : first ∈ (table.filter (·.matches (.email address))).insertionSort OwnerOrder :=
            sorted ▸ List.mem_cons_self
          obtain ⟨isFirst, sameAddress⟩ := List.mem_filter.mp ((List.mem_insertionSort _).mp isHolder)
          have isOwner : first.owns = true := by
            have ordered := List.pairwise_insertionSort OwnerOrder (table.filter (·.matches (.email address)))
            rw [sorted] at ordered holders
            obtain rfl | later := List.mem_cons.mp holders
            · exact owns
            · exact (List.rel_of_pairwise_cons ordered later).owns owns
          rw [List.head?_cons, eq_of_nodup_filterMap kept.unique.ownedAddresses isFirst member
            (ownedBy first isFirst isOwner (of_decide_eq_true sameAddress))
            (ownedBy row member owns (of_decide_eq_true found))]

theorem selectUser_some (selected : selectUser table key = some row) : row ∈ table ∧ row.matches key = true := by
  cases key with
  | email address =>
      have isHolder : row ∈ (table.filter (·.matches (.email address))).insertionSort OwnerOrder :=
        List.mem_of_head? selected
      exact List.mem_filter.mp ((List.mem_insertionSort _).mp isHolder)
  | id value => exact ⟨List.mem_of_find?_eq_some selected, by simpa using List.find?_some selected⟩
  | uuid value => exact ⟨List.mem_of_find?_eq_some selected, by simpa using List.find?_some selected⟩
  | username value => exact ⟨List.mem_of_find?_eq_some selected, by simpa using List.find?_some selected⟩
  | referralCode value => exact ⟨List.mem_of_find?_eq_some selected, by simpa using List.find?_some selected⟩

theorem TableKept.select_latin1 (kept : TableKept canonical table) (outside : key.isLatin1 = false) :
    selectUser table key = none := by
  by_contra selected
  obtain ⟨row, isRow⟩ := Option.ne_none_iff_exists'.mp selected
  obtain ⟨member, found⟩ := selectUser_some isRow
  have latin1 := (kept.rows row member).latin1
  cases key with
  | username value =>
      rw [of_decide_eq_true found] at latin1
      cases outside.symm.trans latin1.1
  | email value =>
      rw [of_decide_eq_true found] at latin1
      cases outside.symm.trans latin1.2
  | id value => cases outside
  | uuid value => cases outside
  | referralCode value => cases outside

def CacheKept (s : UserState ν) : Prop := s.cache.Faithful cacheKeysToWrite (· ∈ s.table)

theorem getByProperty_spec {s : UserState ν} (kept : TableKept canonical s.table) (cacheKept : CacheKept s)
    (cached force : Bool) :
    (s.getByProperty key cached force).2 = (selectUser s.table key).map normalizeRow ∧
      (s.getByProperty key cached force).1.table = s.table ∧ CacheKept (s.getByProperty key cached force).1 := by
  rw [UserState.getByProperty]
  split
  · next hit isHit =>
      have held : s.cache key = some hit := by
        split at isHit
        · exact isHit
        · cases isHit
      obtain ⟨member, isKey⟩ := cacheKept key hit held
      rw [kept.select_eq member isKey, Option.map_some, (kept.rows hit member).normalizeRow_eq]
      exact ⟨rfl, rfl, cacheKept⟩
  · split
    · cases selected : selectUser s.table key with
      | none => exact ⟨rfl, rfl, cacheKept⟩
      | some row =>
          obtain ⟨member, -⟩ := selectUser_some selected
          refine ⟨rfl, rfl, ?_⟩
          dsimp only
          rw [(kept.rows row member).normalizeRow_eq]
          exact cacheKept.put member
    · next outside =>
        rw [kept.select_latin1 (Bool.eq_false_iff.mpr outside)]
        exact ⟨rfl, rfl, cacheKept⟩

end Lookups

section Writes

variable {s : UserState ν} {userId : ℕ} {patch : List (UserColumn ν)}

theorem patched_columns (plain : ∀ column ∈ patch, column.isIdentity = false) (row : UserRecord ν) :
    (row.patched patch).id = row.id ∧ cacheKeysForUser (row.patched patch) = cacheKeysForUser row ∧
      (row.patched patch).email = row.email := by
  induction patch generalizing row with
  | nil => exact ⟨rfl, rfl, rfl⟩
  | cons column rest ih =>
      have first : (row.set column).id = row.id ∧ cacheKeysForUser (row.set column) = cacheKeysForUser row ∧
          (row.set column).email = row.email := by
        have isPlain := plain column List.mem_cons_self
        cases column with
        | cleanEmail value => exact ⟨rfl, rfl, rfl⟩
        | password value => exact ⟨rfl, rfl, rfl⟩
        | emailConfirmed value => exact ⟨rfl, rfl, rfl⟩
        | phone value => exact ⟨rfl, rfl, rfl⟩
        | other name value => exact ⟨rfl, rfl, rfl⟩
        | id value => cases isPlain
        | uuid value => cases isPlain
        | username value => cases isPlain
        | email value => cases isPlain
        | referralCode value => cases isPlain
      obtain ⟨sameId, sameKeys, sameEmail⟩ :=
        ih (fun column member => plain column (List.mem_cons_of_mem _ member)) (row.set column)
      exact ⟨sameId.trans first.1, sameKeys.trans first.2.1, sameEmail.trans first.2.2⟩

theorem patched_kept (writable : assertLatin1Writable patch = true) (columns : ∀ column ∈ patch, column.Canonical)
    (kept : RowKept canonical row) (clean : (row.patched patch).cleanEmail = (row.patched patch).email.map canonical) :
    RowKept canonical (row.patched patch) := by
  have values : ∀ row : UserRecord ν,
      (row.username.all isStorableAsLatin1 = true ∧ row.email.all isStorableAsLatin1 = true) ∧
        row.username.isSome = true ∧
        (∀ code, row.referralCode = some code → normalizeReferralCode code = some code) →
      ((row.patched patch).username.all isStorableAsLatin1 = true ∧
          (row.patched patch).email.all isStorableAsLatin1 = true) ∧
        (row.patched patch).username.isSome = true ∧
        ∀ code, (row.patched patch).referralCode = some code → normalizeReferralCode code = some code := by
    clear clean
    induction patch with
    | nil => exact fun row holds => holds
    | cons column rest ih =>
        intro row holds
        rw [assertLatin1Writable, List.all_cons, Bool.and_eq_true] at writable
        refine ih writable.2 (fun other member => columns other (List.mem_cons_of_mem _ member))
          (row.set column) ?_
        have canonicalColumn := columns column List.mem_cons_self
        have writableColumn := writable.1
        cases column with
        | username value => exact ⟨⟨writableColumn, holds.1.2⟩, canonicalColumn, holds.2.2⟩
        | email value => exact ⟨⟨holds.1.1, writableColumn⟩, holds.2⟩
        | referralCode value => exact ⟨holds.1, holds.2.1, canonicalColumn⟩
        | id value => exact holds
        | uuid value => exact holds
        | cleanEmail value => exact holds
        | password value => exact holds
        | emailConfirmed value => exact holds
        | phone value => exact holds
        | other name value => exact holds
  obtain ⟨latin1, named, code⟩ := values row ⟨kept.latin1, kept.named, kept.code⟩
  exact ⟨clean, latin1, named, code⟩

theorem updated_kept (kept : TableKept canonical table) {guard : UserRecord ν → Bool}
    (unique : UniqueIndexes (UserState.updated table userId patch guard))
    (writable : assertLatin1Writable patch = true) (keeps : KeepsRows canonical table userId patch) :
    TableKept canonical (UserState.updated table userId patch guard) := by
  refine ⟨unique, fun row member => ?_⟩
  obtain ⟨old, isOld, rfl⟩ := List.mem_map.mp member
  split
  · next chosen =>
      have sameId : old.id = userId := of_decide_eq_true (Bool.and_eq_true_iff.mp chosen).1
      exact patched_kept writable keeps.columns (kept.rows old isOld) (keeps.clean old isOld sameId)
  · exact kept.rows old isOld

theorem CacheKept.invalidateById (cacheKept : CacheKept s) (id : ℕ) : CacheKept (s.invalidateById id) := by
  rw [UserState.invalidateById]
  split
  · exact cacheKept.drop_same _
  · exact cacheKept

@[simp] theorem invalidateById_table (s : UserState ν) (id : ℕ) : (s.invalidateById id).table = s.table := by
  rw [UserState.invalidateById]
  split
  · rfl
  · rfl

theorem emailKey {address : Text} (isKey : .email address ∈ cacheKeysForUser row) :
    row.email = some address ∧ address ≠ [] := by
  simp only [cacheKeysForUser, List.mem_append, List.mem_cons, mem_keyOf, reduceCtorEq, and_false, exists_false,
    false_or, or_false, UserKey.email.injEq] at isKey
  obtain ⟨text, isEmail, nonempty, rfl⟩ := isKey
  exact ⟨isEmail, nonempty⟩

theorem cacheKeysToWrite_patched (plain : ∀ column ∈ patch, column.isIdentity = false)
    (keeps : ∀ address, row.email = some address → address ≠ [] → row.owns = true → (row.patched patch).owns = true) :
    cacheKeysToWrite row ⊆ cacheKeysToWrite (row.patched patch) := by
  intro key isKey
  obtain ⟨-, sameKeys, sameEmail⟩ := patched_columns plain row
  have isOld := cacheKeysToWrite_subset row isKey
  rw [cacheKeysToWrite]
  split
  · rwa [sameKeys]
  · next lost =>
      rw [List.mem_filter, sameKeys, sameEmail]
      refine ⟨isOld, decide_eq_true fun isAddress => lost ?_⟩
      obtain ⟨address, isEmail, rfl⟩ := Option.map_eq_some_iff.mp isAddress
      exact keeps address isEmail (emailKey isOld).2 (owns_of_emailKey isKey)

theorem republish_none (nobody : selectUser s.table (.id userId) = none) (before : Option (UserRecord ν)) :
    s.republish userId before =
      (match before with
        | none => s
        | some before => s.invalidate before).invalidateById userId := by
  have fresh : s.getByProperty (.id userId) false true = (s, none) := by
    simp [UserState.getByProperty, UserKey.isLatin1, nobody]
  unfold UserState.republish
  rw [fresh]
  cases before with
  | none => rfl
  | some before => simp [UserState.invalidate]

theorem republish_some (found : selectUser s.table (.id userId) = some row) (before : Option (UserRecord ν)) :
    s.republish userId before =
      { s with
        cache := (s.cache.drop ((before.map fun before =>
            (cacheKeysForUser before).filter (· ∉ cacheKeysToWrite (normalizeRow row))).getD [])).put
          (cacheKeysToWrite (normalizeRow row)) (normalizeRow row) } := by
  have fresh : s.getByProperty (.id userId) false true =
      (s.writeCache (normalizeRow row), some (normalizeRow row)) := by
    simp [UserState.getByProperty, UserKey.isLatin1, found]
  unfold UserState.republish
  rw [fresh]
  cases before with
  | none =>
      simp only [UserState.writeCache, Option.map_none, Option.getD_none, Cache.drop_nil, Cache.put_put]
  | some before =>
      simp only [UserState.writeCache, Option.map_some, Option.getD_some, Cache.put_drop_put]

theorem mem_updated {guard : UserRecord ν → Bool} {other : UserRecord ν} :
    other ∈ UserState.updated table userId patch guard ↔
      (other ∈ table ∧ ¬(other.id = userId ∧ guard other = true)) ∨
        ∃ old ∈ table, old.id = userId ∧ guard old = true ∧ old.patched patch = other := by
  rw [UserState.updated, List.mem_map]
  constructor
  · rintro ⟨old, isOld, same⟩
    split at same
    · next chosen => exact .inr ⟨old, isOld, by simpa using (Bool.and_eq_true_iff.mp chosen).1,
        (Bool.and_eq_true_iff.mp chosen).2, same⟩
    · next others =>
        subst same
        exact .inl ⟨isOld, by simpa using others⟩
  · rintro (⟨isOld, others⟩ | ⟨old, isOld, sameId, chosen, rfl⟩)
    · exact ⟨other, isOld, if_neg (by simpa using others)⟩
    · exact ⟨old, isOld, if_pos (by simp [sameId, chosen])⟩

theorem republish_table (s : UserState ν) (userId : ℕ) (before : Option (UserRecord ν)) :
    (s.republish userId before).table = s.table := by
  cases found : selectUser s.table (.id userId) with
  | none =>
      rw [republish_none found, invalidateById_table]
      cases before with
      | none => rfl
      | some before => rfl
  | some row => rw [republish_some found]

theorem republish_kept {cache : Cache UserKey (UserRecord ν)} {guard : UserRecord ν → Bool}
    {before : Option (UserRecord ν)} (kept : TableKept canonical table)
    (kept' : TableKept canonical (UserState.updated table userId patch guard))
    (cacheKept : cache.Faithful cacheKeysToWrite (· ∈ table))
    (chosen : ∀ row ∈ table, row.id = userId → guard row = true)
    (snapshot : before = if patch.any UserColumn.isIdentity then (selectUser table (.id userId)).map normalizeRow else none)
    (owner : KeepsOwner table userId patch guard) :
    CacheKept (UserState.republish ⟨UserState.updated table userId patch guard, cache⟩ userId before) := by
  cases target : selectUser table (.id userId) with
  | none =>
      have same : UserState.updated table userId patch guard = table := by
        refine (List.map_congr_left fun row member => if_neg ?_).trans (List.map_id table)
        rw [Bool.and_eq_true, decide_eq_true_eq]
        exact fun both => List.find?_eq_none.mp target row member (decide_eq_true both.1)
      have noBefore : before = none := by
        rw [snapshot, target]
        split <;> rfl
      rw [same, noBefore, republish_none target]
      exact CacheKept.invalidateById (s := ⟨table, cache⟩) cacheKept userId
  | some old =>
      obtain ⟨isOld, found⟩ := selectUser_some target
      have sameId : old.id = userId := of_decide_eq_true found
      have onlyOld : ∀ other ∈ table, other.id = userId → other = old := fun other isOther isUser =>
        List.inj_on_of_nodup_map kept.unique.ids isOther isOld (isUser.trans sameId.symm)
      have stays : ∀ other, other ∈ table → other ≠ old → other ∈ UserState.updated table userId patch guard :=
        fun other isOther differs => mem_updated.mpr (.inl ⟨isOther, fun both => differs (onlyOld other isOther both.1)⟩)
      have isNew : old.patched patch ∈ UserState.updated table userId patch guard :=
        mem_updated.mpr (.inr ⟨old, isOld, sameId, chosen old isOld sameId, rfl⟩)
      rw [target, Option.map_some, (kept.rows old isOld).normalizeRow_eq] at snapshot
      cases selected : selectUser (UserState.updated table userId patch guard) (.id userId) with
      | none =>
          have touched : patch.any UserColumn.isIdentity = true := by
            by_contra plain
            have sameRowId := (patched_columns (by simpa using plain) old).1
            exact List.find?_eq_none.mp selected _ isNew (decide_eq_true (sameRowId.trans sameId))
          rw [republish_none selected, snapshot, if_pos touched]
          refine CacheKept.invalidateById ?_ userId
          refine cacheKept.drop fun other isOther ⟨key, isKey, outside⟩ => stays other isOther ?_
          rintro rfl
          exact outside (cacheKeysToWrite_subset other isKey)
      | some fresh =>
          obtain ⟨isFresh, foundFresh⟩ := selectUser_some selected
          have isPatched : fresh = old.patched patch := by
            obtain ⟨isOther, others⟩ | ⟨other, isOther, otherId, -, rfl⟩ := mem_updated.mp isFresh
            · have freshId : fresh.id = userId := of_decide_eq_true foundFresh
              exact absurd ⟨freshId, chosen fresh isOther freshId⟩ others
            · rw [onlyOld other isOther otherId]
          rw [republish_some selected, (kept'.rows fresh isFresh).normalizeRow_eq]
          refine cacheKept.replace isFresh stays fun key isKey => ?_
          by_cases touched : patch.any UserColumn.isIdentity = true
          · rw [snapshot, if_pos touched, Option.map_some, Option.getD_some, List.mem_filter, decide_eq_true_eq]
            by_cases taken : key ∈ cacheKeysToWrite fresh
            · exact .inr taken
            · exact .inl ⟨cacheKeysToWrite_subset old isKey, taken⟩
          · have plain : ∀ column ∈ patch, column.isIdentity = false := by simpa using touched
            refine .inr ?_
            rw [isPatched]
            exact cacheKeysToWrite_patched plain
              ((owner.resolve_left touched) old isOld sameId (chosen old isOld sameId)) isKey

theorem userWrite_kept {guard : Option (UserRecord ν → Bool)} (kept : TableKept canonical s.table) (cacheKept : CacheKept s)
    (keeps : KeepsRows canonical s.table userId patch)
    (owner : KeepsOwner s.table userId patch (guard.getD fun _ => true)) :
    TableKept canonical (s.write userId patch guard).1.table ∧ CacheKept (s.write userId patch guard).1 := by
  have snapshot : ∀ before, before = (if patch.any UserColumn.isIdentity then s.getByProperty (.id userId) false true
      else (s, none)) → before.1.table = s.table ∧ CacheKept before.1 ∧
        before.2 = if patch.any UserColumn.isIdentity then (selectUser s.table (.id userId)).map normalizeRow else none := by
    rintro before rfl
    obtain ⟨answer, sameTable, inOrder⟩ := @getByProperty_spec ν canonical (.id userId) s kept cacheKept false true
    split
    · exact ⟨sameTable, inOrder, answer⟩
    · exact ⟨rfl, cacheKept, rfl⟩
  rw [UserState.write]
  split
  · exact ⟨kept, cacheKept⟩
  · split
    · next writable =>
        dsimp only
        generalize isBefore : (if patch.any UserColumn.isIdentity then s.getByProperty (.id userId) false true
          else (s, none)) = before
        obtain ⟨sameTable, inOrder, read⟩ := snapshot before isBefore.symm
        split
        · next unique =>
            split
            · exact ⟨sameTable ▸ kept, inOrder⟩
            · next hit =>
                have kept' := updated_kept kept unique writable keeps
                have chosen : ∀ row ∈ s.table, row.id = userId → (guard.getD fun _ => true) row = true := by
                  cases guard with
                  | none => exact fun _ _ _ => rfl
                  | some condition =>
                      have anyHit : (s.table.any fun row => row.id = userId && condition row) = true := by
                        simpa using hit
                      obtain ⟨row, member, isHit⟩ := List.any_eq_true.mp anyHit
                      obtain ⟨sameId, holds⟩ := Bool.and_eq_true_iff.mp isHit
                      intro other isOther otherId
                      rwa [List.inj_on_of_nodup_map kept.unique.ids isOther member
                        (otherId.trans (of_decide_eq_true sameId).symm)]
                have faithful : before.1.cache.Faithful cacheKeysToWrite (· ∈ s.table) := sameTable ▸ inOrder
                exact ⟨(republish_table _ userId before.2).symm ▸ kept',
                  republish_kept kept kept' faithful chosen read owner⟩
        · exact ⟨sameTable ▸ kept, inOrder⟩
    · exact ⟨kept, cacheKept⟩

/-- What `unconfirmOthersByEmail` makes of a row. -/
def strippedRow (row : UserRecord ν) (columns : List (Text × ν)) : UserRecord ν :=
  { row with email := none, cleanEmail := none, emailConfirmed := false, columns := columns }

theorem patched_others (row : UserRecord ν) (others : List (Text × ν)) :
    ∃ columns, row.patched (others.map fun column => .other column.1 column.2) = { row with columns := columns } := by
  induction others generalizing row with
  | nil => exact ⟨row.columns, rfl⟩
  | cons column rest ih =>
      obtain ⟨columns, same⟩ := ih (row.set (.other column.1 column.2))
      exact ⟨columns, same⟩

theorem patched_strip (row : UserRecord ν) (others : List (Text × ν)) :
    ∃ columns, row.patched ([.email none, .cleanEmail none, .emailConfirmed false] ++
      others.map fun column => .other column.1 column.2) = strippedRow row columns := by
  obtain ⟨columns, same⟩ := patched_others (strippedRow row row.columns) others
  exact ⟨columns, same⟩

theorem strip_unique {strip : UserRecord ν → UserRecord ν} (unique : UniqueIndexes table)
    (strips : ∀ row, strip row = row ∨ ∃ columns, strip row = strippedRow row columns) :
    UniqueIndexes (table.map strip) := by
  have same : ∀ {α : Type} (column : UserRecord ν → α),
      (∀ row columns, column (strippedRow row columns) = column row) → column ∘ strip = column := by
    intro α column keeps
    funext row
    obtain stays | ⟨columns, lost⟩ := strips row
    · exact congrArg column stays
    · exact (congrArg column lost).trans (keeps row columns)
  have owned : ((table.map strip).filterMap (·.ownedAddress)).Sublist (table.filterMap (·.ownedAddress)) := by
    clear unique
    induction table with
    | nil => exact List.Sublist.refl _
    | cons row rest ih =>
        obtain stays | ⟨columns, lost⟩ := strips row
        · rw [List.map_cons, stays, List.filterMap_cons, List.filterMap_cons]
          split
          · exact ih
          · exact ih.cons_cons _
        · have noAddress : (strippedRow row columns).ownedAddress = none := by
            rw [UserRecord.ownedAddress]
            split
            · rfl
            · rfl
          rw [List.map_cons, lost, List.filterMap_cons_none noAddress]
          exact ih.trans ((List.sublist_cons_self row rest).filterMap _)
  exact {
    ids := by
      rw [List.map_map, same (·.id) fun _ _ => rfl]
      exact unique.ids
    uuids := by
      rw [List.map_map, same (·.uuid) fun _ _ => rfl]
      exact unique.uuids
    usernames := by
      rw [List.filterMap_map, same (·.username) fun _ _ => rfl]
      exact unique.usernames
    referralCodes := by
      rw [List.filterMap_map, same (·.referralCode) fun _ _ => rfl]
      exact unique.referralCodes
    ownedAddresses := unique.ownedAddresses.sublist owned }

theorem invalidate_all (rows : List (UserRecord ν)) (s : UserState ν) :
    (rows.foldl (fun state row => state.invalidate (normalizeRow row)) s).table = s.table ∧
      ∀ key user, (rows.foldl (fun state row => state.invalidate (normalizeRow row)) s).cache key = some user →
        s.cache key = some user ∧ ∀ row ∈ rows, key ∉ cacheKeysForUser (normalizeRow row) := by
  induction rows generalizing s with
  | nil => exact ⟨rfl, fun key user held => ⟨held, fun _ member => nomatch member⟩⟩
  | cons row rest ih =>
      obtain ⟨sameTable, left⟩ := ih (s.invalidate (normalizeRow row))
      refine ⟨sameTable, fun key user held => ?_⟩
      obtain ⟨inFirst, outside⟩ := left key user held
      obtain ⟨notFirst, before⟩ := Cache.drop_some.mp inFirst
      exact ⟨before, List.forall_mem_cons.mpr ⟨notFirst, outside⟩⟩

theorem unconfirmOthersByEmail_kept (kept : TableKept canonical s.table) (cacheKept : CacheKept s)
    (email cleanEmail : Text) (others : List (Text × ν)) :
    TableKept canonical (s.unconfirmOthersByEmail userId email cleanEmail others).table ∧
      CacheKept (s.unconfirmOthersByEmail userId email cleanEmail others) := by
  have strips : ∀ row : UserRecord ν, (if UserState.isStripped userId email cleanEmail row then
      row.patched ([.email none, .cleanEmail none, .emailConfirmed false] ++
        others.map fun column => .other column.1 column.2) else row) = row ∨
      ∃ columns, (if UserState.isStripped userId email cleanEmail row then
        row.patched ([.email none, .cleanEmail none, .emailConfirmed false] ++
          others.map fun column => .other column.1 column.2) else row) = strippedRow row columns := by
    intro row
    split
    · exact .inr (patched_strip row others)
    · exact .inl rfl
  obtain ⟨sameTable, left⟩ := invalidate_all (s.table.filter (UserState.isStripped userId email cleanEmail))
    { s with
      table := s.table.map fun row => if UserState.isStripped userId email cleanEmail row then
        row.patched ([.email none, .cleanEmail none, .emailConfirmed false] ++
          others.map fun column => .other column.1 column.2) else row }
  constructor
  · rw [UserState.unconfirmOthersByEmail, sameTable]
    refine ⟨strip_unique kept.unique strips, fun row member => ?_⟩
    obtain ⟨old, isOld, rfl⟩ := List.mem_map.mp member
    have oldKept := kept.rows old isOld
    obtain stays | ⟨columns, lost⟩ := strips old
    · rwa [stays]
    · rw [lost]
      exact ⟨rfl, ⟨oldKept.latin1.1, rfl⟩, oldKept.named, oldKept.code⟩
  · intro key user held
    obtain ⟨before, outside⟩ := left key user held
    obtain ⟨member, isKey⟩ := cacheKept key user before
    refine ⟨?_, isKey⟩
    rw [UserState.unconfirmOthersByEmail, sameTable]
    refine List.mem_map.mpr ⟨user, member, if_neg fun stripped => ?_⟩
    refine outside user (List.mem_filter.mpr ⟨member, stripped⟩) ?_
    rw [(kept.rows user member).normalizeRow_eq]
    exact cacheKeysToWrite_subset user isKey

end Writes

section Runs

variable {s : UserState ν}

theorem perform_kept (kept : TableKept canonical s.table) (cacheKept : CacheKept s) (call : UserCall ν)
    (meets : Meets canonical s call) :
    TableKept canonical (s.perform call).table ∧ CacheKept (s.perform call) := by
  cases call with
  | lookup key cached force =>
      obtain ⟨-, sameTable, inOrder⟩ := @getByProperty_spec ν canonical key s kept cacheKept cached force
      exact ⟨sameTable.symm ▸ kept, inOrder⟩
  | update userId patch => exact userWrite_kept kept cacheKept meets.1 meets.2
  | claimPlaceholder userId patch =>
      refine userWrite_kept kept cacheKept meets (.inr fun row _ _ unclaimed _ _ _ owns => ?_)
      rw [UserRecord.owns, Bool.or_eq_true] at owns
      obtain ⟨noPassword, unconfirmed⟩ := Bool.and_eq_true_iff.mp unclaimed
      obtain confirmed | password := owns
      · simp [confirmed] at unconfirmed
      · simp [Option.isSome_iff_ne_none.mp password] at noPassword
  | claimReferralCode userId code =>
      refine userWrite_kept kept cacheKept ⟨fun row member _ => ?_, ?_⟩ (.inl rfl)
      · exact (kept.rows row member).clean
      · rintro column member
        obtain rfl := List.mem_singleton.mp member
        rintro _ ⟨⟩
        exact meets
  | unconfirmOthersByEmail userId email cleanEmail others =>
      exact unconfirmOthersByEmail_kept kept cacheKept email cleanEmail others
  | expires keys => exact ⟨kept, Cache.Faithful.drop_same cacheKept keys⟩

theorem run_kept (kept : TableKept canonical s.table) (cacheKept : CacheKept s) (calls : List (UserCall ν))
    (meets : MeetsAll canonical s calls) : TableKept canonical (s.run calls).table ∧ CacheKept (s.run calls) := by
  induction calls generalizing s with
  | nil => exact ⟨kept, cacheKept⟩
  | cons call rest ih =>
      obtain ⟨stepKept, stepCache⟩ := perform_kept kept cacheKept call meets.1
      exact ih stepKept stepCache meets.2

/-- After any run of calls that meet what is asked of them, every lookup answers as the table does. -/
theorem lookups_follow_table (canonical : Text → Text) (table : List (UserRecord ν)) (kept : TableKept canonical table)
    (calls : List (UserCall ν)) (meets : MeetsAll canonical ⟨table, fun _ => none⟩ calls) (key : UserKey)
    (cached force : Bool) :
    (((UserState.mk table fun _ => none).run calls).getByProperty key cached force).2 =
      (selectUser ((UserState.mk table fun _ => none).run calls).table key).map normalizeRow := by
  obtain ⟨runKept, runCache⟩ := run_kept (s := ⟨table, fun _ => none⟩) kept Cache.Faithful.empty calls meets
  exact (getByProperty_spec runKept runCache cached force).1

end Runs

def placeholderAndOwner : List (UserRecord ℕ) :=
  [⟨1, ['u'], some ['m'], some ['e'], some ['e'], none, false, none, none, []⟩,
    ⟨2, ['v'], some ['n'], some ['e'], some ['e'], none, true, none, none, []⟩]

theorem placeholderAndOwner_kept : TableKept id placeholderAndOwner where
  unique := by decide +kernel
  rows := by
    intro row member
    obtain rfl | rfl : row = _ ∨ row = _ := by simpa [placeholderAndOwner] using member
    · exact ⟨rfl, ⟨rfl, rfl⟩, rfl, fun _ isCode => nomatch isCode⟩
    · exact ⟨rfl, ⟨rfl, rfl⟩, rfl, fun _ isCode => nomatch isCode⟩

def codeAfterLookup : List (UserCall ℕ) :=
  [.lookup (.email ['e']) true false, .claimReferralCode 2 ['C', 'O', 'D', 'E']]

/-- The owner is found by its address, with the code it was given meanwhile. -/
theorem owner_found :
    (((UserState.mk placeholderAndOwner fun _ => none).run codeAfterLookup).getByProperty
      (.email ['e']) true false).2.map (·.referralCode) = some (some ['C', 'O', 'D', 'E']) := by
  have canonicalCode : normalizeReferralCode ['C', 'O', 'D', 'E'] = some ['C', 'O', 'D', 'E'] := by
    decide +kernel
  have meets : MeetsAll id ⟨placeholderAndOwner, fun _ => none⟩ codeAfterLookup := ⟨trivial, canonicalCode, trivial⟩
  rw [lookups_follow_table id placeholderAndOwner placeholderAndOwner_kept codeAfterLookup meets (.email ['e']) true false]
  decide +kernel

/-- An account that is no longer confirmed, and so no longer owns its address, is still found by it. -/
theorem former_owner_found :
    TableKept id placeholderAndOwner ∧ KeepsRows id placeholderAndOwner 2 [.emailConfirmed false] ∧
      (((UserState.mk placeholderAndOwner fun _ => none).run
        [.lookup (.email ['e']) true false, .update 2 [.emailConfirmed false]]).getByProperty
          (.email ['e']) true false).2.map (·.id) = some 2 ∧
      ((selectUser ((UserState.mk placeholderAndOwner fun _ => none).run
        [.lookup (.email ['e']) true false, .update 2 [.emailConfirmed false]]).table (.email ['e'])).map
          normalizeRow).map (·.id) = some 1 := by
  refine ⟨placeholderAndOwner_kept, ⟨fun row member sameId => ?_, ?_⟩, by decide +kernel, by decide +kernel⟩
  · exact (placeholderAndOwner_kept.rows row member).clean
  · rintro column member
    obtain rfl := List.mem_singleton.mp member
    trivial

end Puter

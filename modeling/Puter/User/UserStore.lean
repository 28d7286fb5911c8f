/-
Module: Puter.User.UserStore
Purpose: The user table and the cache in front of it (stores/user/UserStore.ts): lookups by an identifying property,
  the shared write path of update, claimPlaceholder and claimReferralCode, and unconfirmOthersByEmail.
Trusted boundary: texts are compared character by character, and the values of columns are such as JSON keeps
Main exports: UserRecord, getByProperty, UserCall
-/
import Puter.Fs.PosixPath
import Puter.Library.FanOutCache

namespace Puter

open PosixPath FanOutCache

/-- A row of `user`, with the columns by name that the store does not tell apart. -/
structure UserRecord (ν : Type) where
  id : ℕ
  uuid : Text
  username : Option Text
  email : Option Text
  cleanEmail : Option Text
  password : Option Text
  emailConfirmed : Bool
  phone : Option Text
  referralCode : Option Text
  columns : List (Text × ν)
deriving DecidableEq, Repr

/-- An identifying property (`USER_ID_PROPERTIES`) and its value: what a lookup asks for, and a key of the cache. -/
inductive UserKey where
  | id (value : ℕ)
  | uuid (value : Text)
  | username (value : Text)
  | email (value : Text)
  | referralCode (value : Text)
deriving DecidableEq, Repr

/-- A column of a patch, with the value it is set to. -/
inductive UserColumn (ν : Type) where
  | id (value : ℕ)
  | uuid (value : Text)
  | username (value : Option Text)
  | email (value : Option Text)
  | cleanEmail (value : Option Text)
  | password (value : Option Text)
  | emailConfirmed (value : Bool)
  | phone (value : Option Text)
  | referralCode (value : Option Text)
  | other (name : Text) (value : ν)
deriving DecidableEq, Repr

variable {ν : Type}

def UserRecord.set (row : UserRecord ν) : UserColumn ν → UserRecord ν
  | .id value => { row with id := value }
  | .uuid value => { row with uuid := value }
  | .username value => { row with username := value }
  | .email value => { row with email := value }
  | .cleanEmail value => { row with cleanEmail := value }
  | .password value => { row with password := value }
  | .emailConfirmed value => { row with emailConfirmed := value }
  | .phone value => { row with phone := value }
  | .referralCode value => { row with referralCode := value }
  | .other name value =>
      { row with columns := row.columns.map fun column => if column.1 = name then (name, value) else column }

def UserRecord.patched (row : UserRecord ν) (patch : List (UserColumn ν)) : UserRecord ν :=
  patch.foldl UserRecord.set row

/-- The column is one of `USER_ID_PROPERTIES`. -/
def UserColumn.isIdentity : UserColumn ν → Bool
  | .id _ | .uuid _ | .username _ | .email _ | .referralCode _ => true
  | _ => false

def isStorableAsLatin1 (value : Text) : Bool := value.all fun c => c.toNat ≤ 0xFF

def UserColumn.isLatin1Writable : UserColumn ν → Bool
  | .username value | .email value | .cleanEmail value | .phone value => value.all isStorableAsLatin1
  | _ => true

/-- `assertLatin1Writable` lets the patch pass. -/
def assertLatin1Writable (patch : List (UserColumn ν)) : Bool := patch.all UserColumn.isLatin1Writable

def UserRecord.owns (row : UserRecord ν) : Bool := row.emailConfirmed || row.password.isSome

/-- What `idx_user_owned_email` has of a row. -/
def UserRecord.ownedAddress (row : UserRecord ν) : Option Text :=
  if row.owns then row.email.map fun email => row.cleanEmail.getD (email.map Char.toLower) else none

/-- The unique indexes of the table. -/
structure UniqueIndexes (table : List (UserRecord ν)) : Prop where
  ids : (table.map (·.id)).Nodup
  uuids : (table.map (·.uuid)).Nodup
  usernames : (table.filterMap (·.username)).Nodup
  referralCodes : (table.filterMap (·.referralCode)).Nodup
  ownedAddresses : (table.filterMap (·.ownedAddress)).Nodup

instance (table : List (UserRecord ν)) : Decidable (UniqueIndexes table) :=
  decidable_of_iff
    ((table.map (·.id)).Nodup ∧ (table.map (·.uuid)).Nodup ∧ (table.filterMap (·.username)).Nodup ∧
      (table.filterMap (·.referralCode)).Nodup ∧ (table.filterMap (·.ownedAddress)).Nodup)
    ⟨fun h => ⟨h.1, h.2.1, h.2.2.1, h.2.2.2.1, h.2.2.2.2⟩, fun h => ⟨h.1, h.2, h.3, h.4, h.5⟩⟩

/-- The `WHERE` clause of a lookup. -/
def UserRecord.matches (row : UserRecord ν) : UserKey → Bool
  | .id value => row.id = value
  | .uuid value => row.uuid = value
  | .username value => row.username = some value
  | .email value => row.email = some value
  | .referralCode value => row.referralCode = some value

/-- `EMAIL_OWNER_ORDER`: confirmed rows first, then those with a password, then the oldest. -/
def OwnerOrder (first second : UserRecord ν) : Prop :=
  second.emailConfirmed.toNat < first.emailConfirmed.toNat ∨
    second.emailConfirmed = first.emailConfirmed ∧
      (second.password.isSome.toNat < first.password.isSome.toNat ∨
        second.password.isSome = first.password.isSome ∧ first.id ≤ second.id)

instance (first second : UserRecord ν) : Decidable (OwnerOrder first second) := inferInstanceAs (Decidable (_ ∨ _))

/-- `SELECT * FROM user WHERE … LIMIT 1`, in the order of owners for an address. -/
def selectUser (table : List (UserRecord ν)) (key : UserKey) : Option (UserRecord ν) :=
  match key with
  | .email value => ((table.filter (·.matches (.email value))).insertionSort OwnerOrder).head?
  | key => table.find? (·.matches key)

/-- `toUpperCase`, as far as a test for ASCII letters and digits can tell: the characters outside ASCII whose upper
    case is made of ASCII letters are the dotless i, the long s, the sharp s and the Latin ligatures. -/
def upperChar (c : Char) : Text :=
  match c.toNat with
  | 0x131 => ['I']
  | 0x17F => ['S']
  | 0xDF => ['S', 'S']
  | 0xFB00 => ['F', 'F']
  | 0xFB01 => ['F', 'I']
  | 0xFB02 => ['F', 'L']
  | 0xFB03 => ['F', 'F', 'I']
  | 0xFB04 => ['F', 'F', 'L']
  | 0xFB05 | 0xFB06 => ['S', 'T']
  | _ => [c.toUpper]

/-- `normalizeReferralCode`: the canonical form of a code, or none for what cannot be a code. -/
def normalizeReferralCode (value : Text) : Option Text :=
  let normalized := (trim value).flatMap upperChar
  if 4 ≤ normalized.length ∧ normalized.length ≤ 16 ∧ normalized.all fun c => c.isUpper || c.isDigit then some normalized
  else none

/-- `#normalizeRow`: `String` makes a text of a missing username. -/
def normalizeRow (row : UserRecord ν) : UserRecord ν :=
  { row with
    username := some (row.username.getD ['n', 'u', 'l', 'l'])
    referralCode := row.referralCode.bind normalizeReferralCode }

def keyOf (key : Text → UserKey) (value : Option Text) : List UserKey := ((value.filter (· ≠ [])).map key).toList

def cacheKeysForUser (user : UserRecord ν) : List UserKey :=
  .id user.id :: keyOf .uuid (some user.uuid) ++ keyOf .username user.username ++ keyOf .email user.email ++
    keyOf .referralCode user.referralCode

def cacheKeysToWrite (user : UserRecord ν) : List UserKey :=
  if user.owns then cacheKeysForUser user
  else (cacheKeysForUser user).filter fun key => user.email.map .email ≠ some key

/-- The table and the cache. -/
structure UserState (ν : Type) where
  table : List (UserRecord ν)
  cache : Cache UserKey (UserRecord ν)

def UserKey.isLatin1 : UserKey → Bool
  | .username value | .email value => isStorableAsLatin1 value
  | _ => true

namespace UserState

/-- `#writeCache`, and `#refreshCache` -/
def writeCache (s : UserState ν) (user : UserRecord ν) : UserState ν :=
  { s with cache := s.cache.put (cacheKeysToWrite user) user }

def getByProperty (s : UserState ν) (key : UserKey) (cached force : Bool) : UserState ν × Option (UserRecord ν) :=
  match if cached && !force then s.cache key else none with
  | some hit => (s, some hit)
  | none =>
      if key.isLatin1 then
        match selectUser s.table key with
        | none => (s, none)
        | some row => (s.writeCache (normalizeRow row), some (normalizeRow row))
      else (s, none)

def invalidate (s : UserState ν) (user : UserRecord ν) : UserState ν :=
  { s with cache := s.cache.drop (cacheKeysForUser user) }

def invalidateById (s : UserState ν) (id : ℕ) : UserState ν :=
  match s.cache (.id id) with
  | some cached => s.invalidate cached
  | none => s

/-- The statement `UPDATE … WHERE id = ?`, with a guard. -/
def updated (table : List (UserRecord ν)) (userId : ℕ) (patch : List (UserColumn ν)) (guard : UserRecord ν → Bool) :
    List (UserRecord ν) :=
  table.map fun row => if row.id = userId && guard row then row.patched patch else row

/-- What `#write` does to the cache after the statement. -/
def republish (s : UserState ν) (userId : ℕ) (before : Option (UserRecord ν)) : UserState ν :=
  let fresh := s.getByProperty (.id userId) false true
  let retired := match before with
    | none => fresh.1
    | some before =>
        let live := (fresh.2.map cacheKeysToWrite).getD []
        { fresh.1 with cache := fresh.1.cache.drop ((cacheKeysForUser before).filter (· ∉ live)) }
  match fresh.2 with
  | some user => retired.writeCache user
  | none => retired.invalidateById userId

/-- `#write`, or none where it throws; a statement that breaks a unique index is refused. -/
def write (s : UserState ν) (userId : ℕ) (patch : List (UserColumn ν)) (guard : Option (UserRecord ν → Bool)) :
    UserState ν × Option Bool :=
  if patch = [] then (s, some true)
  else if assertLatin1Writable patch then
    let condition := guard.getD fun _ => true
    let before := if patch.any UserColumn.isIdentity then s.getByProperty (.id userId) false true else (s, none)
    let table := updated s.table userId patch condition
    if UniqueIndexes table then
      if guard.isSome && !s.table.any fun row => row.id = userId && condition row then (before.1, some false)
      else (({ before.1 with table := table }).republish userId before.2, some true)
    else (before.1, none)
  else (s, none)

def update (s : UserState ν) (userId : ℕ) (patch : List (UserColumn ν)) : UserState ν × Option Bool :=
  s.write userId patch none

def claimPlaceholder (s : UserState ν) (userId : ℕ) (patch : List (UserColumn ν)) : UserState ν × Option Bool :=
  s.write userId patch (some fun row => row.password.isNone && !row.emailConfirmed)

def claimReferralCode (s : UserState ν) (userId : ℕ) (code : Text) : UserState ν × Option Bool :=
  s.write userId [.referralCode (some code)] (some fun row => row.referralCode.isNone)

/-- The rows that `unconfirmOthersByEmail` strips. -/
def isStripped (userId : ℕ) (email cleanEmail : Text) (row : UserRecord ν) : Bool :=
  row.id ≠ userId && (row.email = some email || row.cleanEmail = some cleanEmail)

/-- `unconfirmOthersByEmail`; its other columns are set by name. -/
def unconfirmOthersByEmail (s : UserState ν) (userId : ℕ) (email cleanEmail : Text) (others : List (Text × ν)) :
    UserState ν :=
  let strip : List (UserColumn ν) :=
    [.email none, .cleanEmail none, .emailConfirmed false] ++ others.map fun column => .other column.1 column.2
  let stripped := s.table.filter (isStripped userId email cleanEmail)
  let written := { s with
    table := s.table.map fun row => if isStripped userId email cleanEmail row then row.patched strip else row }
  stripped.foldl (fun state row => state.invalidate (normalizeRow row)) written

end UserState

/-- What is done with the store, one after another; a key may also lapse or be evicted. -/
inductive UserCall (ν : Type) where
  | lookup (key : UserKey) (cached force : Bool)
  | update (userId : ℕ) (patch : List (UserColumn ν))
  | claimPlaceholder (userId : ℕ) (patch : List (UserColumn ν))
  | claimReferralCode (userId : ℕ) (code : Text)
  | unconfirmOthersByEmail (userId : ℕ) (email cleanEmail : Text) (others : List (Text × ν))
  | expires (keys : List UserKey)

namespace UserState

def perform (s : UserState ν) : UserCall ν → UserState ν
  | .lookup key cached force => (s.getByProperty key cached force).1
  | .update userId patch => (s.update userId patch).1
  | .claimPlaceholder userId patch => (s.claimPlaceholder userId patch).1
  | .claimReferralCode userId code => (s.claimReferralCode userId code).1
  | .unconfirmOthersByEmail userId email cleanEmail others => s.unconfirmOthersByEmail userId email cleanEmail others
  | .expires keys => { s with cache := s.cache.drop keys }

def run (s : UserState ν) (calls : List (UserCall ν)) : UserState ν := calls.foldl perform s

end UserState

end Puter

/-
Module: Puter.Hosting.SubdomainStore
Purpose: The site rows and their cache (stores/subdomain/SubdomainStore.ts with publishCacheKeys of
  stores/types.ts) as callers use them: getBySubdomain, create, update and deleteByUuid as sequences of single
  statements and commands, on one table and one cache, and time that passes. Each write of a row numbers
  the version that it leaves, and the state records which versions updates and deletes that have returned
  found, and what getBySubdomain answered.
Trusted boundary: the database runs a statement as one step, and Redis a command, and removes a key after its
  time to live; a new uuid is one that was not drawn before, and nobody names a uuid before it is drawn
Main exports: SubdomainRow, siteSystem
-/
import Puter.Permission.PermissionUtil
import Puter.Library.ExpiringKeys
import Puter.Library.Interleaving

namespace Puter

open Interleaving

/-- A row of `subdomains`, or what the cache keeps of one. The table has no `version`: the number tells a row
    as one write left it from the same row as another write left it. -/
structure SubdomainRow (ν : Type) where
  uuid : ℕ
  subdomain : Text
  userId : ℕ
  columns : List (Text × ν)
  version : ℕ
deriving DecidableEq, Repr

/-- An answer of `getBySubdomain`, and the versions that were outdated when it was called. -/
structure SiteAnswer (ν : Type) where
  subdomain : Text
  outdated : List ℕ
  row : Option (SubdomainRow ν)
deriving DecidableEq, Repr

/-- The table and the cache, where no row stands for `NEGATIVE_CACHE_MARKER`; the subdomains that the writes so
    far were about; the versions that an update or a deletion found which has returned; and the answers. -/
structure SiteState (ν : Type) where
  clock : ℕ
  table : List (SubdomainRow ν)
  cache : ExpiringKeys Text (Option (SubdomainRow ν))
  named : List Text
  outdated : List ℕ
  answers : List (SiteAnswer ν)

/-- `CACHE_TTL_SECONDS`, in milliseconds. -/
def siteCacheTtl : ℕ := 3600000

/-- `NEGATIVE_CACHE_TTL_SECONDS`, in milliseconds. -/
def negativeCacheTtl : ℕ := 10000

def readOnlyColumns : List Text :=
  ["id", "uuid", "ts", "subdomain", "user_id", "app_owner", "protected", "database_id"].map String.toList

/-- The columns of a patch that `update` may set. -/
def allowedColumns {ν : Type} (patch : List (Text × ν)) : List (Text × ν) :=
  patch.filter fun column => column.1 ∉ readOnlyColumns

/-- A program point of a caller, or time that passes. -/
inductive SiteCall (ν : Type) where
  /-- `getBySubdomain` reads the cache, unless it is told to read the primary. -/
  | get (subdomain : Text) (primary : Bool)
  /-- `getBySubdomain` reads the table and answers. -/
  | getSelects (subdomain : Text) (primary : Bool) (outdated : List ℕ)
  /-- The cache write that `getBySubdomain` leaves behind. -/
  | getPopulates (subdomain : Text) (primary : Bool) (row : Option (SubdomainRow ν))
  /-- `create` inserts a row, to which the table adds its own columns. -/
  | create (subdomain : Text) (userId : ℕ) (given assigned : List (Text × ν))
  | createPublishes (row : SubdomainRow ν)
  /-- `update` reads the row that it is about to change. -/
  | update (uuid : ℕ) (userId : Option ℕ) (patch : List (Text × ν))
  | updateWrites (uuid : ℕ) (userId : Option ℕ) (allowed : List (Text × ν)) (before : Option (SubdomainRow ν))
  /-- `update` reads the row again, having replaced these versions. -/
  | updateReads (uuid : ℕ) (userId : Option ℕ) (allowed : List (Text × ν)) (before : Option (SubdomainRow ν))
      (replaced : List ℕ)
  /-- `update` drops the key of the old name, if the name is another one. -/
  | updateDrops (uuid : ℕ) (allowed : List (Text × ν)) (before after : Option (SubdomainRow ν))
      (replaced : List ℕ)
  | updatePublishes (uuid : ℕ) (allowed : List (Text × ν)) (after : Option (SubdomainRow ν))
      (replaced : List ℕ)
  /-- `deleteByUuid` reads the row that it is about to remove. -/
  | deleteByUuid (uuid : ℕ) (userId : Option ℕ)
  | deleteWrites (uuid : ℕ) (userId : Option ℕ) (row : Option (SubdomainRow ν))
  | deletePublishes (uuid : ℕ) (row : Option (SubdomainRow ν)) (removed : List ℕ)
  | elapse (ms : ℕ)

variable {ν : Type}

/-- The `WHERE` clause of a mutation. -/
def SubdomainRow.matches (uuid : ℕ) (userId : Option ℕ) (row : SubdomainRow ν) : Bool :=
  row.uuid = uuid && userId.all (row.userId = ·)

namespace SiteState

/-- `SELECT * FROM subdomains WHERE subdomain = ? LIMIT 1` -/
def selectSubdomain (s : SiteState ν) (subdomain : Text) : Option (SubdomainRow ν) :=
  s.table.find? (·.subdomain = subdomain)

def getByUuid (s : SiteState ν) (uuid : ℕ) (userId : Option ℕ) : Option (SubdomainRow ν) :=
  s.table.find? (·.matches uuid userId)

def versionsOf (s : SiteState ν) (uuid : ℕ) (userId : Option ℕ) : List ℕ :=
  (s.table.filter (·.matches uuid userId)).map (·.version)

def refreshCache (s : SiteState ν) (row : SubdomainRow ν) : SiteState ν :=
  if row.subdomain = [] then s
  else { s with cache := s.cache.put row.subdomain (some row) (s.clock + siteCacheTtl) }

/-- The statement `UPDATE … SET …`. -/
def writeColumns (s : SiteState ν) (uuid : ℕ) (userId : Option ℕ) (allowed : List (Text × ν)) : SiteState ν :=
  { s with
    table := s.table.map fun row =>
      if row.matches uuid userId then
        { row with columns := allowed ++ row.columns, version := s.named.length } else row
    named := s.named ++ ((s.getByUuid uuid userId).map (·.subdomain)).toList }

def start (clock : ℕ) : SiteState ν := ⟨clock, [], .empty, [], [], []⟩

end SiteState

def populateTtl : Option (SubdomainRow ν) → ℕ
  | some _ => siteCacheTtl
  | none => negativeCacheTtl

/-- The next command of a caller. -/
def SiteCall.perform (s : SiteState ν) : SiteCall ν → SiteState ν × Option (SiteCall ν)
  | .get subdomain primary =>
      if subdomain = [] then ({ s with answers := ⟨subdomain, s.outdated, none⟩ :: s.answers }, none)
      else if primary then (s, some (.getSelects subdomain primary s.outdated))
      else
        match s.cache.get s.clock subdomain with
        | some cached => ({ s with answers := ⟨subdomain, s.outdated, cached⟩ :: s.answers }, none)
        | none => (s, some (.getSelects subdomain primary s.outdated))
  | .getSelects subdomain primary outdated =>
      ({ s with answers := ⟨subdomain, outdated, s.selectSubdomain subdomain⟩ :: s.answers },
        some (.getPopulates subdomain primary (s.selectSubdomain subdomain)))
  | .getPopulates subdomain primary row =>
      ({ s with cache :=
          if primary then s.cache.put subdomain row (s.clock + populateTtl row)
          else (s.cache.putNew s.clock subdomain row (s.clock + populateTtl row)).2 }, none)
  | .create subdomain userId given assigned =>
      if userId = 0 ∨ subdomain = [] then (s, none)
      else
        let uuid := s.named.length
        ({ s with table := s.table ++ [⟨uuid, subdomain, userId, given ++ assigned, uuid⟩]
                  named := s.named ++ [subdomain] },
          some (.createPublishes ⟨uuid, subdomain, userId, given, uuid⟩))
  | .createPublishes row => (s.refreshCache row, none)
  | .update uuid userId patch =>
      if allowedColumns patch = [] then (s, none)
      else (s, some (.updateWrites uuid userId (allowedColumns patch) (s.getByUuid uuid userId)))
  | .updateWrites uuid userId allowed before =>
      (s.writeColumns uuid userId allowed,
        some (.updateReads uuid userId allowed before (s.versionsOf uuid userId)))
  | .updateReads uuid userId allowed before replaced =>
      (s, some (.updateDrops uuid allowed before (s.getByUuid uuid userId) replaced))
  | .updateDrops uuid allowed before after replaced =>
      ({ s with cache :=
          match before with
          | none => s.cache
          | some row =>
              if row.subdomain = [] ∨ some row.subdomain = after.map (·.subdomain) then s.cache
              else s.cache.erase row.subdomain },
        some (.updatePublishes uuid allowed after replaced))
  | .updatePublishes _ allowed after replaced =>
      let published := match after with
        | none => s
        | some row => s.refreshCache { row with columns := allowed ++ row.columns }
      ({ published with outdated := replaced ++ s.outdated }, none)
  | .deleteByUuid uuid userId => (s, some (.deleteWrites uuid userId (s.getByUuid uuid userId)))
  | .deleteWrites uuid userId row =>
      ({ s with table := s.table.filter (!·.matches uuid userId) },
        some (.deletePublishes uuid row (s.versionsOf uuid userId)))
  | .deletePublishes _ row removed =>
      ({ s with
          cache := match row with
            | none => s.cache
            | some row =>
                if row.subdomain = [] then s.cache
                else s.cache.put row.subdomain none (s.clock + negativeCacheTtl)
          outdated := removed ++ s.outdated }, none)
  | .elapse ms => ({ s with clock := s.clock + ms }, none)

def SiteCall.mutates : SiteCall ν → Option ℕ
  | .update uuid _ _ | .updateWrites uuid _ _ _ | .updateReads uuid _ _ _ _ | .updateDrops uuid _ _ _ _
  | .updatePublishes uuid _ _ _ | .deleteByUuid uuid _ | .deleteWrites uuid _ _
  | .deletePublishes uuid _ _ => some uuid
  | _ => none

def SiteCall.worksOn : SiteCall ν → Option ℕ
  | .update _ _ _ | .deleteByUuid _ _ => none
  | call => call.mutates

def SeparateMutations (s : SiteState ν) (others : List (SiteCall ν)) (call : SiteCall ν) : Prop :=
  ∀ uuid, call.mutates = some uuid → uuid < s.named.length ∧ ∀ other ∈ others, other.worksOn ≠ some uuid

def siteSystem (allow : SiteState ν → List (SiteCall ν) → SiteCall ν → Prop) :
    System (SiteState ν) (SiteCall ν) where
  issues
    | .get _ _ | .create _ _ _ _ | .update _ _ _ | .deleteByUuid _ _ | .elapse _ => True
    | _ => False
  atom s call s' next := call.perform s = (s', next)
  allow := allow

end Puter

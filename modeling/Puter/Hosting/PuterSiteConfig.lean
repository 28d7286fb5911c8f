/-
Module: Puter.Hosting.PuterSiteConfig
Purpose: The config file of a hosted site (core/http/middleware/puterSiteConfig.ts): its name, how it is parsed
  into rules for error pages, how it is loaded, and the path a rule leads to.
Trusted boundary: `JSON.parse`, `Number` and what the cache holds are parameters
Main exports: SiteConfig, resolveErrorTarget
-/
import Puter.Fs.FsTree
import Puter.Kv.UpdateExpression

namespace Puter

open PosixPath FSEntryStore Document

/-- An error page: its path under the site root, and the status it is served with. -/
structure SiteErrorRule where
  file : Text
  status : ℕ
deriving DecidableEq, Repr

/-- The rules of a site, the one that holds for a status first. -/
structure SiteConfig where
  errors : List (ℕ × SiteErrorRule)
deriving DecidableEq, Repr

/-- What serving a site takes from around it: `JSON.parse`, with fields in the order of `Object.entries`, and
    `Number` of a text, where they succeed; the text that streaming a file yields; what the cache holds under
    the id of a root directory, where no config stands for the marker of none; and the number that a JSON
    number is. -/
structure SiteEnv where
  parseJson : Text → Option Json
  numberOf : Text → Option ℕ
  contentOf : FSEntry → Option Text
  cachedConfig : ℕ → Option (Option SiteConfig)

/-- `.puter_site_config` -/
def siteConfigName : Text :=
  ['.', 'p', 'u', 't', 'e', 'r', '_', 's', 'i', 't', 'e', '_', 'c', 'o', 'n', 'f', 'i', 'g']

def isSiteConfigPath (urlPath : Text) : Bool := basename urlPath = siteConfigName

/-- `path.posix.join` -/
def pathJoin (parts : List Text) : Text := normalize (['/'].intercalate (parts.filter (· ≠ [])))

def maxConfigBytes : ℕ := 64 * 1024

def utf8Length (text : Text) : ℕ := (text.map fun c => c.utf8Size).sum

def ruleStatus (code : ℕ) : Option Json → Option ℕ
  | none => some code
  | some (.number n) => if n.den = 1 ∧ 200 ≤ n ∧ n ≤ 599 then some n.num.toNat else none
  | some _ => none

/-- One field of `errors`. -/
def parseRule (numberOf : Text → Option ℕ) : Text × Json → Option (ℕ × SiteErrorRule)
  | (k, .map rule) =>
      match numberOf k, field "file".toList rule with
      | some code, some (.text file) =>
          if 400 ≤ code ∧ code ≤ 599 ∧ file.head? = some '/' then
            match ruleStatus code (field "status".toList rule) with
            | none => none
            | some status =>
                let normalized := normalize (pathJoin [['/'], file])
                if normalized = ['/'] then none else some (code, ⟨normalized, status⟩)
          else none
      | _, _ => none
  | _ => none

/-- `Object.entries` of an object or a list. -/
def objectEntries : Json → List (Text × Json)
  | .map fields => fields
  | .list items => items.zipIdx.map fun item => (Nat.toDigits 10 item.2, item.1)
  | _ => []

/-- `parsePuterSiteConfig`. A list is an object too, and has no `errors`. -/
def parsePuterSiteConfig (env : SiteEnv) (text : Text) : Option SiteConfig :=
  match env.parseJson text with
  | some (.map fields) =>
      let errors := ((field "errors".toList fields).map objectEntries).getD []
      some ⟨(errors.filterMap (parseRule env.numberOf)).reverse⟩
  | some (.list _) => some ⟨[]⟩
  | _ => none

def entryByPath (entries : List FSEntry) (path : Text) : Except FsError (Option FSEntry) :=
  (normalizePath path).map (entryAt entries)

def readSiteConfig (env : SiteEnv) (entries : List FSEntry) (rootPath : Text) : Option SiteConfig :=
  match entryByPath entries (pathJoin [rootPath, siteConfigName]) with
  | .ok (some entry) =>
      if entry.isDir ∨ maxConfigBytes < entry.size then none
      else
        match env.contentOf entry with
        | none => none
        | some content =>
            if maxConfigBytes < utf8Length content then none
            else (parsePuterSiteConfig env content).filter (·.errors ≠ [])
  | _ => none

def loadSiteConfig (env : SiteEnv) (entries : List FSEntry) (rootPath : Text) (rootDirId : ℕ) :
    Option SiteConfig :=
  if rootPath = [] ∨ rootPath = ['/'] then none
  else
    match (if 0 < rootDirId then env.cachedConfig rootDirId else none) with
    | some cached => cached
    | none => readSiteConfig env entries rootPath

def errorTarget (config : Option SiteConfig) (statusCode : ℕ) : Option (Text × ℕ) :=
  config.bind fun config => (config.errors.lookup statusCode).bind fun rule =>
    let normalized := normalize (pathJoin [['/'], rule.file])
    if normalized.head? ≠ some '/' ∨ normalized = ['/'] then none else some (normalized, rule.status)

def resolveErrorTarget (config : Option SiteConfig) (statusCode : ℕ) (rootPath : Text) : Option (Text × ℕ) :=
  (errorTarget config statusCode).map fun target => (rootPath.rdropWhile (· = '/') ++ target.1, target.2)

end Puter

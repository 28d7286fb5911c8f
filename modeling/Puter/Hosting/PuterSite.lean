/-
Module: Puter.Hosting.PuterSite
Purpose: How a hosted site serves a request once its root directory is known (createPuterSiteMiddleware of
  core/http/middleware/puterSite.ts, from the lookup of the root on): the request path is decoded and
  normalized, two names are reserved, a folder stands for its index.html, and a missing file for an error
  page.
Trusted boundary: those of the site config
Main exports: isWorkersSourcePath, serveSite
-/
import Puter.Hosting.PuterSiteConfig
import Puter.Library.PercentEncoding

namespace Puter

open PosixPath FSEntryStore PercentEncoding

/-- `toLowerCase`, as far as a comparison with an ASCII text can tell: outside ASCII, the Kelvin sign is the one
    character whose lower case is an ASCII letter. -/
def lowerChar (c : Char) : Char := if c = Char.ofNat 0x212A then 'k' else c.toLower

def workersFolder : Text := ['_', '_', 'w', 'o', 'r', 'k', 'e', 'r', 's']

def isWorkersSourcePath (urlPath : Text) : Bool :=
  (urlPath.splitOn '/').any fun part => part.map lowerChar = workersFolder

def indexHtml : Text := ['i', 'n', 'd', 'e', 'x', '.', 'h', 't', 'm', 'l']

def resolvedUrlPath (reqPath : Text) : Option Text :=
  let urlPath := if reqPath = [] then ['/'] else reqPath
  let urlPath := if urlPath.getLast? = some '/' then urlPath ++ indexHtml else urlPath
  (decodeURIComponent urlPath).map fun decoded => normalize (pathJoin [['/'], decoded])

def requestedEntry (entries : List FSEntry) (rootPath urlPath : Text) : Except FsError (Option FSEntry) :=
  if isSiteConfigPath urlPath || isWorkersSourcePath urlPath then .ok none
  else
    match entryByPath entries (rootPath ++ urlPath) with
    | .ok (some entry) =>
        if entry.isDir then entryByPath entries (pathJoin [rootPath ++ urlPath, indexHtml]) else .ok (some entry)
    | found => found

def errorPage (entries : List FSEntry) (config : Option SiteConfig) (rootPath : Text) :
    Except FsError (Option (FSEntry × ℕ)) :=
  match resolveErrorTarget config 404 rootPath with
  | none => .ok none
  | some target =>
      if isWorkersSourcePath (target.1.drop rootPath.length) then .ok none
      else (entryByPath entries target.1).map fun candidate =>
        (candidate.filter (!·.isDir)).map fun entry => (entry, target.2)

/-- What a visitor gets: the bytes of an entry, with the status of an error page if it is one, or an answer
    without any. -/
inductive SiteReply where
  | notFound
  | forbidden
  | failed (error : FsError)
  | streams (entry : FSEntry) (statusOverride : Option ℕ)
deriving DecidableEq, Repr

def replyMissing (entries : List FSEntry) (config : Option SiteConfig) (rootPath : Text) : SiteReply :=
  match errorPage entries config rootPath with
  | .error error => .failed error
  | .ok none => .notFound
  | .ok (some (entry, status)) => .streams entry (some status)

def replyAt (env : SiteEnv) (entries : List FSEntry) (rootEntry : FSEntry) (urlPath : Text) : SiteReply :=
  let rootPath := rootEntry.path.rdropWhile (· = '/')
  if rootPath = [] ∨ rootPath = ['/'] then .forbidden
  else
    let siteConfig := loadSiteConfig env entries rootPath rootEntry.id
    match requestedEntry entries rootPath urlPath with
    | .error error => .failed error
    | .ok entry =>
        match entry.filter (!·.isDir) with
        | some file => .streams file none
        | none => replyMissing entries siteConfig rootPath

def serveSite (env : SiteEnv) (entries : List FSEntry) (rootDirId : Option ℕ) (reqPath : Text) : SiteReply :=
  match rootDirId.bind fun id => entries.find? (·.id = id) with
  | none => .notFound
  | some rootEntry =>
      if rootEntry.isDir then
        match resolvedUrlPath reqPath with
        | none => .notFound
        | some urlPath => replyAt env entries rootEntry urlPath
      else .notFound

end Puter

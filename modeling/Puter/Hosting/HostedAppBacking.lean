/-
Module: Puter.Hosting.HostedAppBacking
Purpose: The two ways in which the backend tells which hosted site an `index_url` is on (util/hostedAppBacking.ts):
  extractPuterHostedSubdomain parses a URL, and buildHostedSubdomainIndexUrlCandidates enumerates the URLs
  of a name, by which findByIndexUrlCandidates of stores/app/AppStore.js looks apps up.
Trusted boundary: the host parser of URLs
Main exports: findByIndexUrlCandidates
-/
import Puter.Fs.PosixPath
import Puter.Hosting.PuterSite
import Puter.Library.WebUrl

namespace Puter

open PosixPath WebUrl

structure HostedDomainConfig where
  staticHostingDomain : Option Text
  staticHostingDomainAlt : Option Text
  privateAppHostingDomain : Option Text
  privateAppHostingDomainAlt : Option Text
  protocol : Option Text
deriving DecidableEq, Repr

def lowerText (value : Text) : Text := value.map lowerChar

def normalizeHostedDomainValue (domainValue : Option Text) : Option Text :=
  (domainValue.map fun value =>
    let lowered := lowerText (trim value)
    if lowered.head? = some '.' then lowered.tail else lowered).filter (· ≠ [])

def normalizeConfiguredHostedDomain (domainValue : Option Text) : Option Text :=
  ((normalizeHostedDomainValue domainValue).map (·.takeWhile (· ≠ ':'))).filter (· ≠ [])

def configuredHostedDomainValues (config : HostedDomainConfig) : List (Option Text) :=
  [config.staticHostingDomain, config.staticHostingDomainAlt, config.privateAppHostingDomain,
    config.privateAppHostingDomainAlt]

def getPuterHostedDomains (config : HostedDomainConfig) : List Text :=
  ((configuredHostedDomainValues config).filterMap normalizeConfiguredHostedDomain).eraseDups

def hostedDomainForms (config : HostedDomainConfig) : List Text :=
  (configuredHostedDomainValues config).flatMap fun value =>
    (normalizeHostedDomainValue value).toList ++ (normalizeConfiguredHostedDomain value).toList

def candidateProtocols (config : HostedDomainConfig) : List Text :=
  let configuredProtocol := (config.protocol.map fun protocol =>
    if (trim protocol).getLast? = some ':' then (trim protocol).dropLast else trim protocol).getD []
  ([configuredProtocol, ['h', 't', 't', 'p', 's'], ['h', 't', 't', 'p']].filter (· ≠ [])).eraseDups

def candidateTails : List Text := [[], ['/'], '/' :: indexHtml]

def buildHostedSubdomainIndexUrlCandidates (subdomain : Text) (config : HostedDomainConfig) : List Text :=
  let name := lowerText (trim subdomain)
  if name = [] then []
  else
    let hosts := ((hostedDomainForms config).map fun form => name ++ '.' :: form).eraseDups
    (hosts.flatMap fun host => (candidateProtocols config).flatMap fun protocol =>
      candidateTails.map fun tail => protocol ++ schemeSlashes ++ host ++ tail).eraseDups

def hostingDomainOf (config : HostedDomainConfig) (hostname : Text) : Option Text :=
  ((getPuterHostedDomains config).insertionSort fun a b => b.length ≤ a.length).find? fun hostedDomain =>
    ('.' :: hostedDomain).isSuffixOf hostname

def extractPuterHostedSubdomain (parse : HostParser) (indexUrl : Text) (config : HostedDomainConfig) :
    Option Text :=
  if indexUrl = [] then none
  else (hostname parse indexUrl).bind fun found =>
    let hostname := lowerText found
    (hostingDomainOf config hostname).bind fun hostedDomain =>
      let subdomain := hostname.take (hostname.length - ('.' :: hostedDomain).length)
      if subdomain = [] then none else some subdomain

/-- A row of `apps`. -/
structure HostedApp where
  id : ℕ
  uid : Text
  ownerUserId : Option ℕ
  indexUrl : Text
  isPrivate : Bool
  timestamp : ℕ
deriving DecidableEq, Repr

/-- `findByIndexUrlCandidates`: the oldest app with one of the URLs, but for an app or the apps of a user. -/
def findByIndexUrlCandidates (apps : List HostedApp) (candidates : List Text)
    (excludeAppId excludeOwnerUserId : ℕ) : Option HostedApp :=
  if candidates = [] then none
  else
    let rows := apps.filter fun app =>
      candidates.contains app.indexUrl && (excludeAppId = 0 || app.id ≠ excludeAppId) &&
        (excludeOwnerUserId = 0 || app.ownerUserId ≠ some excludeOwnerUserId)
    (rows.insertionSort fun a b => a.timestamp < b.timestamp ∨ a.timestamp = b.timestamp ∧ a.id ≤ b.id).head?

end Puter

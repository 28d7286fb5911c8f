/-
Module: Puter.Hosting.PrivateAppGate
Purpose: Who may see a hosted site (core/http/middleware/privateAppGate.ts, and createPuterSiteMiddleware of
  core/http/middleware/puterSite.ts as far as the lookup of the root): the site that a host names, the app
  of its owner that is found for it, the identity of a visitor, and the check a private app asks for.
Trusted boundary: URL parsing, token verification and the listeners of the check are parameters; what the public
  hosted cookie does is left out, as no answer depends on it
Main exports: ServerConfig, findSite, puterSite
-/
import Puter.Auth.AuthService
import Puter.Hosting.HostedAppBacking

namespace Puter

namespace PrivateAppGate

open PosixPath WebUrl PercentEncoding FSEntryStore

/-- What the config says of hosting. -/
structure ServerConfig extends HostedDomainConfig where
  domain : Option Text
  cookieName : Option Text

def normalizeHost (value : Option Text) : Option Text := normalizeConfiguredHostedDomain value

/-- `normalizeHostRaw`, which keeps a port. -/
def normalizeHostRaw (value : Option Text) : Option Text := normalizeHostedDomainValue value

structure PrivateHostingConfig where
  domain : Option Text
  staticDomains : List Text
  privateDomains : List Text
  staticDomainsRaw : List Text
  privateDomainsRaw : List Text
  protocol : Text

def httpsText : Text := ['h', 't', 't', 'p', 's']

def httpText : Text := ['h', 't', 't', 'p']

def buildHostingConfig (config : ServerConfig) : PrivateHostingConfig where
  domain := normalizeHost config.domain
  staticDomains := [config.staticHostingDomain, config.staticHostingDomainAlt].filterMap normalizeHost
  privateDomains := [config.privateAppHostingDomain, config.privateAppHostingDomainAlt].filterMap normalizeHost
  staticDomainsRaw := [config.staticHostingDomain, config.staticHostingDomainAlt].filterMap normalizeHostRaw
  privateDomainsRaw := [config.privateAppHostingDomain, config.privateAppHostingDomainAlt].filterMap normalizeHostRaw
  protocol := (truthyText (config.protocol.map fun protocol =>
    if (trim protocol).getLast? = some ':' then (trim protocol).dropLast else trim protocol)).getD httpsText

/-- A request, as far as the middleware reads it: headers, cookies and query fields that are texts, and the actor
    of the auth probe. -/
structure GateRequest where
  hostname : Option Text
  headerHost : Option Text
  protocol : Text
  originalUrl : Option Text
  path : Text
  cookies : List (Text × Text)
  actor : Option (Actor × Option ActorSession)
  authorization : Option Text
  queryPuterToken : Option Text
  queryAuthToken : Option Text
  puterAuthToken : Option Text
  referrer : Option Text

/-- What a verified private-asset token claims. -/
structure PrivateAssetClaims where
  userUid : Text
  sessionUuid : Option Text
deriving DecidableEq, Repr

/-- The event `app.privateAccess.check`. -/
structure AccessCheck where
  appUid : Text
  userUid : Text
  requestHost : Text
  requestPath : Text
deriving DecidableEq, Repr

/-- What the listeners leave in the event. -/
structure AccessResult where
  allowed : Bool
  redirectUrl : Option Text
deriving DecidableEq, Repr

/-- What the gate calls: the auth service, with none where it throws, `URL`, and the listeners of the check. -/
structure GateEnv where
  privateAssetCookieNameV2 : Text
  privateAssetCookieName : Text
  verifyPrivateAssetToken : Text → (appUid subdomain privateHost : Text) → Option PrivateAssetClaims
  authenticateFromToken : Text → Option (Actor × Option ActorSession)
  searchParam : (url key : Text) → Option Text
  resolveUrl : (reference base : Text) → Option Text
  privateAccessCheck : AccessCheck → AccessResult

/-- A row of `apps`, as the gate reads it. -/
structure GateApp where
  uid : Text
  name : Option Text
  ownerUserId : Option ℕ
  indexUrl : Text
  isPrivate : Bool
deriving DecidableEq, Repr

def hostMatchesPrivateDomain (host : Text) (privateDomains : List Text) : Bool :=
  privateDomains.any fun pd => host = pd || ('.' :: pd).isSuffixOf host

def longestFirst (domains : List Text) : List Text := domains.insertionSort fun a b => b.length ≤ a.length

def leftmostLabel (host : Text) : Text := host.takeWhile (· ≠ '.')

def subdomainFromHost (host : Text) (hostingDomains : List Text) : Text :=
  match (longestFirst hostingDomains).find? fun d => host = d || ('.' :: d).isSuffixOf host with
  | none => leftmostLabel host
  | some d => if host = d then [] else leftmostLabel (host.take (host.length - ('.' :: d).length))

/-- `toLowerCase` of a header, whose text is Latin-1. -/
def lowerHeaderChar (c : Char) : Char :=
  if 0xC0 ≤ c.toNat ∧ c.toNat ≤ 0xDE ∧ c.toNat ≠ 0xD7 then Char.ofNat (c.toNat + 0x20) else lowerChar c

def hostCandidates (req : GateRequest) (config : PrivateHostingConfig) (host hostedSubdomain : Text) : List Text :=
  host :: (truthyText (req.headerHost.map fun header => (trim header).map lowerHeaderChar)).toList ++
    (config.staticDomains ++ config.privateDomains ++ config.staticDomainsRaw ++ config.privateDomainsRaw).map
      fun d => hostedSubdomain ++ '.' :: d

def protocolCandidates (req : GateRequest) (config : PrivateHostingConfig) : List Text :=
  [(truthyText (some req.protocol)).getD httpsText, config.protocol, httpsText, httpText]

def urlCandidates (req : GateRequest) (config : PrivateHostingConfig) (host hostedSubdomain : Text) : List Text :=
  ((hostCandidates req config host hostedSubdomain).flatMap fun hc =>
    (protocolCandidates req config).flatMap fun protocol =>
      candidateTails.map fun tail => protocol ++ schemeSlashes ++ hc ++ tail).eraseDups

/-- `resolveOwnedAppForHostedSite`, the rows in the order of the database. -/
def resolveOwnedAppForHostedSite (apps : List GateApp) (req : GateRequest) (userId : Option ℕ)
    (config : PrivateHostingConfig) (requirePrivate : Bool) : Option GateApp :=
  match userId with
  | none => none
  | some 0 => none
  | some userId =>
      match normalizeHost req.hostname with
      | none => none
      | some host =>
          let hostedSubdomain := subdomainFromHost host (config.staticDomains ++ config.privateDomains)
          if hostedSubdomain = [] then none
          else
            let rows := apps.filter fun app =>
              app.ownerUserId = some userId && (!requirePrivate || app.isPrivate) &&
                (urlCandidates req config host hostedSubdomain).contains app.indexUrl
            (rows.take 2).head?

def getAuthorizationToken (req : GateRequest) : Option Text :=
  req.authorization.bind fun header =>
    if (header.take 6).map lowerChar = ['b', 'e', 'a', 'r', 'e', 'r'] ∧ (header.drop 6).head?.any isSpace then
      truthyText (some (trim (header.drop 6)))
    else none

def getQueryToken (req : GateRequest) : Option Text :=
  (truthyText (req.queryPuterToken.map trim)).or (truthyText (req.queryAuthToken.map trim))

def getHeaderToken (req : GateRequest) : Option Text := truthyText (req.puterAuthToken.map trim)

def puterAuthTokenKey : Text := "puter.auth.token".toList

def authTokenKey : Text := "auth_token".toList

def getReferrerToken (env : GateEnv) (req : GateRequest) : Option Text :=
  (req.referrer.filter (trim · ≠ [])).bind fun ref =>
    (truthyText (env.searchParam ref puterAuthTokenKey)).or (truthyText (env.searchParam ref authTokenKey))

inductive IdentitySource where
  | privateCookie
  | sessionCookie
  | authorization
  | query
  | referrer
  | nowhere
deriving DecidableEq, Repr

def getBootstrapToken (env : GateEnv) (req : GateRequest) : Option (Text × IdentitySource) :=
  ((getAuthorizationToken req).map (·, .authorization)).or <|
    ((getQueryToken req).map (·, .query)).or <|
      ((getHeaderToken req).map (·, .authorization)).or <| (getReferrerToken env req).map (·, .referrer)

structure PrivateIdentity where
  source : IdentitySource
  userUid : Option Text
  sessionUuid : Option Text
  hasValidPrivateCookie : Bool
deriving DecidableEq, Repr

def actorAppUid : Actor → Option Text
  | .appUnderUser _ app => truthyText (some app.uid)
  | _ => none

def actorMatchesExpectedApp (actor : Actor) (expectedAppUid : Text) : Bool :=
  expectedAppUid = [] || (actorAppUid actor).all (· = expectedAppUid)

def actorIdentity (source : IdentitySource) (expectedAppUid : Text)
    (authenticated : Option (Actor × Option ActorSession)) : Option PrivateIdentity :=
  authenticated.bind fun (actor, session) =>
    if actor.accountUser.uuid ≠ [] ∧ actorMatchesExpectedApp actor expectedAppUid then
      some ⟨source, some actor.accountUser.uuid, session.map (·.uid), false⟩
    else none

def privateCookieIdentity (env : GateEnv) (req : GateRequest) (appUid subdomain privateHost : Text) :
    Option PrivateIdentity :=
  let token := truthyText
    ((req.cookies.lookup env.privateAssetCookieNameV2).or (req.cookies.lookup env.privateAssetCookieName))
  (token.bind fun token => env.verifyPrivateAssetToken token appUid subdomain privateHost).map fun claims =>
    ⟨.privateCookie, truthyText (some claims.userUid), claims.sessionUuid, true⟩

def resolvePrivateIdentity (env : GateEnv) (req : GateRequest) (sessionCookieName : Option Text)
    (expectedAppUid expectedSubdomain expectedPrivateHost : Text) : PrivateIdentity :=
  let sessionToken := truthyText ((truthyText sessionCookieName).bind fun name => req.cookies.lookup name)
  let identity :=
    (privateCookieIdentity env req expectedAppUid expectedSubdomain expectedPrivateHost).or <|
      (actorIdentity .sessionCookie expectedAppUid req.actor).or <|
        (actorIdentity .sessionCookie expectedAppUid (sessionToken.bind env.authenticateFromToken)).or <|
          (getBootstrapToken env req).bind fun (token, source) =>
            actorIdentity source expectedAppUid (env.authenticateFromToken token)
  identity.getD ⟨.nowhere, none, none, false⟩

def normalizeRedirectPath (originalUrl : Option Text) : Text :=
  '/' :: ((truthyText originalUrl).getD ['/']).dropWhile fun c => c = '/' || c = '\\'

def hostRedirect (env : GateEnv) (req : GateRequest) (config : PrivateHostingConfig) (targets : List Text) :
    Option Text :=
  targets.head?.bind fun target => (normalizeHost req.hostname).bind fun host =>
    let subdomain := subdomainFromHost host (config.staticDomains ++ config.privateDomains)
    if subdomain = [] then none
    else env.resolveUrl (normalizeRedirectPath req.originalUrl)
      (config.protocol ++ schemeSlashes ++ subdomain ++ '.' :: target)

def buildPrivateHostRedirect (env : GateEnv) (req : GateRequest) (config : PrivateHostingConfig) : Option Text :=
  hostRedirect env req config (config.privateDomainsRaw ++ config.privateDomains)

def buildPublicHostRedirect (env : GateEnv) (req : GateRequest) (config : PrivateHostingConfig) : Option Text :=
  hostRedirect env req config (config.staticDomainsRaw ++ config.staticDomains)

def buildAppCenterFallback (app : GateApp) (config : PrivateHostingConfig) : Text :=
  match config.domain with
  | none => ['/']
  | some domain =>
      "https://".toList ++ domain ++ "/app/app-center/?item=".toList ++
        encodeURIComponent ((truthyText (app.name.map trim)).getD app.uid)

/-- A row of `subdomains`. -/
structure HostedSite where
  subdomain : Text
  userId : Option ℕ
  rootDirId : Option ℕ
deriving DecidableEq, Repr

/-- A user who may own a site. -/
structure SiteOwner where
  id : ℕ
  suspended : Bool
deriving DecidableEq, Repr

/-- What a request to the middleware ends in: the next handler, a redirect, an answer without content of the site,
    or the reply of the site, with the check that was passed on the way, if one was asked for. -/
inductive GateReply where
  | next
  | redirect (url : Text)
  | noSubdomain
  | hostMismatch
  | signIn (app : GateApp)
  | site (reply : SiteReply) (passed : Option AccessCheck)
deriving DecidableEq, Repr

/-- What a host says of the site that is asked for. -/
structure SiteRequest where
  host : Text
  matched : Text
  subdomain : Text
deriving DecidableEq, Repr

def toMainSite (config : ServerConfig) (req : GateRequest) : GateReply :=
  match normalizeHost config.domain with
  | some domain => .redirect (req.protocol ++ schemeSlashes ++ domain)
  | none => .noSubdomain

def readSiteRequest (config : ServerConfig) (req : GateRequest) : Except GateReply SiteRequest :=
  let hostingDomains := (configuredHostedDomainValues config.toHostedDomainConfig).filterMap normalizeHost
  match normalizeHost req.hostname with
  | none => .error .next
  | some host =>
      match (longestFirst hostingDomains).find? fun d => host = d || ('.' :: d).isSuffixOf host with
      | none => .error .next
      | some matched =>
          if host = matched then .error (toMainSite config req)
          else
            let subdomain := leftmostLabel (host.take (host.length - matched.length - 1))
            if subdomain = [] ∨ subdomain = ['w', 'w', 'w'] then .error (toMainSite config req)
            else .ok ⟨host, matched, subdomain⟩

def findSite (sites : List HostedSite) (owners : List SiteOwner) (subdomain : Text) : Except GateReply (HostedSite × ℕ) :=
  match sites.find? (·.subdomain = subdomain) with
  | none => .error .noSubdomain
  | some site =>
      match site.userId with
      | none => .error .noSubdomain
      | some userId =>
          match owners.find? (·.id = userId) with
          | none => .error .noSubdomain
          | some owner => if owner.suspended then .error .noSubdomain else .ok (site, userId)

def privateGate (env : GateEnv) (config : ServerConfig) (req : GateRequest) (request : SiteRequest)
    (privateApp : GateApp) : Except GateReply AccessCheck :=
  let hostingCfg := buildHostingConfig config
  if hostMatchesPrivateDomain request.host hostingCfg.privateDomains then
    let identity := resolvePrivateIdentity env req config.cookieName privateApp.uid request.subdomain request.host
    match identity.userUid with
    | none => .error (.signIn privateApp)
    | some userUid =>
        let checkEvent := ⟨privateApp.uid, userUid, request.host, req.path⟩
        let result := env.privateAccessCheck checkEvent
        if result.allowed then .ok checkEvent
        else .error (.redirect ((truthyText result.redirectUrl).getD (buildAppCenterFallback privateApp hostingCfg)))
  else
    match buildPrivateHostRedirect env req hostingCfg with
    | some redirectUrl => .error (.redirect redirectUrl)
    | none => .error .hostMismatch

def siteGate (env : GateEnv) (config : ServerConfig) (apps : List GateApp) (req : GateRequest) (request : SiteRequest)
    (userId : ℕ) : Except GateReply (Option AccessCheck) :=
  let hostingCfg := buildHostingConfig config
  let associatedApp := resolveOwnedAppForHostedSite apps req (some userId) hostingCfg false
  match associatedApp.filter (·.isPrivate) with
  | some privateApp => (privateGate env config req request privateApp).map some
  | none =>
      if hostingCfg.privateDomains.contains request.matched then
        match buildPublicHostRedirect env req hostingCfg with
        | some redirectUrl => .error (.redirect redirectUrl)
        | none => .error .noSubdomain
      else .ok none

def puterSite (env : GateEnv) (siteEnv : SiteEnv) (config : ServerConfig) (sites : List HostedSite)
    (owners : List SiteOwner) (apps : List GateApp) (entries : List FSEntry) (req : GateRequest) : GateReply :=
  match readSiteRequest config req with
  | .error reply => reply
  | .ok request =>
      match findSite sites owners request.subdomain with
      | .error reply => reply
      | .ok (site, userId) =>
          match siteGate env config apps req request userId with
          | .error reply => reply
          | .ok passed => .site (serveSite siteEnv entries site.rootDirId req.path) passed

end PrivateAppGate

end Puter

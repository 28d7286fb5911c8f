/-
Module: Puter.Hosting.PrivateSites
Purpose: Whether the site of a private app is served through its gate only. The gate that a request has to pass is
  that of the first app of the owner whose index_url is spelled in one of the ways the gate looks for, so the
  site is open where the private app is spelled otherwise or stands behind another app.
Trusted boundary: those of the gate
Main exports: GateSpelled, puterSite_gated_iff
-/
import Puter.Hosting.IndexUrlCandidates
import Puter.Hosting.PrivateAppGate
import Puter.Hosting.PublishedFiles

namespace Puter

namespace PrivateAppGate

open PosixPath WebUrl FSEntryStore

def GateSpelled (config : ServerConfig) (req : GateRequest) (request : SiteRequest) (indexUrl : Text) : Prop :=
  ∃ host ∈ hostCandidates req (buildHostingConfig config) request.host request.subdomain,
    ∃ protocol ∈ protocolCandidates req (buildHostingConfig config), ∃ tail ∈ candidateTails,
      indexUrl = protocol ++ schemeSlashes ++ host ++ tail

/-- The first app of a user that is so spelled. -/
def FirstSpelled (config : ServerConfig) (req : GateRequest) (request : SiteRequest) (userId : ℕ) (apps : List GateApp)
    (app : GateApp) : Prop :=
  userId ≠ 0 ∧ ∃ before after, apps = before ++ app :: after ∧ app.ownerUserId = some userId ∧
    GateSpelled config req request app.indexUrl ∧
    ∀ other ∈ before, other.ownerUserId = some userId → ¬ GateSpelled config req request other.indexUrl

/-- The request is on a private domain, and the check of the app allows the user it comes from. -/
structure PassesGate (env : GateEnv) (config : ServerConfig) (req : GateRequest) (request : SiteRequest)
    (appUid userUid : Text) : Prop where
  privateHost : hostMatchesPrivateDomain request.host (buildHostingConfig config).privateDomains = true
  identified : (resolvePrivateIdentity env req config.cookieName appUid request.subdomain request.host).userUid =
    some userUid
  allowed : (env.privateAccessCheck ⟨appUid, userUid, request.host, req.path⟩).allowed = true

/-- A private app of the user whose index URL is on the site of this name. -/
structure PrivateAppOf (parse : HostParser) (config : ServerConfig) (userId : ℕ) (name : Text) (app : GateApp) :
    Prop where
  owned : app.ownerUserId = some userId
  isPrivate : app.isPrivate = true
  onSite : ∃ found hostedDomain, hostname parse app.indexUrl = some found ∧
    hostedDomain ∈ getPuterHostedDomains config.toHostedDomainConfig ∧ lowerText found = name ++ '.' :: hostedDomain

/-- A file is streamed only after the check of the app was passed. -/
def ServedThroughGate (env : GateEnv) (config : ServerConfig) (req : GateRequest) (request : SiteRequest)
    (reply : GateReply) (app : GateApp) : Prop :=
  ∀ entry status passed, reply = .site (.streams entry status) passed →
    ∃ userUid, PassesGate env config req request app.uid userUid ∧
      passed = some ⟨app.uid, userUid, request.host, req.path⟩

/-- The app is the one that is found, or else the request gets nothing: as there is no file, or as the private app
    that is found in its place refuses it, or as it is on a private domain and no private app is found. -/
def GateCovers (env : GateEnv) (siteEnv : SiteEnv) (config : ServerConfig) (apps : List GateApp)
    (entries : List FSEntry) (req : GateRequest) (request : SiteRequest) (site : HostedSite) (userId : ℕ)
    (app : GateApp) : Prop :=
  (∀ entry status, serveSite siteEnv entries site.rootDirId req.path ≠ .streams entry status) ∨
    (∃ row, FirstSpelled config req request userId apps row ∧ row.isPrivate = true ∧
      (row.uid = app.uid ∨ ∀ userUid, ¬ PassesGate env config req request row.uid userUid)) ∨
    (request.matched ∈ (buildHostingConfig config).privateDomains ∧
      ∀ row, FirstSpelled config req request userId apps row → row.isPrivate = false)

variable {env : GateEnv} {siteEnv : SiteEnv} {config : ServerConfig} {sites : List HostedSite}
  {owners : List SiteOwner} {apps : List GateApp} {entries : List FSEntry} {req : GateRequest}
  {request : SiteRequest} {userId : ℕ}

theorem mem_urlCandidates {indexUrl : Text} :
    indexUrl ∈ urlCandidates req (buildHostingConfig config) request.host request.subdomain ↔
      GateSpelled config req request indexUrl := by
  rw [urlCandidates, List.mem_eraseDups, GateSpelled]
  simp only [List.mem_flatMap, List.mem_map]
  constructor
  · rintro ⟨host, isHost, protocol, isProtocol, tail, isTail, rfl⟩
    exact ⟨host, isHost, protocol, isProtocol, tail, isTail, rfl⟩
  · rintro ⟨host, isHost, protocol, isProtocol, tail, isTail, rfl⟩
    exact ⟨host, isHost, protocol, isProtocol, tail, isTail, rfl⟩

theorem readSiteRequest_ok (isRequest : readSiteRequest config req = .ok request) :
    normalizeHost req.hostname = some request.host ∧ request.subdomain ≠ [] ∧
      subdomainFromHost request.host
        ((buildHostingConfig config).staticDomains ++ (buildHostingConfig config).privateDomains) =
          request.subdomain := by
  have domains : (buildHostingConfig config).staticDomains ++ (buildHostingConfig config).privateDomains =
      (configuredHostedDomainValues config.toHostedDomainConfig).filterMap normalizeHost :=
    (@List.filterMap_append _ _ [config.staticHostingDomain, config.staticHostingDomainAlt]
      [config.privateAppHostingDomain, config.privateAppHostingDomainAlt] normalizeHost).symm
  unfold readSiteRequest at isRequest
  dsimp only at isRequest
  split at isRequest
  · cases isRequest
  · next host isHost =>
      split at isRequest
      · cases isRequest
      · next matched isMatched =>
          split at isRequest
          · cases isRequest
          · next below =>
              split at isRequest
              · cases isRequest
              · next named =>
                  cases isRequest
                  refine ⟨isHost, fun empty => named (.inl empty), ?_⟩
                  rw [domains, subdomainFromHost, isMatched]
                  dsimp only
                  rw [if_neg below, List.length_cons, Nat.sub_sub]

theorem resolveOwnedApp_some (isRequest : readSiteRequest config req = .ok request) {app : GateApp} :
    resolveOwnedAppForHostedSite apps req (some userId) (buildHostingConfig config) false = some app ↔
      FirstSpelled config req request userId apps app := by
  obtain ⟨isHost, named, sameName⟩ := readSiteRequest_ok isRequest
  cases userId with
  | zero => exact ⟨fun found => (nomatch found), fun first => absurd rfl first.1⟩
  | succ userId =>
      have asked : ∀ other : GateApp, (other.ownerUserId = some (userId + 1) && (!false || other.isPrivate) &&
          (urlCandidates req (buildHostingConfig config) request.host request.subdomain).contains other.indexUrl) =
            true ↔ other.ownerUserId = some (userId + 1) ∧ GateSpelled config req request other.indexUrl := by
        intro other
        simp [← mem_urlCandidates]
      rw [resolveOwnedAppForHostedSite, isHost]
      dsimp only
      rw [sameName, if_neg named, List.head?_take, if_neg (by decide), List.head?_filter,
        List.find?_eq_some_iff_append, asked]
      constructor
      · rintro ⟨⟨owned, spelled⟩, before, after, parts, others⟩
        refine ⟨Nat.succ_ne_zero _, before, after, parts, owned, spelled, fun other member isOwned isSpelled => ?_⟩
        have refused := others other member
        rw [(asked other).mpr ⟨isOwned, isSpelled⟩] at refused
        cases refused
      · rintro ⟨-, before, after, parts, owned, spelled, others⟩
        refine ⟨⟨owned, spelled⟩, before, after, parts, fun other member => ?_⟩
        rw [Bool.not_eq_true', Bool.eq_false_iff, ne_eq, asked]
        exact fun both => others other member both.1 both.2
      · exact Nat.succ_ne_zero userId

theorem firstSpelled_unique (isRequest : readSiteRequest config req = .ok request) {first second : GateApp}
    (isFirst : FirstSpelled config req request userId apps first)
    (isSecond : FirstSpelled config req request userId apps second) : first = second :=
  Option.some.inj (((resolveOwnedApp_some isRequest).mpr isFirst).symm.trans
    ((resolveOwnedApp_some isRequest).mpr isSecond))

theorem privateGate_ok {app : GateApp} {passed : AccessCheck} :
    privateGate env config req request app = .ok passed ↔
      ∃ userUid, PassesGate env config req request app.uid userUid ∧
        passed = ⟨app.uid, userUid, request.host, req.path⟩ := by
  rw [privateGate]
  dsimp only
  split
  · next onPrivate =>
      split
      · next nobody =>
          refine ⟨fun refused => (nomatch refused), ?_⟩
          rintro ⟨userUid, passes, -⟩
          cases nobody.symm.trans passes.identified
      · next userUid identified =>
          split
          · next allowed =>
              constructor
              · rintro ⟨⟩
                exact ⟨userUid, ⟨onPrivate, identified, allowed⟩, rfl⟩
              · rintro ⟨other, passes, rfl⟩
                cases identified.symm.trans passes.identified
                rfl
          · next refused =>
              refine ⟨fun opened => (nomatch opened), ?_⟩
              rintro ⟨other, passes, -⟩
              cases identified.symm.trans passes.identified
              exact absurd passes.allowed refused
  · next elsewhere =>
      constructor
      · intro opened
        split at opened <;> cases opened
      · rintro ⟨userUid, passes, -⟩
        exact absurd passes.privateHost elsewhere

theorem siteGate_ok (isRequest : readSiteRequest config req = .ok request) {passed : Option AccessCheck} :
    siteGate env config apps req request userId = .ok passed ↔
      (∃ row userUid, FirstSpelled config req request userId apps row ∧ row.isPrivate = true ∧
        PassesGate env config req request row.uid userUid ∧
        passed = some ⟨row.uid, userUid, request.host, req.path⟩) ∨
      ((∀ row, FirstSpelled config req request userId apps row → row.isPrivate = false) ∧
        request.matched ∉ (buildHostingConfig config).privateDomains ∧ passed = none) := by
  have found := fun app => @resolveOwnedApp_some config apps req request userId isRequest app
  rw [siteGate]
  cases gated : (resolveOwnedAppForHostedSite apps req (some userId) (buildHostingConfig config) false).filter
      (·.isPrivate) with
  | none =>
      have noPrivate : ∀ row, FirstSpelled config req request userId apps row → row.isPrivate = false := by
        intro row first
        have refused := Option.filter_eq_none_iff.mp gated row ((found row).mpr first)
        exact Bool.eq_false_iff.mpr refused
      constructor
      · intro opened
        dsimp only at opened
        split at opened
        · split at opened <;> cases opened
        · next away =>
            cases opened
            exact .inr ⟨noPrivate, by simpa using away, rfl⟩
      · rintro (⟨row, userUid, first, isPrivate, -⟩ | ⟨-, away, rfl⟩)
        · cases (noPrivate row first).symm.trans isPrivate
        · dsimp only
          rw [if_neg (by simpa using away)]
  | some privateApp =>
      obtain ⟨isFound, isPrivate⟩ := Option.filter_eq_some_iff.mp gated
      have first := (found privateApp).mp isFound
      constructor
      · intro opened
        dsimp only at opened
        cases isCheck : privateGate env config req request privateApp with
        | error reply =>
            rw [isCheck] at opened
            cases opened
        | ok check =>
            obtain ⟨userUid, passes, rfl⟩ := privateGate_ok.mp isCheck
            rw [isCheck] at opened
            cases opened
            exact .inl ⟨privateApp, userUid, first, isPrivate, passes, rfl⟩
      · rintro (⟨row, userUid, isFirst, -, passes, rfl⟩ | ⟨noPrivate, -⟩)
        · obtain rfl : privateApp = row := Option.some.inj (isFound.symm.trans ((found row).mpr isFirst))
          dsimp only
          rw [privateGate_ok.mpr ⟨userUid, passes, rfl⟩]
          rfl
        · cases (noPrivate privateApp first).symm.trans isPrivate

theorem toMainSite_ne (config : ServerConfig) (req : GateRequest) (served : SiteReply) (passed : Option AccessCheck) :
    toMainSite config req ≠ .site served passed := by
  rw [toMainSite]
  split
  · nofun
  · nofun

theorem readSiteRequest_error {reply : GateReply} (refused : readSiteRequest config req = .error reply)
    (served : SiteReply) (passed : Option AccessCheck) : reply ≠ .site served passed := by
  unfold readSiteRequest at refused
  dsimp only at refused
  split at refused
  · cases refused
    nofun
  · split at refused
    · cases refused
      nofun
    · split at refused
      · cases refused
        exact toMainSite_ne config req served passed
      · split at refused
        · cases refused
          exact toMainSite_ne config req served passed
        · cases refused

theorem findSite_error {subdomain : Text} {reply : GateReply} (refused : findSite sites owners subdomain = .error reply) :
    reply = .noSubdomain := by
  unfold findSite at refused
  split at refused
  · exact (Except.error.inj refused).symm
  · split at refused
    · exact (Except.error.inj refused).symm
    · split at refused
      · exact (Except.error.inj refused).symm
      · split at refused
        · exact (Except.error.inj refused).symm
        · cases refused

theorem privateGate_error {app : GateApp} {reply : GateReply}
    (refused : privateGate env config req request app = .error reply) (served : SiteReply)
    (passed : Option AccessCheck) : reply ≠ .site served passed := by
  unfold privateGate at refused
  dsimp only at refused
  split at refused
  · split at refused
    · cases refused
      nofun
    · split at refused
      · cases refused
      · cases refused
        nofun
  · split at refused
    · cases refused
      nofun
    · cases refused
      nofun

theorem siteGate_error {reply : GateReply} (refused : siteGate env config apps req request userId = .error reply)
    (served : SiteReply) (passed : Option AccessCheck) : reply ≠ .site served passed := by
  unfold siteGate at refused
  dsimp only at refused
  split at refused
  · next privateApp _ =>
      cases shut : privateGate env config req request privateApp with
      | error answer =>
          rw [shut] at refused
          cases refused
          exact privateGate_error shut served passed
      | ok check =>
          rw [shut] at refused
          cases refused
  · split at refused
    · split at refused
      · cases refused
        nofun
      · cases refused
        nofun
    · cases refused

theorem puterSite_site {served : SiteReply} {passed : Option AccessCheck} :
    puterSite env siteEnv config sites owners apps entries req = .site served passed ↔
      ∃ request site userId, readSiteRequest config req = .ok request ∧
        findSite sites owners request.subdomain = .ok (site, userId) ∧
        siteGate env config apps req request userId = .ok passed ∧
        served = serveSite siteEnv entries site.rootDirId req.path := by
  constructor
  · intro replied
    unfold puterSite at replied
    split at replied
    · next refused => exact absurd replied (readSiteRequest_error refused served passed)
    · next request isRequest =>
        split at replied
        · next refused =>
            rw [findSite_error refused] at replied
            cases replied
        · next site userId isSite =>
            split at replied
            · next refused => exact absurd replied (siteGate_error refused served passed)
            · next isOpen =>
                cases replied
                exact ⟨request, site, userId, isRequest, isSite, isOpen, rfl⟩
  · rintro ⟨request, site, userId, isRequest, isSite, isOpen, rfl⟩
    rw [puterSite, isRequest]
    dsimp only
    rw [isSite]
    dsimp only
    rw [isOpen]

theorem servedThroughGate_iff {site : HostedSite} (isRequest : readSiteRequest config req = .ok request)
    (isSite : findSite sites owners request.subdomain = .ok (site, userId)) {app : GateApp} :
    ServedThroughGate env config req request (puterSite env siteEnv config sites owners apps entries req) app ↔
      GateCovers env siteEnv config apps entries req request site userId app := by
  have streams : ∀ {entry status passed},
      puterSite env siteEnv config sites owners apps entries req = .site (.streams entry status) passed ↔
        siteGate env config apps req request userId = .ok passed ∧
          serveSite siteEnv entries site.rootDirId req.path = .streams entry status := by
    intro entry status passed
    rw [puterSite_site]
    constructor
    · rintro ⟨other, otherSite, otherUser, isOther, isOtherSite, isOpen, served⟩
      cases isRequest.symm.trans isOther
      cases isSite.symm.trans isOtherSite
      exact ⟨isOpen, served.symm⟩
    · rintro ⟨isOpen, served⟩
      exact ⟨request, site, userId, isRequest, isSite, isOpen, served.symm⟩
  constructor
  · intro guarded
    by_cases nothing : ∀ entry status, serveSite siteEnv entries site.rootDirId req.path ≠ .streams entry status
    · exact .inl nothing
    · obtain ⟨entry, status, served⟩ : ∃ entry status,
          serveSite siteEnv entries site.rootDirId req.path = .streams entry status := by
        simpa using nothing
      by_cases noPrivate : ∀ row, FirstSpelled config req request userId apps row → row.isPrivate = false
      · refine .inr (.inr ⟨?_, noPrivate⟩)
        by_contra away
        have isOpen := (@siteGate_ok env config apps req request userId isRequest none).mpr (.inr ⟨noPrivate, away, rfl⟩)
        obtain ⟨userUid, -, isPassed⟩ := guarded entry status none (streams.mpr ⟨isOpen, served⟩)
        cases isPassed
      · obtain ⟨row, first, isPrivate⟩ : ∃ row, FirstSpelled config req request userId apps row ∧
            row.isPrivate = true := by
          simpa using noPrivate
        refine .inr (.inl ⟨row, first, isPrivate, ?_⟩)
        by_cases refuses : ∀ userUid, ¬ PassesGate env config req request row.uid userUid
        · exact .inr refuses
        · obtain ⟨userUid, passes⟩ := not_forall_not.mp refuses
          have isOpen := (siteGate_ok isRequest).mpr (.inl ⟨row, userUid, first, isPrivate, passes, rfl⟩)
          obtain ⟨other, -, isPassed⟩ := guarded entry status _ (streams.mpr ⟨isOpen, served⟩)
          exact .inl (congrArg AccessCheck.appUid (Option.some.inj isPassed))
  · intro covers entry status passed replied
    obtain ⟨isOpen, served⟩ := streams.mp replied
    obtain ⟨row, userUid, first, isPrivate, passes, rfl⟩ | ⟨noPrivate, away, rfl⟩ := (siteGate_ok isRequest).mp isOpen
    · obtain nothing | ⟨found, isFirst, -, same | refuses⟩ | ⟨-, noPrivate⟩ := covers
      · exact absurd served (nothing entry status)
      · obtain rfl := firstSpelled_unique isRequest isFirst first
        exact ⟨userUid, same ▸ passes, by rw [same]⟩
      · obtain rfl := firstSpelled_unique isRequest isFirst first
        exact absurd passes (refuses userUid)
      · cases (noPrivate row first).symm.trans isPrivate
    · obtain nothing | ⟨found, isFirst, isPrivate, -⟩ | ⟨inside, -⟩ := covers
      · exact absurd served (nothing entry status)
      · cases (noPrivate found isFirst).symm.trans isPrivate
      · exact absurd inside away

/-- A file is streamed to a request for a site with an owner in good standing only. The site of a private app is
    served through its gate exactly if the app is covered. -/
theorem puterSite_gated_iff (parse : HostParser) (env : GateEnv) (siteEnv : SiteEnv) (config : ServerConfig)
    (sites : List HostedSite) (owners : List SiteOwner) (apps : List GateApp) (entries : List FSEntry)
    (req : GateRequest) :
    (∀ entry status passed,
      puterSite env siteEnv config sites owners apps entries req = .site (.streams entry status) passed →
        ∃ request site userId, readSiteRequest config req = .ok request ∧
          findSite sites owners request.subdomain = .ok (site, userId)) ∧
    ((∀ request site userId, readSiteRequest config req = .ok request →
        findSite sites owners request.subdomain = .ok (site, userId) →
        ∀ app ∈ apps, PrivateAppOf parse config userId request.subdomain app →
          ServedThroughGate env config req request
            (puterSite env siteEnv config sites owners apps entries req) app) ↔
      ∀ request site userId, readSiteRequest config req = .ok request →
        findSite sites owners request.subdomain = .ok (site, userId) →
        ∀ app ∈ apps, PrivateAppOf parse config userId request.subdomain app →
          GateCovers env siteEnv config apps entries req request site userId app) := by
  constructor
  · intro entry status passed replied
    obtain ⟨request, site, userId, isRequest, isSite, -⟩ := puterSite_site.mp replied
    exact ⟨request, site, userId, isRequest, isSite⟩
  · constructor
    · intro guarded request site userId isRequest isSite app member isPrivateApp
      exact (servedThroughGate_iff isRequest isSite).mp
        (guarded request site userId isRequest isSite app member isPrivateApp)
    · intro covered request site userId isRequest isSite app member isPrivateApp
      exact (servedThroughGate_iff isRequest isSite).mpr
        (covered request site userId isRequest isSite app member isPrivateApp)

def sampleServer : ServerConfig where
  toHostedDomainConfig := { sampleHosting with privateAppHostingDomain := some ['v', '.', 'i', 'o'] }
  domain := none
  cookieName := none

def closedGate : GateEnv where
  privateAssetCookieNameV2 := ['c']
  privateAssetCookieName := ['d']
  verifyPrivateAssetToken := fun _ _ _ _ => none
  authenticateFromToken := fun _ => none
  searchParam := fun _ _ => none
  resolveUrl := fun _ _ => none
  privateAccessCheck := fun _ => ⟨false, none⟩

def privateAppOnPage : GateApp where
  uid := ['a']
  name := none
  ownerUserId := some 1
  indexUrl := candidateIndexUrl ++ ['x']
  isPrivate := true

def anonymousRequest : GateRequest where
  hostname := some ['s', '.', 'p', '.', 'i', 'o']
  headerHost := some ['s', '.', 'p', '.', 'i', 'o']
  protocol := httpsText
  originalUrl := some ['/']
  path := ['/']
  cookies := []
  actor := none
  authorization := none
  queryPuterToken := none
  queryAuthToken := none
  puterAuthToken := none
  referrer := none

/-- The site of a private app whose URL names a page is served to anyone. -/
theorem private_site_streamed : ∃ request site entry,
    readSiteRequest sampleServer anonymousRequest = .ok request ∧
      findSite [⟨['s'], some 1, some 2⟩] [⟨1, false⟩] request.subdomain = .ok (site, 1) ∧
      PrivateAppOf plainHosts sampleServer 1 request.subdomain privateAppOnPage ∧
      puterSite closedGate plainSiteEnv sampleServer [⟨['s'], some 1, some 2⟩] [⟨1, false⟩] [privateAppOnPage]
        siteState.entries anonymousRequest = .site (.streams entry none) none ∧
      ¬ ServedThroughGate closedGate sampleServer anonymousRequest request
        (puterSite closedGate plainSiteEnv sampleServer [⟨['s'], some 1, some 2⟩] [⟨1, false⟩] [privateAppOnPage]
          siteState.entries anonymousRequest) privateAppOnPage := by
  have streamed : puterSite closedGate plainSiteEnv sampleServer [⟨['s'], some 1, some 2⟩] [⟨1, false⟩]
      [privateAppOnPage] siteState.entries anonymousRequest =
        .site (.streams (sampleRow 3 1 (some 2) indexHtml (siteRoot.path ++ '/' :: indexHtml) false 7) none) none := by
    decide +kernel
  have onSite : PrivateAppOf plainHosts sampleServer 1 ['s'] privateAppOnPage :=
    ⟨rfl, rfl, ['s', '.', 'p', '.', 'i', 'o'], ['p', '.', 'i', 'o'], by decide +kernel, by decide +kernel,
      by decide +kernel⟩
  refine ⟨⟨['s', '.', 'p', '.', 'i', 'o'], ['p', '.', 'i', 'o'], ['s']⟩, ⟨['s'], some 1, some 2⟩, _, by decide +kernel,
    by decide +kernel, onSite, streamed, fun guarded => ?_⟩
  obtain ⟨userUid, -, isPassed⟩ := guarded _ _ _ streamed
  cases isPassed

end PrivateAppGate

end Puter

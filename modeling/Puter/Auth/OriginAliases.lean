/-
Module: Puter.Auth.OriginAliases
Purpose: The uid of the app of an origin (appUidFromOrigin of services/auth/AuthService.ts): hosts that are configured
  as aliases are replaced by the first of their group in alphabetical order, and the oldest app with one of the URLs
  of
  the origin is looked up, or the uid is made from the text of the origin. The replacement goes through the setter of
  the host of a URL, which leaves the port where the member of the group has none.
Trusted boundary: the laws of the host parser; uuids of version 5
Main exports: OriginConfig, aliased_origins_collapse
-/
import Puter.Core.Actor
import Puter.Hosting.IndexUrlCandidates
import Puter.Kv.UpdateExpression
import Puter.Library.WebOrigins

namespace Puter

open PosixPath WebUrl

/-- The configuration that the resolution of origins reads. -/
structure OriginConfig where
  appOriginAliases : Option Json
  hosting : HostedDomainConfig

/-- What is called on the way: the host parser of URLs, the uuid of a name, the listeners of `app.from-origin`, and
    the
    list of blocked origins. -/
structure OriginEnv where
  parse : HostParser
  uuidv5 : Text → Text
  fromOrigin : Text → Text
  isOriginBlocked : Text → Bool

namespace AuthService

def textOf : Json → Option Text
  | .text text => some text
  | _ => none

def normalizedGroup (items : List Json) : List Text :=
  (((items.filterMap textOf).map fun host => lowerText (trim host)).filter (· ≠ [])).eraseDups

/-- One turn of the loop of `#getOriginAliasGroups`. -/
def aliasGroup : Json → Option (List Text)
  | .list items => if normalizedGroup items = [] then none else some (normalizedGroup items)
  | _ => none

def getOriginAliasGroups (config : OriginConfig) : List (List Text) :=
  match config.appOriginAliases with
  | some (.list raw) => raw.filterMap aliasGroup
  | _ => []

def findOriginAliasGroup (groups : List (List Text)) (host : Text) : Option (List Text) :=
  let lower := lowerText (trim host)
  if lower = [] then none else groups.find? (·.contains lower)

def charKey (c : Char) : ℕ :=
  if c.toNat < 0x10000 then c.toNat * 0x10000
  else (0xD800 + (c.toNat - 0x10000) / 0x400) * 0x10000 + (0xDC00 + (c.toNat - 0x10000) % 0x400)

def sortsBefore (one other : Text) : Prop := one.map charKey ≤ other.map charKey

instance : DecidableRel sortsBefore := fun one other =>
  inferInstanceAs (Decidable (one.map charKey ≤ other.map charKey))

/-- `[...group].sort()[0]` -/
def alphabeticFirst (group : List Text) : Option Text := (group.insertionSort sortsBefore).head?

/-- `#findOriginAliasGroup` of the host with its port, or else without. -/
def aliasGroupOf (groups : List (List Text)) (parsed : WebOrigin) : Option (List Text) :=
  (findOriginAliasGroup groups (lowerText parsed.host)).or (findOriginAliasGroup groups (lowerText parsed.hostname))

def canonicalizeAliasedOrigin (parse : HostParser) (groups : List (List Text)) (origin : Text) : Option Text :=
  (httpOrigin parse origin).bind fun parsed =>
    (aliasGroupOf groups parsed).bind fun group =>
      (alphabeticFirst group).bind fun canonical =>
        if canonical = [] ∨ canonical = lowerText parsed.host ∨ canonical = lowerText parsed.hostname then none
        else some (setHost parse parsed canonical).href

def stripPort (domain : Text) : Text :=
  if domain.takeWhile (· ≠ ':') = [] then domain else domain.takeWhile (· ≠ ':')

def getHostingDomains (config : HostedDomainConfig) : List Text :=
  let raw := (configuredHostedDomainValues config).filterMap normalizeHostedDomainValue
  (raw ++ raw.map stripPort).eraseDups

/-- The loop of `#hostedSubdomainForHost` over the hosting domains. -/
def subdomainUnder (hostRaw hostStripped : Text) : List Text → Option Text
  | [] => none
  | domain :: rest =>
      if hostRaw = domain ∨ hostStripped = domain then none
      else match [hostRaw, hostStripped].find? (('.' :: domain).isSuffixOf ·) with
        | some host =>
            let label := (host.take (host.length - ('.' :: domain).length)).takeWhile (· ≠ '.')
            if label = [] then none else some label
        | none => subdomainUnder hostRaw hostStripped rest

def hostedSubdomainForHost (hostRaw hostStripped : Text) (hostingDomains : List Text) : Option Text :=
  subdomainUnder hostRaw hostStripped
    (hostingDomains.insertionSort fun a b => utf16Length b ≤ utf16Length a)

def hostCandidates (config : OriginConfig) (parsed : WebOrigin) : List Text :=
  let hostRaw := lowerText parsed.host
  let hostStripped := lowerText parsed.hostname
  let hostingDomains := getHostingDomains config.hosting
  let siblings := match hostedSubdomainForHost hostRaw hostStripped hostingDomains with
    | some subdomain => hostingDomains.map fun domain => subdomain ++ '.' :: domain
    | none => []
  ([hostRaw, hostStripped] ++ siblings ++ (aliasGroupOf (getOriginAliasGroups config) parsed).getD []).eraseDups

def configuredProtocol (config : HostedDomainConfig) : Text :=
  let given := trim (config.protocol.getD [])
  let protocol := if given.getLast? = some ':' then given.dropLast else given
  if protocol = [] then ['h', 't', 't', 'p', 's'] else protocol

def urlCandidates (config : OriginConfig) (parsed : WebOrigin) : List Text :=
  let protocols :=
    [parsed.scheme, configuredProtocol config.hosting, ['h', 't', 't', 'p', 's'], ['h', 't', 't', 'p']].eraseDups
  (((hostCandidates config parsed).filter (· ≠ [])).flatMap fun host =>
  (protocols.filter (· ≠ [])).flatMap fun protocol =>
    candidateTails.map fun tail => protocol ++ schemeSlashes ++ host ++ tail).eraseDups

def findCanonicalAppUidForOrigin (parse : HostParser) (config : OriginConfig) (apps : List HostedApp)
    (origin : Text) :
    Option Text :=
  (httpOrigin parse origin).bind fun parsed =>
    let rows := apps.filter fun app => (urlCandidates config parsed).contains app.indexUrl
    ((rows.insertionSort fun a b => a.id ≤ b.id).head?.map (·.uid)).filter (· ≠ [])

def invalidOrigin : HttpError := ⟨400, "Invalid origin URL".toList, "bad_request".toList⟩

def appBlocked : HttpError :=
  ⟨403, "This app is not allowed to access Puter resources".toList, "app_blocked".toList⟩

def appUidFromOrigin (env : OriginEnv) (config : OriginConfig) (apps : List HostedApp) (origin : Text) :
    Except HttpError Text :=
  match httpOrigin env.parse origin with
  | none => .error invalidOrigin
  | some parsed =>
      let aliased := (canonicalizeAliasedOrigin env.parse (getOriginAliasGroups config) parsed.href).getD parsed.href
      let event := env.fromOrigin aliased
      if env.isOriginBlocked event then .error appBlocked
      else match findCanonicalAppUidForOrigin env.parse config apps event with
        | some uid => .ok uid
        | none => .ok ("app-".toList ++ env.uuidv5 event)

end AuthService

open AuthService

def AliasMember (parse : HostParser) (member : Text) : Prop :=
  ∃ host name, HostText host ∧ parse true host = some name ∧
    (member = host ∨ ∃ digits, digits ≠ [] ∧ isPort digits = true ∧ member = host ++ ':' :: digits)

def standIn (groups : List (List Text)) (origin : WebOrigin) : Text :=
  ((aliasGroupOf groups origin).bind alphabeticFirst).getD origin.host

def givenPort (member : Text) (origin : WebOrigin) : Option ℕ :=
  match (hostAndPort false member).2 with
  | some digits => keptPort origin.scheme digits
  | none => origin.port

def LandAlike (parse : HostParser) (groups : List (List Text)) (one other : WebOrigin) : Prop :=
  parse true (hostAndPort false (standIn groups one)).1 = parse true (hostAndPort false (standIn groups other)).1 ∧
    givenPort (standIn groups one) one = givenPort (standIn groups other) other

def landing (parse : HostParser) (groups : List (List Text)) (origin : WebOrigin) : WebOrigin :=
  setHost parse origin (standIn groups origin)

def FirstHasPort (group : List Text) : Prop :=
  ∃ canonical digits, alphabeticFirst group = some canonical ∧ (hostAndPort false canonical).2 = some digits

/-- Two values of the configuration that are groups with the same members in any order, or the same. -/
inductive ReorderedGroup : Json → Json → Prop where
  | same (value : Json) : ReorderedGroup value value
  | group {items items' : List Json} (perm : items.Perm items') : ReorderedGroup (.list items) (.list items')

def Reordered (config config' : OriginConfig) : Prop :=
  config.hosting = config'.hosting ∧ ∃ groups groups', config.appOriginAliases = some (.list groups) ∧
    config'.appOriginAliases = some (.list groups') ∧ List.Forall₂ ReorderedGroup groups groups'

section Order

theorem charKey_injective {c d : Char} (same : charKey c = charKey d) : c = d := by
  have numbers : c.toNat = d.toNat := by
    unfold charKey at same
    split at same
    · split at same
      · omega
      · omega
    · split at same
      · omega
      · omega
  exact Char.toNat_inj.mp numbers

theorem sortsBefore_total (one other : Text) : sortsBefore one other ∨ sortsBefore other one := le_total _ _

theorem sortsBefore_trans {one other third : Text} (first : sortsBefore one other)
    (second : sortsBefore other third) :
    sortsBefore one third := le_trans first second

theorem sortsBefore_antisymm {one other : Text} (first : sortsBefore one other) (second : sortsBefore other one) :
    one = other :=
  List.map_injective_iff.mpr (fun _ _ => charKey_injective) (le_antisymm first second)

instance : Std.Total sortsBefore := ⟨sortsBefore_total⟩

instance : IsTrans Text sortsBefore := ⟨fun _ _ _ => sortsBefore_trans⟩

theorem alphabeticFirst_iff {group : List Text} {canonical : Text} :
    alphabeticFirst group = some canonical ↔ canonical ∈ group ∧ ∀ member ∈ group, sortsBefore canonical member := by
  have first : ∀ {found}, alphabeticFirst group = some found →
      found ∈ group ∧ ∀ member ∈ group, sortsBefore found member := by
    intro found head
    rcases List.head?_eq_some_iff.mp head with ⟨rest, sorted⟩
    have ordered := List.pairwise_insertionSort sortsBefore group
    rw [sorted, List.pairwise_cons] at ordered
    constructor
    · rw [← List.mem_insertionSort sortsBefore, sorted]
      exact List.mem_cons_self
    · intro member isMember
      rw [← List.mem_insertionSort sortsBefore, sorted] at isMember
      cases List.mem_cons.mp isMember with
      | inl same => exact same ▸ le_refl _
      | inr later => exact ordered.1 member later
  constructor
  · exact first
  · rintro ⟨isMember, before⟩
    cases head : alphabeticFirst group with
    | none =>
        have sorted := List.head?_eq_none_iff.mp head
        rw [← List.mem_insertionSort sortsBefore, sorted] at isMember
        cases isMember
    | some found =>
        have isFirst := first head
        rw [sortsBefore_antisymm (isFirst.2 canonical isMember) (before found isFirst.1)]

theorem alphabeticFirst_congr {group group' : List Text} (same : ∀ member, member ∈ group ↔ member ∈ group') :
    alphabeticFirst group = alphabeticFirst group' := by
  apply Option.ext
  intro canonical
  rw [alphabeticFirst_iff, alphabeticFirst_iff]
  simp only [same]

end Order

section Landing

variable {parse : HostParser} {origin : WebOrigin} {groups : List (List Text)}

def SmallChar (c : Char) : Prop := (0x21 ≤ c.toNat ∧ c.toNat ≤ 0x7E) ∧ c.isUpper = false

theorem lowerText_small {value : Text} (small : ∀ c ∈ value, SmallChar c) : lowerText value = value := by
  have each : ∀ c ∈ value, lowerChar c = id c := by
    intro c member
    have notUpper := (small c member).2
    simp only [Char.isUpper, decide_eq_false_iff_not] at notUpper
    rw [lowerChar_printed (small c member).1, Char.toLower, dif_neg notUpper]
    rfl
  exact (List.map_congr_left each).trans (List.map_id value)

theorem digit_small {c : Char} (digit : c.isDigit = true) : SmallChar c := by
  have bounds : 48 ≤ c.toNat ∧ c.toNat ≤ 57 := by
    simp only [Char.isDigit, Bool.and_eq_true, decide_eq_true_eq, UInt32.le_iff_toNat_le] at digit
    exact digit
  refine ⟨⟨by omega, by omega⟩, ?_⟩
  rw [Char.isUpper, decide_eq_false_iff_not]
  rintro ⟨low, -⟩
  have isLow : 65 ≤ c.toNat := UInt32.le_iff_toNat_le.mp low
  omega

theorem hostname_small (hosts : SteadyHosts parse) (valid : origin.Valid parse) :
    ∀ c ∈ origin.hostname, SmallChar c := by
  intro c member
  refine ⟨hosts.printed true _ _ valid.host c member, ?_⟩
  by_cases bracket : origin.hostname.head? = some '['
  · rcases hosts.address _ _ valid.host bracket with ⟨inside, shape, digits⟩
    rw [shape, List.cons_append, List.mem_cons, List.mem_append, List.mem_singleton] at member
    rcases member with rfl | inner | rfl
    · decide
    · cases digits c inner with
      | inl digit => exact digit.2
      | inr colon =>
          rw [colon]
          decide
    · decide
  · exact (hosts.domain _ _ valid.host bracket c member).2.2.1

theorem host_small (hosts : SteadyHosts parse) (valid : origin.Valid parse) : ∀ c ∈ origin.host, SmallChar c := by
  intro c member
  cases List.mem_append.mp member with
  | inl inName => exact hostname_small hosts valid c inName
  | inr inPort =>
      cases port : origin.port with
      | none =>
          rw [port] at inPort
          cases inPort
      | some number =>
          rw [port] at inPort
          cases List.mem_cons.mp inPort with
          | inl colon =>
              rw [colon]
              exact ⟨by decide, by decide⟩
          | inr digit => exact digit_small (Nat.isDigit_of_mem_toDigits (by decide) (by decide) digit)

theorem hostname_ne_nil (hosts : SteadyHosts parse) (valid : origin.Valid parse) : origin.hostname ≠ [] :=
  hosts.nonempty _ _ valid.host

theorem findOriginAliasGroup_small {host : Text} (small : ∀ c ∈ host, SmallChar c) (nonempty : host ≠ []) :
    findOriginAliasGroup groups host = groups.find? (·.contains host) := by
  rw [findOriginAliasGroup, trim_printed fun c member => (small c member).1, lowerText_small small]
  exact if_neg nonempty

theorem aliasGroupOf_eq (hosts : SteadyHosts parse) (valid : origin.Valid parse) : aliasGroupOf groups origin =
    (groups.find? (·.contains origin.host)).or (groups.find? (·.contains origin.hostname)) := by
  have nonempty : origin.host ≠ [] := fun empty => hostname_ne_nil hosts valid (List.append_eq_nil_iff.mp empty).1
  rw [aliasGroupOf, lowerText_small (host_small hosts valid), lowerText_small (hostname_small hosts valid),
    findOriginAliasGroup_small (host_small hosts valid) nonempty,
    findOriginAliasGroup_small (hostname_small hosts valid) (hostname_ne_nil hosts valid)]

theorem aliasMember_host (hosts : SteadyHosts parse) (valid : origin.Valid parse) :
    AliasMember parse origin.host := by
  refine ⟨origin.hostname, origin.hostname, .of_host hosts valid.host, valid.host, ?_⟩
  cases port : origin.port with
  | none =>
      left
      rw [WebOrigin.host, port, portText, List.append_nil]
  | some number =>
      right
      refine ⟨Nat.toDigits 10 number, Nat.toDigits_ne_nil, isPort_toDigits (valid.port number port).1, ?_⟩
      rw [WebOrigin.host, port, portText]

theorem setHost_member (origin : WebOrigin) {member : Text} (isMember : AliasMember parse member) : ∃ name,
    parse true (hostAndPort false member).1 = some name ∧
      setHost parse origin member = ⟨origin.scheme, name, givenPort member origin⟩ := by
  rcases isMember with ⟨host, name, isHost, parsed, rfl | ⟨digits, any, isPortDigits, rfl⟩⟩
  · refine ⟨name, ?_, ?_⟩
    · rw [isHost.bare]
      exact parsed
    · rw [setHost_bare isHost parsed, givenPort, isHost.bare]
  · refine ⟨name, ?_, ?_⟩
    · rw [isHost.port]
      exact parsed
    · rw [setHost_port isHost parsed any isPortDigits, givenPort, isHost.port]

theorem setHost_own (hosts : SteadyHosts parse) (valid : origin.Valid parse) :
    setHost parse origin origin.host = origin := by
  have isHost : HostText origin.hostname := .of_host hosts valid.host
  cases port : origin.port with
  | none =>
      have bare : origin.host = origin.hostname := by
        rw [WebOrigin.host, port, portText, List.append_nil]
      rw [bare, setHost_bare isHost valid.host]
  | some number =>
      have printed : origin.host = origin.hostname ++ ':' :: Nat.toDigits 10 number := by
        rw [WebOrigin.host, port, portText]
      have inRange := valid.port number port
      rw [printed, setHost_port isHost valid.host Nat.toDigits_ne_nil (isPort_toDigits inRange.1),
        keptPort_toDigits inRange.2, ← port]

theorem canonicalize_eq (hosts : SteadyHosts parse) (valid : origin.Valid parse) :
    (canonicalizeAliasedOrigin parse groups origin.href).getD origin.href =
      (landing parse groups origin).href := by
  rw [canonicalizeAliasedOrigin, httpOrigin_href hosts valid, Option.bind_some, landing, standIn]
  cases aliasGroupOf groups origin with
  | none => exact (congrArg WebOrigin.href (setHost_own hosts valid)).symm
  | some group =>
      rw [Option.bind_some, Option.bind_some]
      cases alphabeticFirst group with
      | none => exact (congrArg WebOrigin.href (setHost_own hosts valid)).symm
      | some canonical =>
          rw [Option.bind_some, Option.getD_some, lowerText_small (host_small hosts valid),
            lowerText_small (hostname_small hosts valid)]
          split
          next kept =>
            rw [Option.getD_none]
            apply congrArg WebOrigin.href
            rcases kept with rfl | rfl | rfl
            · rfl
            · exact (setHost_own hosts valid).symm
            · exact (setHost_bare (.of_host hosts valid.host) valid.host).symm
          · rfl

end Landing

section Order

def SameMembers (group group' : List Text) : Prop := ∀ member, member ∈ group ↔ member ∈ group'

variable {config config' : OriginConfig} {groups groups' : List (List Text)}

theorem normalizedGroup_perm {items items' : List Json} (perm : items.Perm items') :
    SameMembers (normalizedGroup items) (normalizedGroup items') := by
  intro member
  simp only [normalizedGroup, List.mem_eraseDups, List.mem_filter, List.mem_map, List.mem_filterMap, perm.mem_iff]

theorem SameMembers.ne_nil {group group' : List Text} (same : SameMembers group group') (some_member : group ≠ []) :
    group' ≠ [] := by
  rcases List.exists_mem_of_ne_nil _ some_member with ⟨member, isMember⟩
  exact List.ne_nil_of_mem ((same member).mp isMember)

theorem SameMembers.symm {group group' : List Text} (same : SameMembers group group') : SameMembers group' group :=
  fun member => (same member).symm

theorem groups_reordered (reordered : Reordered config config') :
    List.Forall₂ SameMembers (getOriginAliasGroups config) (getOriginAliasGroups config') := by
  rcases reordered with ⟨-, raw, raw', isRaw, isRaw', each⟩
  rw [getOriginAliasGroups, getOriginAliasGroups, isRaw, isRaw']
  clear isRaw isRaw'
  change List.Forall₂ SameMembers (raw.filterMap aliasGroup) (raw'.filterMap aliasGroup)
  induction each with
  | nil => exact .nil
  | @cons value value' raw raw' reorderedGroup _ ih =>
      cases reorderedGroup with
      | same =>
          rw [List.filterMap_cons, List.filterMap_cons]
          split
          · exact ih
          · exact .cons (fun _ => Iff.rfl) ih
      | @group items items' perm =>
          have members := normalizedGroup_perm perm
          rw [List.filterMap_cons, List.filterMap_cons]
          by_cases empty : normalizedGroup items = []
          · have empty' : normalizedGroup items' = [] := by
              by_contra some_member
              exact members.symm.ne_nil some_member empty
            rw [aliasGroup, aliasGroup, if_pos empty, if_pos empty']
            exact ih
          · rw [aliasGroup, aliasGroup, if_neg empty, if_neg (members.ne_nil empty)]
            exact .cons members ih

theorem find_reordered (same : List.Forall₂ SameMembers groups groups') (host : Text) :
    Option.Rel SameMembers (findOriginAliasGroup groups host) (findOriginAliasGroup groups' host) := by
  rw [findOriginAliasGroup, findOriginAliasGroup]
  by_cases empty : lowerText (trim host) = []
  · simp only [empty, if_true]
    exact .none
  · simp only [empty, if_false]
    induction same with
    | nil => exact .none
    | @cons group group' groups groups' members _ ih =>
        have contains : group.contains (lowerText (trim host)) = group'.contains (lowerText (trim host)) := by
          rw [Bool.eq_iff_iff, List.contains_iff_mem, List.contains_iff_mem]
          exact members _
        rw [List.find?_cons, List.find?_cons, contains]
        split
        · exact .some members
        · exact ih

theorem aliasGroupOf_reordered (same : List.Forall₂ SameMembers groups groups') (origin : WebOrigin) :
    Option.Rel SameMembers (aliasGroupOf groups origin) (aliasGroupOf groups' origin) := by
  have raw := find_reordered same (lowerText origin.host)
  have stripped := find_reordered same (lowerText origin.hostname)
  rw [aliasGroupOf, aliasGroupOf]
  generalize findOriginAliasGroup groups (lowerText origin.host) = found at raw ⊢
  generalize findOriginAliasGroup groups' (lowerText origin.host) = found' at raw ⊢
  cases raw with
  | some members => exact .some members
  | none => exact stripped

theorem canonicalize_reordered (same : List.Forall₂ SameMembers groups groups') (parse : HostParser) (origin : Text) :
    canonicalizeAliasedOrigin parse groups origin = canonicalizeAliasedOrigin parse groups' origin := by
  rw [canonicalizeAliasedOrigin, canonicalizeAliasedOrigin]
  apply Option.bind_congr
  intro parsed _
  have related := aliasGroupOf_reordered same parsed
  generalize aliasGroupOf groups parsed = found at related ⊢
  generalize aliasGroupOf groups' parsed = found' at related ⊢
  cases related with
  | none => rfl
  | some members => rw [Option.bind_some, Option.bind_some, alphabeticFirst_congr members]

theorem mem_hostCandidates_reordered (reordered : Reordered config config') (parsed : WebOrigin) (host : Text) :
    host ∈ hostCandidates config parsed ↔ host ∈ hostCandidates config' parsed := by
  have related := aliasGroupOf_reordered (groups_reordered reordered) parsed
  have members : ∀ host, host ∈ (aliasGroupOf (getOriginAliasGroups config) parsed).getD [] ↔
      host ∈ (aliasGroupOf (getOriginAliasGroups config') parsed).getD [] := by
    intro host
    generalize aliasGroupOf (getOriginAliasGroups config) parsed = found at related ⊢
    generalize aliasGroupOf (getOriginAliasGroups config') parsed = found' at related ⊢
    cases related with
    | none => exact Iff.rfl
    | some members => exact members host
  simp only [hostCandidates, List.mem_eraseDups, List.mem_append, members, reordered.1]

theorem mem_urlCandidates_reordered (reordered : Reordered config config') (parsed : WebOrigin) (url : Text) :
    url ∈ urlCandidates config parsed ↔ url ∈ urlCandidates config' parsed := by
  simp only [urlCandidates, List.mem_eraseDups, List.mem_flatMap, List.mem_filter,
    mem_hostCandidates_reordered reordered, reordered.1]

theorem appUidFromOrigin_reordered (reordered : Reordered config config') (env : OriginEnv) (apps : List HostedApp)
    (origin : Text) : appUidFromOrigin env config' apps origin = appUidFromOrigin env config apps origin := by
  have canonical := canonicalize_reordered (groups_reordered reordered) env.parse
  have looked : ∀ text, findCanonicalAppUidForOrigin env.parse config apps text =
      findCanonicalAppUidForOrigin env.parse config' apps text := by
    intro text
    rw [findCanonicalAppUidForOrigin, findCanonicalAppUidForOrigin]
    apply Option.bind_congr
    intro parsed _
    have contains : ∀ url, (urlCandidates config parsed).contains url =
        (urlCandidates config' parsed).contains url := by
      intro url
      rw [Bool.eq_iff_iff, List.contains_iff_mem, List.contains_iff_mem]
      exact mem_urlCandidates_reordered reordered parsed url
    simp only [contains]
  rw [appUidFromOrigin, appUidFromOrigin]
  simp only [canonical, looked]

end Order

section Collapse

variable {env : OriginEnv} {config : OriginConfig} {one other : WebOrigin}

def uidOf (env : OriginEnv) (config : OriginConfig) (apps : List HostedApp) (event : Text) : Text :=
  (findCanonicalAppUidForOrigin env.parse config apps event).getD ("app-".toList ++ env.uuidv5 event)

theorem appUidFromOrigin_eq (hosts : SteadyHosts env.parse) (noListener : ∀ origin, env.fromOrigin origin = origin)
    (noneBlocked : ∀ origin, env.isOriginBlocked origin = false) (apps : List HostedApp) {origin : Text}
    (parsed : httpOrigin env.parse origin = some one) : appUidFromOrigin env config apps origin =
      .ok (uidOf env config apps (landing env.parse (getOriginAliasGroups config) one).href) := by
  rw [appUidFromOrigin, parsed]
  simp only [canonicalize_eq hosts (valid_httpOrigin hosts parsed), noListener, noneBlocked,
      Bool.false_eq_true, if_false]
  rw [uidOf]
  cases findCanonicalAppUidForOrigin env.parse config apps
      (landing env.parse (getOriginAliasGroups config) one).href with
  | none => rfl
  | some uid => rfl

theorem uidOf_no_apps (event : Text) : uidOf env config [] event = "app-".toList ++ env.uuidv5 event := by
  rw [uidOf, findCanonicalAppUidForOrigin]
  cases httpOrigin env.parse event with
  | none => rfl
  | some parsed => rfl

theorem aliasMember_standIn {parse : HostParser} {groups : List (List Text)} (hosts : SteadyHosts parse)
    (valid : one.Valid parse) (members : ∀ group ∈ groups, ∀ member ∈ group, AliasMember parse member) :
    AliasMember parse (standIn groups one) := by
  rw [standIn, aliasGroupOf_eq hosts valid]
  have among : ∀ group,
      (groups.find? (·.contains one.host)).or (groups.find? (·.contains one.hostname)) = some group →
      group ∈ groups := by
    intro group found
    cases Option.or_eq_some_iff.mp found with
    | inl raw => exact List.mem_of_find?_eq_some raw
    | inr stripped => exact List.mem_of_find?_eq_some stripped.2
  cases found : (groups.find? (·.contains one.host)).or (groups.find? (·.contains one.hostname)) with
  | none => exact aliasMember_host hosts valid
  | some group =>
      rw [Option.bind_some]
      cases first : alphabeticFirst group with
      | none => exact aliasMember_host hosts valid
      | some canonical => exact members group (among group found) canonical (alphabeticFirst_iff.mp first).1

theorem landing_eq_iff {parse : HostParser} {groups : List (List Text)} (hosts : SteadyHosts parse)
    (valid : one.Valid parse) (validOther : other.Valid parse) (sameScheme : one.scheme = other.scheme)
    (members : ∀ group ∈ groups, ∀ member ∈ group, AliasMember parse member) :
    landing parse groups one = landing parse groups other ↔ LandAlike parse groups one other := by
  rcases setHost_member one (aliasMember_standIn hosts valid members) with ⟨name, named, landed⟩
  rcases setHost_member other (aliasMember_standIn hosts validOther members) with
    ⟨name', named', landed'⟩
  rw [landing, landing, landed, landed', LandAlike, named, named', sameScheme]
  simp

theorem standIn_of_member {parse : HostParser} {groups : List (List Text)} {group : List Text}
    (hosts : SteadyHosts parse) (valid : one.Valid parse)
    (disjoint : groups.Pairwise fun one other => ∀ member ∈ one, member ∉ other) (isGroup : group ∈ groups)
    (isMember : one.host ∈ group) : standIn groups one = (alphabeticFirst group).getD one.host := by
  have found : groups.find? (·.contains one.host) = some group := by
    induction groups with
    | nil => cases isGroup
    | cons first groups ih =>
        rw [List.pairwise_cons] at disjoint
        rw [List.find?_cons]
        cases List.mem_cons.mp isGroup with
        | inl same =>
            rw [← same, List.contains_iff_mem.mpr isMember]
        | inr later =>
            have elsewhere : first.contains one.host = false := by
              rw [Bool.eq_false_iff, ne_eq, List.contains_iff_mem]
              intro here
              exact disjoint.1 group later one.host here isMember
            rw [elsewhere]
            exact ih disjoint.2 later
  rw [standIn, aliasGroupOf_eq hosts valid, found]
  rfl

theorem givenPort_eq_iff (canonical : Text) (sameScheme : one.scheme = other.scheme) :
    givenPort canonical one = givenPort canonical other ↔
      (∃ digits, (hostAndPort false canonical).2 = some digits) ∨ one.port = other.port := by
  rw [givenPort, givenPort, sameScheme]
  cases (hostAndPort false canonical).2 with
  | none => simp
  | some digits => simp

theorem landAlike_of_members {parse : HostParser} {groups : List (List Text)} {group : List Text}
    (hosts : SteadyHosts parse) (valid : one.Valid parse) (validOther : other.Valid parse)
    (sameScheme : one.scheme = other.scheme)
    (disjoint : groups.Pairwise fun one other => ∀ member ∈ one, member ∉ other) (isGroup : group ∈ groups)
    (isMember : one.host ∈ group) (isMemberOther : other.host ∈ group) :
    LandAlike parse groups one other ↔ FirstHasPort group ∨ one.port = other.port := by
  cases first : alphabeticFirst group with
  | none =>
      have sorted := List.head?_eq_none_iff.mp first
      rw [← List.mem_insertionSort sortsBefore, sorted] at isMember
      cases isMember
  | some canonical =>
      rw [LandAlike, standIn_of_member hosts valid disjoint isGroup isMember,
        standIn_of_member hosts validOther disjoint isGroup isMemberOther, first, Option.getD_some, Option.getD_some,
        givenPort_eq_iff canonical sameScheme, FirstHasPort, first]
      simp

theorem uids_eq_iff (hosts : SteadyHosts env.parse) (noListener : ∀ origin, env.fromOrigin origin = origin)
    (noneBlocked : ∀ origin, env.isOriginBlocked origin = false) {origin origin' : Text}
    (parsed : httpOrigin env.parse origin = some one) (parsedOther : httpOrigin env.parse origin' = some other)
    (noCollision : env.uuidv5 (landing env.parse (getOriginAliasGroups config) one).href =
      env.uuidv5 (landing env.parse (getOriginAliasGroups config) other).href →
      (landing env.parse (getOriginAliasGroups config) one).href =
        (landing env.parse (getOriginAliasGroups config) other).href) :
    (∀ apps, appUidFromOrigin env config apps origin = appUidFromOrigin env config apps origin') ↔
      landing env.parse (getOriginAliasGroups config) one =
          landing env.parse (getOriginAliasGroups config) other := by
  constructor
  · intro same
    have noApps := same []
    rw [appUidFromOrigin_eq hosts noListener noneBlocked [] parsed,
      appUidFromOrigin_eq hosts noListener noneBlocked [] parsedOther, Except.ok.injEq, uidOf_no_apps, uidOf_no_apps,
      List.append_cancel_left_eq] at noApps
    exact href_injective hosts (valid_setHost hosts (valid_httpOrigin hosts parsed))
      (valid_setHost hosts (valid_httpOrigin hosts parsedOther)) (noCollision noApps)
  · intro same apps
    rw [appUidFromOrigin_eq hosts noListener noneBlocked apps parsed,
      appUidFromOrigin_eq hosts noListener noneBlocked apps parsedOther, same]

/-- Two origins of one scheme whose hosts are members of one group get one uid from every table exactly when the first
    member of the group has a port or the origins have the same; any two get one uid exactly when the members that
    stand for them name one host and give one port; and the order of the members changes no answer. -/
theorem aliased_origins_collapse (hosts : SteadyHosts env.parse)
    (noListener : ∀ origin, env.fromOrigin origin = origin)
    (noneBlocked : ∀ origin, env.isOriginBlocked origin = false)
    (members : ∀ group ∈ getOriginAliasGroups config, ∀ member ∈ group, AliasMember env.parse member)
    (disjoint : (getOriginAliasGroups config).Pairwise fun one other => ∀ member ∈ one, member ∉ other)
    {origin origin' : Text} (parsed : httpOrigin env.parse origin = some one)
    (parsedOther : httpOrigin env.parse origin' = some other) (sameScheme : one.scheme = other.scheme)
    (noCollision : env.uuidv5 (landing env.parse (getOriginAliasGroups config) one).href =
      env.uuidv5 (landing env.parse (getOriginAliasGroups config) other).href →
      (landing env.parse (getOriginAliasGroups config) one).href =
        (landing env.parse (getOriginAliasGroups config) other).href) :
    (∀ group ∈ getOriginAliasGroups config, one.host ∈ group → other.host ∈ group →
      ((∀ apps, appUidFromOrigin env config apps origin = appUidFromOrigin env config apps origin') ↔
        FirstHasPort group ∨ one.port = other.port)) ∧
    ((∀ apps, appUidFromOrigin env config apps origin = appUidFromOrigin env config apps origin') ↔
      LandAlike env.parse (getOriginAliasGroups config) one other) ∧
    ∀ config', Reordered config config' → ∀ apps text,
      appUidFromOrigin env config' apps text = appUidFromOrigin env config apps text := by
  have valid := valid_httpOrigin hosts parsed
  have validOther := valid_httpOrigin hosts parsedOther
  have landed := (uids_eq_iff hosts noListener noneBlocked parsed parsedOther noCollision).trans
    (landing_eq_iff hosts valid validOther sameScheme members)
  refine ⟨fun group isGroup isMember isMemberOther => ?_, landed, fun config' reordered apps text =>
    appUidFromOrigin_reordered reordered env apps text⟩
  exact landed.trans (landAlike_of_members hosts valid validOther sameScheme disjoint isGroup isMember isMemberOther)

end Collapse

section Groups

def namedHosts : HostParser := fun special text => if text = [] then none else plainHosts special text

theorem namedHosts_some {special : Bool} {text host : Text} (parsed : namedHosts special text = some host) :
    host = text ∧ text ≠ [] ∧ ∀ c ∈ host, DomainChar c := by
  rw [namedHosts] at parsed
  split at parsed
  · cases parsed
  next named =>
    have plain := plainHosts_some parsed
    exact ⟨plain.1, named, plain.2⟩

theorem namedHosts_steady : SteadyHosts namedHosts where
  printed _ _ _ parsed c member :=
      ⟨((namedHosts_some parsed).2.2 c member).1, ((namedHosts_some parsed).2.2 c member).2.1⟩
  domain _ _ parsed _ := (namedHosts_some parsed).2.2
  brackets _ _ parsed opened := absurd ((namedHosts_some parsed).2.2 _ (List.mem_of_head? opened)) (by decide)
  fixed _ _ _ _ parsed := (namedHosts_some parsed).1
  nonempty _ _ parsed := (namedHosts_some parsed).1 ▸ (namedHosts_some parsed).2.1
  address _ _ parsed opened := absurd ((namedHosts_some parsed).2.2 _ (List.mem_of_head? opened)) (by decide)
  steady _ _ parsed := by
    have same := (namedHosts_some parsed).1
    rw [same] at parsed ⊢
    exact parsed

def originEnv : OriginEnv := ⟨namedHosts, id, id, fun _ => false⟩

def groupConfig (group : List String) : OriginConfig :=
  ⟨some (.list [.list (group.map fun host => .text host.toList)]), sampleHosting⟩

def twoHosts : OriginConfig := groupConfig ["B.com", "a.com"]

theorem twoHosts_one_app :
    getOriginAliasGroups twoHosts = [["b.com".toList, "a.com".toList]] ∧
      ∀ apps, appUidFromOrigin originEnv twoHosts apps "https://a.com".toList =
        appUidFromOrigin originEnv twoHosts apps "https://b.com/".toList := by
  have first : httpOrigin originEnv.parse "https://a.com".toList = some ⟨"https".toList, "a.com".toList, none⟩ := by
    decide +kernel
  have second : httpOrigin originEnv.parse "https://b.com/".toList = some ⟨"https".toList, "b.com".toList, none⟩ := by
    decide +kernel
  have groups : getOriginAliasGroups twoHosts = [["b.com".toList, "a.com".toList]] := by decide +kernel
  have wellFormed : ∀ group ∈ getOriginAliasGroups twoHosts, ∀ member ∈ group, AliasMember originEnv.parse member := by
    rw [groups]
    intro group isGroup member isMember
    rw [List.mem_singleton.mp isGroup] at isMember
    have plain : member ≠ [] ∧ originEnv.parse true member = some member := by
      rcases List.mem_cons.mp isMember with rfl | last
      · decide +kernel
      · rw [List.mem_singleton.mp last]
        decide +kernel
    exact ⟨member, member, .of_domain plain.1 (namedHosts_some plain.2).2.2, plain.2, .inl rfl⟩
  have disjoint : (getOriginAliasGroups twoHosts).Pairwise fun one other => ∀ member ∈ one, member ∉ other := by
    rw [groups]
    exact List.pairwise_singleton _ _
  have settled := aliased_origins_collapse namedHosts_steady (fun _ => rfl)
      (fun _ => rfl) wellFormed disjoint first second
    rfl id
  have answered := settled.1 ["b.com".toList, "a.com".toList] (groups ▸ List.mem_singleton_self _) (by decide +kernel)
    (by decide +kernel)
  exact ⟨groups, answered.mpr (.inr rfl)⟩

def portedAlias : OriginConfig := groupConfig ["a.com", "b.com:8443"]

/-- The origin with the port keeps it, and gets another uid than the other origin of its group. -/
theorem aliased_origins_apart :
    getOriginAliasGroups portedAlias = [["a.com".toList, "b.com:8443".toList]] ∧
      appUidFromOrigin originEnv portedAlias [] "https://a.com".toList ≠
        appUidFromOrigin originEnv portedAlias [] "https://b.com:8443".toList := by
  decide +kernel

end Groups

end Puter

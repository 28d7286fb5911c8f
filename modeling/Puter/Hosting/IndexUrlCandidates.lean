/-
Module: Puter.Hosting.IndexUrlCandidates
Purpose: Which URLs on a hosted site are among its candidates. The URL parser takes a URL in any spelling, with any
  path, port, query or credentials, while the candidates are exact texts: a URL that resolves to a name is one
  of the candidates of the name exactly if it is spelled out as these are. As long as the apps of others
  are, the search by candidates finds one exactly if one resolves to the name.
Trusted boundary: the laws of the host parser
Main exports: candidates_cover
-/
import Puter.Hosting.HostedAppBacking

namespace Puter

open PosixPath WebUrl

/-- Hosting domains are domain names with a port or without, and the protocol is http or https. -/
structure HostedDomainConfig.WellFormed (config : HostedDomainConfig) : Prop where
  domains : ∀ value ∈ configuredHostedDomainValues config, ∀ form, normalizeHostedDomainValue value = some form →
    ∃ bare port, form = bare ++ port ∧ bare ≠ [] ∧ (∀ c ∈ bare, DomainChar c) ∧ EndsInName bare ∧ PortText port
  protocols : ∀ protocol ∈ candidateProtocols config, IsHttp protocol

def hostedPorts (config : HostedDomainConfig) (hostedDomain : Text) : List Text :=
  (hostedDomainForms config).filterMap fun form =>
    if form.takeWhile (· ≠ ':') = hostedDomain then some (form.dropWhile (· ≠ ':')) else none

/-- The URL is a protocol, its own hostname, perhaps the port that the config gives to the hosting domain, and
    nothing else, a slash or the index. -/
def SpelledOut (parse : HostParser) (config : HostedDomainConfig) (indexUrl : Text) : Prop :=
  ∃ found hostedDomain, hostname parse indexUrl = some found ∧
    hostingDomainOf config (lowerText found) = some hostedDomain ∧
    ∃ protocol ∈ candidateProtocols config, ∃ port ∈ hostedPorts config hostedDomain, ∃ tail ∈ candidateTails,
      indexUrl = protocol ++ schemeSlashes ++ (lowerText found ++ port ++ tail)

/-- The URL is spelled out for the name, under a hosting domain that is not the longest its host is under. -/
def Overshadowed (config : HostedDomainConfig) (name indexUrl : Text) : Prop :=
  ∃ hostedDomain longest, hostingDomainOf config (name ++ '.' :: hostedDomain) = some longest ∧
    longest ≠ hostedDomain ∧
    ∃ protocol ∈ candidateProtocols config, ∃ port ∈ hostedPorts config hostedDomain, ∃ tail ∈ candidateTails,
      indexUrl = protocol ++ schemeSlashes ++ (name ++ '.' :: hostedDomain ++ port ++ tail)

def SiteName (name : Text) : Prop := name ≠ [] ∧ ∀ c ∈ name, DomainChar c ∧ c ≠ '.'

section Texts

theorem lowerChar_printed {c : Char} (printed : 0x21 ≤ c.toNat ∧ c.toNat ≤ 0x7E) : lowerChar c = c.toLower := by
  have notKelvin : c ≠ Char.ofNat 0x212A := by
    rintro rfl
    exact absurd printed (by decide)
  rw [lowerChar, if_neg notKelvin]

theorem printed_induction {motive : Char → Prop} (each : ∀ n ≤ 0x7E, 0x21 ≤ n → motive (Char.ofNat n)) {c : Char}
    (printed : 0x21 ≤ c.toNat ∧ c.toNat ≤ 0x7E) : motive c := by
  have isNumber := each c.toNat printed.2 printed.1
  rwa [Char.ofNat_toNat] at isNumber

theorem lowerChar_lower {c : Char} (printed : 0x21 ≤ c.toNat ∧ c.toNat ≤ 0x7E) :
    lowerChar (lowerChar c) = lowerChar c ∧ 0x21 ≤ (lowerChar c).toNat ∧ (lowerChar c).toNat ≤ 0x7E :=
  @printed_induction (fun c => lowerChar (lowerChar c) = lowerChar c ∧ 0x21 ≤ (lowerChar c).toNat ∧
    (lowerChar c).toNat ≤ 0x7E) (by decide +kernel) c printed

theorem lowerChar_domain {c : Char} (domain : DomainChar c) : lowerChar c = c := by
  have notUpper := domain.2.2.1
  simp only [Char.isUpper, decide_eq_false_iff_not] at notUpper
  rw [lowerChar_printed ⟨domain.1, domain.2.1⟩, Char.toLower, dif_neg notUpper]

theorem lowerText_domain {value : Text} (domain : ∀ c ∈ value, DomainChar c) : lowerText value = value :=
  (List.map_congr_left fun c member => lowerChar_domain (domain c member)).trans (List.map_id value)

theorem isSpace_printed {c : Char} (printed : 0x21 ≤ c.toNat ∧ c.toNat ≤ 0x7E) : isSpace c = false :=
  @printed_induction (fun c => isSpace c = false) (by decide +kernel) c printed

theorem trim_printed {value : Text} (printed : ∀ c ∈ value, 0x21 ≤ c.toNat ∧ c.toNat ≤ 0x7E) : trim value = value := by
  have front : value.dropWhile isSpace = value := by
    cases value with
    | nil => rfl
    | cons first rest => simp [isSpace_printed (printed first List.mem_cons_self)]
  rw [trim, front, List.rdropWhile_eq_self_iff]
  intro nonempty
  simp [isSpace_printed (printed _ (List.getLast_mem nonempty))]

theorem endsInName_below {name domain : Text} (ends : EndsInName domain) : EndsInName (name ++ '.' :: domain) := by
  have same : (name ++ '.' :: domain).rtakeWhile (· != '.') = domain.rtakeWhile (· != '.') := by
    rw [List.rtakeWhile, List.rtakeWhile, List.reverse_append, List.reverse_cons, List.append_assoc,
      List.takeWhile_append]
    split
    · next whole => simp [(List.takeWhile_prefix (· != '.')).eq_of_length whole]
    · rfl
  rwa [EndsInName, same]

end Texts

section Candidates

variable {config : HostedDomainConfig} {parse : HostParser} {indexUrl name : Text}

theorem mem_getPuterHostedDomains {hostedDomain : Text} :
    hostedDomain ∈ getPuterHostedDomains config ↔
      ∃ value ∈ configuredHostedDomainValues config, normalizeConfiguredHostedDomain value = some hostedDomain := by
  rw [getPuterHostedDomains, List.mem_eraseDups, List.mem_filterMap]

theorem takeWhile_port {bare port : Text} (domain : ∀ c ∈ bare, DomainChar c) (isPort : PortText port) :
    (bare ++ port).takeWhile (· ≠ ':') = bare ∧ (bare ++ port).dropWhile (· ≠ ':') = port := by
  have inside : ∀ c ∈ bare, decide (c ≠ ':') = true := by
    intro c member
    rw [decide_eq_true_eq]
    rintro rfl
    exact (domain _ member).2.2.2 (by simp)
  rw [List.takeWhile_append_of_pos inside, List.dropWhile_append_of_pos inside]
  obtain rfl | ⟨digits, rfl, -⟩ := isPort
  · simp
  · simp

theorem form_parts (wf : config.WellFormed) {form : Text} (member : form ∈ hostedDomainForms config) :
    ∃ bare port, form = bare ++ port ∧ bare ∈ getPuterHostedDomains config ∧ (∀ c ∈ bare, DomainChar c) ∧
      EndsInName bare ∧ PortText port := by
  obtain ⟨value, isValue, member⟩ := List.mem_flatMap.mp member
  have whole : ∀ normalized, normalizeHostedDomainValue value = some normalized →
      ∃ bare port, normalized = bare ++ port ∧ normalizeConfiguredHostedDomain value = some bare ∧
        (∀ c ∈ bare, DomainChar c) ∧ EndsInName bare ∧ PortText port := by
    intro normalized isForm
    obtain ⟨bare, port, rfl, nonempty, domain, ends, isPort⟩ := wf.domains value isValue normalized isForm
    refine ⟨bare, port, rfl, ?_, domain, ends, isPort⟩
    rw [normalizeConfiguredHostedDomain, isForm, Option.map_some, (takeWhile_port domain isPort).1]
    simp [nonempty]
  obtain withPort | isBare := List.mem_append.mp member
  · obtain ⟨bare, port, rfl, isBare, domain, ends, isPort⟩ := whole form (Option.mem_toList.mp withPort)
    exact ⟨bare, port, rfl, mem_getPuterHostedDomains.mpr ⟨value, isValue, isBare⟩, domain, ends, isPort⟩
  · have isForm := Option.mem_toList.mp isBare
    cases normal : normalizeHostedDomainValue value with
    | none =>
        rw [normalizeConfiguredHostedDomain, normal] at isForm
        cases isForm
    | some normalized =>
        obtain ⟨bare, port, -, bareForm, domain, ends, -⟩ := whole normalized normal
        obtain rfl : bare = form := Option.some.inj (bareForm.symm.trans isForm)
        exact ⟨bare, [], (List.append_nil _).symm, mem_getPuterHostedDomains.mpr ⟨value, isValue, bareForm⟩, domain,
          ends, .inl rfl⟩

theorem mem_candidates (nonempty : lowerText (trim name) ≠ []) :
    indexUrl ∈ buildHostedSubdomainIndexUrlCandidates name config ↔
      ∃ form ∈ hostedDomainForms config, ∃ protocol ∈ candidateProtocols config, ∃ tail ∈ candidateTails,
        indexUrl = protocol ++ schemeSlashes ++ (lowerText (trim name) ++ '.' :: form ++ tail) := by
  rw [buildHostedSubdomainIndexUrlCandidates]
  simp only [if_neg nonempty, List.mem_eraseDups, List.mem_flatMap, List.mem_map]
  constructor
  · rintro ⟨_, ⟨form, isForm, rfl⟩, protocol, isProtocol, tail, isTail, rfl⟩
    exact ⟨form, isForm, protocol, isProtocol, tail, isTail, by simp⟩
  · rintro ⟨form, isForm, protocol, isProtocol, tail, isTail, rfl⟩
    exact ⟨_, ⟨form, isForm, rfl⟩, protocol, isProtocol, tail, isTail, by simp⟩

theorem candidateTails_text {tail : Text} (member : tail ∈ candidateTails) : TailText tail := by
  simp only [candidateTails, List.mem_cons, List.not_mem_nil, or_false] at member
  obtain rfl | rfl | rfl := member
  · exact .inl rfl
  · exact .inr ⟨[], rfl, fun _ member => nomatch member⟩
  · exact .inr ⟨indexHtml, rfl, by simp [indexHtml, isControlOrSpace]⟩

theorem hostingDomainOf_some {host hostedDomain : Text} (found : hostingDomainOf config host = some hostedDomain) :
    hostedDomain ∈ getPuterHostedDomains config ∧ ∃ front, host = front ++ '.' :: hostedDomain := by
  have member := List.mem_of_find?_eq_some found
  rw [List.mem_insertionSort] at member
  obtain ⟨front, isFront⟩ : '.' :: hostedDomain <:+ host := by simpa using List.find?_some found
  exact ⟨member, front, isFront.symm⟩

theorem extract_some {subdomain : Text}
    (extracted : extractPuterHostedSubdomain parse indexUrl config = some subdomain) :
    ∃ found hostedDomain, hostname parse indexUrl = some found ∧
      hostingDomainOf config (lowerText found) = some hostedDomain ∧
      lowerText found = subdomain ++ '.' :: hostedDomain ∧ subdomain ≠ [] := by
  unfold extractPuterHostedSubdomain at extracted
  split at extracted
  · cases extracted
  · obtain ⟨found, isFound, extracted⟩ := Option.bind_eq_some_iff.mp extracted
    obtain ⟨hostedDomain, isDomain, extracted⟩ := Option.bind_eq_some_iff.mp extracted
    obtain ⟨-, front, shape⟩ := hostingDomainOf_some isDomain
    have cut : (lowerText found).take ((lowerText found).length - ('.' :: hostedDomain).length) = front := by
      rw [shape, List.length_append, Nat.add_sub_cancel, List.take_left]
    dsimp only at extracted
    rw [cut] at extracted
    split at extracted
    · cases extracted
    · next nonempty =>
        cases extracted
        exact ⟨found, hostedDomain, isFound, isDomain, shape, nonempty⟩

theorem extracted_name (lawful : LawfulHosts parse) {found front back : Text}
    (isFound : hostname parse indexUrl = some found) (shape : lowerText found = front ++ back) :
    lowerText (trim front) = front := by
  have printed : ∀ c ∈ found, 0x21 ≤ c.toNat ∧ c.toNat ≤ 0x7E := by
    obtain rfl | ⟨special, text, parsed⟩ := hostname_some isFound
    · exact fun c member => nomatch member
    · exact lawful.printed special text found parsed
  have lowered : ∀ c ∈ front, (0x21 ≤ c.toNat ∧ c.toNat ≤ 0x7E) ∧ lowerChar c = c := by
    intro c member
    have among : c ∈ lowerText found := shape ▸ List.mem_append_left _ member
    obtain ⟨d, inFound, rfl⟩ := List.mem_map.mp among
    exact ⟨(lowerChar_lower (printed d inFound)).2, (lowerChar_lower (printed d inFound)).1⟩
  rw [trim_printed fun c member => (lowered c member).1]
  exact (List.map_congr_left fun c member => (lowered c member).2).trans (List.map_id front)

theorem host_domain (lawful : LawfulHosts parse) {found text front bare : Text}
    (parsed : parse true text = some found) (shape : lowerText found = front ++ '.' :: bare)
    (nonempty : bare ≠ []) (domain : ∀ c ∈ bare, DomainChar c) : ∀ c ∈ found, DomainChar c := by
  refine lawful.domain text found parsed fun opened => ?_
  have closed := lawful.brackets text found parsed opened
  have ends : (lowerText found).getLast? = some ']' := by
    rw [lowerText, List.getLast?_map, closed]
    rfl
  rw [shape, List.getLast?_append_of_ne_nil _ (List.cons_ne_nil _ _)] at ends
  obtain ⟨first, rest, rfl⟩ := List.exists_cons_of_ne_nil nonempty
  rw [List.getLast?_cons_cons] at ends
  exact (domain _ (List.mem_of_getLast? ends)).2.2.2 (by simp)

theorem candidate_host (wf : config.WellFormed) (lawful : LawfulHosts parse) {form protocol tail found : Text}
    (isName : name ≠ [] ∧ ∀ c ∈ name, DomainChar c) {bare port : Text} (isForm : form = bare ++ port)
    (domain : ∀ c ∈ bare, DomainChar c) (ends : EndsInName bare) (isPort : PortText port)
    (isProtocol : protocol ∈ candidateProtocols config) (isTail : tail ∈ candidateTails)
    (isFound : hostname parse (protocol ++ schemeSlashes ++ (name ++ '.' :: form ++ tail)) = some found) :
    found = name ++ '.' :: bare := by
  have whole : ∀ c ∈ name ++ '.' :: bare, DomainChar c := by
    intro c member
    obtain inName | inDomain := List.mem_append.mp member
    · exact isName.2 c inName
    · obtain rfl | inDomain := List.mem_cons.mp inDomain
      · decide
      · exact domain c inDomain
  have spelled : name ++ '.' :: form ++ tail = name ++ '.' :: bare ++ port ++ tail := by simp [isForm]
  rw [spelled] at isFound
  have parsed := hostname_plain (wf.protocols protocol isProtocol) (by simp) whole isPort
    (candidateTails_text isTail) isFound
  exact lawful.fixed _ _ whole (endsInName_below ends) parsed

theorem form_of_port {hostedDomain port : Text} (isPort : port ∈ hostedPorts config hostedDomain) :
    hostedDomain ++ port ∈ hostedDomainForms config := by
  obtain ⟨form, isForm, cut⟩ := List.mem_filterMap.mp isPort
  split at cut
  · next isBare =>
      cases cut
      rwa [← isBare, List.takeWhile_append_dropWhile]
  · cases cut

theorem port_of_form {bare port : Text} (domain : ∀ c ∈ bare, DomainChar c) (isPort : PortText port)
    (isForm : bare ++ port ∈ hostedDomainForms config) : port ∈ hostedPorts config bare := by
  refine List.mem_filterMap.mpr ⟨bare ++ port, isForm, ?_⟩
  rw [(takeWhile_port domain isPort).1, (takeWhile_port domain isPort).2, if_pos rfl]

theorem hostedDomain_plain (wf : config.WellFormed) {hostedDomain : Text}
    (hosting : hostedDomain ∈ getPuterHostedDomains config) :
    hostedDomain ≠ [] ∧ ∀ c ∈ hostedDomain, DomainChar c := by
  obtain ⟨value, isValue, normal⟩ := mem_getPuterHostedDomains.mp hosting
  rw [normalizeConfiguredHostedDomain] at normal
  obtain ⟨cut, isSome⟩ := Option.filter_eq_some_iff.mp normal
  obtain ⟨normalized, isNormal, isCut⟩ := Option.map_eq_some_iff.mp cut
  obtain ⟨plain, plainPort, rfl, -, plainDomain, -, plainIsPort⟩ := wf.domains value isValue normalized isNormal
  rw [(takeWhile_port plainDomain plainIsPort).1] at isCut
  subst isCut
  exact ⟨of_decide_eq_true isSome, plainDomain⟩

theorem mem_candidates_resolved (wf : config.WellFormed) (lawful : LawfulHosts parse) {subdomain : Text}
    (extracted : extractPuterHostedSubdomain parse indexUrl config = some subdomain) :
    indexUrl ∈ buildHostedSubdomainIndexUrlCandidates subdomain config ↔ SpelledOut parse config indexUrl := by
  obtain ⟨found, hostedDomain, isFound, isDomain, shape, nonempty⟩ := extract_some extracted
  have isName := extracted_name lawful isFound shape
  rw [mem_candidates (isName.symm ▸ nonempty), isName]
  constructor
  · rintro ⟨form, isForm, protocol, isProtocol, tail, isTail, spelled⟩
    obtain ⟨bare, port, rfl, -, domain, ends, isPort⟩ := form_parts wf isForm
    have fromHost : ∃ text, parse true text = some found := by
      rw [spelled] at isFound
      exact hostname_http (wf.protocols protocol isProtocol) isFound
    obtain ⟨text, parsed⟩ := fromHost
    obtain ⟨hosting, -⟩ := hostingDomainOf_some isDomain
    obtain ⟨hostedNonempty, hostedDomainChars⟩ := hostedDomain_plain wf hosting
    have foundDomain := host_domain lawful parsed shape hostedNonempty hostedDomainChars
    have same : lowerText found = found := lowerText_domain foundDomain
    have nameDomain : ∀ c ∈ subdomain, DomainChar c := fun c member =>
      foundDomain c (same ▸ shape ▸ List.mem_append_left _ member)
    have host := candidate_host wf lawful ⟨nonempty, nameDomain⟩ rfl domain ends isPort isProtocol isTail
      (spelled ▸ isFound)
    have sameDomain : bare = hostedDomain := by
      rw [same, host, List.append_cancel_left_eq] at shape
      exact List.tail_eq_of_cons_eq shape
    subst sameDomain
    refine ⟨found, bare, isFound, isDomain, protocol, isProtocol, port, port_of_form domain isPort isForm, tail,
      isTail, ?_⟩
    rw [spelled, shape]
    simp
  · rintro ⟨found', hostedDomain', isFound', isDomain', protocol, isProtocol, port, isPort, tail, isTail, spelled⟩
    obtain rfl : found = found' := Option.some.inj (isFound.symm.trans isFound')
    obtain rfl : hostedDomain = hostedDomain' := Option.some.inj (isDomain.symm.trans isDomain')
    refine ⟨hostedDomain ++ port, form_of_port isPort, protocol, isProtocol, tail, isTail, ?_⟩
    rw [spelled, shape]
    simp

theorem hostingDomainOf_under {front hostedDomain : Text} (hosting : hostedDomain ∈ getPuterHostedDomains config) :
    ∃ longest, hostingDomainOf config (front ++ '.' :: hostedDomain) = some longest ∧
      hostedDomain.length ≤ longest.length := by
  have under : ('.' :: hostedDomain).isSuffixOf (front ++ '.' :: hostedDomain) = true := by
    simp
  have sorted := List.pairwise_insertionSort (fun a b : Text => b.length ≤ a.length) (getPuterHostedDomains config)
  have member : hostedDomain ∈ (getPuterHostedDomains config).insertionSort fun a b => b.length ≤ a.length :=
    (List.mem_insertionSort _).mpr hosting
  have isSome : (hostingDomainOf config (front ++ '.' :: hostedDomain)).isSome :=
    List.find?_isSome.mpr ⟨hostedDomain, member, under⟩
  obtain ⟨longest, found⟩ := Option.isSome_iff_exists.mp isSome
  refine ⟨longest, found, ?_⟩
  obtain ⟨-, before, after, parts, none⟩ := List.find?_eq_some_iff_append.mp found
  rw [parts] at member sorted
  obtain inBefore | inRest := List.mem_append.mp member
  · have refused := none hostedDomain inBefore
    rw [under] at refused
    cases refused
  · obtain rfl | inAfter := List.mem_cons.mp inRest
    · exact Nat.le_refl _
    · exact List.rel_of_pairwise_cons (List.pairwise_append.mp sorted).2.1 inAfter

theorem extract_of_host {found hostedDomain : Text} (isFound : hostname parse indexUrl = some found)
    (isDomain : hostingDomainOf config (lowerText found) = some hostedDomain) (nonempty : name ≠ [])
    (shape : lowerText found = name ++ '.' :: hostedDomain) :
    extractPuterHostedSubdomain parse indexUrl config = some name := by
  have notEmpty : indexUrl ≠ [] := by
    rintro rfl
    cases isFound
  rw [extractPuterHostedSubdomain, if_neg notEmpty, isFound, Option.bind_some]
  dsimp only
  rw [isDomain, Option.bind_some, shape, List.length_append, Nat.add_sub_cancel, List.take_left, if_neg nonempty]

theorem mem_candidates_parsed (wf : config.WellFormed) (lawful : LawfulHosts parse)
    (isName : name ≠ [] ∧ ∀ c ∈ name, DomainChar c) (parses : (hostname parse indexUrl).isSome) :
    indexUrl ∈ buildHostedSubdomainIndexUrlCandidates name config ↔
      (extractPuterHostedSubdomain parse indexUrl config = some name ∧ SpelledOut parse config indexUrl) ∨
        Overshadowed config name indexUrl := by
  have lowered : lowerText (trim name) = name := by
    rw [trim_printed fun c member => ⟨(isName.2 c member).1, (isName.2 c member).2.1⟩, lowerText_domain isName.2]
  constructor
  · intro candidate
    obtain ⟨form, isForm, protocol, isProtocol, tail, isTail, spelled⟩ :=
      (mem_candidates (lowered.symm ▸ isName.1)).mp candidate
    rw [lowered] at spelled
    obtain ⟨bare, port, rfl, hosting, domain, ends, isPort⟩ := form_parts wf isForm
    obtain ⟨found, isFound⟩ := Option.isSome_iff_exists.mp parses
    have host := candidate_host wf lawful isName rfl domain ends isPort isProtocol isTail (spelled ▸ isFound)
    obtain ⟨longest, isLongest, -⟩ := @hostingDomainOf_under config name bare hosting
    by_cases own : longest = bare
    · subst own
      have whole : ∀ c ∈ name ++ '.' :: longest, DomainChar c := by
        intro c member
        obtain inName | inDomain := List.mem_append.mp member
        · exact isName.2 c inName
        · obtain rfl | inDomain := List.mem_cons.mp inDomain
          · decide
          · exact domain c inDomain
      have same : lowerText found = name ++ '.' :: longest := by
        rw [host, lowerText_domain whole]
      have extracted := extract_of_host isFound (same.symm ▸ isLongest) isName.1 same
      exact .inl ⟨extracted, (mem_candidates_resolved wf lawful extracted).mp candidate⟩
    · refine .inr ⟨bare, longest, isLongest, own, protocol, isProtocol, port, port_of_form domain isPort isForm, tail,
        isTail, ?_⟩
      rw [spelled]
      simp
  · rintro (⟨extracted, spelled⟩ | ⟨hostedDomain, longest, -, -, protocol, isProtocol, port, isPort, tail, isTail, rfl⟩)
    · exact (mem_candidates_resolved wf lawful extracted).mpr spelled
    · refine (mem_candidates (lowered.symm ▸ isName.1)).mpr
        ⟨hostedDomain ++ port, form_of_port isPort, protocol, isProtocol, tail, isTail, ?_⟩
      rw [lowered]
      simp

theorem siteName_not_overshadowed (wf : config.WellFormed) (isName : SiteName name) :
    ¬ Overshadowed config name indexUrl := by
  rintro ⟨hostedDomain, longest, isLongest, differs, -, -, port, isPort, -⟩
  have hosting : hostedDomain ∈ getPuterHostedDomains config := by
    obtain ⟨form, isForm, cut⟩ := List.mem_filterMap.mp isPort
    obtain ⟨bare, ownPort, rfl, hosting, domain, -, isPortText⟩ := form_parts wf isForm
    rw [(takeWhile_port domain isPortText).1] at cut
    split at cut
    · next same => exact same ▸ hosting
    · cases cut
  obtain ⟨same, isSame, longer⟩ := @hostingDomainOf_under config name hostedDomain hosting
  obtain rfl : longest = same := Option.some.inj (isLongest.symm.trans isSame)
  obtain ⟨-, front, shape⟩ := hostingDomainOf_some isLongest
  obtain ⟨rest, -, parts⟩ | ⟨rest, inName, parts⟩ := List.append_eq_append_iff.mp shape
  · cases rest with
    | nil => exact differs (List.tail_eq_of_cons_eq parts).symm
    | cons dot more =>
        have inside : hostedDomain.length = more.length + (longest.length + 1) := by
          rw [show hostedDomain = more ++ '.' :: longest from List.tail_eq_of_cons_eq parts, List.length_append,
            List.length_cons]
        omega
  · cases rest with
    | nil => exact differs (List.tail_eq_of_cons_eq parts)
    | cons dot more =>
        obtain rfl : '.' = dot := List.head_eq_of_cons_eq parts
        exact (isName.2 '.' (inName ▸ List.mem_append_right _ List.mem_cons_self)).2 rfl

theorem findByIndexUrlCandidates_isSome {apps : List HostedApp} {candidates : List Text} {user : ℕ} (isUser : 0 < user) :
    (findByIndexUrlCandidates apps candidates 0 user).isSome ↔
      ∃ app ∈ apps, app.ownerUserId ≠ some user ∧ app.indexUrl ∈ candidates := by
  rw [findByIndexUrlCandidates]
  split
  · next nothing => simp [nothing]
  · rw [List.isSome_head?, ne_eq, ← List.length_eq_zero_iff, List.length_insertionSort, List.length_eq_zero_iff,
      List.filter_eq_nil_iff]
    simp [Nat.pos_iff_ne_zero.mp isUser, and_comm]

def HeldByOther (parse : HostParser) (config : HostedDomainConfig) (name : Text) (user : ℕ) (app : HostedApp) : Prop :=
  app.ownerUserId ≠ some user ∧ extractPuterHostedSubdomain parse app.indexUrl config = some name

/-- A URL that resolves to a name is among its candidates exactly if it is spelled out. The search of the candidates
    tells whether an app of another owner resolves to the name exactly if, where one does, one is spelled out,
    and where none does, none is under a longer hosting domain as well, as no name of one label is. -/
theorem candidates_cover (wf : config.WellFormed) (lawful : LawfulHosts parse) :
    (∀ indexUrl name, extractPuterHostedSubdomain parse indexUrl config = some name →
      (indexUrl ∈ buildHostedSubdomainIndexUrlCandidates name config ↔ SpelledOut parse config indexUrl)) ∧
    (∀ name, (name ≠ [] ∧ ∀ c ∈ name, DomainChar c) → ∀ (apps : List HostedApp) (user : ℕ), 0 < user →
      (∀ app ∈ apps, (hostname parse app.indexUrl).isSome) →
      (((findByIndexUrlCandidates apps (buildHostedSubdomainIndexUrlCandidates name config) 0 user).isSome ↔
          ∃ app ∈ apps, HeldByOther parse config name user app) ↔
        ((∃ app ∈ apps, HeldByOther parse config name user app) →
          ∃ app ∈ apps, (HeldByOther parse config name user app ∧ SpelledOut parse config app.indexUrl) ∨
            (app.ownerUserId ≠ some user ∧ Overshadowed config name app.indexUrl)) ∧
        ((∃ app ∈ apps, app.ownerUserId ≠ some user ∧ Overshadowed config name app.indexUrl) →
          ∃ app ∈ apps, HeldByOther parse config name user app))) ∧
    (∀ name, SiteName name → ∀ indexUrl, ¬ Overshadowed config name indexUrl) := by
  refine ⟨fun indexUrl name extracted => mem_candidates_resolved wf lawful extracted, ?_,
    fun name isName indexUrl => siteName_not_overshadowed wf isName⟩
  intro name isName apps user isUser parses
  have candidates : ∀ app ∈ apps,
      (app.ownerUserId ≠ some user ∧ app.indexUrl ∈ buildHostedSubdomainIndexUrlCandidates name config) ↔
        ((HeldByOther parse config name user app ∧ SpelledOut parse config app.indexUrl) ∨
          (app.ownerUserId ≠ some user ∧ Overshadowed config name app.indexUrl)) := by
    intro app member
    rw [mem_candidates_parsed wf lawful isName (parses app member), HeldByOther]
    tauto
  rw [findByIndexUrlCandidates_isSome isUser]
  have found : (∃ app ∈ apps, app.ownerUserId ≠ some user ∧
        app.indexUrl ∈ buildHostedSubdomainIndexUrlCandidates name config) ↔ _ :=
    exists_congr fun app => and_congr_right fun member => candidates app member
  rw [found]
  constructor
  · intro same
    exact ⟨same.mpr, fun ⟨app, member, shadowed⟩ => same.mp ⟨app, member, .inr shadowed⟩⟩
  · rintro ⟨spelled, overshadowed⟩
    refine ⟨?_, spelled⟩
    rintro ⟨app, member, ⟨held, -⟩ | shadowed⟩
    · exact ⟨app, member, held⟩
    · exact overshadowed ⟨app, member, shadowed⟩

end Candidates

section Witnesses

def sampleHosting : HostedDomainConfig where
  staticHostingDomain := some ['p', '.', 'i', 'o']
  staticHostingDomainAlt := none
  privateAppHostingDomain := none
  privateAppHostingDomainAlt := none
  protocol := none

def plainHosts : HostParser := fun _ text => if text.all fun c => decide (DomainChar c) then some text else none

theorem sampleHosting_wf : sampleHosting.WellFormed where
  domains := by
    intro value isValue form isForm
    have known : value = sampleHosting.staticHostingDomain ∨ value = none := by
      simpa [configuredHostedDomainValues, sampleHosting] using isValue
    obtain rfl | rfl := known
    · obtain rfl : ['p', '.', 'i', 'o'] = form := Option.some.inj ((by decide +kernel : _ = _).symm.trans isForm)
      have plain : ∀ c ∈ ['p', '.', 'i', 'o'], DomainChar c := by
        simp [DomainChar, Char.isUpper]
      exact ⟨['p', '.', 'i', 'o'], [], rfl, List.cons_ne_nil _ _, plain, by decide +kernel, .inl rfl⟩
    · cases isForm
  protocols := by
    have same : candidateProtocols sampleHosting = [['h', 't', 't', 'p', 's'], ['h', 't', 't', 'p']] := by
      decide +kernel
    rw [same]
    simp [IsHttp]

theorem plainHosts_some {special : Bool} {text host : Text} (parsed : plainHosts special text = some host) :
    host = text ∧ ∀ c ∈ host, DomainChar c := by
  rw [plainHosts] at parsed
  split at parsed
  · next domain =>
      cases parsed
      exact ⟨rfl, by simpa using domain⟩
  · cases parsed

theorem plainHosts_lawful : LawfulHosts plainHosts where
  printed := fun _ _ _ parsed c member =>
    have domain := (plainHosts_some parsed).2 c member
    ⟨domain.1, domain.2.1⟩
  domain := fun _ _ parsed _ => (plainHosts_some parsed).2
  brackets := fun _ _ parsed opened =>
    absurd ((plainHosts_some parsed).2 _ (List.mem_of_head? opened)) (by decide)
  fixed := fun _ _ _ _ parsed => (plainHosts_some parsed).1

def candidateIndexUrl : Text := ['h', 't', 't', 'p', 's', ':', '/', '/', 's', '.', 'p', '.', 'i', 'o', '/']

theorem candidate_covered :
    candidateIndexUrl ∈ buildHostedSubdomainIndexUrlCandidates ['s'] sampleHosting ∧
      SpelledOut plainHosts sampleHosting candidateIndexUrl := by
  have extracted : extractPuterHostedSubdomain plainHosts candidateIndexUrl sampleHosting = some ['s'] := by
    decide +kernel
  have candidate : candidateIndexUrl ∈ buildHostedSubdomainIndexUrlCandidates ['s'] sampleHosting := by
    decide +kernel
  exact ⟨candidate, ((candidates_cover sampleHosting_wf plainHosts_lawful).1 _ _ extracted).mp candidate⟩

def appOnPage : HostedApp where
  id := 1
  uid := ['a']
  ownerUserId := some 2
  indexUrl := candidateIndexUrl ++ ['x']
  isPrivate := false
  timestamp := 0

/-- The URL of a page of the site resolves to the name, and is not found among the candidates. -/
theorem page_not_covered :
    extractPuterHostedSubdomain plainHosts appOnPage.indexUrl sampleHosting = some ['s'] ∧
      appOnPage.indexUrl ∉ buildHostedSubdomainIndexUrlCandidates ['s'] sampleHosting ∧
      findByIndexUrlCandidates [appOnPage] (buildHostedSubdomainIndexUrlCandidates ['s'] sampleHosting) 0 1 = none := by
  exact ⟨by decide +kernel, by decide +kernel, by decide +kernel⟩

end Witnesses

end Puter

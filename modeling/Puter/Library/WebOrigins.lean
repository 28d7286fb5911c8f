/-
Module: Puter.Library.WebOrigins
Purpose: The origins of http URLs: scheme, host and port, as the URL parser of the web platform finds them in a text,
  how they are printed, and what the setter of the host does. A port that is the default of its scheme is not kept,
  and
  a host that is set without a port leaves the port. What is printed of an origin is read back as that origin.
Trusted boundary: the laws of the host parser
Main exports: WebOrigin, httpOrigin_href, setHost_port
-/
import Puter.Library.WebUrl

namespace WebUrl

/-- What a URL has of its origin. There is no port where it is the default of the scheme. -/
structure WebOrigin where
  scheme : List Char
  hostname : List Char
  port : Option ℕ
deriving DecidableEq, Repr

def defaultPort (scheme : List Char) : ℕ := if scheme = ['h', 't', 't', 'p'] then 80 else 443

def keptPort (scheme digits : List Char) : Option ℕ :=
  if digits = [] ∨ Nat.ofDigitChars 10 digits 0 = defaultPort scheme then none
  else some (Nat.ofDigitChars 10 digits 0)

def authorityOf (rest : List Char) : List Char :=
  (rest.dropWhile fun c => c = '/' || c = '\\').takeWhile (!endsAuthority true ·)

/-- `new URL(input)`, for http URLs. -/
def httpOrigin (parse : HostParser) (input : List Char) : Option WebOrigin :=
  (schemeOf (stripped input)).bind fun found =>
    if IsHttp found.1 then
      (authorityHost parse true (authorityOf found.2)).map fun host =>
        ⟨found.1, host, (hostAndPort false ((authorityOf found.2).rtakeWhile (· != '@'))).2.bind (keptPort found.1)⟩
    else none

def portText : Option ℕ → List Char
  | none => []
  | some port => ':' :: Nat.toDigits 10 port

def WebOrigin.host (origin : WebOrigin) : List Char := origin.hostname ++ portText origin.port

def WebOrigin.href (origin : WebOrigin) : List Char := origin.scheme ++ schemeSlashes ++ origin.host

/-- `url.host = value`: nothing happens where there is no host in the value, and the port stays where there is none or
    one that is too large. -/
def setHost (parse : HostParser) (origin : WebOrigin) (value : List Char) : WebOrigin :=
  let found := hostAndPort false ((value.filter (!isTabOrNewline ·)).takeWhile (!endsAuthority true ·))
  if found.1 = [] then origin
  else match parse true found.1 with
    | none => origin
    | some host =>
        match found.2.map (·.takeWhile Char.isDigit) with
        | none => { origin with hostname := host }
        | some digits =>
            if digits = [] ∨ 65536 ≤ Nat.ofDigitChars 10 digits 0 then { origin with hostname := host }
            else ⟨origin.scheme, host, keptPort origin.scheme digits⟩

/-- What is relied on of a host parser beyond its laws: a host is not empty, an address in brackets is made of small
    digits and colons, and a host that is printed is read back as it is. -/
structure SteadyHosts (parse : HostParser) : Prop extends LawfulHosts parse where
  nonempty : ∀ text host, parse true text = some host → host ≠ []
  address : ∀ text host, parse true text = some host → host.head? = some '[' →
    ∃ inside, host = '[' :: inside ++ [']'] ∧ ∀ c ∈ inside, c.isAlphanum = true ∧ c.isUpper = false ∨ c = ':'
  steady : ∀ text host, parse true text = some host → parse true host = some host

/-- A text that the parser takes as a whole for the text of a host. -/
structure HostText (text : List Char) : Prop where
  nonempty : text ≠ []
  plain : ∀ c ∈ text, isControlOrSpace c = false ∧ endsAuthority true c = false ∧ c ≠ '@'
  bare : hostAndPort false text = (text, none)
  port : ∀ rest, hostAndPort false (text ++ ':' :: rest) = (text, some rest)

theorem HostText.of_domain {text : List Char} (nonempty : text ≠ []) (domain : ∀ c ∈ text, DomainChar c) :
    HostText text where
  nonempty := nonempty
  plain c member := ⟨(domain c member).not_control, (domain c member).plain⟩
  bare := (hostAndPort_domain domain []).1
  port rest := (hostAndPort_domain domain rest).2

theorem hostAndPort_inside {inside : List Char} (plain : ∀ c ∈ inside, c ≠ '[' ∧ c ≠ ']') (rest : List Char) :
    hostAndPort true (inside ++ ']' :: rest) =
      (inside ++ ']' :: (hostAndPort false rest).1, (hostAndPort false rest).2) := by
  induction inside with
  | nil => simp [hostAndPort]
  | cons c inside ih =>
      have first := plain c List.mem_cons_self
      have others := ih fun d member => plain d (List.mem_cons_of_mem _ member)
      simp [hostAndPort, first.1, first.2, others]

theorem alphanum_plain {c : Char} (inside : c.isAlphanum = true ∨ c = ':') :
    isControlOrSpace c = false ∧ endsAuthority true c = false ∧ c ≠ '@' ∧ c ≠ '[' ∧ c ≠ ']' := by
  have differs : ∀ d : Char, d.isAlphanum = false → d ≠ ':' → c ≠ d := by
    rintro d notAlphanum notColon rfl
    cases inside with
    | inl isAlphanum => exact absurd (isAlphanum.symm.trans notAlphanum) (by decide)
    | inr colon => exact notColon colon
  refine ⟨?_, ?_, differs '@' (by decide) (by decide), differs '[' (by decide) (by decide),
    differs ']' (by decide) (by decide)⟩
  · rw [isControlOrSpace, decide_eq_false_iff_not, not_le]
    cases inside with
    | inr colon =>
        rw [colon]
        decide
    | inl isAlphanum =>
        have bounds : 48 ≤ c.toNat := by
          simp only [Char.isAlphanum, Char.isAlpha, Char.isUpper, Char.isLower, Char.isDigit, Bool.or_eq_true,
            Bool.and_eq_true, decide_eq_true_eq, UInt32.le_iff_toNat_le] at isAlphanum
          have val : c.val.toNat = c.toNat := rfl
          simp at isAlphanum
          omega
        omega
  · simp [endsAuthority, differs '/' (by decide) (by decide), differs '?' (by decide) (by decide),
      differs '#' (by decide) (by decide), differs '\\' (by decide) (by decide)]

theorem HostText.of_address {inside : List Char} (alphanum : ∀ c ∈ inside, c.isAlphanum = true ∨ c = ':') :
    HostText ('[' :: inside ++ [']']) := by
  have plain := fun c member => alphanum_plain (alphanum c member)
  have noBrackets : ∀ c ∈ inside, c ≠ '[' ∧ c ≠ ']' := fun c member => (plain c member).2.2.2
  constructor
  · simp
  · intro c member
    simp only [List.cons_append, List.mem_cons, List.mem_append, List.not_mem_nil, or_false] at member
    rcases member with rfl | member | rfl
    · decide
    · exact ⟨(plain c member).1, (plain c member).2.1, (plain c member).2.2.1⟩
    · decide
  · simp [hostAndPort, hostAndPort_inside noBrackets]
  · intro rest
    simp [hostAndPort, hostAndPort_inside noBrackets]

theorem HostText.of_host {parse : HostParser} (hosts : SteadyHosts parse) {text host : List Char}
    (parsed : parse true text = some host) : HostText host := by
  by_cases bracket : host.head? = some '['
  · rcases hosts.address text host parsed bracket with ⟨inside, rfl, digits⟩
    exact .of_address fun c member => (digits c member).imp And.left id
  · exact .of_domain (hosts.nonempty text host parsed) (hosts.domain text host parsed bracket)

/-- An origin as the parser finds it. -/
structure WebOrigin.Valid (parse : HostParser) (origin : WebOrigin) : Prop where
  isHttp : IsHttp origin.scheme
  host : parse true origin.hostname = some origin.hostname
  port : ∀ port, origin.port = some port → port < 65536 ∧ port ≠ defaultPort origin.scheme

section Print

variable {parse : HostParser} {scheme host digits : List Char} {origin : WebOrigin}

theorem ofDigits_reverse (digits : List Char) :
    Nat.ofDigits 10 (digits.reverse.map fun c => c.toNat - 48) = Nat.ofDigitChars 10 digits 0 := by
  induction digits using List.reverseRecOn with
  | nil => rfl
  | append_singleton digits last ih =>
      rw [List.reverse_append, List.reverse_singleton, List.singleton_append, List.map_cons, Nat.ofDigits_cons,
        ih, Nat.ofDigitChars_append, Nat.ofDigitChars_cons, Nat.ofDigitChars_nil]
      simp [Nat.add_comm]

theorem isPort_iff : isPort digits = true ↔
    (∀ c ∈ digits, c.isDigit = true) ∧ Nat.ofDigitChars 10 digits 0 < 65536 := by
  rw [isPort, ofDigits_reverse, Bool.and_eq_true, List.all_eq_true, decide_eq_true_eq]

theorem httpOrigin_eq (isHttp : IsHttp scheme) {input rest : List Char}
    (shape : stripped input = scheme ++ schemeSlashes ++ rest) : httpOrigin parse input =
      (authorityHost parse true (authorityOf rest)).map fun host =>
        ⟨scheme, host, (hostAndPort false ((authorityOf rest).rtakeWhile (· != '@'))).2.bind (keptPort scheme)⟩ := by
  rw [httpOrigin, shape]
  rcases isHttp with rfl | rfl
  · rfl
  · rfl

theorem httpOrigin_authority (isHttp : IsHttp scheme) {port : Option (List Char)} (isHost : HostText host)
    (allDigits : ∀ digits, port = some digits → isPort digits = true) :
    httpOrigin parse (scheme ++ schemeSlashes ++ (host ++ (port.map (':' :: ·)).getD [])) =
      (parse true host).map fun name => ⟨scheme, name, port.bind (keptPort scheme)⟩ := by
  have portPlain : ∀ c ∈ (port.map (':' :: ·)).getD [], isControlOrSpace c = false ∧ endsAuthority true c = false ∧
      c ≠ '@' := by
    cases port with
    | none =>
        intro c none
        cases none
    | some digits =>
        intro c member
        cases List.mem_cons.mp member with
        | inl colon =>
            rw [colon]
            decide
        | inr member => exact digit_plain ((isPort_iff.mp (allDigits digits rfl)).1 c member)
  have plain : ∀ c ∈ host ++ (port.map (':' :: ·)).getD [], isControlOrSpace c = false ∧
      endsAuthority true c = false ∧
      c ≠ '@' := by
    intro c member
    cases List.mem_append.mp member with
    | inl inHost => exact isHost.plain c inHost
    | inr inPort => exact portPlain c inPort
  have separated : hostAndPort false (host ++ (port.map (':' :: ·)).getD []) = (host, port) := by
    cases port with
    | none => exact (congrArg _ (List.append_nil host)).trans isHost.bare
    | some digits => exact isHost.port digits
  have nonempty : host ++ (port.map (':' :: ·)).getD [] ≠ [] :=
      fun empty => isHost.nonempty (List.append_eq_nil_iff.mp empty).1
  generalize host ++ (port.map (':' :: ·)).getD [] = authority at plain separated nonempty ⊢
  have whole : ∀ c ∈ scheme ++ schemeSlashes ++ authority, isControlOrSpace c = false := by
    intro c member
    cases List.mem_append.mp member with
    | inl front => exact (http_plain isHttp).2 c front
    | inr back => exact (plain c back).1
  have isAuthority : authorityOf authority = authority := by
    have noSlash : authority.dropWhile (fun c => c = '/' || c = '\\') = authority := by
      cases authority with
      | nil => rfl
      | cons first rest =>
          have ends := (plain first List.mem_cons_self).2.1
          simp only [endsAuthority, Bool.or_eq_false_iff, decide_eq_false_iff_not, Bool.true_and] at ends
          simp [ends.1.1.1, ends.2]
    rw [authorityOf, noSlash, List.takeWhile_eq_self_iff]
    intro c member
    rw [(plain c member).2.1]
    rfl
  have noCredentials : '@' ∉ authority := fun member => (plain '@' member).2.2 rfl
  have all : authority.rtakeWhile (· != '@') = authority := by
    rw [List.rtakeWhile_eq_self_iff]
    intro c member
    simpa using (plain c member).2.2
  rw [httpOrigin_eq isHttp (stripped_eq whole), isAuthority, authorityHost, all, separated]
  simp only [noCredentials, false_and, if_false]
  rcases List.exists_cons_of_ne_nil isHost.nonempty with ⟨first, others, rfl⟩
  cases port with
  | none => rfl
  | some digits =>
      simp only [Option.all_some, allDigits digits rfl, if_true]

theorem portText_eq (port : Option ℕ) : portText port = ((port.map (Nat.toDigits 10)).map (':' :: ·)).getD [] := by
  cases port with
  | none => rfl
  | some port => rfl

theorem isPort_toDigits {port : ℕ} (small : port < 65536) : isPort (Nat.toDigits 10 port) = true := by
  rw [isPort_iff, Nat.ofDigitChars_ten_toDigits]
  exact ⟨fun c member => Nat.isDigit_of_mem_toDigits (by decide) (by decide) member, small⟩

theorem keptPort_toDigits {port : ℕ} (differs : port ≠ defaultPort scheme) :
    keptPort scheme (Nat.toDigits 10 port) = some port := by
  rw [keptPort, Nat.ofDigitChars_ten_toDigits, if_neg]
  rintro (empty | same)
  · exact Nat.toDigits_ne_nil empty
  · exact differs same

theorem httpOrigin_href (hosts : SteadyHosts parse) (valid : origin.Valid parse) :
    httpOrigin parse origin.href = some origin := by
  have allDigits : ∀ digits, origin.port.map (Nat.toDigits 10) = some digits → isPort digits = true := by
    intro digits found
    rcases Option.map_eq_some_iff.mp found with ⟨port, isPort, rfl⟩
    exact isPort_toDigits (valid.port port isPort).1
  rw [WebOrigin.href, WebOrigin.host, portText_eq,
    httpOrigin_authority valid.isHttp (HostText.of_host hosts valid.host) allDigits, valid.host, Option.map_some]
  cases origin with
  | mk scheme hostname port =>
      cases port with
      | none => rfl
      | some port =>
          have kept : keptPort scheme (Nat.toDigits 10 port) = some port := keptPort_toDigits (valid.port port rfl).2
          simp only [Option.map_some, Option.bind_some, kept]

theorem keptPort_valid (small : Nat.ofDigitChars 10 digits 0 < 65536)
    {port : ℕ} (kept : keptPort scheme digits = some port) :
    port < 65536 ∧ port ≠ defaultPort scheme := by
  rw [keptPort] at kept
  split at kept
  · cases kept
  next apart =>
    cases kept
    exact ⟨small, fun same => apart (.inr same)⟩

theorem authorityHost_port {authority : List Char} (found : authorityHost parse true authority = some host)
    (behind : (hostAndPort false (authority.rtakeWhile (· != '@'))).2 = some digits) : isPort digits = true := by
  unfold authorityHost at found
  dsimp only at found
  split at found
  · cases found
  · generalize hostAndPort false (authority.rtakeWhile (· != '@')) = separated at found behind
    rcases separated with ⟨front, port⟩
    cases behind
    cases front with
    | nil => cases found
    | cons first front =>
        by_contra noPort
        simp [noPort] at found

theorem valid_httpOrigin (hosts : SteadyHosts parse)
    {input : List Char} (found : httpOrigin parse input = some origin) :
    origin.Valid parse := by
  rcases Option.bind_eq_some_iff.mp found with ⟨⟨scheme, rest⟩, -, isOrigin⟩
  split at isOrigin
  next isHttp =>
    rcases Option.map_eq_some_iff.mp isOrigin with ⟨host, isHost, rfl⟩
    rcases authorityHost_special isHost with ⟨text, parsed⟩
    refine ⟨isHttp, hosts.steady text host parsed, fun port isPort => ?_⟩
    rcases Option.bind_eq_some_iff.mp isPort with ⟨digits, isDigits, kept⟩
    exact keptPort_valid (isPort_iff.mp (authorityHost_port isHost isDigits)).2 kept
  · cases isOrigin

theorem href_injective (hosts : SteadyHosts parse) {other : WebOrigin} (valid : origin.Valid parse)
    (validOther : other.Valid parse) (same : origin.href = other.href) : origin = other := by
  have read := httpOrigin_href hosts valid
  rw [same, httpOrigin_href hosts validOther] at read
  exact (Option.some.inj read).symm

theorem plain_kept {text : List Char}
    (plain : ∀ c ∈ text, isControlOrSpace c = false ∧ endsAuthority true c = false) :
    (text.filter (!isTabOrNewline ·)).takeWhile (!endsAuthority true ·) = text := by
  have noTab : ∀ c ∈ text, (!isTabOrNewline c) = true := by
    intro c member
    rw [Bool.not_eq_true', isTabOrNewline, Bool.or_eq_false_iff, Bool.or_eq_false_iff]
    refine ⟨⟨?_, ?_⟩, ?_⟩ <;>
    · rw [decide_eq_false_iff_not]
      rintro rfl
      exact absurd (plain _ member).1 (by decide)
  rw [List.filter_eq_self.mpr noTab, List.takeWhile_eq_self_iff]
  intro c member
  rw [(plain c member).2]
  rfl

theorem setHost_bare {name : List Char} (isHost : HostText host) (parsed : parse true host = some name) :
    setHost parse origin host = { origin with hostname := name } := by
  have kept := plain_kept fun c member => ⟨(isHost.plain c member).1, (isHost.plain c member).2.1⟩
  rw [setHost, kept, isHost.bare]
  simp [isHost.nonempty, parsed]

theorem setHost_port {name : List Char} (isHost : HostText host) (parsed : parse true host = some name)
    (any : digits ≠ []) (isPortDigits : isPort digits = true) :
    setHost parse origin (host ++ ':' :: digits) = ⟨origin.scheme, name, keptPort origin.scheme digits⟩ := by
  rcases isPort_iff.mp isPortDigits with ⟨allDigits, small⟩
  have kept : ((host ++ ':' :: digits).filter (!isTabOrNewline ·)).takeWhile (!endsAuthority true ·) =
      host ++ ':' :: digits := by
    apply plain_kept
    intro c member
    cases List.mem_append.mp member with
    | inl inHost => exact ⟨(isHost.plain c inHost).1, (isHost.plain c inHost).2.1⟩
    | inr inPort =>
        cases List.mem_cons.mp inPort with
        | inl colon =>
            rw [colon]
            decide
        | inr digit => exact ⟨(digit_plain (allDigits c digit)).1, (digit_plain (allDigits c digit)).2.1⟩
  have taken : digits.takeWhile Char.isDigit = digits := List.takeWhile_eq_self_iff.mpr allDigits
  rw [setHost, kept, isHost.port]
  simp [isHost.nonempty, parsed, taken, any, Nat.not_le.mpr small]

theorem valid_setHost (hosts : SteadyHosts parse) {value : List Char} (valid : origin.Valid parse) :
    (setHost parse origin value).Valid parse := by
  unfold setHost
  dsimp only
  split
  · exact valid
  split
  · exact valid
  next name parsed =>
    have steady := hosts.steady _ name parsed
    split
    · exact ⟨valid.isHttp, steady, valid.port⟩
    · split
      · exact ⟨valid.isHttp, steady, valid.port⟩
      next fits =>
        rw [not_or, not_le] at fits
        exact ⟨valid.isHttp, steady, fun port kept => keptPort_valid fits.2 kept⟩

end Print

end WebUrl

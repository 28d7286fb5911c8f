/-
Module: Puter.Library.WebUrl
Purpose: The hostname of a URL text, as the URL parser of the web platform finds it without a base: what is
  stripped, the scheme, the authority with its credentials and port, and the host. Parsing of the host
  itself (domain names outside ASCII, IP addresses, opaque hosts) is a parameter with a few laws. Texts that
  are spelled plainly have the hostname that is written in them.
Trusted boundary: the laws of the host parser
Main exports: hostname, DomainChar, hostname_http
-/
import Mathlib

namespace WebUrl

abbrev HostParser := Bool → List Char → Option (List Char)

def isControlOrSpace (c : Char) : Bool := c.toNat ≤ 0x20

def isTabOrNewline (c : Char) : Bool := c = '\t' || c = '\n' || c = '\r'

def stripped (input : List Char) : List Char :=
  ((input.dropWhile isControlOrSpace).rdropWhile isControlOrSpace).filter (!isTabOrNewline ·)

def isSchemeChar (c : Char) : Bool := c.isAlphanum || c = '+' || c = '-' || c = '.'

def schemeOf (text : List Char) : Option (List Char × List Char) :=
  if text.head?.any Char.isAlpha then
    match text.dropWhile isSchemeChar with
    | ':' :: rest => some ((text.takeWhile isSchemeChar).map Char.toLower, rest)
    | _ => none
  else none

def fileScheme : List Char := ['f', 'i', 'l', 'e']

def specialSchemes : List (List Char) :=
  [['h', 't', 't', 'p'], ['h', 't', 't', 'p', 's'], ['w', 's'], ['w', 's', 's'], ['f', 't', 'p'], fileScheme]

def endsAuthority (special : Bool) (c : Char) : Bool := c = '/' || c = '?' || c = '#' || (special && c = '\\')

/-- A host and the text of a port after a colon that stands outside brackets. -/
def hostAndPort : Bool → List Char → List Char × Option (List Char)
  | _, [] => ([], none)
  | inBrackets, c :: rest =>
      if c = ':' ∧ inBrackets = false then ([], some rest)
      else
        let others := hostAndPort (if c = '[' then true else if c = ']' then false else inBrackets) rest
        (c :: others.1, others.2)

def isPort (port : List Char) : Bool := port.all Char.isDigit && Nat.ofDigits 10 (port.reverse.map fun c => c.toNat - 48) < 65536

/-- The host of an authority. -/
def authorityHost (parse : HostParser) (special : Bool) (authority : List Char) : Option (List Char) :=
  let afterCredentials := authority.rtakeWhile (· != '@')
  if '@' ∈ authority ∧ afterCredentials = [] then none
  else
    match hostAndPort false afterCredentials with
    | ([], none) => if special then none else some []
    | ([], some _) => none
    | (host, port) => if port.all isPort then parse special host else none

def isDriveLetter : List Char → Bool
  | [letter, colon] => letter.isAlpha && (colon = ':' || colon = '|')
  | _ => false

/-- The host of a file URL. -/
def fileHost (parse : HostParser) : List Char → Option (List Char)
  | first :: second :: rest =>
      if (first = '/' ∨ first = '\\') ∧ (second = '/' ∨ second = '\\') then
        let host := rest.takeWhile (!endsAuthority true ·)
        if host = [] ∨ isDriveLetter host then some []
        else (parse true host).map fun name =>
          if name = ['l', 'o', 'c', 'a', 'l', 'h', 'o', 's', 't'] then [] else name
      else some []
  | _ => some []

/-- `new URL(input).hostname`, or none where the constructor throws. -/
def hostname (parse : HostParser) (input : List Char) : Option (List Char) :=
  match schemeOf (stripped input) with
  | none => none
  | some (scheme, rest) =>
      if scheme = fileScheme then fileHost parse rest
      else if scheme ∈ specialSchemes then
        authorityHost parse true
          ((rest.dropWhile fun c => c = '/' || c = '\\').takeWhile (!endsAuthority true ·))
      else
        match rest with
        | '/' :: '/' :: rest => authorityHost parse false (rest.takeWhile (!endsAuthority false ·))
        | _ => some []

/-- A character of a domain name in its serialized form. -/
def DomainChar (c : Char) : Prop :=
  0x21 ≤ c.toNat ∧ c.toNat ≤ 0x7E ∧ c.isUpper = false ∧
    c ∉ ['#', '%', '/', ':', '<', '>', '?', '@', '[', '\\', ']', '^', '|']

instance (c : Char) : Decidable (DomainChar c) := inferInstanceAs (Decidable (_ ∧ _))

/-- The last label of a domain name begins with a letter, so that it is no number. -/
def EndsInName (domain : List Char) : Prop := (domain.rtakeWhile (· != '.')).head?.any Char.isAlpha = true

instance (domain : List Char) : Decidable (EndsInName domain) := inferInstanceAs (Decidable (_ = true))

/-- What is relied on of a host parser: hosts are printed without blanks, an address in brackets aside the host
    of a special URL is made of domain characters, and a domain name that is written with these already is
    left as it is or refused. -/
structure LawfulHosts (parse : HostParser) : Prop where
  printed : ∀ special text host, parse special text = some host → ∀ c ∈ host, 0x21 ≤ c.toNat ∧ c.toNat ≤ 0x7E
  domain : ∀ text host, parse true text = some host → host.head? ≠ some '[' → ∀ c ∈ host, DomainChar c
  brackets : ∀ text host, parse true text = some host → host.head? = some '[' → host.getLast? = some ']'
  fixed : ∀ text host, (∀ c ∈ text, DomainChar c) → EndsInName text → parse true text = some host → host = text

theorem DomainChar.not_control {c : Char} (plain : DomainChar c) : isControlOrSpace c = false :=
  decide_eq_false (Nat.not_le.mpr (Nat.lt_of_lt_of_le (by decide : 0x20 < 0x21) plain.1))

theorem stripped_append {front rest : List Char} (nonempty : front ≠ [])
    (plain : ∀ c ∈ front, isControlOrSpace c = false) :
    stripped (front ++ rest) = front ++ (rest.rdropWhile isControlOrSpace).filter (!isTabOrNewline ·) := by
  have noControl : ∀ c ∈ front, isTabOrNewline c = false := by
    intro c member
    rw [isTabOrNewline, Bool.or_eq_false_iff, Bool.or_eq_false_iff]
    refine ⟨⟨?_, ?_⟩, ?_⟩ <;>
    · rw [decide_eq_false_iff_not]
      rintro rfl
      exact absurd (plain _ member) (by decide)
  have kept : front.filter (!isTabOrNewline ·) = front :=
    List.filter_eq_self.mpr fun c member => by simp [noControl c member]
  have begins : (front ++ rest).dropWhile isControlOrSpace = front ++ rest := by
    cases front with
    | nil => exact absurd rfl nonempty
    | cons first others => simp [plain first List.mem_cons_self]
  have ends : front.reverse.dropWhile isControlOrSpace = front.reverse := by
    cases reversed : front.reverse with
    | nil => rfl
    | cons last others =>
        have member : last ∈ front := List.mem_reverse.mp (reversed ▸ List.mem_cons_self)
        simp [plain last member]
  have cut : (front ++ rest).rdropWhile isControlOrSpace = front ++ rest.rdropWhile isControlOrSpace := by
    rw [List.rdropWhile, List.reverse_append, List.dropWhile_append, ends, List.rdropWhile]
    split
    · next nothing =>
        rw [List.isEmpty_iff.mp nothing]
        simp
    · simp
  rw [stripped, begins, cut, List.filter_append, kept]

theorem stripped_eq {text : List Char} (plain : ∀ c ∈ text, isControlOrSpace c = false) :
    stripped text = text := by
  cases text with
  | nil => rfl
  | cons first rest =>
      have whole := @stripped_append (first :: rest) [] (List.cons_ne_nil _ _) plain
      rw [List.append_nil] at whole
      rw [whole]
      simp

/-- `http` or `https` -/
def IsHttp (scheme : List Char) : Prop := scheme = ['h', 't', 't', 'p'] ∨ scheme = ['h', 't', 't', 'p', 's']

instance (scheme : List Char) : Decidable (IsHttp scheme) := inferInstanceAs (Decidable (_ ∨ _))

def schemeSlashes : List Char := [':', '/', '/']

variable {parse : HostParser} {scheme : List Char}

theorem hostname_stripped (isHttp : IsHttp scheme) (input rest : List Char)
    (shape : stripped input = scheme ++ schemeSlashes ++ rest) :
    hostname parse input = authorityHost parse true
      ((rest.dropWhile fun c => c = '/' || c = '\\').takeWhile (!endsAuthority true ·)) := by
  rw [hostname, shape]
  obtain rfl | rfl := isHttp
  · rfl
  · rfl

theorem authorityHost_special {authority host : List Char}
    (found : authorityHost parse true authority = some host) : ∃ text, parse true text = some host := by
  unfold authorityHost at found
  dsimp only at found
  split at found
  · cases found
  · split at found
    · cases found
    · cases found
    · split at found
      · exact ⟨_, found⟩
      · cases found

theorem hostname_some {input host : List Char} (found : hostname parse input = some host) :
    host = [] ∨ ∃ special text, parse special text = some host := by
  have ofAuthority : ∀ {special : Bool} {authority : List Char},
      authorityHost parse special authority = some host → host = [] ∨ ∃ special text, parse special text = some host := by
    intro special authority isHost
    unfold authorityHost at isHost
    dsimp only at isHost
    split at isHost
    · cases isHost
    · split at isHost
      · split at isHost
        · cases isHost
        · exact .inl (Option.some.inj isHost).symm
      · cases isHost
      · split at isHost
        · exact .inr ⟨special, _, isHost⟩
        · cases isHost
  unfold hostname at found
  split at found
  · cases found
  · next rest _ =>
      split at found
      · unfold fileHost at found
        split at found
        · split at found
          · dsimp only at found
            split at found
            · exact .inl (Option.some.inj found).symm
            · obtain ⟨name, isName, same⟩ := Option.map_eq_some_iff.mp found
              split at same
              · exact .inl same.symm
              · exact .inr ⟨true, _, same ▸ isName⟩
          · exact .inl (Option.some.inj found).symm
        · exact .inl (Option.some.inj found).symm
      · split at found
        · exact ofAuthority found
        · split at found
          · exact ofAuthority found
          · exact .inl (Option.some.inj found).symm

theorem http_plain (isHttp : IsHttp scheme) :
    scheme ++ schemeSlashes ≠ [] ∧ ∀ c ∈ scheme ++ schemeSlashes, isControlOrSpace c = false := by
  obtain rfl | rfl := isHttp
  · simp [schemeSlashes, isControlOrSpace]
  · simp [schemeSlashes, isControlOrSpace]

theorem hostname_http {rest host : List Char} (isHttp : IsHttp scheme)
    (found : hostname parse (scheme ++ schemeSlashes ++ rest) = some host) :
    ∃ text, parse true text = some host := by
  obtain ⟨nonempty, plain⟩ := http_plain isHttp
  rw [hostname_stripped isHttp _ _ (stripped_append nonempty plain)] at found
  exact authorityHost_special found

theorem hostAndPort_domain {host : List Char} (domain : ∀ c ∈ host, DomainChar c) (port : List Char) :
    hostAndPort false host = (host, none) ∧ hostAndPort false (host ++ ':' :: port) = (host, some port) := by
  induction host with
  | nil => exact ⟨rfl, by simp [hostAndPort]⟩
  | cons c rest ih =>
      have isDomain := domain c List.mem_cons_self
      have others := ih fun d member => domain d (List.mem_cons_of_mem _ member)
      have notColon : c ≠ ':' := fun same => isDomain.2.2.2 (by simp [same])
      have notOpen : c ≠ '[' := fun same => isDomain.2.2.2 (by simp [same])
      have notClose : c ≠ ']' := fun same => isDomain.2.2.2 (by simp [same])
      simp [hostAndPort, notColon, notOpen, notClose, others.1, others.2]

/-- The texts of a port: none, or a colon and digits. -/
def PortText (port : List Char) : Prop := port = [] ∨ ∃ digits, port = ':' :: digits ∧ ∀ c ∈ digits, c.isDigit = true

/-- What follows an authority: nothing, or a path without blanks. -/
def TailText (tail : List Char) : Prop :=
  tail = [] ∨ ∃ path, tail = '/' :: path ∧ ∀ c ∈ path, isControlOrSpace c = false

theorem digit_plain {c : Char} (digit : c.isDigit = true) :
    isControlOrSpace c = false ∧ endsAuthority true c = false ∧ c ≠ '@' := by
  have bounds : 48 ≤ c.toNat ∧ c.toNat ≤ 57 := by
    simp only [Char.isDigit, Bool.and_eq_true, decide_eq_true_eq, UInt32.le_iff_toNat_le] at digit
    exact digit
  refine ⟨?_, ?_, ?_⟩
  · rw [isControlOrSpace, decide_eq_false_iff_not]
    omega
  · have differs : ∀ d : Char, d.toNat < 48 ∨ 57 < d.toNat → c ≠ d := by
      rintro d outside rfl
      omega
    simp [endsAuthority, differs '/' (by decide), differs '?' (by decide), differs '#' (by decide),
      differs '\\' (by decide)]
  · rintro rfl
    exact absurd bounds (by decide)

theorem DomainChar.plain {c : Char} (domain : DomainChar c) :
    endsAuthority true c = false ∧ c ≠ '@' := by
  have notIn := domain.2.2.2
  simp only [List.mem_cons, List.not_mem_nil, or_false, not_or] at notIn
  refine ⟨?_, notIn.2.2.2.2.2.2.2.1⟩
  simp [endsAuthority, notIn.1, notIn.2.2.1, notIn.2.2.2.2.2.2.1, notIn.2.2.2.2.2.2.2.2.2.1]

theorem hostname_plain {domain port tail host : List Char} (isHttp : IsHttp scheme) (nonempty : domain ≠ [])
    (isDomain : ∀ c ∈ domain, DomainChar c) (isPortText : PortText port) (isTail : TailText tail)
    (found : hostname parse (scheme ++ schemeSlashes ++ (domain ++ port ++ tail)) = some host) :
    parse true domain = some host := by
  obtain ⟨-, schemePlain⟩ := http_plain isHttp
  have portPlain : ∀ c ∈ port, isControlOrSpace c = false ∧ endsAuthority true c = false ∧ c ≠ '@' := by
    obtain rfl | ⟨digits, rfl, allDigits⟩ := isPortText
    · exact fun c member => nomatch member
    · intro c member
      obtain rfl | member := List.mem_cons.mp member
      · decide
      · exact digit_plain (allDigits c member)
  have tailPlain : ∀ c ∈ tail, isControlOrSpace c = false := by
    obtain rfl | ⟨path, rfl, plain⟩ := isTail
    · exact fun c member => nomatch member
    · exact List.forall_mem_cons.mpr ⟨by decide, plain⟩
  have whole : ∀ c ∈ scheme ++ schemeSlashes ++ (domain ++ port ++ tail), isControlOrSpace c = false := by
    intro c member
    simp only [List.mem_append] at member
    obtain inScheme | (inDomain | inPort) | inTail := member
    · exact schemePlain c (List.mem_append.mpr inScheme)
    · exact (isDomain c inDomain).not_control
    · exact (portPlain c inPort).1
    · exact tailPlain c inTail
  rw [hostname_stripped isHttp _ _ (stripped_eq whole)] at found
  have noSlashes : (domain ++ port ++ tail).dropWhile (fun c => c = '/' || c = '\\') = domain ++ port ++ tail := by
    cases domain with
    | nil => exact absurd rfl nonempty
    | cons first rest =>
        have notIn := (isDomain first List.mem_cons_self).2.2.2
        simp only [List.mem_cons, List.not_mem_nil, or_false, not_or] at notIn
        simp [notIn.2.2.1, notIn.2.2.2.2.2.2.2.2.2.1]
  have inside : ∀ c ∈ domain ++ port, (!endsAuthority true c) = true := by
    intro c member
    obtain inDomain | inPort := List.mem_append.mp member
    · simp [(isDomain c inDomain).plain.1]
    · simp [(portPlain c inPort).2.1]
  have ends : (domain ++ port ++ tail).takeWhile (!endsAuthority true ·) = domain ++ port := by
    rw [List.takeWhile_append_of_pos inside]
    obtain rfl | ⟨path, rfl, -⟩ := isTail
    · simp
    · simp [endsAuthority]
  have noCredentials : '@' ∉ domain ++ port := by
    intro member
    obtain inDomain | inPort := List.mem_append.mp member
    · exact (isDomain _ inDomain).plain.2 rfl
    · exact (portPlain _ inPort).2.2 rfl
  have all : (domain ++ port).rtakeWhile (· != '@') = domain ++ port := by
    rw [List.rtakeWhile_eq_self_iff]
    exact fun c member => by simpa using fun same : c = '@' => noCredentials (same ▸ member)
  rw [noSlashes, ends, authorityHost] at found
  simp only [noCredentials, false_and, if_false, all] at found
  obtain ⟨first, rest, rfl⟩ := List.exists_cons_of_ne_nil nonempty
  obtain rfl | ⟨digits, rfl, -⟩ := isPortText
  · rw [List.append_nil, (hostAndPort_domain isDomain []).1] at found
    exact found
  · rw [(hostAndPort_domain isDomain digits).2] at found
    dsimp only at found
    split at found
    · exact found
    · cases found

end WebUrl

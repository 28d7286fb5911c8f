/-
Module: Puter.Auth.SignedTokens
Purpose: Signing and verifying tokens over compressed payloads (services/auth/TokenService.ts). A UUID field of a
  verified token holds what was signed exactly if its text is one that packing keeps; other texts are signed without
  an error and verify as another text.
Trusted boundary: Jsonwebtoken is the signing library; SignedPayloads says what a verified payload carries.
Main exports: JwtTokenService, token_compression_exact
-/
import Puter.Auth.TokenCompression

namespace Puter

open OwnEntries TokenCompression

/-- The options of a signature: the caller's, and the key id. -/
structure SignOptions (ω : Type) where
  options : Option ω
  keyid : Text
deriving DecidableEq, Repr

structure VerifyOptions where
  clockTolerance : ℕ
  algorithms : List Text
deriving DecidableEq, Repr

/-- A token read without its key: `header.kid`, and the payload where it is an object. -/
structure DecodedToken (α : Type) where
  kid : Option Text
  payload : Option (TokenPayload α)

structure Jsonwebtoken (α ω τ ε : Type) where
  sign : TokenPayload α → Text → SignOptions ω → Except ε τ
  decode : τ → Option (DecodedToken α)
  verify : τ → Text → VerifyOptions → Except ε (TokenPayload α)

inductive TokenError (α ε : Type) where
  | failure (message : Text)
  | jwt (error : ε)
  | v1TokensDisabled (payload : TokenPayload α)
deriving DecidableEq, Repr

/-- `TokenService`, its signing library and its configured secret. -/
structure JwtTokenService (α ω τ ε : Type) where
  jwt : Jsonwebtoken α ω τ ε
  jwtSecretV2 : Option Text

namespace JwtTokenService

variable {α ω τ ε : Type} (service : JwtTokenService α ω τ ε)

def secretV2 : Text := service.jwtSecretV2.getD []

def sign (scope : Text) (payload : TokenPayload α) (options : Option ω) : Except (TokenError α ε) τ :=
  match compressPayload (compression scope) payload with
  | .error message => .error (.failure message)
  | .ok compressed => (service.jwt.sign compressed service.secretV2 ⟨options, "v2".toList⟩).mapError .jwt

/-- `CLOCK_TOLERANCE_SECONDS`, and the one algorithm. -/
def verifyOptions : VerifyOptions := ⟨30, ["HS256".toList]⟩

def verify (scope : Text) (token : τ) : Except (TokenError α ε) (TokenPayload α) :=
  let decoded := service.jwt.decode token
  if decoded.bind DecodedToken.kid = some "v2".toList then
    match service.jwt.verify token service.secretV2 verifyOptions with
    | .error error => .error (.jwt error)
    | .ok payload => .ok (decompressPayload (compression scope) payload)
  else .error (.v1TokensDisabled (decompressPayload (compression scope) ((decoded.bind DecodedToken.payload).getD [])))

end JwtTokenService

def registeredClaims : List Text :=
  ["iat".toList, "exp".toList, "nbf".toList, "aud".toList, "iss".toList, "sub".toList, "jti".toList]

/-- What a payload that verifies carries of the one that was signed. The library copies a payload by assignment, which
takes a key `__proto__` for the prototype. -/
structure SignedPayloads {α ω τ ε : Type} (jwt : Jsonwebtoken α ω τ ε) : Prop where
  distinct : ∀ {payload secret options token key verifying verified}, jwt.sign payload secret options = .ok token →
    (keys payload).Nodup → jwt.verify token key verifying = .ok verified → (keys verified).Nodup
  texts : ∀ {payload secret options token key verifying verified}, jwt.sign payload secret options = .ok token →
    jwt.verify token key verifying = .ok verified →
      ∀ {name v}, (name, .text v) ∈ payload → name ≠ "__proto__".toList → (name, .text v) ∈ verified
  names : ∀ {payload secret options token key verifying verified}, jwt.sign payload secret options = .ok token →
    jwt.verify token key verifying = .ok verified →
      ∀ name ∈ keys verified, name ∈ keys payload ∨ name ∈ registeredClaims

def UuidField (context : CompressionContext) (field short lead : Text) : Prop :=
  context.fullkeyToInfo.lookup field = some ⟨some short, none, some lead⟩

namespace TokenCompression

def wireName (context : CompressionContext) (key : Text) : Text :=
  match context.fullkeyToInfo.lookup key with
  | none => key
  | some info => info.short.getD key

def WireNames (context : CompressionContext) : Prop :=
  ∀ entry ∈ context.shortToFullkey, entry.1 ≠ "__proto__".toList ∧ entry.1 ∉ registeredClaims ∧
    entry.2 ∉ registeredClaims

theorem compression_wireNames {scope : Text} {context : CompressionContext} (known : compression scope = some context) :
    WireNames context := by
  have listed := entry_of_lookup known
  have auth : WireNames authCompression := by
    rw [WireNames]
    decide +kernel
  have hosted : WireNames hostedAssetCompression := by
    rw [WireNames]
    decide +kernel
  simp only [List.mem_cons, List.not_mem_nil, or_false, Prod.mk.injEq] at listed
  cases listed with
  | inl isAuth => exact isAuth.2 ▸ auth
  | inr isHosted => exact isHosted.2 ▸ hosted

section Wire

variable {α : Type} {context : CompressionContext} {payload packed : TokenPayload α} {field short lead v : Text}

theorem compressEntry_key {entry packed : Text × ClaimValue α} (compressed : compressEntry context entry = .ok packed) :
    packed.1 = wireName context entry.1 := by
  rw [compressEntry] at compressed
  rw [wireName]
  cases known : context.fullkeyToInfo.lookup entry.1 with
  | none =>
      simp only [known] at compressed
      cases compressed
      rfl
  | some info =>
      simp only [known] at compressed
      cases value : compressValue info entry.2 with
      | error message => simp [value, Except.map] at compressed
      | ok w =>
          simp only [value, Except.map] at compressed
          cases compressed
          rfl

theorem compressEntries_cons {entry : Text × ClaimValue α}
    (compressed : (entry :: payload).mapM (compressEntry context) = .ok packed) :
    ∃ first others, compressEntry context entry = .ok first ∧ payload.mapM (compressEntry context) = .ok others ∧
      packed = first :: others := by
  rw [List.mapM_cons] at compressed
  cases first : compressEntry context entry with
  | error message => simp [first, bind, Except.bind] at compressed
  | ok e =>
      cases rest : payload.mapM (compressEntry context) with
      | error message => simp [first, rest, bind, Except.bind] at compressed
      | ok es =>
          simp only [first, rest, bind, Except.bind, pure, Except.pure, Except.ok.injEq] at compressed
          exact ⟨e, es, rfl, rfl, compressed.symm⟩

theorem compressEntries_split {earlier later : TokenPayload α} {entry : Text × ClaimValue α}
    (compressed : (earlier ++ entry :: later).mapM (compressEntry context) = .ok packed) :
    ∃ before here after, compressEntry context entry = .ok here ∧ later.mapM (compressEntry context) = .ok after ∧
      packed = before ++ here :: after := by
  induction earlier generalizing packed with
  | nil =>
      rcases compressEntries_cons compressed with ⟨here, after, first, rest, whole⟩
      exact ⟨[], here, after, first, rest, whole⟩
  | cons other earlier ih =>
      rcases compressEntries_cons compressed with ⟨first, others, _, rest, whole⟩
      rcases ih rest with ⟨before, here, after, written, remaining, split⟩
      exact ⟨first :: before, here, after, written, remaining, by rw [whole, split, List.cons_append]⟩

theorem compressEntries_keys (compressed : payload.mapM (compressEntry context) = .ok packed) :
    keys packed = (keys payload).map (wireName context) := by
  induction payload generalizing packed with
  | nil =>
      cases compressed
      rfl
  | cons entry payload ih =>
      rcases compressEntries_cons compressed with ⟨first, others, written, rest, whole⟩
      rw [whole, keys, List.map_cons, keys, List.map_cons, List.map_cons, compressEntry_key written]
      exact congrArg _ (ih rest)

theorem wireName_eq (laws : ContextLaws context) (isField : UuidField context field short lead) {key : Text}
    (same : wireName context key = short) : key = field ∨ key = short := by
  rw [wireName] at same
  cases known : context.fullkeyToInfo.lookup key with
  | none =>
      simp only [known] at same
      exact .inr same
  | some info =>
      simp only [known] at same
      rcases laws.fieldsAliased _ (entry_of_lookup known) with ⟨other, isOther, named⟩
      rcases laws.fieldsAliased _ (entry_of_lookup isField) with ⟨own, isOwn, named'⟩
      rw [Option.mem_def] at isOther isOwn
      dsimp only at isOther isOwn named named'
      cases isOwn
      rw [isOther, Option.getD_some] at same
      rw [same, named'] at named
      exact .inl (Option.some.inj named).symm

theorem wireName_ne (laws : ContextLaws context) (isField : UuidField context field short lead) (key : Text) :
    wireName context key ≠ field := by
  intro same
  rw [wireName] at same
  cases known : context.fullkeyToInfo.lookup key with
  | none =>
      simp only [known] at same
      rw [same, isField] at known
      cases known
  | some info =>
      simp only [known] at same
      rcases laws.fieldsAliased _ (entry_of_lookup known) with ⟨other, isOther, named⟩
      rw [Option.mem_def] at isOther
      dsimp only at isOther named
      rw [isOther, Option.getD_some] at same
      have unnamed := (laws.aliasesNamed _ (entry_of_lookup named)).1
      dsimp only at unnamed
      rw [same, isField] at unnamed
      cases unnamed

theorem fullName_eq (laws : ContextLaws context) (isField : UuidField context field short lead) {key : Text}
    (same : fullName context key = field) : key = short ∨ key = field := by
  rw [fullName] at same
  cases named : context.shortToFullkey.lookup key with
  | none =>
      simp only [named] at same
      exact .inr same
  | some fullkey =>
      have aliased := (laws.aliasesNamed _ (entry_of_lookup named)).2
      dsimp only at aliased
      cases known : context.fullkeyToInfo.lookup fullkey with
      | none => simp [known] at aliased
      | some info =>
          rw [known, Option.bind_some] at aliased
          simp only [named, known, aliased, Option.isSome_some, if_true] at same
          rw [same, isField] at known
          cases known
          exact .inl (Option.some.inj aliased).symm

theorem alias_entry (laws : ContextLaws context) (isField : UuidField context field short lead) :
    context.shortToFullkey.lookup short = some field := by
  rcases laws.fieldsAliased _ (entry_of_lookup isField) with ⟨own, isOwn, named⟩
  rw [Option.mem_def] at isOwn
  dsimp only at isOwn named
  cases isOwn
  exact named

theorem compressEntry_uuid (isField : UuidField context field short lead) {packed : Text × ClaimValue α}
    (compressed : compressEntry context (field, .text v) = .ok packed) :
    ∃ w, uuidEncode lead v = .ok w ∧ packed = (short, .text w) := by
  rw [compressEntry] at compressed
  simp only [UuidField] at isField
  simp only [isField, compressValue, Option.bind_none] at compressed
  cases encoded : uuidEncode lead v with
  | error message => simp [encoded, Except.map] at compressed
  | ok w =>
      simp only [encoded, Except.map, Option.getD_some] at compressed
      cases compressed
      exact ⟨w, rfl, rfl⟩

theorem compressPayload_field (laws : ContextLaws context) (isField : UuidField context field short lead)
    (distinct : (keys payload).Nodup) (member : (field, .text v) ∈ payload) (noAlias : short ∉ keys payload)
    (compressed : compressPayload (some context) payload = .ok packed) :
    (∃ w, uuidEncode lead v = .ok w ∧ (short, .text w) ∈ packed) ∧ (keys packed).Nodup ∧ field ∉ keys packed := by
  rw [compressPayload_eq] at compressed
  cases all : payload.mapM (compressEntry context) with
  | error message => simp [all, Except.map] at compressed
  | ok entries =>
      simp only [all, Except.map, Except.ok.injEq] at compressed
      subst compressed
      refine ⟨?_, nodup_setAll List.nodup_nil, ?_⟩
      · rcases List.append_of_mem member with ⟨earlier, later, whole⟩
        subst whole
        rcases compressEntries_split all with ⟨before, here, after, written, others, split⟩
        rcases compressEntry_uuid isField written with ⟨w, encoded, isHere⟩
        have last : short ∉ keys after := by
          rw [compressEntries_keys others]
          intro again
          rcases List.mem_map.mp again with ⟨key, isLater, same⟩
          cases wireName_eq laws isField same with
          | inl isField =>
              rw [keys, List.map_append, List.nodup_append] at distinct
              have fresh := (List.nodup_cons.mp distinct.2.1).1
              exact fresh (isField ▸ isLater)
          | inr isAlias =>
              apply noAlias
              rw [keys, List.map_append]
              exact List.mem_append_right _ (List.mem_cons_of_mem _ (isAlias ▸ isLater))
        refine ⟨w, encoded, ?_⟩
        rw [split, isHere]
        exact mem_setAll_of_last last
      · intro present
        cases mem_keys_setAll present with
        | inl absent => cases absent
        | inr written =>
            rw [compressEntries_keys all] at written
            rcases List.mem_map.mp written with ⟨key, _, same⟩
            exact wireName_ne laws isField key same

theorem decompressPayload_field (laws : ContextLaws context) (isField : UuidField context field short lead) {w : Text}
    (distinct : (keys packed).Nodup) (member : (short, .text w) ∈ packed) (noField : field ∉ keys packed) :
    (decompressPayload (some context) packed).lookup field = some (.text (uuidDecode lead w)) := by
  have read : decompressEntry context (short, (.text w : ClaimValue α)) = (field, .text (uuidDecode lead w)) := by
    have known : context.fullkeyToInfo.lookup field = some ⟨some short, none, some lead⟩ := isField
    rw [decompressEntry]
    simp only [alias_entry laws isField, known, decompressValue, Option.bind_none, Option.isSome_some, if_true]
  rcases List.append_of_mem member with ⟨earlier, later, whole⟩
  have last : field ∉ keys (later.map (decompressEntry context)) := by
    rw [keys_decompressed]
    intro again
    rcases List.mem_map.mp again with ⟨key, isLater, same⟩
    have isKey : key ∈ keys packed := by
      rw [whole, keys, List.map_append]
      exact List.mem_append_right _ (List.mem_cons_of_mem _ isLater)
    cases fullName_eq laws isField same with
    | inl isAlias =>
        rw [whole, keys, List.map_append, List.nodup_append] at distinct
        have fresh := (List.nodup_cons.mp distinct.2.1).1
        exact fresh (isAlias ▸ isLater)
    | inr isField => exact noField (isField ▸ isKey)
  rw [decompressPayload_eq]
  have unset : (keys ([] : TokenPayload α)).Nodup := List.nodup_nil
  apply OwnEntries.lookup_of_entry (nodup_setAll unset)
  rw [whole, List.map_append, List.map_cons, read]
  exact mem_setAll_of_last last

end Wire

end TokenCompression

section Verified

variable {α ω τ ε : Type} {service : JwtTokenService α ω τ ε} {scope : Text} {context : CompressionContext}
  {payload verified : TokenPayload α} {options : Option ω} {token : τ} {field short lead v : Text}

theorem sign_ok (signed : service.sign scope payload options = .ok token) :
    ∃ packed, compressPayload (compression scope) payload = .ok packed ∧
      service.jwt.sign packed service.secretV2 ⟨options, "v2".toList⟩ = .ok token := by
  rw [JwtTokenService.sign] at signed
  cases compressed : compressPayload (compression scope) payload with
  | error message => simp [compressed] at signed
  | ok packed =>
      simp only [compressed] at signed
      cases issued : service.jwt.sign packed service.secretV2 ⟨options, "v2".toList⟩ with
      | error error =>
          rw [issued] at signed
          cases signed
      | ok other =>
          rw [issued] at signed
          cases signed
          exact ⟨packed, rfl, issued⟩

theorem verify_accepted (accepted : service.verify scope token = .ok verified) :
    ∃ packed, service.jwt.verify token service.secretV2 JwtTokenService.verifyOptions = .ok packed ∧
      verified = decompressPayload (compression scope) packed := by
  rw [JwtTokenService.verify] at accepted
  split at accepted
  · split at accepted
    · cases accepted
    next packed isPacked =>
      cases accepted
      exact ⟨packed, isPacked, rfl⟩
  · cases accepted

theorem verified_field_iff (carries : SignedPayloads service.jwt) (known : compression scope = some context)
    (isField : UuidField context field short lead) (distinct : (keys payload).Nodup)
    (member : (field, .text v) ∈ payload) (noAlias : short ∉ keys payload)
    (signed : service.sign scope payload options = .ok token) (accepted : service.verify scope token = .ok verified) :
    verified.lookup field = some (.text v) ↔ Packable lead v := by
  have laws := compression_laws known
  rcases sign_ok signed with ⟨packed, compressed, issued⟩
  rcases verify_accepted accepted with ⟨carried, isCarried, isVerified⟩
  rw [known] at compressed isVerified
  obtain ⟨⟨w, encoded, written⟩, packedDistinct, noField⟩ :=
    compressPayload_field laws isField distinct member noAlias compressed
  rcases compression_wireNames known _ (entry_of_lookup (alias_entry laws isField)) with ⟨plainAlias, _, plainField⟩
  have noField' : field ∉ keys carried := by
    intro present
    cases carries.names issued isCarried field present with
    | inl wasSigned => exact noField wasSigned
    | inr registered => exact plainField registered
  have read := decompressPayload_field laws isField (carries.distinct issued packedDistinct isCarried)
    (carries.texts issued isCarried written plainAlias) noField'
  rw [isVerified, read, ← uuidDecode_encode_iff encoded, Option.some.injEq, ClaimValue.text.injEq]

theorem sign_without_lead (known : compression scope = some context) (isField : UuidField context field short lead)
    (member : (field, .text v) ∈ payload) (misses : ¬ lead <+: v) :
    ∃ message, service.sign scope payload options = .error (.failure message) := by
  have fails : ∀ packed, compressPayload (compression scope) payload ≠ .ok packed := by
    intro packed compressed
    rw [known, compressPayload_eq] at compressed
    cases all : payload.mapM (compressEntry context) with
    | error message => simp [all, Except.map] at compressed
    | ok entries =>
        rcases List.append_of_mem member with ⟨earlier, later, whole⟩
        subst whole
        rcases compressEntries_split all with ⟨_, _, _, written, _, _⟩
        rcases compressEntry_uuid isField written with ⟨w, encoded, _⟩
        exact misses (uuidEncode_ok encoded).1
  rw [JwtTokenService.sign]
  cases compressed : compressPayload (compression scope) payload with
  | error message => exact ⟨message, rfl⟩
  | ok packed => exact absurd compressed (fails packed)

/-- Payloads of the expected shape come back from compression as they were, and no two become the same. A text signed in
a UUID field is refused without its lead; a token issued for it verifies with the same text exactly if the text is pairs
of lower-case hex digits with the dashes of a UUID. -/
theorem token_compression_exact {scope : Text} {context : CompressionContext}
    (known : compression scope = some context) (service : JwtTokenService α ω τ ε)
    (carries : SignedPayloads service.jwt) :
    (∀ lead uuid, CanonicalUuid uuid → Packable lead (lead ++ uuid)) ∧
    (∀ payload : TokenPayload α, CanonicalPayload context payload →
      ∃ packed, compressPayload (compression scope) payload = .ok packed ∧
        decompressPayload (compression scope) packed = payload) ∧
    (∀ payload other : TokenPayload α, CanonicalPayload context payload → CanonicalPayload context other →
      compressPayload (compression scope) payload = compressPayload (compression scope) other → payload = other) ∧
    ∀ (payload : TokenPayload α) (field short lead v : Text) (options : Option ω), (keys payload).Nodup →
      UuidField context field short lead → (field, .text v) ∈ payload → short ∉ keys payload →
        (¬ lead <+: v → ∃ message, service.sign scope payload options = .error (.failure message)) ∧
        ∀ token verified, service.sign scope payload options = .ok token → service.verify scope token = .ok verified →
          (verified.lookup field = some (.text v) ↔ Packable lead v) := by
  have laws := compression_laws known
  refine ⟨fun lead uuid canonical => packable_of_canonical canonical, ?_, ?_, ?_⟩
  · intro payload canonical
    rw [known]
    exact decompress_compress laws canonical
  · intro payload other canonical canonical' same
    rw [known] at same
    exact compress_injective laws canonical canonical' same
  · intro payload field short lead v options distinct isField member noAlias
    constructor
    · exact sign_without_lead known isField member
    · intro token verified signed accepted
      exact verified_field_iff carries known isField distinct member noAlias signed accepted

end Verified

def plainJwt : Jsonwebtoken ℕ Unit (TokenPayload ℕ × Text × Text) Unit where
  sign payload secret options :=
    .ok (if "iat".toList ∈ keys payload then payload else payload ++ [("iat".toList, .other 1700000000)],
      secret, options.keyid)
  decode token := some ⟨some token.2.2, some token.1⟩
  verify token secret _ := if token.2.1 = secret then .ok token.1 else .error ()

def plainTokenService : JwtTokenService ℕ Unit (TokenPayload ℕ × Text × Text) Unit where
  jwt := plainJwt
  jwtSecretV2 := some "secret".toList

theorem plainJwt_verify {token : TokenPayload ℕ × Text × Text} {key : Text} {verifying : VerifyOptions}
    {verified : TokenPayload ℕ} (accepted : plainJwt.verify token key verifying = .ok verified) :
    verified = token.1 := by
  simp only [plainJwt] at accepted
  split at accepted
  · exact (Except.ok.inj accepted).symm
  · cases accepted

theorem plainJwt_carries : SignedPayloads plainJwt := by
  constructor
  · intro payload secret options token key verifying verified signed distinct accepted
    rw [plainJwt_verify accepted, ← Except.ok.inj signed]
    dsimp only
    split
    · exact distinct
    next absent =>
      rw [keys, List.map_append, List.nodup_append]
      refine ⟨distinct, List.nodup_singleton _, ?_⟩
      intro name isName other single same
      rw [same, List.mem_singleton.mp single] at isName
      exact absent isName
  · intro payload secret options token key verifying verified signed accepted name v member _
    rw [plainJwt_verify accepted, ← Except.ok.inj signed]
    dsimp only
    split
    · exact member
    · exact List.mem_append_left _ member
  · intro payload secret options token key verifying verified signed accepted name isName
    rw [plainJwt_verify accepted, ← Except.ok.inj signed] at isName
    dsimp only at isName
    split at isName
    · exact .inl isName
    · rw [keys, List.map_append, List.mem_append] at isName
      cases isName with
      | inl before => exact .inl before
      | inr added =>
          rw [List.mem_singleton.mp added]
          exact .inr List.mem_cons_self

/-- A UUID verifies as it was signed. -/
theorem uuid_verifies :
    ([("user_uid".toList, .text "01234567-89ab-cdef-0123-456789abcdef".toList),
        ("iat".toList, .other 1700000000)] : TokenPayload ℕ).lookup "user_uid".toList =
        some (.text "01234567-89ab-cdef-0123-456789abcdef".toList) ↔
      Packable [] "01234567-89ab-cdef-0123-456789abcdef".toList := by
  have signed : plainTokenService.sign "auth".toList
      [("user_uid".toList, .text "01234567-89ab-cdef-0123-456789abcdef".toList)] none =
        .ok ([("uu".toList, .text "ASNFZ4mrze8BI0VniavN7w==".toList), ("iat".toList, .other 1700000000)],
          "secret".toList, "v2".toList) := by
    decide +kernel
  have accepted : plainTokenService.verify "auth".toList
      ([("uu".toList, .text "ASNFZ4mrze8BI0VniavN7w==".toList), ("iat".toList, .other 1700000000)],
        "secret".toList, "v2".toList) =
      .ok [("user_uid".toList, .text "01234567-89ab-cdef-0123-456789abcdef".toList),
        ("iat".toList, .other 1700000000)] := by
    decide +kernel
  exact ((token_compression_exact (rfl : compression "auth".toList = some authCompression) plainTokenService
    plainJwt_carries).2.2.2 _ _
    "uu".toList [] _ none (by decide) (by rfl) (by decide) (by decide)).2 _ _ signed accepted

/-- A text that is no UUID is signed, and verifies as four dashes. -/
theorem truncated_claim : ∃ token verified,
    plainTokenService.sign "auth".toList [("user_uid".toList, .text "not-a-uuid".toList)] none = .ok token ∧
    plainTokenService.verify "auth".toList token = .ok verified ∧
    verified.lookup "user_uid".toList = some (.text "----".toList) ∧
    verified.lookup "user_uid".toList ≠ some (.text "not-a-uuid".toList) := by
  refine ⟨([("uu".toList, .text []), ("iat".toList, .other 1700000000)], "secret".toList, "v2".toList),
    [("user_uid".toList, .text "----".toList), ("iat".toList, .other 1700000000)], ?_, ?_, ?_, ?_⟩
  · decide +kernel
  · decide +kernel
  · decide +kernel
  · decide +kernel

end Puter

/-
Module: Puter.Auth.TokenCompression
Purpose: Compression of token payloads on the wire (services/auth/TokenService.ts): field names become aliases, listed
  values become codes, UUIDs are packed as base64. Payloads of the expected shape come back as they were. Packing a
  UUID reads its hex digits up to the first pair that is none, so that other texts come back as another text.
Trusted boundary: none
Main exports: ClaimValue, compress_injective
-/
import Puter.Library.Base64
import Puter.Library.HexText
import Puter.Library.OwnEntries
import Puter.Permission.PermissionUtil

namespace Puter

open OwnEntries

/-- What a claim of a token holds: a text, or something else. -/
inductive ClaimValue (α : Type) where
  | text (value : Text)
  | other (value : α)
deriving DecidableEq, Repr

/-- A payload, in the order of `Object.keys`. -/
abbrev TokenPayload (α : Type) := List (Text × ClaimValue α)

/-- A field that is compressed: its alias, the codes of its values (`values.to_short`), and, of a field that holds a
UUID, what stands before the UUID (the argument of `uuidCompression`). -/
structure FieldInfo where
  short : Option Text
  values : Option (List (Text × Text))
  uuid : Option Text
deriving DecidableEq, Repr

structure CompressionContext where
  fullkeyToInfo : List (Text × FieldInfo)
  shortToFullkey : List (Text × Text)

namespace TokenCompression

/-- `def` -/
def contextOf (fields : List (Text × FieldInfo)) : CompressionContext where
  fullkeyToInfo := fields
  shortToFullkey := fields.foldl (fun acc field =>
    match field.2.short with
    | some short => setOwn acc short field.1
    | none => acc) []

/-- `defv`, its `to_long` -/
def toLong (values : List (Text × Text)) : List (Text × Text) :=
  values.foldl (fun acc entry => setOwn acc entry.2 entry.1) []

/-- `encode` of `uuidCompression` -/
def uuidEncode (lead v : Text) : Except Text Text :=
  if lead.isPrefixOf v then
    .ok (Base64.encode (HexText.decode ((v.drop lead.length).filter (· ≠ '-'))))
  else .error ("Expected ".toList ++ lead ++ " prefix".toList)

def dashed (undecorated : Text) : Text :=
  undecorated.take 8 ++ '-' :: ((undecorated.drop 8).take 4 ++ '-' :: ((undecorated.drop 12).take 4 ++ '-' ::
    ((undecorated.drop 16).take 4 ++ '-' :: undecorated.drop 20)))

/-- `decode` of `uuidCompression` -/
def uuidDecode (lead v : Text) : Text :=
  if '-' ∈ v then v else lead ++ dashed (HexText.encode (Base64.decode v))

def aliasField (short : String) : FieldInfo := ⟨some short.toList, none, none⟩

def valuesField (short : String) (values : List (Text × Text)) : FieldInfo := ⟨some short.toList, some values, none⟩

def uuidField (short lead : String) : FieldInfo := ⟨some short.toList, none, some lead.toList⟩

def authCompression : CompressionContext :=
  contextOf [
    ("uuid".toList, uuidField "u" ""),
    ("session".toList, uuidField "s" ""),
    ("version".toList, aliasField "v"),
    ("type".toList, valuesField "t" [
      ("session".toList, "s".toList), ("access-token".toList, "t".toList), ("app-under-user".toList, "au".toList)]),
    ("user_uid".toList, uuidField "uu" ""),
    ("app_uid".toList, uuidField "au" "app-"),
    ("session_uid".toList, uuidField "su" ""),
    ("auth_id".toList, uuidField "ai" "")]

def hostedAssetCompression : CompressionContext :=
  contextOf [
    ("version".toList, aliasField "v"),
    ("kind".toList, valuesField "k" [("private".toList, "pr".toList), ("public".toList, "pu".toList)]),
    ("user_uid".toList, uuidField "uu" ""),
    ("app_uid".toList, uuidField "au" "app-"),
    ("session_uuid".toList, uuidField "s" ""),
    ("auth_id".toList, uuidField "ai" ""),
    ("subdomain".toList, aliasField "sd"),
    ("host".toList, aliasField "h")]

/-- `COMPRESSION`. Callers name one of the two scopes. -/
def compression (scope : Text) : Option CompressionContext :=
  [("auth".toList, authCompression), ("hosted-asset".toList, hostedAssetCompression)].lookup scope

variable {α : Type}

def compressValue (info : FieldInfo) : ClaimValue α → Except Text (ClaimValue α)
  | .other value => .ok (.other value)
  | .text v =>
      match info.values.bind fun values => values.lookup v with
      | some code => .ok (.text code)
      | none =>
          match info.uuid with
          | some lead => (uuidEncode lead v).map .text
          | none => .ok (.text v)

def decompressValue (info : FieldInfo) : ClaimValue α → ClaimValue α
  | .other value => .other value
  | .text v =>
      match info.values.bind fun values => (toLong values).lookup v with
      | some name => .text name
      | none =>
          match info.uuid with
          | some lead => .text (uuidDecode lead v)
          | none => .text v

def compressEntry (context : CompressionContext) (entry : Text × ClaimValue α) : Except Text (Text × ClaimValue α) :=
  match context.fullkeyToInfo.lookup entry.1 with
  | none => .ok entry
  | some info => (compressValue info entry.2).map fun v => (info.short.getD entry.1, v)

def compressPayload (context : Option CompressionContext) (payload : TokenPayload α) : Except Text (TokenPayload α) :=
  match context with
  | none => .ok payload
  | some context =>
      payload.foldlM (fun out entry => (compressEntry context entry).map fun e => setOwn out e.1 e.2) []

def decompressEntry (context : CompressionContext) (entry : Text × ClaimValue α) : Text × ClaimValue α :=
  match context.shortToFullkey.lookup entry.1 with
  | none => entry
  | some fullkey =>
      match context.fullkeyToInfo.lookup fullkey with
      | none => entry
      | some info => (if info.short.isSome then fullkey else entry.1, decompressValue info entry.2)

def decompressPayload (context : Option CompressionContext) (payload : TokenPayload α) : TokenPayload α :=
  match context with
  | none => payload
  | some context =>
      payload.foldl (fun out entry => setOwn out (decompressEntry context entry).1 (decompressEntry context entry).2) []

def CanonicalUuid (v : Text) : Prop := ∃ undecorated, undecorated.length = 32 ∧
  (∀ c ∈ undecorated, c ∈ HexText.digits) ∧ v = dashed undecorated

def undecorated (lead v : Text) : Text := (v.drop lead.length).filter (· ≠ '-')

def Packable (lead v : Text) : Prop := HexText.HexDigits (undecorated lead v) ∧ v = lead ++ dashed (undecorated lead v)

instance (lead v : Text) : Decidable (Packable lead v) := inferInstanceAs (Decidable (_ ∧ _))

section Uuid

variable {lead v w : Text}

theorem dash_not_digit : '-' ∉ HexText.digits := by decide

theorem filter_digits {part : Text} (hex : ∀ c ∈ part, c ∈ HexText.digits) : part.filter (· ≠ '-') = part := by
  rw [List.filter_eq_self]
  intro c member
  rw [decide_eq_true_iff]
  rintro rfl
  exact dash_not_digit (hex _ member)

theorem group_joined (digits : Text) (start size : ℕ) :
    (digits.drop start).take size ++ digits.drop (start + size) = digits.drop start := by
  rw [← List.drop_drop, List.take_append_drop]

theorem filter_dashed {digits : Text} (hex : ∀ c ∈ digits, c ∈ HexText.digits) :
    (dashed digits).filter (· ≠ '-') = digits := by
  have first : (digits.take 8).filter (· ≠ '-') = digits.take 8 :=
    filter_digits fun c member => hex c (List.mem_of_mem_take member)
  have group : ∀ start, ((digits.drop start).take 4).filter (· ≠ '-') = (digits.drop start).take 4 :=
    fun start => filter_digits fun c member => hex c (List.mem_of_mem_drop (List.mem_of_mem_take member))
  have last : (digits.drop 20).filter (· ≠ '-') = digits.drop 20 :=
    filter_digits fun c member => hex c (List.mem_of_mem_drop member)
  have dash : ∀ rest : Text, ('-' :: rest).filter (· ≠ '-') = rest.filter (· ≠ '-') := fun rest => rfl
  simp only [dashed, List.filter_append, dash, first, group, last]
  rw [group_joined digits 16 4, group_joined digits 12 4, group_joined digits 8 4, List.take_append_drop]

theorem dash_not_encoded (bytes : List UInt8) : '-' ∉ Base64.encode bytes := by
  intro member
  have apart : '-' ∉ Base64.alphabet ∧ '-' ≠ '=' := by decide
  cases Base64.mem_encode member with
  | inl listed => exact apart.1 listed
  | inr pad => exact apart.2 pad

theorem uuidDecode_encoded (lead : Text) (bytes : List UInt8) :
    uuidDecode lead (Base64.encode bytes) = lead ++ dashed (HexText.encode bytes) := by
  rw [uuidDecode, if_neg (dash_not_encoded bytes), Base64.decode_encode]

theorem uuidEncode_ok (packed : uuidEncode lead v = .ok w) :
    lead <+: v ∧ w = Base64.encode (HexText.decode (undecorated lead v)) := by
  rw [uuidEncode] at packed
  split at packed
  next leads =>
    cases packed
    exact ⟨List.isPrefixOf_iff_prefix.mp leads, rfl⟩
  · cases packed

theorem uuidEncode_of_lead (leads : lead <+: v) :
    uuidEncode lead v = .ok (Base64.encode (HexText.decode (undecorated lead v))) := by
  rw [uuidEncode, if_pos (List.isPrefixOf_iff_prefix.mpr leads), undecorated]

theorem undecorated_dashed {digits : Text} (hex : ∀ c ∈ digits, c ∈ HexText.digits) :
    undecorated lead (lead ++ dashed digits) = digits := by
  rw [undecorated, List.drop_left, filter_dashed hex]

theorem packable_of_canonical {uuid : Text} (canonical : CanonicalUuid uuid) : Packable lead (lead ++ uuid) := by
  have ⟨digits, length, hex, shape⟩ := canonical
  subst shape
  rw [Packable, undecorated_dashed hex]
  exact ⟨⟨hex, by omega⟩, rfl⟩

theorem uuidDecode_encode_iff (packed : uuidEncode lead v = .ok w) : uuidDecode lead w = v ↔ Packable lead v := by
  have ⟨_, written⟩ := uuidEncode_ok packed
  rw [written, uuidDecode_encoded]
  constructor
  · intro back
    have hex := HexText.hexDigits_encode (HexText.decode (undecorated lead v))
    have same : undecorated lead v = HexText.encode (HexText.decode (undecorated lead v)) := by
      conv_lhs => rw [← back]
      exact undecorated_dashed hex.1
    rw [← same] at hex back
    exact ⟨hex, back.symm⟩
  · intro packable
    rw [HexText.encode_decode packable.1]
    exact packable.2.symm

end Uuid

/-- What makes a table of fields readable backwards: every field has an alias of its own that names no field, and codes
name their values. -/
structure ContextLaws (context : CompressionContext) : Prop where
  fieldsAliased : ∀ field ∈ context.fullkeyToInfo,
    ∃ short ∈ field.2.short, context.shortToFullkey.lookup short = some field.1
  aliasesNamed : ∀ entry ∈ context.shortToFullkey, context.fullkeyToInfo.lookup entry.1 = none ∧
    (context.fullkeyToInfo.lookup entry.2).bind FieldInfo.short = some entry.1
  codesRead : ∀ field ∈ context.fullkeyToInfo, ∀ values ∈ field.2.values, ∀ entry ∈ values,
    (toLong values).lookup entry.2 = some entry.1

theorem authCompression_laws : ContextLaws authCompression :=
  ⟨by decide +kernel, by decide +kernel, by decide +kernel⟩

theorem hostedAssetCompression_laws : ContextLaws hostedAssetCompression :=
  ⟨by decide +kernel, by decide +kernel, by decide +kernel⟩

theorem compression_laws {scope : Text} {context : CompressionContext} (known : compression scope = some context) :
    ContextLaws context := by
  have listed := entry_of_lookup known
  simp only [List.mem_cons, List.not_mem_nil, or_false, Prod.mk.injEq] at listed
  cases listed with
  | inl auth => exact auth.2 ▸ authCompression_laws
  | inr hosted => exact hosted.2 ▸ hostedAssetCompression_laws

/-- A value that its field is meant for: a listed one, a UUID with what stands before it, or no text. -/
def CanonicalValue (info : FieldInfo) : ClaimValue α → Prop
  | .other _ => True
  | .text v =>
      match info.values with
      | some values => v ∈ keys values
      | none =>
          match info.uuid with
          | some lead => Packable lead v
          | none => True

def CanonicalEntry (context : CompressionContext) (entry : Text × ClaimValue α) : Prop :=
  match context.fullkeyToInfo.lookup entry.1 with
  | some info => CanonicalValue info entry.2
  | none => entry.1 ∉ keys context.shortToFullkey

structure CanonicalPayload (context : CompressionContext) (payload : TokenPayload α) : Prop where
  keysDistinct : (keys payload).Nodup
  entriesCanonical : ∀ entry ∈ payload, CanonicalEntry context entry

section RoundTrip

variable {context : CompressionContext} {payload packed : TokenPayload α}

theorem packable_lead {lead v : Text} (packable : Packable lead v) : lead <+: v := by
  rw [packable.2]
  exact List.prefix_append _ _

theorem decompress_compressValue {info : FieldInfo} {value : ClaimValue α} (canonical : CanonicalValue info value)
    (codes : ∀ values ∈ info.values, ∀ entry ∈ values, (toLong values).lookup entry.2 = some entry.1) :
    ∃ packed, compressValue info value = .ok packed ∧ decompressValue info packed = value := by
  cases value with
  | other value => exact ⟨.other value, rfl, rfl⟩
  | text v =>
      rw [CanonicalValue] at canonical
      cases listed : info.values with
      | some values =>
          simp only [listed] at canonical
          have ⟨code, coded⟩ := lookup_of_key canonical
          have read := codes values listed (v, code) (entry_of_lookup coded)
          refine ⟨.text code, ?_, ?_⟩
          · simp only [compressValue, listed, Option.bind_some, coded]
          · simp only [decompressValue, listed, Option.bind_some, read]
      | none =>
          simp only [listed] at canonical
          cases packs : info.uuid with
          | none => exact ⟨.text v, by simp [compressValue, listed, packs], by simp [decompressValue, listed, packs]⟩
          | some lead =>
              simp only [packs] at canonical
              have packed := uuidEncode_of_lead (packable_lead canonical)
              have back := (uuidDecode_encode_iff packed).mpr canonical
              refine ⟨.text (Base64.encode (HexText.decode (undecorated lead v))), ?_, ?_⟩
              · simp only [compressValue, listed, packs, packed, Option.bind_none]
                rfl
              · simp only [decompressValue, listed, packs, back, Option.bind_none]

theorem decompress_compressEntry (laws : ContextLaws context) {entry : Text × ClaimValue α}
    (canonical : CanonicalEntry context entry) :
    ∃ packed, compressEntry context entry = .ok packed ∧ decompressEntry context packed = entry := by
  rw [CanonicalEntry] at canonical
  cases known : context.fullkeyToInfo.lookup entry.1 with
  | none =>
      simp only [known] at canonical
      have unknown : context.shortToFullkey.lookup entry.1 = none := lookup_of_not_key canonical
      exact ⟨entry, by rw [compressEntry, known], by rw [decompressEntry, unknown]⟩
  | some info =>
      simp only [known] at canonical
      have field := entry_of_lookup known
      have ⟨short, isShort, named⟩ := laws.fieldsAliased _ field
      have ⟨packed, compressed, back⟩ := decompress_compressValue canonical (laws.codesRead _ field)
      rw [Option.mem_def] at isShort
      dsimp only at isShort named
      refine ⟨(short, packed), ?_, ?_⟩
      · rw [compressEntry, known]
        simp only [compressed, isShort]
        rfl
      · rw [decompressEntry]
        simp only [named, known, isShort, back, Option.isSome_some, if_true]

theorem compress_fold (context : CompressionContext) (payload out : TokenPayload α) :
    payload.foldlM (fun out entry => (compressEntry context entry).map fun e => setOwn out e.1 e.2) out =
      (payload.mapM (compressEntry context)).map (setAll out) := by
  induction payload generalizing out with
  | nil => rfl
  | cons entry payload ih =>
      rw [List.foldlM_cons, List.mapM_cons]
      cases compressed : compressEntry context entry with
      | error message => rfl
      | ok e =>
          cases rest : payload.mapM (compressEntry context) with
          | error message =>
              have fails := ih (setOwn out e.1 e.2)
              rw [rest] at fails
              exact fails
          | ok es =>
              have sets := ih (setOwn out e.1 e.2)
              rw [rest] at sets
              exact sets

theorem compressPayload_eq (context : CompressionContext) (payload : TokenPayload α) :
    compressPayload (some context) payload = (payload.mapM (compressEntry context)).map (setAll []) :=
  compress_fold context payload []

theorem decompressPayload_eq (context : CompressionContext) (payload : TokenPayload α) :
    decompressPayload (some context) payload = setAll [] (payload.map (decompressEntry context)) := by
  rw [decompressPayload, setAll, List.foldl_map]

def fullName (context : CompressionContext) (key : Text) : Text :=
  match context.shortToFullkey.lookup key with
  | none => key
  | some fullkey =>
      match context.fullkeyToInfo.lookup fullkey with
      | none => key
      | some info => if info.short.isSome then fullkey else key

theorem decompressEntry_key (entry : Text × ClaimValue α) :
    (decompressEntry context entry).1 = fullName context entry.1 := by
  rw [decompressEntry, fullName]
  cases context.shortToFullkey.lookup entry.1 with
  | none => rfl
  | some fullkey =>
      dsimp only
      cases context.fullkeyToInfo.lookup fullkey with
      | none => rfl
      | some info => rfl

theorem keys_decompressed (packed : TokenPayload α) :
    keys (packed.map (decompressEntry context)) = (keys packed).map (fullName context) := by
  rw [keys, keys, List.map_map, List.map_map]
  apply List.map_congr_left
  intro entry _
  exact decompressEntry_key entry

theorem decompress_compressEntries (laws : ContextLaws context)
    (canonical : ∀ entry ∈ payload, CanonicalEntry context entry) :
    ∃ packed, payload.mapM (compressEntry context) = .ok packed ∧ packed.map (decompressEntry context) = payload := by
  induction payload with
  | nil => exact ⟨[], rfl, rfl⟩
  | cons entry payload ih =>
      have ⟨e, compressed, back⟩ := decompress_compressEntry laws (canonical entry List.mem_cons_self)
      have ⟨es, others, rest⟩ := ih fun other later => canonical other (List.mem_cons_of_mem _ later)
      refine ⟨e :: es, ?_, ?_⟩
      · rw [List.mapM_cons, compressed, others]
        rfl
      · rw [List.map_cons, back, rest]

theorem decompress_compress (laws : ContextLaws context) (canonical : CanonicalPayload context payload) :
    ∃ packed, compressPayload (some context) payload = .ok packed ∧
      decompressPayload (some context) packed = payload := by
  have ⟨packed, compressed, back⟩ := decompress_compressEntries laws canonical.entriesCanonical
  have names : (keys packed).map (fullName context) = keys payload := by
    rw [← keys_decompressed, back]
  have distinct : (keys packed).Nodup := by
    have mapped := canonical.keysDistinct
    rw [← names] at mapped
    exact mapped.of_map
  refine ⟨packed, ?_, ?_⟩
  · rw [compressPayload_eq, compressed]
    exact congrArg Except.ok (setAll_new distinct)
  · rw [decompressPayload_eq, back]
    exact setAll_new canonical.keysDistinct

theorem compress_injective (laws : ContextLaws context) {other : TokenPayload α}
    (canonical : CanonicalPayload context payload) (canonical' : CanonicalPayload context other)
    (same : compressPayload (some context) payload = compressPayload (some context) other) : payload = other := by
  have ⟨packed, compressed, back⟩ := decompress_compress laws canonical
  have ⟨packed', compressed', back'⟩ := decompress_compress laws canonical'
  rw [compressed, compressed'] at same
  cases same
  rw [← back, ← back']

end RoundTrip

end TokenCompression

end Puter

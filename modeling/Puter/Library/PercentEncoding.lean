/-
Module: Puter.Library.PercentEncoding
Purpose: Hexadecimal digits, and texts with percent escapes: an escape is a byte, and the bytes of a character
  outside ASCII are its UTF-8 form. Decoding fails at an escape that is cut short and at bytes that are not
  UTF-8.
Trusted boundary: none
Main exports: hexDigit, encodeURIComponent
-/
import Mathlib

namespace PercentEncoding

def hexDigit (c : Char) : Option ℕ :=
  if c.isDigit then some (c.toNat - 48)
  else if 'a' ≤ c ∧ c ≤ 'f' then some (c.toNat - 87)
  else if 'A' ≤ c ∧ c ≤ 'F' then some (c.toNat - 55)
  else none

def percentByte : List Char → Option (ℕ × List Char)
  | '%' :: high :: low :: rest =>
      match hexDigit high, hexDigit low with
      | some h, some l => some (16 * h + l, rest)
      | _, _ => none
  | _ => none

/-- This many escapes of continuation bytes, added to what has been read. -/
def continuations : ℕ → ℕ → List Char → Option (ℕ × List Char)
  | 0, value, rest => some (value, rest)
  | more + 1, value, text =>
      match percentByte text with
      | none => none
      | some (byte, rest) =>
          if 0x80 ≤ byte ∧ byte < 0xC0 then continuations more (64 * value + (byte - 0x80)) rest else none

/-- A character from its first byte on; the shortest form is the only one. -/
def decodeEscape (text : List Char) : Option (Char × List Char) :=
  match percentByte text with
  | none => none
  | some (byte, rest) =>
      let character := fun more lead least =>
        (continuations more lead rest).bind fun read =>
          if least ≤ read.1 ∧ read.1.isValidChar then some (Char.ofNat read.1, read.2) else none
      if byte < 0x80 then some (Char.ofNat byte, rest)
      else if 0xC0 ≤ byte ∧ byte < 0xE0 then character 1 (byte - 0xC0) 0x80
      else if 0xE0 ≤ byte ∧ byte < 0xF0 then character 2 (byte - 0xE0) 0x800
      else if 0xF0 ≤ byte ∧ byte < 0xF8 then character 3 (byte - 0xF0) 0x10000
      else none

/-- Decoding, for texts up to a length. -/
def decodeFrom : ℕ → List Char → Option (List Char)
  | _, [] => some []
  | 0, _ :: _ => none
  | fuel + 1, c :: rest =>
      if c = '%' then
        (decodeEscape (c :: rest)).bind fun decoded => (decodeFrom fuel decoded.2).map (decoded.1 :: ·)
      else (decodeFrom fuel rest).map (c :: ·)

def decodeURIComponent (text : List Char) : Option (List Char) := decodeFrom text.length text

def digitChar (digit : ℕ) : Char := if digit < 10 then Char.ofNat (48 + digit) else Char.ofNat (55 + digit)

/-- The characters that stay as they are: letters, digits, and `-_.!~*'()`. -/
def isUnreserved (c : Char) : Bool :=
  c.isAlphanum || c = '-' || c = '_' || c = '.' || c = '!' || c = '~' || c = '*' || c.toNat = 39 || c = '(' || c = ')'

def encodeURIComponent (text : List Char) : List Char :=
  text.flatMap fun c =>
    if isUnreserved c then [c]
    else (String.utf8EncodeChar c).flatMap fun byte => ['%', digitChar (byte.toNat / 16), digitChar (byte.toNat % 16)]

end PercentEncoding

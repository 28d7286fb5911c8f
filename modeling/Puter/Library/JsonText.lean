/-
Module: Puter.Library.JsonText
Purpose: Documents as JSON text and back. The writer is `JSON.stringify` and the reader `JSON.parse`, for documents
  whose numbers are whole; what is written is read back.
Trusted boundary: fractions, exponents and halves of a surrogate pair are refused, and of fields with one name all
  are kept
Main exports: Value, parse, parse_stringify
-/
import Puter.Library.Document
import Puter.Library.PercentEncoding

namespace JsonText

open PercentEncoding

abbrev Value := Document (List Char) ℤ

section Writing

def hexDigitChar (value : ℕ) : Char := "0123456789abcdef".toList.getD value '0'

/-- A character inside quotation marks. -/
def escapeChar (c : Char) : List Char :=
  if c = '"' then ['\\', '"']
  else if c = '\\' then ['\\', '\\']
  else if c.toNat = 8 then ['\\', 'b']
  else if c.toNat = 9 then ['\\', 't']
  else if c.toNat = 10 then ['\\', 'n']
  else if c.toNat = 12 then ['\\', 'f']
  else if c.toNat = 13 then ['\\', 'r']
  else if c.toNat < 32 then ['\\', 'u', '0', '0', hexDigitChar (c.toNat / 16), hexDigitChar (c.toNat % 16)]
  else [c]

def quote (text : List Char) : List Char := '"' :: (text.flatMap escapeChar ++ ['"'])

def ofInt : ℤ → List Char
  | .ofNat n => Nat.toDigits 10 n
  | .negSucc n => '-' :: Nat.toDigits 10 (n + 1)

mutual
def stringify : Value → List Char
  | .null => ['n', 'u', 'l', 'l']
  | .bool true => ['t', 'r', 'u', 'e']
  | .bool false => ['f', 'a', 'l', 's', 'e']
  | .number n => ofInt n
  | .text t => quote t
  | .list [] => ['[', ']']
  | .list (item :: items) => '[' :: (stringify item ++ stringifyItems items)
  | .map [] => ['\x7b', '\x7d']
  | .map (field :: fields) => '\x7b' :: (quote field.1 ++ ':' :: (stringify field.2 ++ stringifyFields fields))

def stringifyItems : List Value → List Char
  | [] => [']']
  | item :: items => ',' :: (stringify item ++ stringifyItems items)

def stringifyFields : List (List Char × Value) → List Char
  | [] => ['\x7d']
  | field :: fields => ',' :: (quote field.1 ++ ':' :: (stringify field.2 ++ stringifyFields fields))
end

end Writing

section Reading

def isJsonSpace (c : Char) : Bool := c.toNat = 32 || c.toNat = 9 || c.toNat = 10 || c.toNat = 13

def skipSpace (text : List Char) : List Char := text.dropWhile isJsonSpace

def namedEscape (c : Char) : Option Char :=
  if c = '"' ∨ c = '\\' ∨ c = '/' then some c
  else if c = 'b' then some (Char.ofNat 8)
  else if c = 'f' then some (Char.ofNat 12)
  else if c = 'n' then some (Char.ofNat 10)
  else if c = 'r' then some (Char.ofNat 13)
  else if c = 't' then some (Char.ofNat 9)
  else none

def readHex : List Char → Option (ℕ × List Char)
  | a :: b :: c :: d :: rest =>
      match hexDigit a, hexDigit b, hexDigit c, hexDigit d with
      | some p, some q, some r, some s => some (((p * 16 + q) * 16 + r) * 16 + s, rest)
      | _, _, _, _ => none
  | _ => none

/-- A unit, or a pair of them. -/
def readUnit (text : List Char) : Option (Char × List Char) :=
  match readHex text with
  | none => none
  | some (unit, rest) =>
      if 0xD800 ≤ unit ∧ unit < 0xDC00 then
        match rest with
        | '\\' :: 'u' :: second =>
            match readHex second with
            | some (low, after) =>
                if 0xDC00 ≤ low ∧ low < 0xE000 then
                  some (Char.ofNat (0x10000 + (unit - 0xD800) * 0x400 + (low - 0xDC00)), after)
                else none
            | none => none
        | _ => none
      else if 0xDC00 ≤ unit ∧ unit < 0xE000 then none
      else some (Char.ofNat unit, rest)

def readEscape : List Char → Option (Char × List Char)
  | 'u' :: rest => readUnit rest
  | c :: rest => (namedEscape c).map fun named => (named, rest)
  | [] => none

/-- The rest of a string behind its first quotation mark. -/
def readString : ℕ → List Char → Option (List Char × List Char)
  | 0, _ => none
  | _, [] => none
  | fuel + 1, c :: rest =>
      if c = '"' then some ([], rest)
      else if c = '\\' then
        match readEscape rest with
        | none => none
        | some (d, after) => (readString fuel after).map fun read => (d :: read.1, read.2)
      else if c.toNat < 32 then none
      else (readString fuel rest).map fun read => (c :: read.1, read.2)

def readDigits (text : List Char) : Option (ℕ × List Char) :=
  let digits := text.takeWhile Char.isDigit
  let after := text.dropWhile Char.isDigit
  if digits = [] ∨ digits.head? = some '0' ∧ 1 < digits.length ∨
      after.head?.any (fun c => c = '.' || c = 'e' || c = 'E') = true then none
  else some (Nat.ofDigitChars 10 digits 0, after)

def readInt : List Char → Option (ℤ × List Char)
  | '-' :: rest => (readDigits rest).map fun read => (-(read.1 : ℤ), read.2)
  | text => (readDigits text).map fun read => ((read.1 : ℤ), read.2)

mutual
/-- A value and what follows it. -/
def parseValue : ℕ → List Char → Option (Value × List Char)
  | 0, _ => none
  | fuel + 1, text =>
      match skipSpace text with
      | '"' :: rest => (readString (rest.length + 1) rest).map fun read => (.text read.1, read.2)
      | '[' :: rest =>
          match skipSpace rest with
          | ']' :: after => some (.list [], after)
          | _ => (parseItems fuel rest).map fun read => (.list read.1, read.2)
      | '\x7b' :: rest =>
          match skipSpace rest with
          | '\x7d' :: after => some (.map [], after)
          | _ => (parseFields fuel rest).map fun read => (.map read.1, read.2)
      | 'n' :: 'u' :: 'l' :: 'l' :: rest => some (.null, rest)
      | 't' :: 'r' :: 'u' :: 'e' :: rest => some (.bool true, rest)
      | 'f' :: 'a' :: 'l' :: 's' :: 'e' :: rest => some (.bool false, rest)
      | other => (readInt other).map fun read => (.number read.1, read.2)

/-- One item or more, to the end of the list. -/
def parseItems : ℕ → List Char → Option (List Value × List Char)
  | 0, _ => none
  | fuel + 1, text =>
      match parseValue fuel text with
      | none => none
      | some (item, after) =>
          match skipSpace after with
          | ',' :: rest => (parseItems fuel rest).map fun read => (item :: read.1, read.2)
          | ']' :: rest => some ([item], rest)
          | _ => none

/-- One field or more, to the end of the map. -/
def parseFields : ℕ → List Char → Option (List (List Char × Value) × List Char)
  | 0, _ => none
  | fuel + 1, text =>
      match skipSpace text with
      | '"' :: named =>
          match readString (named.length + 1) named with
          | none => none
          | some (name, after) =>
              match skipSpace after with
              | ':' :: valued =>
                  match parseValue fuel valued with
                  | none => none
                  | some (value, behind) =>
                      match skipSpace behind with
                      | ',' :: rest => (parseFields fuel rest).map fun read => ((name, value) :: read.1, read.2)
                      | '\x7d' :: rest => some ([(name, value)], rest)
                      | _ => none
              | _ => none
      | _ => none
end

def parse (text : List Char) : Option Value :=
  match parseValue (text.length + 1) text with
  | some (value, rest) => if skipSpace rest = [] then some value else none
  | none => none

end Reading

section Strings

theorem hexDigit_hexDigitChar : ∀ value < 16, hexDigit (hexDigitChar value) = some value := by
  decide +kernel

theorem char_of_toNat {c : Char} {n : ℕ} (same : c.toNat = n) : Char.ofNat n = c := by
  rw [← same, Char.ofNat_toNat]

theorem readString_named {fuel : ℕ} {name c : Char} {rest : List Char} (isNamed : namedEscape name = some c)
    (notUnit : name ≠ 'u') :
    readString (fuel + 1) ('\\' :: name :: rest) = (readString fuel rest).map fun read => (c :: read.1, read.2) := by
  have escape : readEscape (name :: rest) = some (c, rest) := by
    rw [readEscape, isNamed]
    · rfl
    · exact fun same => notUnit same
  simp only [readString, escape]
  simp

theorem readUnit_control {value : ℕ} (small : value < 32) (rest : List Char) :
    readUnit ('0' :: '0' :: hexDigitChar (value / 16) :: hexDigitChar (value % 16) :: rest) =
      some (Char.ofNat value, rest) := by
  have zero : hexDigit '0' = some 0 := by decide
  have read : readHex ('0' :: '0' :: hexDigitChar (value / 16) :: hexDigitChar (value % 16) :: rest) =
      some (value, rest) := by
    simp only [readHex, zero, hexDigit_hexDigitChar _ (show value / 16 < 16 by omega),
      hexDigit_hexDigitChar _ (show value % 16 < 16 by omega)]
    rw [show ((0 * 16 + 0) * 16 + value / 16) * 16 + value % 16 = value by omega]
  simp only [readUnit, read]
  rw [if_neg (by omega), if_neg (by omega)]

theorem readString_escapeChar (fuel : ℕ) (c : Char) (rest : List Char) :
    readString (fuel + 1) (escapeChar c ++ rest) = (readString fuel rest).map fun read => (c :: read.1, read.2) := by
  unfold escapeChar
  split
  · next same =>
    subst same
    exact readString_named rfl (by decide)
  · next notQuote =>
    split
    · next same =>
      subst same
      exact readString_named rfl (by decide)
    · next notBackslash =>
      split
      · next same => exact readString_named (congrArg some (char_of_toNat same)) (by decide)
      · split
        · next same => exact readString_named (congrArg some (char_of_toNat same)) (by decide)
        · split
          · next same => exact readString_named (congrArg some (char_of_toNat same)) (by decide)
          · split
            · next same => exact readString_named (congrArg some (char_of_toNat same)) (by decide)
            · split
              · next same => exact readString_named (congrArg some (char_of_toNat same)) (by decide)
              · split
                · next small =>
                  have unit := readUnit_control small rest
                  rw [Char.ofNat_toNat] at unit
                  simp only [List.cons_append, List.nil_append, readString, readEscape, unit]
                  simp
                · next large =>
                  simp only [List.cons_append, List.nil_append, readString]
                  rw [if_neg notQuote, if_neg notBackslash, if_neg large]

theorem readString_quote {fuel : ℕ} {text : List Char} (rest : List Char) (enough : text.length < fuel) :
    readString fuel (text.flatMap escapeChar ++ '"' :: rest) = some (text, rest) := by
  induction text generalizing fuel with
  | nil =>
      obtain ⟨fuel, rfl⟩ := Nat.exists_eq_succ_of_ne_zero enough.ne_bot
      simp [readString]
  | cons c text ih =>
      obtain ⟨fuel, rfl⟩ := Nat.exists_eq_succ_of_ne_zero (Nat.ne_of_gt (Nat.zero_lt_of_lt enough))
      rw [List.flatMap_cons, List.append_assoc, readString_escapeChar,
        ih (Nat.lt_of_succ_lt_succ enough)]
      rfl

theorem length_le_flatMap_escapeChar (text : List Char) : text.length ≤ (text.flatMap escapeChar).length := by
  induction text with
  | nil => exact le_rfl
  | cons c text ih =>
      have one : 1 ≤ (escapeChar c).length := by
        unfold escapeChar
        repeat' split
        all_goals exact Nat.succ_pos _
      rw [List.flatMap_cons, List.length_append, List.length_cons]
      omega

theorem readString_quoted (text rest : List Char) :
    readString ((text.flatMap escapeChar ++ '"' :: rest).length + 1) (text.flatMap escapeChar ++ '"' :: rest) =
      some (text, rest) := by
  apply readString_quote
  have longer := length_le_flatMap_escapeChar text
  rw [List.length_append]
  omega

end Strings

section Numbers

/-- What may follow a value: the end, or a mark of the list or the map around it. -/
def Follows (rest : List Char) : Prop := ∀ c, rest.head? = some c → c = ',' ∨ c = ']' ∨ c = '\x7d'

theorem Follows.nil : Follows [] := fun _ isHead => nomatch isHead

theorem Follows.cons {c : Char} (rest : List Char) (mark : c = ',' ∨ c = ']' ∨ c = '\x7d') : Follows (c :: rest) := by
  rintro _ ⟨⟩
  exact mark

theorem toDigits_digit {n : ℕ} {c : Char} (member : c ∈ Nat.toDigits 10 n) : c.isDigit = true :=
  Nat.isDigit_of_mem_toDigits (by decide) (by decide) member

theorem head_toDigits {n : ℕ} (positive : 0 < n) : (Nat.toDigits 10 n).head? ≠ some '0' := by
  induction n using Nat.strongRecOn with
  | ind n ih =>
      by_cases small : n < 10
      · rw [Nat.toDigits_of_lt_base small, List.head?_cons, ne_eq, Option.some.injEq, Nat.digitChar_eq_zero]
        exact positive.ne'
      · have front : (Nat.toDigits 10 (n / 10)).head? ≠ some '0' :=
          ih (n / 10) (Nat.div_lt_self positive (by decide)) (Nat.div_pos (not_lt.mp small) (by decide))
        rw [Nat.toDigits_of_base_le (by decide) (not_lt.mp small), List.head?_append]
        cases isHead : (Nat.toDigits 10 (n / 10)).head? with
        | none => exact absurd (List.head?_eq_none_iff.mp isHead) Nat.toDigits_ne_nil
        | some c => rwa [isHead] at front

theorem readDigits_toDigits (n : ℕ) {rest : List Char} (follows : Follows rest) :
    readDigits (Nat.toDigits 10 n ++ rest) = some (n, rest) := by
  have stops : ∀ c, rest.head? = some c → c.isDigit = false := by
    intro c isHead
    obtain rfl | rfl | rfl := follows c isHead
    · rfl
    · rfl
    · rfl
  have taken : rest.takeWhile Char.isDigit = [] ∧ rest.dropWhile Char.isDigit = rest := by
    cases rest with
    | nil => exact ⟨rfl, rfl⟩
    | cons c rest =>
        have notDigit := stops c rfl
        exact ⟨by rw [List.takeWhile_cons_of_neg (by simp [notDigit])], by
          rw [List.dropWhile_cons_of_neg (by simp [notDigit])]⟩
  have plain : rest.head?.any (fun c => c = '.' || c = 'e' || c = 'E') = false := by
    cases isHead : rest.head? with
    | none => rfl
    | some c =>
        obtain rfl | rfl | rfl := follows c isHead
        · rfl
        · rfl
        · rfl
  have noZero : ¬ ((Nat.toDigits 10 n).head? = some '0' ∧ 1 < (Nat.toDigits 10 n).length) := by
    rintro ⟨zero, long⟩
    obtain rfl | positive := Nat.eq_zero_or_pos n
    · exact absurd long (by decide)
    · exact head_toDigits positive zero
  rw [readDigits, List.takeWhile_append_of_pos fun _ member => toDigits_digit member,
    List.dropWhile_append_of_pos fun _ member => toDigits_digit member, taken.1, taken.2, List.append_nil]
  simp only [plain, Bool.false_eq_true, or_false]
  rw [if_neg (not_or.mpr ⟨Nat.toDigits_ne_nil, noZero⟩), Nat.ofDigitChars_ten_toDigits]

theorem readInt_ofInt (n : ℤ) {rest : List Char} (follows : Follows rest) :
    readInt (ofInt n ++ rest) = some (n, rest) := by
  cases n with
  | ofNat n =>
      have notMinus : ∀ digits, Nat.toDigits 10 n ++ rest ≠ '-' :: digits := by
        intro digits same
        cases isDigits : Nat.toDigits 10 n with
        | nil => exact Nat.toDigits_ne_nil isDigits
        | cons c others =>
            rw [isDigits] at same
            obtain rfl := (List.cons.inj same).1
            exact absurd (toDigits_digit (n := n) (isDigits ▸ List.mem_cons_self)) (by decide)
      rw [ofInt, readInt, readDigits_toDigits n follows]
      · rfl
      · exact notMinus
  | negSucc n =>
      rw [ofInt, List.cons_append, readInt, readDigits_toDigits (n + 1) follows]
      rfl

end Numbers

section Values

theorem skipSpace_cons {c : Char} (notSpace : isJsonSpace c = false) (rest : List Char) :
    skipSpace (c :: rest) = c :: rest :=
  List.dropWhile_cons_of_neg (by simp [notSpace])

theorem ofInt_head (n : ℤ) : ∃ c rest, ofInt n = c :: rest ∧ (c.isDigit = true ∨ c = '-') := by
  cases n with
  | ofNat n =>
      cases isDigits : Nat.toDigits 10 n with
      | nil => exact absurd isDigits Nat.toDigits_ne_nil
      | cons c rest => exact ⟨c, rest, isDigits, .inl (toDigits_digit (n := n) (isDigits ▸ List.mem_cons_self))⟩
  | negSucc n => exact ⟨'-', _, rfl, .inr rfl⟩

/-- The first character of a value. -/
def Begins (c : Char) : Prop :=
  c = '"' ∨ c = '[' ∨ c = '\x7b' ∨ c = 'n' ∨ c = 't' ∨ c = 'f' ∨ c.isDigit = true ∨ c = '-'

theorem stringify_head (value : Value) : ∃ c rest, stringify value = c :: rest ∧ Begins c := by
  cases value with
  | null => exact ⟨_, _, stringify.eq_1, .inr (.inr (.inr (.inl rfl)))⟩
  | bool b =>
      cases b with
      | true => exact ⟨_, _, stringify.eq_2, .inr (.inr (.inr (.inr (.inl rfl))))⟩
      | false => exact ⟨_, _, stringify.eq_3, .inr (.inr (.inr (.inr (.inr (.inl rfl)))))⟩
  | number n =>
      obtain ⟨c, rest, same, digitOrMinus⟩ := ofInt_head n
      rw [stringify]
      exact ⟨c, rest, same, .inr (.inr (.inr (.inr (.inr (.inr digitOrMinus)))))⟩
  | text t =>
      rw [stringify]
      exact ⟨_, _, rfl, .inl rfl⟩
  | list items =>
      refine ⟨'[', ?_⟩
      cases items with
      | nil => exact ⟨_, stringify.eq_6, .inr (.inl rfl)⟩
      | cons item items => exact ⟨_, stringify.eq_7 item items, .inr (.inl rfl)⟩
  | map fields =>
      refine ⟨'\x7b', ?_⟩
      cases fields with
      | nil => exact ⟨_, stringify.eq_8, .inr (.inr (.inl rfl))⟩
      | cons field fields => exact ⟨_, stringify.eq_9 field fields, .inr (.inr (.inl rfl))⟩

theorem Begins.plain {c : Char} (begins : Begins c) : isJsonSpace c = false ∧ c ≠ ']' := by
  obtain rfl | rfl | rfl | rfl | rfl | rfl | digit | rfl := begins
  · decide
  · decide
  · decide
  · decide
  · decide
  · decide
  · constructor
    · rw [Bool.eq_false_iff]
      intro space
      simp only [isJsonSpace, Bool.or_eq_true, decide_eq_true_eq] at space
      simp only [Char.isDigit, Bool.and_eq_true, decide_eq_true_eq] at digit
      have large : 48 ≤ c.toNat := UInt32.le_iff_toNat_le.mp digit.1
      omega
    · rintro rfl
      cases digit
  · decide

theorem parseValue_number (fuel : ℕ) (n : ℤ) {rest : List Char} (follows : Follows rest) :
    parseValue (fuel + 1) (ofInt n ++ rest) = some (.number n, rest) := by
  obtain ⟨c, others, same, digitOrMinus⟩ := ofInt_head n
  have read := readInt_ofInt n follows
  have begins : Begins c := .inr (.inr (.inr (.inr (.inr (.inr digitOrMinus)))))
  have other : c ≠ '"' ∧ c ≠ '[' ∧ c ≠ '\x7b' ∧ c ≠ 'n' ∧ c ≠ 't' ∧ c ≠ 'f' := by
    obtain digit | rfl := digitOrMinus
    · refine ⟨?_, ?_, ?_, ?_, ?_, ?_⟩
      all_goals
        rintro rfl
        cases digit
    · decide
  rw [same] at read ⊢
  rw [List.cons_append] at read ⊢
  rw [parseValue, skipSpace_cons begins.plain.1]
  split
  · next isHead => exact absurd (List.cons.inj isHead).1 other.1
  · next isHead => exact absurd (List.cons.inj isHead).1 other.2.1
  · next isHead => exact absurd (List.cons.inj isHead).1 other.2.2.1
  · next isHead => exact absurd (List.cons.inj isHead).1 other.2.2.2.1
  · next isHead => exact absurd (List.cons.inj isHead).1 other.2.2.2.2.1
  · next isHead => exact absurd (List.cons.inj isHead).1 other.2.2.2.2.2
  · rw [read]
    rfl

theorem parseValue_text (fuel : ℕ) (text rest : List Char) :
    parseValue (fuel + 1) (quote text ++ rest) = some (.text text, rest) := by
  have quoted : quote text ++ rest = '"' :: (text.flatMap escapeChar ++ '"' :: rest) := by simp [quote]
  rw [quoted, parseValue, skipSpace_cons (by decide)]
  simp only [readString_quoted]
  rfl

theorem parseValue_items {fuel : ℕ} {c : Char} {rest : List Char} (begins : Begins c) :
    parseValue (fuel + 1) ('[' :: c :: rest) = (parseItems fuel (c :: rest)).map fun read => (.list read.1, read.2) := by
  rw [parseValue, skipSpace_cons (by decide)]
  simp only [skipSpace_cons begins.plain.1]
  split
  · next isHead => exact absurd (List.cons.inj isHead).1 begins.plain.2
  · rfl

theorem parseValue_fields (fuel : ℕ) (rest : List Char) :
    parseValue (fuel + 1) ('\x7b' :: '"' :: rest) =
      (parseFields fuel ('"' :: rest)).map fun read => (.map read.1, read.2) := by
  rw [parseValue, skipSpace_cons (by decide)]
  simp only [skipSpace_cons (show isJsonSpace '"' = false by decide)]
  rfl

theorem parseFields_first {fuel : ℕ} {name behind : List Char} {value : Value} {mark : Char} {rest : List Char}
    (read : parseValue fuel behind = some (value, mark :: rest)) (isMark : mark = ',' ∨ mark = '\x7d') :
    parseFields (fuel + 1) (quote name ++ ':' :: behind) =
      if mark = ',' then (parseFields fuel rest).map fun read => ((name, value) :: read.1, read.2)
      else some ([(name, value)], rest) := by
  have quoted : quote name ++ ':' :: behind = '"' :: (name.flatMap escapeChar ++ '"' :: ':' :: behind) := by
    simp [quote]
  rw [quoted, parseFields, skipSpace_cons (by decide)]
  simp only [readString_quoted, skipSpace_cons (show isJsonSpace ':' = false by decide), read]
  obtain rfl | rfl := isMark
  · simp only [skipSpace_cons (show isJsonSpace ',' = false by decide)]
    rfl
  · simp only [skipSpace_cons (show isJsonSpace '\x7d' = false by decide)]
    rfl

theorem parseItems_first {fuel : ℕ} {text : List Char} {item : Value} {mark : Char} {rest : List Char}
    (read : parseValue fuel text = some (item, mark :: rest)) (isMark : mark = ',' ∨ mark = ']') :
    parseItems (fuel + 1) text =
      if mark = ',' then (parseItems fuel rest).map fun read => (item :: read.1, read.2) else some ([item], rest) := by
  rw [parseItems, read]
  obtain rfl | rfl := isMark
  · simp only [skipSpace_cons (show isJsonSpace ',' = false by decide)]
    rfl
  · simp only [skipSpace_cons (show isJsonSpace ']' = false by decide)]
    rfl

/-- With so much fuel, what is written within that length is read back. -/
structure ReadsBack (fuel : ℕ) : Prop where
  value : ∀ value rest, (stringify value).length ≤ fuel → Follows rest →
    parseValue fuel (stringify value ++ rest) = some (value, rest)
  items : ∀ item items rest, (stringify item ++ stringifyItems items).length ≤ fuel →
    parseItems fuel ((stringify item ++ stringifyItems items) ++ rest) = some (item :: items, rest)
  fields : ∀ name value fields rest, (quote name ++ ':' :: (stringify value ++ stringifyFields fields)).length ≤ fuel →
    parseFields fuel ((quote name ++ ':' :: (stringify value ++ stringifyFields fields)) ++ rest) =
      some ((name, value) :: fields, rest)

section Step

variable {fuel : ℕ} (reads : ReadsBack fuel)

include reads

theorem ReadsBack.value_succ {value : Value} {rest : List Char} (enough : (stringify value).length ≤ fuel + 1)
    (follows : Follows rest) : parseValue (fuel + 1) (stringify value ++ rest) = some (value, rest) := by
  cases value with
  | null => rfl
  | bool b =>
      cases b with
      | true => rfl
      | false => rfl
  | number n =>
      rw [stringify]
      exact parseValue_number fuel n follows
  | text t =>
      rw [stringify]
      exact parseValue_text fuel t rest
  | list items =>
      cases items with
      | nil => rfl
      | cons item items =>
          obtain ⟨c, more, isItem, begins⟩ := stringify_head item
          have inner := reads.items item items rest (by simpa [stringify] using enough)
          rw [stringify, List.cons_append]
          rw [isItem, List.cons_append, List.cons_append] at inner ⊢
          rw [parseValue_items begins, inner]
          rfl
  | map fields =>
      cases fields with
      | nil => rfl
      | cons field fields =>
          have inner := reads.fields field.1 field.2 fields rest (by simpa [stringify] using enough)
          have quoted : (quote field.1 ++ ':' :: (stringify field.2 ++ stringifyFields fields)) ++ rest =
              '"' :: (field.1.flatMap escapeChar ++ '"' :: ':' ::
                (stringify field.2 ++ stringifyFields fields ++ rest)) := by
            simp [quote]
          rw [stringify, List.cons_append]
          rw [quoted] at inner ⊢
          rw [parseValue_fields, inner]
          rfl

theorem ReadsBack.items_succ {item : Value} {items : List Value} {rest : List Char}
    (enough : (stringify item ++ stringifyItems items).length ≤ fuel + 1) :
    parseItems (fuel + 1) ((stringify item ++ stringifyItems items) ++ rest) = some (item :: items, rest) := by
  cases items with
  | nil =>
      have read := reads.value item (']' :: rest) (by simpa [stringifyItems] using enough)
        (Follows.cons rest (.inr (.inl rfl)))
      rw [stringifyItems, List.append_assoc]
      exact parseItems_first read (.inr rfl)
  | cons next items =>
      simp only [stringifyItems, List.length_append, List.length_cons] at enough
      have read := reads.value item (',' :: (stringify next ++ stringifyItems items ++ rest)) (by omega)
        (Follows.cons _ (.inl rfl))
      have others := reads.items next items rest (by rw [List.length_append]; omega)
      rw [stringifyItems, List.append_assoc, List.cons_append, parseItems_first read (.inl rfl), if_pos rfl, others]
      rfl

theorem ReadsBack.fields_succ {name : List Char} {value : Value} {fields : List (List Char × Value)} {rest : List Char}
    (enough : (quote name ++ ':' :: (stringify value ++ stringifyFields fields)).length ≤ fuel + 1) :
    parseFields (fuel + 1) ((quote name ++ ':' :: (stringify value ++ stringifyFields fields)) ++ rest) =
      some ((name, value) :: fields, rest) := by
  cases fields with
  | nil =>
      simp only [stringifyFields, List.length_append, List.length_cons, List.length_nil] at enough
      have read := reads.value value ('\x7d' :: rest) (by omega) (Follows.cons rest (.inr (.inr rfl)))
      rw [stringifyFields, List.append_assoc, List.cons_append, List.append_assoc]
      exact parseFields_first read (.inr rfl)
  | cons next fields =>
      simp only [stringifyFields, List.length_append, List.length_cons] at enough
      have read := reads.value value
        (',' :: (quote next.1 ++ ':' :: (stringify next.2 ++ stringifyFields fields) ++ rest)) (by omega)
        (Follows.cons _ (.inl rfl))
      have others := reads.fields next.1 next.2 fields rest (by
        rw [List.length_append, List.length_cons, List.length_append]
        omega)
      rw [stringifyFields, List.append_assoc, List.cons_append, List.append_assoc, List.cons_append,
        parseFields_first read (.inl rfl), if_pos rfl, others]
      rfl

end Step

theorem quote_length_pos (text : List Char) : 0 < (quote text).length := Nat.succ_pos _

theorem stringify_length_pos (value : Value) : 0 < (stringify value).length := by
  obtain ⟨c, rest, same, -⟩ := stringify_head value
  rw [same]
  exact Nat.succ_pos _

theorem readsBack (fuel : ℕ) : ReadsBack fuel := by
  induction fuel with
  | zero =>
      refine ⟨fun value rest enough => ?_, fun item items rest enough => ?_, fun name value fields rest enough => ?_⟩
      · exact absurd enough (stringify_length_pos value).not_ge
      · rw [List.length_append] at enough
        exact absurd (Nat.le_of_add_right_le enough) (stringify_length_pos item).not_ge
      · rw [List.length_append] at enough
        exact absurd (Nat.le_of_add_right_le enough) (quote_length_pos name).not_ge
  | succ fuel reads =>
      exact ⟨fun _ _ => reads.value_succ, fun _ _ _ => reads.items_succ, fun _ _ _ _ => reads.fields_succ⟩

theorem parse_stringify (value : Value) : parse (stringify value) = some value := by
  have read := (readsBack ((stringify value).length + 1)).value value [] (Nat.le_succ _) Follows.nil
  rw [List.append_nil] at read
  rw [parse, read]
  rfl

end Values

end JsonText

/-
Module: Puter.Library.SqlLike
Purpose: The SQL predicate `text LIKE pattern ESCAPE esc` over lists of characters, and the fact every
  user of it needs: a literal that is escaped before it is put in front of a `%` matches exactly the
  texts it is a prefix of.
Trusted boundary: none
Main exports: Token, likeFolded_escapeLiteral_percent
-/
import Mathlib

namespace SqlLike

/-- The meaning of one position of a pattern. -/
inductive Token where
  | literal (c : Char)
  | anyChar
  | anyRun
deriving DecidableEq, Repr

/-- Read a pattern with escape character `esc`: `_` stands for one character, `%` for any run, and the
    escape character makes the next one literal (`escaped` says that the previous character was it).
    A pattern that ends in the escape is rejected. -/
def compile (esc : Char) (escaped : Bool) : List Char → Option (List Token)
  | [] => if escaped then none else some []
  | c :: rest =>
      if escaped then (compile esc false rest).map (.literal c :: ·)
      else if c = esc then compile esc true rest
      else if c = '_' then (compile esc false rest).map (.anyChar :: ·)
      else if c = '%' then (compile esc false rest).map (.anyRun :: ·)
      else (compile esc false rest).map (.literal c :: ·)

/-- Whether a text matches a compiled pattern, from start to end. -/
def matchesTokens : List Token → List Char → Bool
  | [], text => text.isEmpty
  | .literal c :: tokens, d :: text => c == d && matchesTokens tokens text
  | .literal _ :: _, [] => false
  | .anyChar :: tokens, _ :: text => matchesTokens tokens text
  | .anyChar :: _, [] => false
  | .anyRun :: tokens, text => text.tails.any (matchesTokens tokens)

/-- `text LIKE pattern ESCAPE esc`. -/
def like (esc : Char) (pattern text : List Char) : Bool :=
  match compile esc false pattern with
  | some tokens => matchesTokens tokens text
  | none => false

def escapeLiteral (esc : Char) : List Char → List Char
  | [] => []
  | c :: rest =>
      if c = esc ∨ c = '%' ∨ c = '_' then esc :: c :: escapeLiteral esc rest
      else c :: escapeLiteral esc rest

theorem compile_escapeLiteral_append (esc : Char) (literal rest : List Char) :
    compile esc false (escapeLiteral esc literal ++ rest) =
      (compile esc false rest).map (literal.map .literal ++ ·) := by
  induction literal with
  | nil => simp [escapeLiteral]
  | cons c literal ih =>
      by_cases special : c = esc ∨ c = '%' ∨ c = '_'
      · simp [escapeLiteral, special, compile, ih, Function.comp_def]
      · have plain := special
        simp only [not_or] at plain
        simp [escapeLiteral, compile, plain, ih, Function.comp_def]

theorem matchesTokens_literal_append (literal : List Char) (tokens : List Token)
    (text : List Char) :
    matchesTokens (literal.map .literal ++ tokens) text = true ↔
      ∃ rest, text = literal ++ rest ∧ matchesTokens tokens rest = true := by
  induction literal generalizing text with
  | nil => simp
  | cons c literal ih =>
      cases text with
      | nil => simp [matchesTokens]
      | cons d text =>
          simp only [List.map_cons, List.cons_append, matchesTokens, Bool.and_eq_true,
            beq_iff_eq, ih, List.cons.injEq]
          constructor
          · rintro ⟨rfl, rest, rfl, matched⟩
            exact ⟨rest, ⟨rfl, rfl⟩, matched⟩
          · rintro ⟨rest, ⟨rfl, rfl⟩, matched⟩
            exact ⟨rfl, rest, rfl, matched⟩

@[simp] theorem matchesTokens_anyRun (text : List Char) : matchesTokens [.anyRun] text = true := by
  simp only [matchesTokens, List.any_eq_true, List.mem_tails]
  exact ⟨[], List.nil_suffix, rfl⟩

theorem like_escapeLiteral_percent {esc : Char} (literal plain text : List Char)
    (percentPlain : '%' ≠ esc)
    (isPlain : ∀ c ∈ plain, c ≠ esc ∧ c ≠ '%' ∧ c ≠ '_') :
    like esc (escapeLiteral esc literal ++ (plain ++ ['%'])) text = true ↔
      literal ++ plain <+: text := by
  have unescaped : escapeLiteral esc plain = plain := by
    clear percentPlain
    induction plain with
    | nil => rfl
    | cons c plain ih =>
        have ⟨notEsc, notPercent, notScore⟩ := isPlain c List.mem_cons_self
        simp [escapeLiteral, notEsc, notPercent, notScore,
          ih fun d member => isPlain d (List.mem_cons_of_mem _ member)]
  have compiled : compile esc false (escapeLiteral esc literal ++ (plain ++ ['%'])) =
      some ((literal ++ plain).map .literal ++ [.anyRun]) := by
    rw [← unescaped, compile_escapeLiteral_append, compile_escapeLiteral_append]
    simp [compile, percentPlain, unescaped]
  simp only [like, compiled, matchesTokens_literal_append, matchesTokens_anyRun, and_true]
  constructor
  · rintro ⟨rest, rfl⟩
    exact ⟨rest, rfl⟩
  · rintro ⟨rest, rfl⟩
    exact ⟨rest, rfl⟩

def Token.fold (folding : Char → Char) : Token → Token
  | .literal c => .literal (folding c)
  | .anyChar => .anyChar
  | .anyRun => .anyRun

/-- `text LIKE pattern ESCAPE esc` where the collation folds characters, such as lower case and upper case. -/
def likeFolded (folding : Char → Char) (esc : Char) (pattern text : List Char) : Bool :=
  match compile esc false pattern with
  | some tokens => matchesTokens (tokens.map (Token.fold folding)) (text.map folding)
  | none => false

theorem likeFolded_id (esc : Char) (pattern text : List Char) : likeFolded id esc pattern text = like esc pattern text := by
  have same : Token.fold id = id := by
    funext token
    cases token <;> rfl
  simp only [likeFolded, like, same, List.map_id]

end SqlLike

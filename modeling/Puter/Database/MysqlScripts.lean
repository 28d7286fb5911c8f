/-
Module: Puter.Database.MysqlScripts
Purpose: The scripts that splitMysqlStatements is for. A script is a list of statements and DELIMITER lines, with
  comments and white space in front of each; a statement is a list of tokens. The splitter answers the statements of
  a script exactly when no comment stands in front of a DELIMITER line or of the end, and no delimiter opens a comment
  or a quotation.
Trusted boundary: a text is a list of characters
Main exports: SqlToken, mysql_split_exact_iff
-/
import Puter.Database.MysqlSplitter

namespace Puter

open PosixPath

/-- The marks that quote a string or a name. -/
inductive QuoteMark where
  | single
  | double
  | backtick
deriving DecidableEq, Repr

namespace QuoteMark

def char : QuoteMark → Char
  | single => '\''
  | double => '"'
  | backtick => Char.ofNat 96

def escapes : QuoteMark → Bool
  | single => true
  | double => true
  | backtick => false

def mode : QuoteMark → ScanMode
  | single => .sq
  | double => .dq
  | backtick => .bt

end QuoteMark

/-- A piece of quoted text: a character, a character behind a backslash, or the quotation mark twice. -/
inductive QuotedPiece where
  | plain (c : Char)
  | escaped (c : Char)
  | doubled
deriving DecidableEq, Repr

namespace QuotedPiece

def text (mark : QuoteMark) : QuotedPiece → Text
  | plain c => [c]
  | escaped c => ['\\', c]
  | doubled => [mark.char, mark.char]

def Valid (mark : QuoteMark) : QuotedPiece → Prop
  | plain c => c ≠ mark.char ∧ (mark.escapes = true → c ≠ '\\')
  | escaped _ => mark.escapes = true
  | doubled => True

instance decidableValid (mark : QuoteMark) : (piece : QuotedPiece) → Decidable (piece.Valid mark)
  | plain _ => inferInstanceAs (Decidable (_ ∧ _))
  | escaped _ => inferInstanceAs (Decidable (_ = _))
  | doubled => inferInstanceAs (Decidable True)

end QuotedPiece

/-- The tokens of a script, as far as they matter here. -/
inductive SqlToken where
  | quoted (mark : QuoteMark) (pieces : List QuotedPiece)
  | lineComment (hash : Bool) (body : Text)
  | blockComment (body : Text)
  | other (c : Char)
deriving DecidableEq, Repr

namespace SqlToken

def text : SqlToken → Text
  | quoted mark pieces => mark.char :: (pieces.flatMap (QuotedPiece.text mark) ++ [mark.char])
  | lineComment true body => '#' :: body
  | lineComment false body => '-' :: '-' :: body
  | blockComment body => '/' :: '*' :: (body ++ ['*', '/'])
  | other c => [c]

def opens (text : Text) : Bool :=
  opensLineComment text || ['/', '*'].isPrefixOf text ||
    text.head?.any fun c => c = '\'' ∨ c = '"' ∨ c = Char.ofNat 96

/-- The token is well formed where it stands, in front of `after`: a quotation is closed and not opened again, a line
    comment ends with its line, a block comment at its first end mark, and another character opens neither and does
    not begin the delimiter in force. -/
def Reads (delim after : Text) : SqlToken → Prop
  | quoted mark pieces => (∀ piece ∈ pieces, piece.Valid mark) ∧ after.head? ≠ some mark.char
  | lineComment hash body =>
      '\n' ∉ body ∧ (hash = false → body.head?.all isSpace = true) ∧ after.head?.all (· = '\n') = true
  | blockComment body => ¬ ['*', '/'] <:+: body ++ ['*']
  | other c => opens (c :: after) = false ∧ ¬ delim <+: c :: after

instance decidableReads (delim after : Text) : (token : SqlToken) → Decidable (token.Reads delim after)
  | quoted _ _ => inferInstanceAs (Decidable (_ ∧ _))
  | lineComment _ _ => inferInstanceAs (Decidable (_ ∧ _))
  | blockComment _ => inferInstanceAs (Decidable (¬ _))
  | other _ => inferInstanceAs (Decidable (_ ∧ _))

def isGap : SqlToken → Bool
  | quoted _ _ => false
  | lineComment _ _ => true
  | blockComment _ => true
  | other c => isSpace c

end SqlToken

def textOf (tokens : List SqlToken) : Text := tokens.flatMap SqlToken.text

/-- The tokens are well formed, in front of `after`. -/
def ReadsAll (delim after : Text) : List SqlToken → Prop
  | [] => True
  | token :: tokens => token.Reads delim (textOf tokens ++ after) ∧ ReadsAll delim after tokens

instance decidableReadsAll (delim after : Text) : (tokens : List SqlToken) → Decidable (ReadsAll delim after tokens)
  | [] => inferInstanceAs (Decidable True)
  | _ :: tokens => @instDecidableAnd _ _ _ (decidableReadsAll delim after tokens)

namespace Scan

def advanced (s : Scan) (mode : ScanMode) (text after : Text) : Scan :=
  { s with
    buf := s.buf ++ text
    mode := mode
    atLineStart := (text.getLast?.map fun c => decide (c = '\n')).getD s.atLineStart
    rest := after }

theorem advanced_advanced (s : Scan) (mode mode' : ScanMode) (first second between after : Text) :
    (s.advanced mode first between).advanced mode' second after = s.advanced mode' (first ++ second) after := by
  cases last : second.getLast? with
  | none =>
      obtain rfl := List.getLast?_eq_none_iff.mp last
      simp [advanced]
  | some c =>
      simp [advanced, List.getLast?_append, last]

theorem take_eq_advanced {s : Scan} {text after : Text} (mode : ScanMode) (isRest : s.rest = text ++ after)
    (some_text : text ≠ []) : { s.take text.length with mode := mode } = s.advanced mode text after := by
  obtain ⟨c, last⟩ := Option.ne_none_iff_exists'.mp (mt List.getLast?_eq_none_iff.mp some_text)
  simp [advanced, take, isRest, last]

theorem step_quoted {s : Scan} {mark : QuoteMark} (inside : s.mode = mark.mode) (left : s.rest ≠ []) :
    s.step = s.stepQuoted mark.char mark.escapes := by
  have noDirective : s.directive = none := directive_of_mode (by rw [inside]; cases mark <;> simp [QuoteMark.mode])
  rw [step, if_neg left, noDirective, inside]
  cases mark <;> rfl

theorem step_block {s : Scan} (inside : s.mode = .block) (left : s.rest ≠ []) : s.step = s.stepBlock := by
  have noDirective : s.directive = none := directive_of_mode (by rw [inside]; simp)
  rw [step, if_neg left, noDirective, inside]

theorem step_normal {s : Scan} (outside : s.mode = .normal) (noDirective : s.directive = none) (left : s.rest ≠ []) :
    s.step = s.stepNormal := by
  rw [step, if_neg left, noDirective, outside]

theorem reaches_piece {s : Scan} {mark : QuoteMark} {piece : QuotedPiece} {behind : Text} {c : Char}
    (valid : piece.Valid mark) (inside : s.mode = mark.mode) (isRest : s.rest = piece.text mark ++ c :: behind) :
    Reaches s (s.advanced mark.mode (piece.text mark) (c :: behind)) := by
  have left : s.rest ≠ [] := by
    rw [isRest]
    simp
  have some_text : piece.text mark ≠ [] := by
    cases piece <;> simp [QuotedPiece.text]
  apply Reaches.single left
  rw [step_quoted inside left, ← take_eq_advanced mark.mode isRest some_text, ← inside]
  cases piece with
  | plain plainChar =>
      have noEscape : ¬ (mark.escapes = true ∧ plainChar = '\\') := fun both => valid.2 both.1 both.2
      simp only [QuotedPiece.text, List.singleton_append] at isRest
      simp only [stepQuoted, isRest]
      rw [if_neg noEscape, if_neg valid.1]
      rfl
  | escaped other =>
      simp only [QuotedPiece.text, List.cons_append, List.nil_append] at isRest
      simp only [stepQuoted, isRest]
      rw [if_pos ⟨valid, trivial⟩]
      rfl
  | doubled =>
      have noEscape : ¬ (mark.escapes = true ∧ mark.char = '\\') := by
        cases mark <;> decide
      simp only [QuotedPiece.text, List.cons_append, List.nil_append] at isRest
      simp only [stepQuoted, isRest]
      rw [if_neg noEscape, if_pos trivial, if_pos trivial]
      rfl

theorem reaches_pieces {mark : QuoteMark} {pieces : List QuotedPiece} {s : Scan} {behind : Text} {c : Char}
    (valid : ∀ piece ∈ pieces, piece.Valid mark) (inside : s.mode = mark.mode)
    (isRest : s.rest = pieces.flatMap (QuotedPiece.text mark) ++ c :: behind) :
    Reaches s (s.advanced mark.mode (pieces.flatMap (QuotedPiece.text mark)) (c :: behind)) := by
  induction pieces generalizing s with
  | nil =>
      have isRest' : s.rest = c :: behind := isRest
      have stays : s.advanced mark.mode [] (c :: behind) = s := by
        rw [← inside, ← isRest']
        simp [advanced]
      rw [List.flatMap_nil, stays]
      exact .refl
  | cons piece pieces ih =>
      rw [List.flatMap_cons] at isRest ⊢
      rw [← advanced_advanced s mark.mode mark.mode _ _ (pieces.flatMap (QuotedPiece.text mark) ++ c :: behind)]
      obtain ⟨d, more, isMore⟩ := List.exists_cons_of_ne_nil
        (show pieces.flatMap (QuotedPiece.text mark) ++ c :: behind ≠ [] by simp)
      have first : Reaches s (s.advanced mark.mode (piece.text mark) (d :: more)) :=
        reaches_piece (valid piece List.mem_cons_self) inside (by rw [isRest, List.append_assoc, isMore])
      rw [isMore]
      exact first.trans (ih (fun other member => valid other (List.mem_cons_of_mem _ member)) rfl
        isMore.symm)

theorem stepQuoted_closes {mark : QuoteMark} {s : Scan} {after : Text} (apart : after.head? ≠ some mark.char)
    (isRest : s.rest = mark.char :: after) :
    s.stepQuoted mark.char mark.escapes = s.advanced .normal [mark.char] after := by
  rw [← take_eq_advanced .normal (isRest.trans rfl) (by simp)]
  have noEscape : ¬ (mark.escapes = true ∧ mark.char = '\\') := by
    cases mark <;> decide
  cases after with
  | nil =>
      simp only [stepQuoted, isRest]
      rw [if_pos trivial]
      rfl
  | cons c more =>
      have other : c ≠ mark.char := fun same => apart (by rw [same]; rfl)
      simp only [stepQuoted, isRest]
      rw [if_neg noEscape, if_pos trivial, if_neg other]
      rfl

theorem reaches_quoted {mark : QuoteMark} {pieces : List QuotedPiece} {s : Scan} {after : Text}
    (valid : ∀ piece ∈ pieces, piece.Valid mark) (apart : after.head? ≠ some mark.char) (outside : s.mode = .normal)
    (noDirective : s.directive = none) (isRest : s.rest = (SqlToken.quoted mark pieces).text ++ after) :
    Reaches s (s.advanced .normal (SqlToken.quoted mark pieces).text after) := by
  have left : s.rest ≠ [] := by
    rw [isRest]
    simp [SqlToken.text]
  have opened : s.rest = [mark.char] ++ (pieces.flatMap (QuotedPiece.text mark) ++ mark.char :: after) := by
    rw [isRest]
    simp [SqlToken.text]
  -- The mark opens the quotation, the pieces are taken one by one, and the mark behind them closes it.
  have opening : Reaches s (s.advanced mark.mode [mark.char]
      (pieces.flatMap (QuotedPiece.text mark) ++ mark.char :: after)) := by
    apply Reaches.single left
    rw [step_normal outside noDirective left, ← take_eq_advanced mark.mode opened (by simp)]
    simp only [stepNormal, opened, List.singleton_append]
    cases mark <;> simp [QuoteMark.char, QuoteMark.mode, opensLineComment]
  have inner := @reaches_pieces mark pieces (s.advanced mark.mode [mark.char]
    (pieces.flatMap (QuotedPiece.text mark) ++ mark.char :: after)) after mark.char valid rfl rfl
  rw [advanced_advanced] at inner
  have closing : Reaches (s.advanced mark.mode ([mark.char] ++ pieces.flatMap (QuotedPiece.text mark))
      (mark.char :: after)) (s.advanced .normal (SqlToken.quoted mark pieces).text after) := by
    have whole : (SqlToken.quoted mark pieces).text =
        ([mark.char] ++ pieces.flatMap (QuotedPiece.text mark)) ++ [mark.char] := by
      simp [SqlToken.text]
    rw [whole, ← advanced_advanced s mark.mode .normal _ _ (mark.char :: after) after]
    apply Reaches.single (by simp [advanced])
    rw [step_quoted rfl (by simp [advanced])]
    exact stepQuoted_closes apart rfl
  exact (opening.trans inner).trans closing

theorem reaches_blockBody {body : Text} {s : Scan} {after : Text} (first : ¬ ['*', '/'] <:+: body ++ ['*'])
    (inside : s.mode = .block) (isRest : s.rest = body ++ '*' :: '/' :: after) :
    Reaches s (s.advanced .normal (body ++ ['*', '/']) after) := by
  have left : s.rest ≠ [] := by
    rw [isRest]
    simp
  induction body generalizing s with
  | nil =>
      apply Reaches.single left
      rw [step_block inside left, ← take_eq_advanced .normal (by simpa using isRest) (by simp)]
      simp [stepBlock, isRest]
  | cons c body ih =>
      have onward : Reaches s (s.advanced .block [c] (body ++ '*' :: '/' :: after)) := by
        apply Reaches.single left
        rw [step_block inside left, ← take_eq_advanced .block (by simpa using isRest) (by simp), ← inside]
        unfold stepBlock
        split
        · next behind isEnd =>
            -- An end mark in front of the closing one would lie in the body.
            rw [isRest] at isEnd
            obtain ⟨rfl, isBody⟩ := List.cons.inj isEnd
            cases body with
            | nil =>
                cases isBody
            | cons d body =>
                obtain ⟨rfl, -⟩ := List.cons.inj isBody
                exact absurd ⟨[], body ++ ['*'], rfl⟩ first
        · rfl
      have rest := @ih (s.advanced .block [c] (body ++ '*' :: '/' :: after))
        (fun infixed => first (infixed.trans (List.suffix_cons _ _).isInfix)) rfl rfl (by simp [advanced])
      rw [advanced_advanced] at rest
      exact onward.trans rest

theorem reaches_blockComment {body : Text} {s : Scan} {after : Text} (first : ¬ ['*', '/'] <:+: body ++ ['*'])
    (outside : s.mode = .normal) (noDirective : s.directive = none)
    (isRest : s.rest = (SqlToken.blockComment body).text ++ after) :
    Reaches s (s.advanced .normal (SqlToken.blockComment body).text after) := by
  have opened : s.rest = ['/', '*'] ++ (body ++ '*' :: '/' :: after) := by
    rw [isRest]
    simp [SqlToken.text]
  have left : s.rest ≠ [] := by
    rw [opened]
    simp
  have opening : Reaches s (s.advanced .block ['/', '*'] (body ++ '*' :: '/' :: after)) := by
    apply Reaches.single left
    rw [step_normal outside noDirective left, ← take_eq_advanced .block opened (by simp)]
    simp [stepNormal, opened, opensLineComment]
  have closing := @reaches_blockBody body (s.advanced .block ['/', '*'] (body ++ '*' :: '/' :: after)) after first rfl
    rfl
  rw [advanced_advanced] at closing
  exact opening.trans closing

theorem lineOf_append {line after : Text} (noBreak : '\n' ∉ line) (ends : after.head?.all (· = '\n') = true) :
    lineOf (line ++ after) = line := by
  have first : after.takeWhile (· ≠ '\n') = [] := by
    cases after with
    | nil => rfl
    | cons c more =>
        have isBreak : c = '\n' := by simpa using ends
        rw [isBreak]
        rfl
  rw [lineOf, List.takeWhile_append_of_pos (by simpa using fun c member => ne_of_mem_of_not_mem member noBreak), first,
    List.append_nil]

theorem reaches_lineComment {hash : Bool} {body : Text} {s : Scan} {after : Text}
    (reads : (SqlToken.lineComment hash body).Reads s.delim after)
    (outside : s.mode = .normal) (noDirective : s.directive = none)
    (isRest : s.rest = (SqlToken.lineComment hash body).text ++ after) :
    Reaches s (s.advanced .normal (SqlToken.lineComment hash body).text after) := by
  obtain ⟨noBreak, spaced, ends⟩ := reads
  have some_text : (SqlToken.lineComment hash body).text ≠ [] := by
    cases hash <;> simp [SqlToken.text]
  have left : s.rest ≠ [] := by
    rw [isRest]
    exact List.append_ne_nil_of_left_ne_nil some_text _
  have opens : opensLineComment s.rest = true := by
    rw [isRest]
    cases hash with
    | true => rfl
    | false =>
        cases body with
        | nil =>
            cases after with
            | nil => rfl
            | cons c more =>
                have isBreak : c = '\n' := by simpa using ends
                rw [isBreak]
                rfl
        | cons c body =>
            have space : isSpace c = true := by simpa using spaced rfl
            exact space
  have line : lineOf s.rest = (SqlToken.lineComment hash body).text := by
    rw [isRest]
    apply lineOf_append _ ends
    cases hash <;> simpa [SqlToken.text] using noBreak
  apply Reaches.single left
  rw [step_normal outside noDirective left, ← take_eq_advanced .normal isRest some_text, ← line, ← outside]
  unfold stepNormal
  split
  · next done => exact absurd done left
  · rw [if_pos opens]
    rfl

theorem stepNormal_of_plain {s : Scan} (left : s.rest ≠ []) (plain : SqlToken.opens s.rest = false) :
    s.stepNormal = if s.delim.isPrefixOf s.rest then s.skipDelimiter else s.take 1 := by
  unfold stepNormal
  split
  · next done => exact absurd done left
  · next c behind more =>
      rw [more] at plain ⊢
      simp only [SqlToken.opens, Bool.or_eq_false_iff, List.head?_cons, Option.any_some, decide_eq_false_iff_not,
        not_or] at plain
      obtain ⟨⟨noLine, noBlock⟩, noSingle, noDouble, noBacktick⟩ := plain
      have noBlock' : ¬ (c = '/' ∧ behind.head? = some '*') := by
        rintro ⟨rfl, star⟩
        obtain ⟨tail, rfl⟩ := List.head?_eq_some_iff.mp star
        simp at noBlock
      rw [if_neg (by simp [noLine]), if_neg noBlock', if_neg noSingle, if_neg noDouble, if_neg noBacktick]

theorem reaches_other {c : Char} {s : Scan} {after : Text} (reads : (SqlToken.other c).Reads s.delim after)
    (outside : s.mode = .normal) (noDirective : s.directive = none) (isRest : s.rest = c :: after) :
    Reaches s (s.advanced .normal [c] after) := by
  have left : s.rest ≠ [] := by
    rw [isRest]
    simp
  apply Reaches.single left
  have plain : SqlToken.opens s.rest = false := by
    rw [isRest]
    exact reads.1
  have noDelimiter : ¬ s.delim.isPrefixOf s.rest = true := by
    rw [List.isPrefixOf_iff_prefix, isRest]
    exact reads.2
  have isRest' : s.rest = [c] ++ after := isRest
  rw [step_normal outside noDirective left, ← take_eq_advanced .normal isRest' (by simp), ← outside,
    stepNormal_of_plain left plain, if_neg noDelimiter]
  rfl

theorem reaches_token {token : SqlToken} {s : Scan} {after : Text} (reads : token.Reads s.delim after)
    (outside : s.mode = .normal) (noDirective : s.directive = none) (isRest : s.rest = token.text ++ after) :
    Reaches s (s.advanced .normal token.text after) := by
  cases token with
  | quoted mark pieces => exact reaches_quoted reads.1 reads.2 outside noDirective isRest
  | lineComment hash body => exact reaches_lineComment reads outside noDirective isRest
  | blockComment body => exact reaches_blockComment reads outside noDirective isRest
  | other c => exact reaches_other reads outside noDirective isRest

theorem reaches_tokens {tokens : List SqlToken} {s : Scan} {after : Text} (reads : ReadsAll s.delim after tokens)
    (outside : s.mode = .normal)
    (noDirective : ∀ before behind, tokens = before ++ behind → behind ≠ [] → trim (s.buf ++ textOf before) = [] →
      directiveOf (lineOf (textOf behind ++ after)) = none)
    (isRest : s.rest = textOf tokens ++ after) : Reaches s (s.advanced .normal (textOf tokens) after) := by
  induction tokens generalizing s with
  | nil =>
      have isRest' : s.rest = after := isRest
      have stays : s.advanced .normal [] after = s := by
        rw [← outside, ← isRest']
        simp [advanced]
      rw [textOf, List.flatMap_nil, stays]
      exact .refl
  | cons token tokens ih =>
      have split : textOf (token :: tokens) = token.text ++ textOf tokens := List.flatMap_cons
      rw [split] at isRest ⊢
      rw [List.append_assoc] at isRest
      have noDirectiveHere : s.directive = none := by
        rw [directive]
        split
        · next conditions =>
            rw [isRest, ← List.append_assoc, ← split]
            apply noDirective [] _ rfl (by simp)
            simpa [textOf] using conditions.2.2
        · rfl
      have first := reaches_token reads.1 outside noDirectiveHere isRest
      have others := @ih (s.advanced .normal token.text (textOf tokens ++ after)) reads.2 rfl
        (fun before behind isTokens some_behind blank => by
          apply noDirective (token :: before) behind (by rw [isTokens]; rfl) some_behind
          rw [← blank]
          simp [textOf, advanced]) rfl
      rw [advanced_advanced] at others
      exact first.trans others

theorem stepNormal_of_opens {s : Scan} (opens : SqlToken.opens s.rest = true) :
    ∃ count mode, 0 < count ∧ s.stepNormal = { s.take count with mode := mode } := by
  unfold stepNormal
  split
  · next done =>
      rw [done] at opens
      cases opens
  · next c behind more =>
      rw [more] at opens ⊢
      split
      · next line => exact ⟨_, s.mode, length_lineOf_pos line, rfl⟩
      · next noLine =>
          split
          · exact ⟨2, .block, by simp, rfl⟩
          · next noBlock =>
              split
              · exact ⟨1, .sq, by simp, rfl⟩
              · next noSingle =>
                  split
                  · exact ⟨1, .dq, by simp, rfl⟩
                  · next noDouble =>
                      split
                      · exact ⟨1, .bt, by simp, rfl⟩
                      · next noBacktick =>
                          have noBlock' : ['/', '*'].isPrefixOf (c :: behind) = false := by
                            apply Bool.eq_false_iff.mpr
                            intro begins
                            obtain ⟨tail, isTail⟩ := List.isPrefixOf_iff_prefix.mp begins
                            obtain ⟨rfl, rfl⟩ := List.cons.inj isTail
                            exact noBlock ⟨rfl, rfl⟩
                          simp only [SqlToken.opens, Bool.eq_false_iff.mpr noLine, noBlock', List.head?_cons,
                            Option.any_some, noSingle, noDouble, noBacktick] at opens
                          cases opens

end Scan

theorem toLower_of_isSpace {c : Char} (space : isSpace c = true) : c.toLower = c := by
  have apart : c.toNat < 65 ∨ 90 < c.toNat := by
    simp only [isSpace, List.contains_eq_mem, List.mem_cons, List.not_mem_nil, or_false, Bool.or_eq_true,
      decide_eq_true_eq, Bool.and_eq_true] at space
    omega
  rw [Char.toLower]
  split
  · next upper =>
      have above : 65 ≤ c.toNat := upper.1
      have below : c.toNat ≤ 90 := upper.2
      omega
  · rfl

/-- A DELIMITER line. -/
structure DelimiterLine where
  lead : Text
  keyword : Text
  gap : Text
  delim : Text
  trail : Text
  leadBlank : ∀ c ∈ lead, isSpace c = true ∧ c ≠ '\n'
  isKeyword : keyword.map Char.toLower = "delimiter".toList
  someGap : gap ≠ []
  gapBlank : ∀ c ∈ gap, isSpace c = true ∧ c ≠ '\n'
  someDelim : delim ≠ []
  solid : ∀ c ∈ delim, isSpace c = false
  trailBlank : ∀ c ∈ trail, isSpace c = true ∧ c ≠ '\n'

namespace DelimiterLine

def text (line : DelimiterLine) : Text := line.lead ++ (line.keyword ++ (line.gap ++ (line.delim ++ line.trail)))

theorem noBreak (line : DelimiterLine) : '\n' ∉ line.text := by
  have noKeyword : '\n' ∉ line.keyword := fun member => by
    have lowered := List.mem_map_of_mem (f := Char.toLower) member
    rw [line.isKeyword] at lowered
    revert lowered
    decide
  have noDelim : '\n' ∉ line.delim := fun member => by
    have solid := line.solid _ member
    revert solid
    decide
  simp only [text, List.mem_append, not_or]
  exact ⟨fun member => (line.leadBlank _ member).2 rfl, noKeyword, fun member => (line.gapBlank _ member).2 rfl, noDelim,
    fun member => (line.trailBlank _ member).2 rfl⟩

theorem keyword_length (line : DelimiterLine) : line.keyword.length = 9 := by
  have lengths := congrArg List.length line.isKeyword
  rw [List.length_map] at lengths
  exact lengths

theorem keyword_solid (line : DelimiterLine) : ∀ c ∈ line.keyword, isSpace c = false := by
  intro c member
  apply Bool.eq_false_iff.mpr
  intro space
  have lowered := List.mem_map_of_mem (f := Char.toLower) member
  rw [line.isKeyword, toLower_of_isSpace space] at lowered
  have solid : ∀ c ∈ ['d', 'e', 'l', 'i', 'm', 'i', 't', 'e', 'r'], isSpace c = false := by simp [isSpace]
  rw [solid c lowered] at space
  cases space

theorem dropWhile_solid {before behind : Text} (some_before : before ≠ [])
    (solid : ∀ c ∈ before, isSpace c = false) : (before ++ behind).dropWhile isSpace = before ++ behind := by
  obtain ⟨c, more, rfl⟩ := List.exists_cons_of_ne_nil some_before
  rw [List.cons_append, List.dropWhile_cons_of_neg (by simp [solid c List.mem_cons_self])]

theorem directiveOf_text (line : DelimiterLine) : directiveOf line.text = some line.delim := by
  have some_keyword : line.keyword ≠ [] := fun gone => by
    have length := line.keyword_length
    rw [gone] at length
    cases length
  have command : line.text.dropWhile isSpace = line.keyword ++ (line.gap ++ (line.delim ++ line.trail)) := by
    rw [text, dropWhile_blank fun c member => (line.leadBlank c member).1,
      dropWhile_solid some_keyword line.keyword_solid]
  have argument : (line.gap ++ (line.delim ++ line.trail)).dropWhile isSpace = line.delim ++ line.trail := by
    rw [dropWhile_blank fun c member => (line.gapBlank c member).1, dropWhile_solid line.someDelim line.solid]
  have solid : ∀ c ∈ line.delim, (!isSpace c) = true := fun c member => by simp [line.solid c member]
  have token : (line.delim ++ line.trail).takeWhile (fun c => !isSpace c) = line.delim := by
    rw [List.takeWhile_append_of_pos solid]
    cases trail : line.trail with
    | nil => simp
    | cons c more =>
        have blank := (line.trailBlank c (by rw [trail]; exact List.mem_cons_self)).1
        simp [blank]
  have behind : (line.delim ++ line.trail).dropWhile (fun c => !isSpace c) = line.trail := by
    rw [List.dropWhile_append_of_pos solid]
    cases trail : line.trail with
    | nil => rfl
    | cons c more =>
        have blank := (line.trailBlank c (by rw [trail]; exact List.mem_cons_self)).1
        simp [blank]
  have begins : (line.gap ++ (line.delim ++ line.trail)).head?.any isSpace = true := by
    obtain ⟨c, more, gap⟩ := List.exists_cons_of_ne_nil line.someGap
    have blank := (line.gapBlank c (by rw [gap]; exact List.mem_cons_self)).1
    simp [gap, blank]
  have ends : line.trail.all isSpace = true := by
    simpa using fun c member => (line.trailBlank c member).1
  simp only [directiveOf, command, List.take_left' line.keyword_length, List.drop_left' line.keyword_length, argument,
    token, behind, line.isKeyword, begins, ends]
  rw [if_pos ⟨trivial, trivial, line.someDelim, trivial⟩]

end DelimiterLine

theorem directiveOf_blank {line : Text} (blank : ∀ c ∈ line, isSpace c = true) : directiveOf line = none := by
  simp [directiveOf, List.dropWhile_eq_nil_iff.mpr blank]

theorem directiveOf_of_first {c : Char} {line : Text} (solid : isSpace c = false) (other : c.toLower ≠ 'd') :
    directiveOf (c :: line) = none := by
  have command : (c :: line).dropWhile isSpace = c :: line := List.dropWhile_cons_of_neg (by simp [solid])
  have noWord : ¬ ((c :: line).take 9).map Char.toLower = "delimiter".toList := fun isWord =>
    other (List.cons.inj isWord).1
  simp only [directiveOf, command]
  rw [if_neg fun all => noWord all.1]

theorem directiveOf_lineOf {text : Text} (noDirective : directiveOf (lineOf (text.dropWhile isSpace)) = none) :
    directiveOf (lineOf text) = none := by
  induction text with
  | nil => exact noDirective
  | cons c text ih =>
      cases space : isSpace c with
      | false =>
          rw [List.dropWhile_cons_of_neg (by simp [space])] at noDirective
          exact noDirective
      | true =>
          rw [List.dropWhile_cons_of_pos space] at noDirective
          by_cases isBreak : c = '\n'
          · rw [isBreak]
            exact directiveOf_blank (by simp [lineOf])
          · have front : lineOf (c :: text) = c :: lineOf text := List.takeWhile_cons_of_pos (by simp [isBreak])
            rw [front, ← ih noDirective]
            simp only [directiveOf, List.dropWhile_cons_of_pos space]

theorem noDirective_of_stretch {tokens : List SqlToken} {after : Text}
    (noDirective : directiveOf (lineOf ((textOf tokens ++ after).dropWhile isSpace)) = none)
    {before behind : List SqlToken} (isTokens : tokens = before ++ behind) (blank : trim (textOf before) = []) :
    directiveOf (lineOf (textOf behind ++ after)) = none := by
  apply directiveOf_lineOf
  have parts : textOf tokens ++ after = textOf before ++ (textOf behind ++ after) := by
    rw [isTokens]
    simp [textOf]
  rw [parts, dropWhile_blank (trim_eq_nil.mp blank)] at noDirective
  exact noDirective

theorem isGap_first {token : SqlToken} (gap : token.isGap = true) :
    (∀ c ∈ token.text, isSpace c = true) ∨
      ∃ c more, token.text = c :: more ∧ isSpace c = false ∧ c.toLower ≠ 'd' := by
  cases token with
  | quoted mark pieces => cases gap
  | lineComment hash body =>
      cases hash with
      | true => exact .inr ⟨'#', body, rfl, by decide, by decide⟩
      | false => exact .inr ⟨'-', '-' :: body, rfl, by decide, by decide⟩
  | blockComment body => exact .inr ⟨'/', '*' :: (body ++ ['*', '/']), rfl, by decide, by decide⟩
  | other c => exact .inl (by simpa [SqlToken.text, SqlToken.isGap] using gap)

theorem directiveOf_gap {gap : List SqlToken} {after : Text} (isGap : ∀ token ∈ gap, token.isGap = true)
    (filled : trim (textOf gap) ≠ []) : directiveOf (lineOf ((textOf gap ++ after).dropWhile isSpace)) = none := by
  induction gap with
  | nil => exact absurd rfl filled
  | cons token gap ih =>
      have front : textOf (token :: gap) ++ after = token.text ++ (textOf gap ++ after) := by
        simp [textOf]
      rw [front]
      rcases isGap_first (isGap token List.mem_cons_self) with blank | ⟨c, more, isText, solid, other⟩
      · rw [dropWhile_blank blank]
        apply ih fun token member => isGap token (List.mem_cons_of_mem _ member)
        intro gone
        apply filled
        rw [textOf, List.flatMap_cons, trim_blank_append blank]
        exact gone
      · have notBreak : c ≠ '\n' := by
          rintro rfl
          revert solid
          decide
        rw [isText, List.cons_append, List.dropWhile_cons_of_neg (by simp [solid]), lineOf,
          List.takeWhile_cons_of_pos (by simp [notBreak])]
        exact directiveOf_of_first solid other

theorem directiveOf_break {before after : Text} (blank : ∀ c ∈ before, isSpace c = true) (breaks : '\n' ∈ before) :
    directiveOf (lineOf (before ++ after)) = none := by
  induction before with
  | nil => cases breaks
  | cons c before ih =>
      by_cases isBreak : c = '\n'
      · rw [isBreak]
        exact directiveOf_blank (by simp [lineOf])
      · have later : '\n' ∈ before := (List.mem_cons.mp breaks).resolve_left fun same => isBreak same.symm
        have front : lineOf (c :: before ++ after) = c :: lineOf (before ++ after) :=
          List.takeWhile_cons_of_pos (by simp [isBreak])
        rw [front, ← ih (fun d member => blank d (List.mem_cons_of_mem _ member)) later]
        simp only [directiveOf, List.dropWhile_cons_of_pos (blank c List.mem_cons_self)]

/-- A statement or a DELIMITER line, with the comments and the white space in front of it. -/
inductive ScriptItem where
  | statement (gap tokens : List SqlToken)
  | directive (gap : List SqlToken) (line : DelimiterLine)

def render (ending : List SqlToken) (delim : Text) : List ScriptItem → Text
  | [] => textOf ending
  | .statement gap tokens :: items => textOf (gap ++ tokens) ++ (delim ++ render ending delim items)
  | .directive gap line :: items => textOf gap ++ (line.text ++ '\n' :: render ending line.delim items)

/-- The items are well formed: in front of statements and DELIMITER lines there are comments and white space only, a
    statement is more than white space and does not read as a DELIMITER line, its tokens are well formed where they
    stand, with the delimiter in force in quotations and comments only, and a DELIMITER line begins a line. -/
def ScriptWellFormed (ending : List SqlToken) (lineStart : Bool) (delim : Text) : List ScriptItem → Prop
  | [] => (∀ token ∈ ending, token.isGap = true) ∧ ReadsAll delim [] ending
  | .statement gap tokens :: items =>
      (∀ token ∈ gap, token.isGap = true) ∧ trim (textOf tokens) ≠ [] ∧
        ReadsAll delim (delim ++ render ending delim items) (gap ++ tokens) ∧
        directiveOf (lineOf ((textOf (gap ++ tokens) ++ (delim ++ render ending delim items)).dropWhile isSpace)) = none ∧
        ScriptWellFormed ending false delim items
  | .directive gap line :: items =>
      (∀ token ∈ gap, token.isGap = true) ∧
        ReadsAll delim (line.text ++ '\n' :: render ending line.delim items) gap ∧
        ((textOf gap).getLast?.map fun c => decide (c = '\n')).getD lineStart = true ∧
        ScriptWellFormed ending true line.delim items

instance decidableScriptWellFormed (ending : List SqlToken) : (lineStart : Bool) → (delim : Text) → (items : List ScriptItem) →
    Decidable (ScriptWellFormed ending lineStart delim items)
  | _, _, [] => inferInstanceAs (Decidable (_ ∧ _))
  | _, delim, .statement _ _ :: items =>
      have := decidableScriptWellFormed ending false delim items
      inferInstanceAs (Decidable (_ ∧ _ ∧ _ ∧ _ ∧ _))
  | _, _, .directive _ line :: items =>
      have := decidableScriptWellFormed ending true line.delim items
      inferInstanceAs (Decidable (_ ∧ _ ∧ _ ∧ _))

/-- The statements that come out are those of the script in order, each trimmed, with the comments in front of it or
    without them. -/
def Splits (carried : Text) : List ScriptItem → List Text → Prop
  | [], out => out = []
  | .statement _ _ :: _, [] => False
  | .statement gap tokens :: items, statement :: out =>
      (statement = trim (textOf tokens) ∨ statement = trim (carried ++ textOf (gap ++ tokens))) ∧ Splits [] items out
  | .directive gap _ :: items, out => Splits (carried ++ textOf gap) items out

instance decidableSplits : (carried : Text) → (items : List ScriptItem) → (out : List Text) → Decidable (Splits carried items out)
  | _, [], out => inferInstanceAs (Decidable (out = []))
  | _, .statement _ _ :: _, [] => inferInstanceAs (Decidable False)
  | _, .statement _ _ :: items, _ :: out =>
      have := decidableSplits [] items out
      inferInstanceAs (Decidable ((_ ∨ _) ∧ _))
  | carried, .directive gap _ :: items, out => decidableSplits (carried ++ textOf gap) items out

/-- Every DELIMITER line is taken as a directive. -/
def TakesDirectives (script : Scan) (ending : List SqlToken) : List ScriptItem → Prop
  | [] => True
  | .statement _ _ :: items => TakesDirectives script ending items
  | .directive _ line :: items =>
      (∃ s, Scan.Reaches script s ∧ s.rest = line.text ++ '\n' :: render ending line.delim items ∧
        s.directive = some line.delim) ∧ TakesDirectives script ending items

def SplitsExactly (ending : List SqlToken) (items : List ScriptItem) : Prop :=
  Splits [] items (splitMysqlStatements (render ending [';'] items)) ∧
    TakesDirectives (Scan.start (render ending [';'] items)) ending items

/-- No comment stands in front of a DELIMITER line or of the end of the script, and no delimiter opens a comment or a
    quotation where it ends a statement. -/
def Scannable (ending : List SqlToken) (delim : Text) : List ScriptItem → Prop
  | [] => trim (textOf ending) = []
  | .statement _ _ :: items =>
      SqlToken.opens (delim ++ render ending delim items) = false ∧ Scannable ending delim items
  | .directive gap line :: items => trim (textOf gap) = [] ∧ Scannable ending line.delim items

instance decidableScannable (ending : List SqlToken) : (delim : Text) → (items : List ScriptItem) →
    Decidable (Scannable ending delim items)
  | _, [] => inferInstanceAs (Decidable (_ = _))
  | delim, .statement _ _ :: items =>
      have := decidableScannable ending delim items
      inferInstanceAs (Decidable (_ ∧ _))
  | _, .directive _ line :: items =>
      have := decidableScannable ending line.delim items
      inferInstanceAs (Decidable (_ ∧ _))

theorem SqlToken.text_ne_nil (token : SqlToken) : token.text ≠ [] := by
  cases token with
  | lineComment hash body => cases hash <;> simp [text]
  | _ => simp [text]

/-- The scanner stands in front of an item, with an empty buffer. -/
structure Between (s : Scan) (lineStart : Bool) (delim rest : Text) : Prop where
  outside : s.mode = .normal
  isBuf : s.buf = []
  isLineStart : s.atLineStart = lineStart
  isDelim : s.delim = delim
  isRest : s.rest = rest
  someDelim : delim ≠ []
  solid : ∀ c ∈ delim, isSpace c = false

namespace Between

variable {s : Scan} {lineStart : Bool} {delim rest : Text} {gap : List SqlToken} {line : DelimiterLine}

theorem named (between : Between s lineStart delim rest) : s.delim ≠ [] := by
  rw [between.isDelim]
  exact between.someDelim

theorem reaches_stretch {tokens : List SqlToken} {after : Text}
    (between : Between s lineStart delim (textOf tokens ++ after)) (reads : ReadsAll delim after tokens)
    (noDirective : ∀ before behind, tokens = before ++ behind → behind ≠ [] → trim (textOf before) = [] →
      directiveOf (lineOf (textOf behind ++ after)) = none) :
    s.Reaches (s.advanced .normal (textOf tokens) after) := by
  apply Scan.reaches_tokens (by rw [between.isDelim]; exact reads) between.outside _ between.isRest
  intro before behind isTokens some_behind blank
  apply noDirective before behind isTokens some_behind
  rw [between.isBuf] at blank
  exact blank

theorem noDirective_of_blank {after : Text} (blank : trim (textOf gap) = [])
    (ends : ((textOf gap).getLast?.map fun c => decide (c = '\n')).getD lineStart = true)
    {before behind : List SqlToken} (isGap : gap = before ++ behind) (some_behind : behind ≠ []) :
    directiveOf (lineOf (textOf behind ++ after)) = none := by
  have parts : textOf gap = textOf before ++ textOf behind := by
    rw [isGap, textOf, List.flatMap_append]
    rfl
  have some_text : textOf behind ≠ [] := by
    obtain ⟨token, more, rfl⟩ := List.exists_cons_of_ne_nil some_behind
    exact List.append_ne_nil_of_left_ne_nil token.text_ne_nil _
  obtain ⟨c, last⟩ := Option.ne_none_iff_exists'.mp (mt List.getLast?_eq_none_iff.mp some_text)
  have lastOfGap : (textOf gap).getLast? = some c := by
    rw [parts, List.getLast?_append, last]
    rfl
  rw [lastOfGap] at ends
  have isBreak : c = '\n' := by simpa using ends
  apply directiveOf_break
  · intro d member
    apply trim_eq_nil.mp blank
    rw [parts]
    exact List.mem_append_right _ member
  · rw [← isBreak]
    exact List.mem_of_getLast? last

theorem reaches_line {after : Text} (between : Between s lineStart delim (textOf gap ++ (line.text ++ '\n' :: after)))
    (isGap : ∀ token ∈ gap, token.isGap = true) (reads : ReadsAll delim (line.text ++ '\n' :: after) gap)
    (ends : ((textOf gap).getLast?.map fun c => decide (c = '\n')).getD lineStart = true) :
    s.Reaches (s.advanced .normal (textOf gap) (line.text ++ '\n' :: after)) := by
  apply between.reaches_stretch reads
  intro before behind isParts some_behind blankBefore
  by_cases blank : trim (textOf gap) = []
  · exact noDirective_of_blank blank ends isParts some_behind
  · exact noDirective_of_stretch (directiveOf_gap isGap blank) isParts blankBefore

theorem directive_line {after : Text} (between : Between s lineStart delim (textOf gap ++ (line.text ++ '\n' :: after)))
    (ends : ((textOf gap).getLast?.map fun c => decide (c = '\n')).getD lineStart = true) :
    (s.advanced .normal (textOf gap) (line.text ++ '\n' :: after)).directive =
      if trim (textOf gap) = [] then some line.delim else none := by
  have isLine : lineOf (line.text ++ '\n' :: after) = line.text := Scan.lineOf_append line.noBreak (by simp)
  simp only [Scan.directive, Scan.advanced, between.isBuf, between.isLineStart, List.nil_append, ends, isLine,
    line.directiveOf_text, true_and]

theorem skipDirective (s : Scan) (gap : List SqlToken) (line : DelimiterLine) (after : Text) :
    Between ((s.advanced .normal (textOf gap) (line.text ++ '\n' :: after)).skipDirective line.delim) true line.delim
      after where
  outside := rfl
  isBuf := rfl
  isLineStart := rfl
  isDelim := rfl
  isRest := by
    have isLine : lineOf (line.text ++ '\n' :: after) = line.text := Scan.lineOf_append line.noBreak (by simp)
    simp only [Scan.skipDirective, Scan.advanced, isLine]
    have whole : line.text ++ '\n' :: after = (line.text ++ ['\n']) ++ after := by simp
    rw [whole]
    exact List.drop_left' (by simp)
  someDelim := line.someDelim
  solid := line.solid

theorem reaches_statement {tokens : List SqlToken} {after : Text}
    (between : Between s lineStart delim (textOf tokens ++ (delim ++ after)))
    (reads : ReadsAll delim (delim ++ after) tokens)
    (noDirective : directiveOf (lineOf ((textOf tokens ++ (delim ++ after)).dropWhile isSpace)) = none) :
    s.Reaches (s.advanced .normal (textOf tokens) (delim ++ after)) :=
  between.reaches_stretch reads fun _ _ isTokens _ blank => noDirective_of_stretch noDirective isTokens blank

variable {text after : Text}

theorem advanced_left (between : Between s lineStart delim rest) :
    (s.advanced .normal text (delim ++ after)).rest ≠ [] :=
  List.append_ne_nil_of_left_ne_nil between.someDelim after

theorem advanced_filled (between : Between s lineStart delim rest) (filled : trim text ≠ []) :
    trim (s.advanced .normal text (delim ++ after)).buf ≠ [] := by
  rw [Scan.advanced, between.isBuf]
  exact filled

theorem step_delimiter (between : Between s lineStart delim rest) (filled : trim text ≠ [])
    (plain : SqlToken.opens (delim ++ after) = false) :
    (s.advanced .normal text (delim ++ after)).step =
      { s with out := s.out ++ [trim text], buf := [], mode := .normal, atLineStart := false, rest := after } := by
  have found : (s.advanced .normal text (delim ++ after)).delim.isPrefixOf
      (s.advanced .normal text (delim ++ after)).rest = true := by
    rw [List.isPrefixOf_iff_prefix, Scan.advanced, between.isDelim]
    exact List.prefix_append _ _
  have noBreak : delim.getLast? ≠ some '\n' := fun last => by
    have solid := between.solid _ (List.mem_of_getLast? last)
    revert solid
    decide
  rw [Scan.step_normal rfl (Scan.directive_of_filled (between.advanced_filled filled)) between.advanced_left,
    Scan.stepNormal_of_plain between.advanced_left plain, if_pos found, Scan.skipDelimiter,
    Scan.pushStatement_of_filled (between.advanced_filled filled)]
  simp [Scan.advanced, between.isBuf, between.isDelim, noBreak]

theorem finish_opened (between : Between s lineStart delim rest) (filled : trim text ≠ [])
    (opens : SqlToken.opens (delim ++ after) = true) :
    ∃ statement more, (s.advanced .normal text (delim ++ after)).finish.pushStatement.out =
      s.out ++ statement :: more ∧ (trim text).length < statement.length := by
  obtain ⟨c, delimMore, isDelim⟩ := List.exists_cons_of_ne_nil between.someDelim
  have solid : isSpace c = false := between.solid c (by rw [isDelim]; exact List.mem_cons_self)
  obtain ⟨count, mode, positive, takes⟩ := @Scan.stepNormal_of_opens (s.advanced .normal text (delim ++ after)) opens
  obtain ⟨behind, isTaken⟩ : ∃ behind, (delim ++ after).take count = c :: behind := by
    obtain ⟨fewer, rfl⟩ := Nat.exists_eq_succ_of_ne_zero (Nat.ne_of_gt positive)
    rw [isDelim]
    exact ⟨_, rfl⟩
  have named : (s.advanced .normal text (delim ++ after)).delim ≠ [] := between.named
  rw [← Scan.finish_step named between.advanced_left,
    Scan.step_normal rfl (Scan.directive_of_filled (between.advanced_filled filled)) between.advanced_left, takes]
  have isBuf : ((s.advanced .normal text (delim ++ after)).take count).buf = text ++ c :: behind := by
    simp [Scan.take, Scan.advanced, between.isBuf, isTaken]
  exact @Scan.finish_longer { (s.advanced .normal text (delim ++ after)).take count with mode := mode } between.named
    text behind c isBuf solid filled

end Between


section Splitting

variable {ending : List SqlToken} {items : List ScriptItem} {script s : Scan} {lineStart : Bool} {delim carried : Text}
  {out : List Text}

theorem splits_ending (between : Between s lineStart delim (render ending delim []))
    (wellFormed : ScriptWellFormed ending lineStart delim []) (isOut : s.finish.pushStatement.out = s.out ++ out) :
    out = [] ↔ trim (textOf ending) = [] := by
  obtain ⟨isGap, reads⟩ := wellFormed
  have between' : Between s lineStart delim (textOf ending ++ []) := by
    rw [List.append_nil]
    exact between
  have reaches : s.Reaches (s.advanced .normal (textOf ending) []) := by
    apply between'.reaches_stretch reads
    intro before behind isParts _ blankBefore
    by_cases blank : trim (textOf ending) = []
    · apply noDirective_of_stretch _ isParts blankBefore
      rw [List.append_nil, List.dropWhile_eq_nil_iff.mpr (trim_eq_nil.mp blank)]
      exact directiveOf_blank (by simp [lineOf])
    · exact noDirective_of_stretch (directiveOf_gap isGap blank) isParts blankBefore
  have ends : (s.advanced .normal (textOf ending) []).finish = s.advanced .normal (textOf ending) [] :=
    Scan.iterate_step_of_nil rfl _
  have isBuf : (s.advanced .normal (textOf ending) []).buf = textOf ending := by
    rw [Scan.advanced, between.isBuf]
    rfl
  rw [reaches.finish between.named, ends] at isOut
  by_cases blank : trim (textOf ending) = []
  · rw [Scan.pushStatement_of_blank (by rw [isBuf]; exact blank)] at isOut
    exact iff_of_true (List.self_eq_append_right.mp isOut) blank
  · rw [Scan.pushStatement_of_filled (by rw [isBuf]; exact blank)] at isOut
    refine iff_of_false (fun none => ?_) blank
    rw [none, List.append_nil] at isOut
    exact absurd isOut (by simp [Scan.advanced])

theorem not_splits_of_opens {gap tokens : List SqlToken} {after : Text}
    (between : Between s lineStart delim (textOf (gap ++ tokens) ++ (delim ++ after)))
    (filled : trim (textOf (gap ++ tokens)) ≠ []) (opens : SqlToken.opens (delim ++ after) = true)
    (blank : trim carried = [])
    (isOut : (s.advanced .normal (textOf (gap ++ tokens)) (delim ++ after)).finish.pushStatement.out = s.out ++ out) :
    ¬ Splits carried (.statement gap tokens :: items) out := by
  obtain ⟨statement, more, isEnd, longer⟩ := between.finish_opened filled opens
  rw [isEnd] at isOut
  obtain rfl := List.append_cancel_left isOut
  rintro ⟨plain | attached, -⟩
  · have shorter := length_trim_le (textOf gap) (textOf tokens)
    rw [plain] at longer
    rw [textOf, List.flatMap_append] at longer
    exact absurd longer (Nat.not_lt.mpr shorter)
  · rw [attached, trim_blank_append (trim_eq_nil.mp blank)] at longer
    exact absurd longer (lt_irrefl _)

theorem splits_iff (reached : script.Reaches s) (scriptNamed : script.delim ≠ [])
    (between : Between s lineStart delim (render ending delim items))
    (wellFormed : ScriptWellFormed ending lineStart delim items) (blank : trim carried = [])
    (isOut : s.finish.pushStatement.out = s.out ++ out) :
    (Splits carried items out ∧ TakesDirectives script ending items) ↔ Scannable ending delim items := by
  induction items generalizing s lineStart delim carried out with
  | nil =>
      rw [Splits, TakesDirectives, Scannable, and_true]
      exact splits_ending between wellFormed isOut
  | cons item items ih =>
      cases item with
      | statement gap tokens =>
          obtain ⟨isGap, filledTokens, reads, noDirective, others⟩ := wellFormed
          have filled : trim (textOf (gap ++ tokens)) ≠ [] := fun gone => by
            apply filledTokens
            rw [trim_eq_nil] at gone ⊢
            intro c member
            apply gone c
            rw [textOf, List.flatMap_append]
            exact List.mem_append_right _ member
          have reaches := between.reaches_statement reads noDirective
          rw [reaches.finish between.named] at isOut
          rw [Scannable]
          cases opens : SqlToken.opens (delim ++ render ending delim items) with
          | true =>
              apply iff_of_false
              · exact fun both => not_splits_of_opens between filled opens blank isOut both.1
              · exact fun both => Bool.noConfusion both.1
          | false =>
              have isStep := between.step_delimiter filled opens
              rw [← Scan.finish_step (reaches.delim between.named) between.advanced_left, isStep] at isOut
              obtain ⟨more, isMore⟩ := Scan.finish_out
                { s with out := s.out ++ [trim (textOf (gap ++ tokens))], buf := [], mode := .normal,
                         atLineStart := false, rest := render ending delim items }
              have isCons : out = trim (textOf (gap ++ tokens)) :: more := by
                rw [← isMore, List.append_assoc] at isOut
                exact (List.append_cancel_left isOut).symm
              have blankStart : trim [] = [] := rfl
              have onward := ih
                ((reached.trans reaches).trans (Scan.Reaches.single between.advanced_left isStep))
                ⟨rfl, rfl, rfl, between.isDelim, rfl, between.someDelim, between.solid⟩ others blankStart isMore.symm
              have attached : trim (textOf (gap ++ tokens)) = trim (carried ++ textOf (gap ++ tokens)) :=
                (trim_blank_append (trim_eq_nil.mp blank)).symm
              rw [isCons, Splits, TakesDirectives, ← onward]
              exact ⟨fun both => ⟨rfl, both.1.2, both.2⟩, fun all => ⟨⟨.inr attached, all.2.1⟩, all.2.2⟩⟩
      | directive gap line =>
          obtain ⟨isGap, reads, ends, others⟩ := wellFormed
          have reaches := between.reaches_line isGap reads ends
          have isDirective := between.directive_line ends
          rw [Splits, TakesDirectives, Scannable]
          by_cases blankGap : trim (textOf gap) = []
          · rw [if_pos blankGap] at isDirective
            have left : (s.advanced .normal (textOf gap)
                (line.text ++ '\n' :: render ending line.delim items)).rest ≠ [] := by
              simp [Scan.advanced]
            have isStep : (s.advanced .normal (textOf gap)
                (line.text ++ '\n' :: render ending line.delim items)).step =
                (s.advanced .normal (textOf gap)
                  (line.text ++ '\n' :: render ending line.delim items)).skipDirective line.delim := by
              rw [Scan.step, if_neg left, isDirective]
            have blankOn : trim (carried ++ textOf gap) = [] := by
              rw [trim_blank_append (trim_eq_nil.mp blank)]
              exact blankGap
            rw [reaches.finish between.named, ← Scan.finish_step (reaches.delim between.named) left, isStep] at isOut
            have onward := ih
              ((reached.trans reaches).trans (Scan.Reaches.single left isStep))
              (Between.skipDirective s gap line _) others blankOn isOut
            rw [← onward]
            exact ⟨fun all => ⟨blankGap, all.1, all.2.2⟩,
              fun all => ⟨all.2.1, ⟨_, reached.trans reaches, rfl, isDirective⟩, all.2.2⟩⟩
          · apply iff_of_false
            · rintro ⟨-, ⟨other, reachesOther, isRest, taken⟩, -⟩
              -- Only one state is reached in front of the line, and there the comment is in the buffer.
              have same := reachesOther.unique (reached.trans reaches) scriptNamed isRest
              rw [same, isDirective, if_neg blankGap] at taken
              cases taken
            · exact fun both => blankGap both.1

end Splitting

/-- A script is split exactly when it can be scanned. -/
theorem mysql_split_exact_iff {ending : List SqlToken} {items : List ScriptItem}
    (wellFormed : ScriptWellFormed ending true [';'] items) :
    SplitsExactly ending items ↔ Scannable ending [';'] items := by
  have between : Between (Scan.start (render ending [';'] items)) true [';'] (render ending [';'] items) :=
    ⟨rfl, rfl, rfl, rfl, rfl, by simp, by simp [isSpace]⟩
  exact splits_iff .refl between.named between wellFormed rfl rfl

def slashesLine : DelimiterLine where
  lead := []
  keyword := "DELIMITER".toList
  gap := [' ']
  delim := ['/', '/']
  trail := []
  leadBlank := by simp
  isKeyword := by decide
  someGap := by simp
  gapBlank := by simp [isSpace]
  someDelim := by simp
  solid := by simp [isSpace]
  trailBlank := by simp

def plainTokens (text : String) : List SqlToken := text.toList.map .other

theorem mysql_split_exact_procedure :
    SplitsExactly [.other '\n'] [
      .statement [.lineComment false " set up".toList, .other '\n']
        (plainTokens "SELECT " ++ [.quoted .single [.plain ';', .doubled, .escaped '\'']]),
      .directive [.other '\n'] slashesLine,
      .statement [.blockComment " two ".toList] (plainTokens "A; B")] :=
  (mysql_split_exact_iff (by decide +kernel)).mpr (by decide +kernel)

def commentedScript : List ScriptItem := [
  .directive [.lineComment false " c".toList, .other '\n'] slashesLine,
  .statement [] (plainTokens "SELECT 1")]

/-- A comment in front of a DELIMITER line hides it: the line comes out at the front of the next statement, and that
    statement keeps its delimiter. -/
theorem comment_hides_directive :
    ScriptWellFormed [.other '\n'] true [';'] commentedScript ∧
      splitMysqlStatements (render [.other '\n'] [';'] commentedScript) =
        ["-- c\nDELIMITER //\nSELECT 1//".toList] ∧
      ¬ SplitsExactly [.other '\n'] commentedScript := by
  have isOut : splitMysqlStatements (render [.other '\n'] [';'] commentedScript) =
      ["-- c\nDELIMITER //\nSELECT 1//".toList] := by decide +kernel
  have noSplit : ¬ Splits [] commentedScript ["-- c\nDELIMITER //\nSELECT 1//".toList] := by decide +kernel
  refine ⟨by decide +kernel, isOut, fun exact => noSplit ?_⟩
  rw [← isOut]
  exact exact.1

end Puter

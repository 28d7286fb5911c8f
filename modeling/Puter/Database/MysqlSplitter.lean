/-
Module: Puter.Database.MysqlSplitter
Purpose: splitMysqlStatements of clients/database/splitMysqlStatements.ts, which cuts a migration file into
  statements. One scanner goes through the text: at the start of a line it looks for a DELIMITER line, inside
  quotations and comments for their end, and everywhere else for the delimiter in force.
Trusted boundary: a text is a list of characters; the white space of `\s` is that of `trim`
Main exports: ScanMode, Scan.Reaches
-/
import Puter.Fs.PosixPath

namespace Puter

open PosixPath

/-- The states of the scanner: in a quotation, in a block comment, or in neither. -/
inductive ScanMode where
  | normal
  | sq
  | dq
  | bt
  | block
deriving DecidableEq, Repr

/-- What the scanner has: the statements so far, the text since the last one, the delimiter in force, its state,
    whether a line starts here, and the text that is left. -/
structure Scan where
  out : List Text
  buf : Text
  delim : Text
  mode : ScanMode
  atLineStart : Bool
  rest : Text
deriving DecidableEq, Repr

def lineOf (text : Text) : Text := text.takeWhile (· ≠ '\n')

/-- `/^\s*DELIMITER\s+(\S+)\s*$/i`: the delimiter that a line sets. -/
def directiveOf (line : Text) : Option Text :=
  let command := line.dropWhile isSpace
  let argument := command.drop 9
  let token := (argument.dropWhile isSpace).takeWhile fun c => !isSpace c
  let behind := (argument.dropWhile isSpace).dropWhile fun c => !isSpace c
  if (command.take 9).map Char.toLower = "delimiter".toList ∧ (argument.head?.any isSpace) = true ∧ token ≠ [] ∧
      behind.all isSpace = true then some token
  else none

def opensLineComment : Text → Bool
  | '#' :: _ => true
  | '-' :: '-' :: rest => (rest.head?.map isSpace).getD true
  | _ => false

namespace Scan

def blank (text : Text) : Bool := text.all isSpace

def pushStatement (s : Scan) : Scan :=
  { s with out := if trim s.buf = [] then s.out else s.out ++ [trim s.buf], buf := [] }

def take (s : Scan) (count : ℕ) : Scan :=
  { s with
    buf := s.buf ++ s.rest.take count
    atLineStart := (s.rest.take count).getLast? = some '\n'
    rest := s.rest.drop count }

def directive (s : Scan) : Option Text :=
  if s.atLineStart = true ∧ s.mode = .normal ∧ trim s.buf = [] then directiveOf (lineOf s.rest) else none

def skipDirective (s : Scan) (delim : Text) : Scan :=
  { s with
    buf := []
    delim := delim
    atLineStart := true
    rest := s.rest.drop ((lineOf s.rest).length + 1) }

def stepQuoted (s : Scan) (quote : Char) (escapes : Bool) : Scan :=
  match s.rest with
  | [] => s
  | [c] => if c = quote then { s.take 1 with mode := .normal } else s.take 1
  | c :: next :: _ =>
      if escapes = true ∧ c = '\\' then s.take 2
      else if c = quote then if next = quote then s.take 2 else { s.take 1 with mode := .normal }
      else s.take 1

def stepBlock (s : Scan) : Scan :=
  match s.rest with
  | '*' :: '/' :: _ => { s.take 2 with mode := .normal }
  | _ => s.take 1

def skipDelimiter (s : Scan) : Scan :=
  { s.pushStatement with
    atLineStart := (s.rest.take s.delim.length).getLast? = some '\n'
    rest := s.rest.drop s.delim.length }

def stepNormal (s : Scan) : Scan :=
  match s.rest with
  | [] => s
  | c :: rest =>
      if opensLineComment s.rest = true then s.take (lineOf s.rest).length
      else if c = '/' ∧ rest.head? = some '*' then { s.take 2 with mode := .block }
      else if c = '\'' then { s.take 1 with mode := .sq }
      else if c = '"' then { s.take 1 with mode := .dq }
      else if c = Char.ofNat 96 then { s.take 1 with mode := .bt }
      else if s.delim.isPrefixOf s.rest then s.skipDelimiter
      else s.take 1

def step (s : Scan) : Scan :=
  if s.rest = [] then s
  else
    match s.directive with
    | some delim => s.skipDirective delim
    | none =>
        match s.mode with
        | .sq => s.stepQuoted '\'' true
        | .dq => s.stepQuoted '"' true
        | .bt => s.stepQuoted (Char.ofNat 96) false
        | .block => s.stepBlock
        | .normal => s.stepNormal

def start (sql : Text) : Scan := ⟨[], [], [';'], .normal, true, sql⟩

def finish (s : Scan) : Scan := step^[s.rest.length] s

end Scan

def splitMysqlStatements (sql : Text) : List Text := (Scan.start sql).finish.pushStatement.out

section Trim

theorem trim_eq_nil {text : Text} : trim text = [] ↔ ∀ c ∈ text, isSpace c = true := by
  unfold trim
  constructor
  · intro empty c member
    by_contra notSpace
    have kept : text.dropWhile isSpace ≠ [] := fun gone => notSpace (List.dropWhile_eq_nil_iff.mp gone c member)
    have first := List.head_dropWhile_not isSpace kept
    rw [List.rdropWhile_eq_nil_iff] at empty
    have isFirst := empty _ (List.head_mem kept)
    rw [first] at isFirst
    cases isFirst
  · intro spaces
    rw [List.dropWhile_eq_nil_iff.mpr spaces]
    rfl

theorem dropWhile_blank {before behind : Text} (blank : ∀ c ∈ before, isSpace c = true) :
    (before ++ behind).dropWhile isSpace = behind.dropWhile isSpace := by
  rw [List.dropWhile_append, List.dropWhile_eq_nil_iff.mpr blank]
  rfl

theorem trim_blank_append {before behind : Text} (blank : ∀ c ∈ before, isSpace c = true) :
    trim (before ++ behind) = trim behind := by
  rw [trim, dropWhile_blank blank, trim]

theorem prefix_rdropWhile {before : Text} {c : Char} (notSpace : isSpace c = false) (behind : Text) :
    before ++ [c] <+: (before ++ c :: behind).rdropWhile isSpace := by
  induction behind using List.reverseRecOn with
  | nil =>
      rw [List.rdropWhile_concat_neg _ _ _ (by simp [notSpace])]
  | append_singleton behind last ih =>
      have grouped : before ++ c :: (behind ++ [last]) = (before ++ c :: behind) ++ [last] := by
        rw [List.append_assoc, List.cons_append]
      rw [grouped]
      cases space : isSpace last with
      | true =>
          rw [List.rdropWhile_concat_pos _ _ _ space]
          exact ih
      | false =>
          rw [List.rdropWhile_concat_neg _ _ _ (by simp [space]), List.append_assoc]
          exact ⟨behind ++ [last], by simp⟩

theorem length_trim_lt {before behind : Text} {c : Char} (notSpace : isSpace c = false)
    (filled : trim before ≠ []) : (trim before).length < (trim (before ++ c :: behind)).length := by
  have kept : before.dropWhile isSpace ≠ [] := fun gone => by
    apply filled
    rw [trim, gone]
    rfl
  have front : trim (before ++ c :: behind) = (before.dropWhile isSpace ++ c :: behind).rdropWhile isSpace := by
    rw [trim, List.dropWhile_append, if_neg (by simpa using kept)]
  have short : (trim before).length ≤ (before.dropWhile isSpace).length :=
    (List.rdropWhile_prefix _ _).length_le
  have stays : before.dropWhile isSpace ++ [c] <+: (before.dropWhile isSpace ++ c :: behind).rdropWhile isSpace :=
    prefix_rdropWhile notSpace behind
  have long := stays.length_le
  rw [List.length_append, List.length_singleton] at long
  rw [front]
  omega

theorem rdropWhile_append_of_ne_nil {before behind : Text} (kept : behind.rdropWhile isSpace ≠ []) :
    (before ++ behind).rdropWhile isSpace = before ++ behind.rdropWhile isSpace := by
  have kept' : ¬ (behind.reverse.dropWhile isSpace).isEmpty := by simpa [List.rdropWhile] using kept
  rw [List.rdropWhile, List.reverse_append, List.dropWhile_append, if_neg kept', List.reverse_append,
    List.reverse_reverse, List.rdropWhile]

theorem length_trim_le (before behind : Text) : (trim behind).length ≤ (trim (before ++ behind)).length := by
  by_cases blank : ∀ c ∈ before, isSpace c = true
  · rw [trim_blank_append blank]
  · by_cases empty : trim behind = []
    · rw [empty]
      exact Nat.zero_le _
    · have kept : ¬ (before.dropWhile isSpace).isEmpty := by
        simpa [List.dropWhile_eq_nil_iff] using blank
      have whole : trim (before ++ behind) =
          before.dropWhile isSpace ++ behind.takeWhile isSpace ++ trim behind := by
        rw [trim, List.dropWhile_append, if_neg kept, trim, ← rdropWhile_append_of_ne_nil empty, List.append_assoc,
          List.takeWhile_append_dropWhile]
      rw [whole, List.length_append]
      exact Nat.le_add_left _ _

end Trim

theorem directiveOf_some {line delim : Text} (sets : directiveOf line = some delim) :
    delim ≠ [] ∧ ∀ c ∈ delim, isSpace c = false := by
  simp only [directiveOf] at sets
  split at sets
  · next conditions =>
      cases sets
      exact ⟨conditions.2.2.1, fun c member => by simpa using List.mem_takeWhile_imp member⟩
  · cases sets

namespace Scan

theorem step_of_nil {s : Scan} (done : s.rest = []) : s.step = s := by
  rw [step, if_pos done]

theorem directive_of_mode {s : Scan} (inside : s.mode ≠ .normal) : s.directive = none := by
  rw [directive, if_neg (fun both => inside both.2.1)]

theorem directive_of_filled {s : Scan} (filled : trim s.buf ≠ []) : s.directive = none := by
  rw [directive, if_neg (fun both => filled both.2.2)]

theorem stepQuoted_takes {s : Scan} (left : s.rest ≠ []) (quote : Char) (escapes : Bool) :
    ∃ count mode, 0 < count ∧ count ≤ s.rest.length ∧
      s.stepQuoted quote escapes = { s.take count with mode := mode } := by
  unfold stepQuoted
  split
  · next done => exact absurd done left
  · next c one =>
      rw [one]
      split
      · exact ⟨1, .normal, by simp, by simp, rfl⟩
      · exact ⟨1, s.mode, by simp, by simp, rfl⟩
  · next c following behind more =>
      rw [more]
      split
      · exact ⟨2, s.mode, by simp, by simp, rfl⟩
      · split
        · split
          · exact ⟨2, s.mode, by simp, by simp, rfl⟩
          · exact ⟨1, .normal, by simp, by simp, rfl⟩
        · exact ⟨1, s.mode, by simp, by simp, rfl⟩

theorem stepBlock_takes {s : Scan} (left : s.rest ≠ []) :
    ∃ count mode, 0 < count ∧ count ≤ s.rest.length ∧ s.stepBlock = { s.take count with mode := mode } := by
  unfold stepBlock
  split
  · next behind closes => exact ⟨2, .normal, by simp, by simp [closes], rfl⟩
  · exact ⟨1, s.mode, by simp, List.length_pos_iff.mpr left, rfl⟩

theorem length_lineOf_pos {text : Text} (opens : opensLineComment text = true) : 0 < (lineOf text).length := by
  unfold opensLineComment at opens
  split at opens
  · simp [lineOf]
  · simp [lineOf]
  · cases opens

theorem stepNormal_cases {s : Scan} (left : s.rest ≠ []) :
    (s.delim <+: s.rest ∧ s.stepNormal = s.skipDelimiter) ∨
      ∃ count mode, 0 < count ∧ count ≤ s.rest.length ∧ s.stepNormal = { s.take count with mode := mode } := by
  unfold stepNormal
  split
  · next done => exact absurd done left
  · next c behind more =>
      split
      · next opens =>
          exact .inr ⟨_, s.mode, length_lineOf_pos opens, (List.takeWhile_prefix _).length_le, rfl⟩
      · split
        · next opens =>
            refine .inr ⟨2, .block, by simp, ?_, rfl⟩
            rw [more]
            cases behind with
            | nil => cases opens.2
            | cons => simp
        · split
          · exact .inr ⟨1, .sq, by simp, by simp [more], rfl⟩
          · split
            · exact .inr ⟨1, .dq, by simp, by simp [more], rfl⟩
            · split
              · exact .inr ⟨1, .bt, by simp, by simp [more], rfl⟩
              · split
                · next found => exact .inl ⟨List.isPrefixOf_iff_prefix.mp found, rfl⟩
                · exact .inr ⟨1, s.mode, by simp, by simp [more], rfl⟩

theorem step_cases {s : Scan} (left : s.rest ≠ []) :
    (∃ delim, s.directive = some delim ∧ s.step = s.skipDirective delim) ∨
      (s.directive = none ∧ s.delim <+: s.rest ∧ s.step = s.skipDelimiter) ∨
      (s.directive = none ∧ ∃ count mode, 0 < count ∧ count ≤ s.rest.length ∧
        s.step = { s.take count with mode := mode }) := by
  rw [step, if_neg left]
  cases found : s.directive with
  | some delim => exact .inl ⟨delim, rfl, rfl⟩
  | none =>
      right
      cases mode : s.mode with
      | normal => exact (stepNormal_cases left).imp (⟨rfl, ·⟩) (⟨rfl, ·⟩)
      | sq => exact .inr ⟨rfl, stepQuoted_takes left _ _⟩
      | dq => exact .inr ⟨rfl, stepQuoted_takes left _ _⟩
      | bt => exact .inr ⟨rfl, stepQuoted_takes left _ _⟩
      | block => exact .inr ⟨rfl, stepBlock_takes left⟩

theorem step_delim {s : Scan} (named : s.delim ≠ []) : s.step.delim ≠ [] := by
  by_cases done : s.rest = []
  · rw [step_of_nil done]
    exact named
  · rcases step_cases done with ⟨delim, found, isStep⟩ | ⟨-, -, isStep⟩ | ⟨-, count, mode, -, -, isStep⟩
    · rw [isStep]
      unfold directive at found
      split at found
      · exact (directiveOf_some found).1
      · cases found
    · rw [isStep]
      exact named
    · rw [isStep]
      exact named

theorem step_length {s : Scan} (named : s.delim ≠ []) (left : s.rest ≠ []) :
    s.step.rest.length < s.rest.length := by
  have some_left := List.length_pos_iff.mpr left
  rcases step_cases left with ⟨delim, -, isStep⟩ | ⟨-, -, isStep⟩ | ⟨-, count, mode, positive, -, isStep⟩
  · rw [isStep]
    simp only [skipDirective, List.length_drop]
    omega
  · have some_delim := List.length_pos_iff.mpr named
    rw [isStep]
    simp only [skipDelimiter, List.length_drop]
    omega
  · rw [isStep]
    simp only [take, List.length_drop]
    omega

def Reaches : Scan → Scan → Prop :=
  Relation.ReflTransGen fun s after => s.rest ≠ [] ∧ after = s.step

theorem Reaches.single {s after : Scan} (left : s.rest ≠ []) (isStep : s.step = after) : Reaches s after :=
  Relation.ReflTransGen.single ⟨left, isStep.symm⟩

theorem Reaches.delim {s after : Scan} (reaches : Reaches s after) (named : s.delim ≠ []) : after.delim ≠ [] := by
  induction reaches with
  | refl => exact named
  | tail _ next ih =>
      rw [next.2]
      exact step_delim ih

theorem Reaches.length_lt {s after : Scan} (reaches : Reaches s after) (named : s.delim ≠ []) :
    after = s ∨ after.rest.length < s.rest.length := by
  induction reaches with
  | refl => exact .inl rfl
  | @tail middle after before next ih =>
      have shorter := step_length (Reaches.delim before named) next.1
      rw [next.2]
      rcases ih with rfl | shorterBefore
      · exact .inr shorter
      · exact .inr (shorter.trans shorterBefore)

theorem Reaches.unique {s after other : Scan} (reaches : Reaches s after) (reachesOther : Reaches s other)
    (named : s.delim ≠ []) (same : after.rest = other.rest) : after = other := by
  have functional : Relator.RightUnique fun s after : Scan => s.rest ≠ [] ∧ after = s.step :=
    fun _ _ _ first second => first.2.trans second.2.symm
  rcases Relation.ReflTransGen.total_of_right_unique functional reaches reachesOther with onward | onward
  · rcases Reaches.length_lt onward (reaches.delim named) with equal | shorter
    · exact equal.symm
    · rw [same] at shorter
      exact absurd shorter (lt_irrefl _)
  · rcases Reaches.length_lt onward (reachesOther.delim named) with equal | shorter
    · exact equal
    · rw [same] at shorter
      exact absurd shorter (lt_irrefl _)

theorem iterate_step_of_nil {s : Scan} (done : s.rest = []) (count : ℕ) : step^[count] s = s :=
  Function.iterate_fixed (step_of_nil done) count

theorem length_iterate_step {s : Scan} (named : s.delim ≠ []) (count : ℕ) :
    (step^[count] s).rest.length ≤ s.rest.length - count := by
  induction count generalizing s with
  | zero => exact le_rfl
  | succ count ih =>
      by_cases done : s.rest = []
      · rw [iterate_step_of_nil done, done]
        exact Nat.zero_le _
      · have shorter := step_length named done
        have onward := ih (step_delim named)
        rw [Function.iterate_succ_apply]
        omega

theorem finish_rest {s : Scan} (named : s.delim ≠ []) : s.finish.rest = [] := by
  have short := length_iterate_step named s.rest.length
  rw [Nat.sub_self] at short
  exact List.length_eq_zero_iff.mp (Nat.le_zero.mp short)

theorem iterate_step_eq_finish {s : Scan} (named : s.delim ≠ []) {count : ℕ} (enough : s.rest.length ≤ count) :
    step^[count] s = s.finish := by
  obtain ⟨extra, rfl⟩ := Nat.exists_eq_add_of_le enough
  rw [Nat.add_comm, Function.iterate_add_apply]
  exact iterate_step_of_nil (finish_rest named) extra

theorem finish_step {s : Scan} (named : s.delim ≠ []) (left : s.rest ≠ []) : s.step.finish = s.finish := by
  have shorter := step_length named left
  obtain ⟨rounds, isLength⟩ := Nat.exists_eq_succ_of_ne_zero (Nat.ne_of_gt (List.length_pos_iff.mpr left))
  have ends : step^[rounds] s.step = s.step.finish := iterate_step_eq_finish (step_delim named) (by omega)
  rw [← ends, ← Function.iterate_succ_apply, ← isLength, finish]

theorem Reaches.finish {s after : Scan} (reaches : Reaches s after) (named : s.delim ≠ []) :
    s.finish = after.finish := by
  induction reaches with
  | refl => rfl
  | tail before next ih =>
      rw [ih, next.2, finish_step (Reaches.delim before named) next.1]

theorem pushStatement_out (s : Scan) : s.out <+: s.pushStatement.out := by
  unfold pushStatement
  split
  · exact List.prefix_rfl
  · exact List.prefix_append _ _

theorem step_out (s : Scan) : s.out <+: s.step.out := by
  by_cases done : s.rest = []
  · rw [step_of_nil done]
  · rcases step_cases done with ⟨delim, -, isStep⟩ | ⟨-, -, isStep⟩ | ⟨-, count, mode, -, -, isStep⟩
    · rw [isStep]
      exact List.prefix_rfl
    · rw [isStep]
      exact pushStatement_out s
    · rw [isStep]
      exact List.prefix_rfl

theorem finish_out (s : Scan) : s.out <+: s.finish.pushStatement.out := by
  have rounds : ∀ count, s.out <+: (step^[count] s).out := by
    intro count
    induction count with
    | zero => exact List.prefix_rfl
    | succ count ih =>
        rw [Function.iterate_succ_apply']
        exact ih.trans (step_out _)
  exact (rounds _).trans (pushStatement_out _)

theorem pushStatement_of_filled {s : Scan} (filled : trim s.buf ≠ []) :
    s.pushStatement = { s with out := s.out ++ [trim s.buf], buf := [] } := by
  rw [pushStatement, if_neg filled]

theorem pushStatement_of_blank {s : Scan} (blank : trim s.buf = []) : s.pushStatement = { s with buf := [] } := by
  rw [pushStatement, if_pos blank]

theorem trim_append_ne_nil {before : Text} (filled : trim before ≠ []) (behind : Text) :
    trim (before ++ behind) ≠ [] := by
  intro gone
  apply filled
  rw [trim_eq_nil] at gone ⊢
  exact fun c member => gone c (List.mem_append_left _ member)

theorem finish_of_filled {s : Scan} (named : s.delim ≠ []) (filled : trim s.buf ≠ []) :
    ∃ behind more, s.finish.pushStatement.out = s.out ++ trim (s.buf ++ behind) :: more := by
  induction size : s.rest.length using Nat.strong_induction_on generalizing s with
  | _ size' ih =>
    by_cases done : s.rest = []
    · refine ⟨[], [], ?_⟩
      rw [Scan.finish, iterate_step_of_nil done, pushStatement_of_filled filled, List.append_nil]
    · have shorter := step_length named done
      rw [← finish_step named done]
      rcases step_cases done with ⟨delim, found, -⟩ | ⟨-, -, isStep⟩ | ⟨-, count, mode, -, -, isStep⟩
      · rw [directive_of_filled filled] at found
        cases found
      · rw [isStep] at shorter ⊢
        obtain ⟨more, isOut⟩ := finish_out s.skipDelimiter
        refine ⟨[], more, ?_⟩
        rw [← isOut, skipDelimiter, pushStatement_of_filled filled, List.append_nil, List.append_assoc]
        rfl
      · rw [isStep] at shorter ⊢
        have filledOn : trim (s.buf ++ s.rest.take count) ≠ [] := trim_append_ne_nil filled _
        obtain ⟨behind, more, isOut⟩ := @ih _ (size ▸ shorter) { s.take count with mode := mode } named filledOn rfl
        refine ⟨s.rest.take count ++ behind, more, ?_⟩
        rw [isOut, ← List.append_assoc]
        rfl

theorem finish_longer {s : Scan} (named : s.delim ≠ []) {before behind : Text} {c : Char}
    (isBuf : s.buf = before ++ c :: behind) (notSpace : isSpace c = false) (filled : trim before ≠ []) :
    ∃ statement more, s.finish.pushStatement.out = s.out ++ statement :: more ∧
      (trim before).length < statement.length := by
  have filledOn : trim s.buf ≠ [] := by
    rw [isBuf]
    exact trim_append_ne_nil filled _
  obtain ⟨further, more, isOut⟩ := finish_of_filled named filledOn
  refine ⟨_, more, isOut, ?_⟩
  rw [isBuf, List.append_assoc, List.cons_append]
  exact length_trim_lt notSpace filled

end Scan

end Puter

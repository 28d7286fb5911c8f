/-
Module: Puter.Fs.PosixPath
Purpose: The text functions that the filesystem code takes from its platform: `String.prototype.trim`,
  the length of a string in UTF-16 units, and `normalize`, `dirname`, `basename` and `extname` of the
  POSIX path module. On plain paths, the ones the filesystem stores, they take a path apart and put it
  together again.
Trusted boundary: the functions follow the documented behaviour of the platform
Main exports: trim, PlainPath.basename_child
-/
import Puter.Permission.PermissionUtil

namespace Puter

namespace PosixPath

/-- The characters `trim` removes: white space and line terminators. -/
def isSpace (c : Char) : Bool :=
  [0x09, 0x0A, 0x0B, 0x0C, 0x0D, 0x20, 0xA0, 0x1680, 0x2028, 0x2029, 0x202F, 0x205F, 0x3000,
    0xFEFF].contains c.toNat || (0x2000 ≤ c.toNat && c.toNat ≤ 0x200A)

def trim (text : Text) : Text := (text.dropWhile isSpace).rdropWhile isSpace

def utf16Length (text : Text) : Nat :=
  (text.map fun c => if c.toNat < 0x10000 then 1 else 2).sum

/-- One segment of a path under `normalize`; the segments kept so far are listed from the last. -/
def pushSegment (allowAboveRoot : Bool) (kept : List Text) (segment : Text) : List Text :=
  if segment = [] ∨ segment = ['.'] then kept
  else if segment = ['.', '.'] then
    match kept with
    | [] => if allowAboveRoot then [segment] else []
    | last :: others =>
        if last = ['.', '.'] then (if allowAboveRoot then segment :: kept else kept) else others
  else segment :: kept

def normalize (path : Text) : Text :=
  if path = [] then ['.']
  else
    let isAbsolute := path.head? == some '/'
    let trailingSeparator := path.getLast? == some '/'
    let kept := ((path.splitOn '/').foldl (pushSegment (!isAbsolute)) []).reverse
    if kept = [] then
      if isAbsolute then ['/'] else if trailingSeparator then ['.', '/'] else ['.']
    else
      (if isAbsolute then ['/'] else []) ++ ['/'].intercalate kept ++
        (if trailingSeparator then ['/'] else [])

/-- `path.posix.dirname`. The part after the first character is cut behind the last slash that has
    something else after it. -/
def dirname : Text → Text
  | [] => ['.']
  | first :: rest =>
      let kept := (rest.rdropWhile (· == '/')).rdropWhile (· != '/')
      if kept = [] then (if first = '/' then ['/'] else ['.'])
      else if first = '/' ∧ kept = ['/'] then ['/', '/']
      else first :: kept.dropLast

/-- `path.posix.basename` of one argument. -/
def basename (path : Text) : Text := (path.rdropWhile (· == '/')).rtakeWhile (· != '/')

/-- `path.posix.basename` with a suffix to leave out. -/
def basenameWithout (path suffix : Text) : Text :=
  if suffix = [] then basename path
  else if suffix = path then []
  else if suffix <:+ basename path ∧ basename path ≠ suffix then
    (basename path).take ((basename path).length - suffix.length)
  else basename path

/-- `path.posix.extname`: from the last dot of the last segment on, unless that dot comes first. -/
def extname (path : Text) : Text :=
  let part := basename path
  let upToDot := part.rdropWhile (· != '.')
  if upToDot.length ≤ 1 ∨ part = ['.', '.'] then [] else '.' :: part.rtakeWhile (· != '.')

/-- A name that is one segment of a path, and that trimming leaves as it is at the end of one. -/
structure PlainName (name : Text) : Prop where
  nonempty : name ≠ []
  noSlash : '/' ∉ name
  notDot : name ≠ ['.']
  notDots : name ≠ ['.', '.']
  trimmed : ∀ c, name.getLast? = some c → isSpace c = false

instance (name : Text) : Decidable (PlainName name) :=
  decidable_of_iff (name ≠ [] ∧ '/' ∉ name ∧ name ≠ ['.'] ∧ name ≠ ['.', '.'] ∧
      name.getLast?.all (!isSpace ·) = true) <| by
    constructor
    · rintro ⟨nonempty, noSlash, notDot, notDots, trimmed⟩
      refine ⟨nonempty, noSlash, notDot, notDots, fun c last => ?_⟩
      simpa [last] using trimmed
    · rintro ⟨nonempty, noSlash, notDot, notDots, trimmed⟩
      refine ⟨nonempty, noSlash, notDot, notDots, ?_⟩
      cases last : name.getLast? with
      | none => rfl
      | some c => simp [trimmed c last]

/-- A name that `normalize` leaves in an absolute path. -/
structure Segment (name : Text) : Prop where
  nonempty : name ≠ []
  noSlash : '/' ∉ name
  notDot : name ≠ ['.']
  notDots : name ≠ ['.', '.']

theorem PlainName.segment {name : Text} (plain : PlainName name) : Segment name :=
  ⟨plain.nonempty, plain.noSlash, plain.notDot, plain.notDots⟩

def pathOf (names : List Text) : Text := names.flatMap ('/' :: ·)

def PlainPath (path : Text) : Prop :=
  ∃ names, names ≠ [] ∧ (∀ name ∈ names, PlainName name) ∧ path = pathOf names

theorem pathOf_concat (names : List Text) (name : Text) :
    pathOf (names ++ [name]) = pathOf names ++ '/' :: name := by
  simp [pathOf]

theorem intercalate_nil_cons (names : List Text) (nonempty : names ≠ []) :
    ['/'].intercalate ([] :: names) = pathOf names ∧
      '/' :: ['/'].intercalate names = pathOf names := by
  induction names with
  | nil => exact absurd rfl nonempty
  | cons name names ih =>
      cases names with
      | nil => simp [pathOf, List.intercalate]
      | cons next names =>
          obtain ⟨-, tail⟩ := ih (List.cons_ne_nil _ _)
          have unfolded : pathOf (name :: next :: names) = '/' :: name ++ pathOf (next :: names) := by
            simp [pathOf]
          rw [unfolded, ← tail]
          simp [List.intercalate]

theorem splitOn_pathOf {names : List Text} (nonempty : names ≠ [])
    (noSlash : ∀ name ∈ names, '/' ∉ name) : (pathOf names).splitOn '/' = [] :: names := by
  rw [← (intercalate_nil_cons names nonempty).1]
  apply List.splitOn_intercalate
  · intro segment member
    obtain rfl | member := List.mem_cons.mp member
    · simp
    · exact noSlash segment member
  · exact List.cons_ne_nil _ _

theorem foldl_pushSegment {names kept : List Text} (segments : ∀ name ∈ names, Segment name) :
    names.foldl (pushSegment false) kept = names.reverse ++ kept := by
  induction names generalizing kept with
  | nil => rfl
  | cons name names ih =>
      have isSegment := segments name List.mem_cons_self
      have pushed : pushSegment false kept name = name :: kept := by
        simp [pushSegment, isSegment.nonempty, isSegment.notDot, isSegment.notDots]
      rw [List.foldl_cons, pushed,
        ih fun n member => segments n (List.mem_cons_of_mem _ member)]
      simp

theorem segments_foldl_pushSegment {parts kept : List Text} (noSlash : ∀ part ∈ parts, '/' ∉ part)
    (segments : ∀ name ∈ kept, Segment name) :
    ∀ name ∈ parts.foldl (pushSegment false) kept, Segment name := by
  induction parts generalizing kept with
  | nil => exact segments
  | cons part parts ih =>
      apply ih fun p member => noSlash p (List.mem_cons_of_mem _ member)
      unfold pushSegment
      split
      · exact segments
      · next kept' =>
          rw [not_or] at kept'
          split
          · cases kept with
            | nil => exact fun name member => nomatch member
            | cons last others =>
                intro name member
                dsimp only at member
                split at member
                · exact segments name member
                · exact segments name (List.mem_cons_of_mem _ member)
          · next notDots =>
              intro name member
              obtain rfl | old := List.mem_cons.mp member
              · exact ⟨kept'.1, noSlash name List.mem_cons_self, kept'.2, notDots⟩
              · exact segments name old

theorem getLast?_pathOf {parts : List Text} (noSlash : ∀ part ∈ parts, '/' ∉ part) :
    (pathOf parts).getLast? = some '/' ↔ parts.getLast? = some [] := by
  obtain rfl | ⟨above, last, rfl⟩ := List.eq_nil_or_concat parts
  · simp [pathOf]
  · rw [List.concat_eq_append, pathOf_concat, List.getLast?_concat, Option.some.injEq]
    obtain rfl | ⟨front, c, rfl⟩ := List.eq_nil_or_concat last
    · simp
    · have notSlash : c ≠ '/' := fun same => noSlash (front.concat c) (by simp) (by simp [same])
      rw [List.concat_eq_append, ← List.cons_append, ← List.append_assoc, List.getLast?_concat]
      simp [notSlash]

theorem slash_notMem_splitOn {text : Text} : ∀ part ∈ text.splitOn '/', '/' ∉ part := by
  induction text with
  | nil => simp
  | cons c rest ih =>
      rw [List.splitOn_cons_eq_if_modifyHead]
      split
      · intro part member
        obtain rfl | member := List.mem_cons.mp member
        · exact List.not_mem_nil
        · exact ih part member
      · next differs =>
          cases parts : rest.splitOn '/' with
          | nil => exact fun part member => nomatch member
          | cons first others =>
              rw [parts] at ih
              intro part member
              obtain rfl | member := List.mem_cons.mp member
              · rw [List.mem_cons, not_or]
                exact ⟨fun same => differs (beq_iff_eq.mpr same.symm), ih first List.mem_cons_self⟩
              · exact ih part (List.mem_cons_of_mem _ member)

theorem eq_pathOf {path : Text} (absolute : path.head? = some '/') :
    ∃ parts, parts ≠ [] ∧ (∀ part ∈ parts, '/' ∉ part) ∧ path = pathOf parts := by
  cases path with
  | nil => cases absolute
  | cons first rest =>
      rw [List.head?_cons, Option.some.injEq] at absolute
      subst absolute
      have nonempty : rest.splitOn '/' ≠ [] := List.splitOn_ne_nil '/' rest
      refine ⟨rest.splitOn '/', nonempty, slash_notMem_splitOn, ?_⟩
      rw [← (intercalate_nil_cons _ nonempty).2, List.intercalate_splitOn]

theorem normalize_pathOf {parts : List Text} (nonempty : parts ≠ []) (noSlash : ∀ part ∈ parts, '/' ∉ part) :
    normalize (pathOf parts) =
      pathOf (parts.foldl (pushSegment false) []).reverse ++
        (if parts.getLast? = some [] ∨ parts.foldl (pushSegment false) [] = [] then ['/'] else []) := by
  have isAbsolute : (pathOf parts).head? = some '/' := by
    cases parts with
    | nil => exact absurd rfl nonempty
    | cons part parts => rfl
  have notEmpty : pathOf parts ≠ [] := by
    intro empty
    rw [empty] at isAbsolute
    cases isAbsolute
  have skipped : pushSegment false [] [] = [] := by simp [pushSegment]
  have trailing : ((pathOf parts).getLast? == some '/') = decide (parts.getLast? = some []) := by
    rw [Bool.eq_iff_iff, beq_iff_eq, decide_eq_true_eq]
    exact getLast?_pathOf noSlash
  rw [normalize, if_neg notEmpty]
  simp only [isAbsolute, beq_self_eq_true, Bool.not_true, splitOn_pathOf nonempty noSlash, List.foldl_cons,
    skipped, if_true, trailing, decide_eq_true_eq]
  by_cases none_left : parts.foldl (pushSegment false) [] = []
  · rw [none_left]
    simp [pathOf]
  · have left : (parts.foldl (pushSegment false) []).reverse ≠ [] := by simpa using none_left
    rw [if_neg left, List.singleton_append, (intercalate_nil_cons _ left).2]
    simp [none_left]

namespace PlainPath

variable {path name : Text}

theorem eq_cons (plain : PlainPath path) : ∃ rest, path = '/' :: rest := by
  obtain ⟨names, nonempty, -, rfl⟩ := plain
  cases names with
  | nil => exact absurd rfl nonempty
  | cons name names => exact ⟨name ++ pathOf names, by simp [pathOf]⟩

theorem ne_nil (plain : PlainPath path) : path ≠ [] := by
  obtain ⟨rest, rfl⟩ := plain.eq_cons
  exact List.cons_ne_nil _ _

theorem home (plainName : PlainName name) : PlainPath ('/' :: name) :=
  ⟨[name], by simp, by simpa using plainName, by simp [pathOf]⟩

theorem child (plain : PlainPath path) (plainName : PlainName name) :
    PlainPath (path ++ '/' :: name) := by
  obtain ⟨names, -, plainNames, rfl⟩ := plain
  refine ⟨names ++ [name], by simp, ?_, (pathOf_concat names name).symm⟩
  intro n member
  obtain member | member := List.mem_append.mp member
  · exact plainNames n member
  · rwa [List.mem_singleton.mp member]

theorem cases (plain : PlainPath path) :
    ∃ name, PlainName name ∧
      (path = '/' :: name ∨ ∃ above, PlainPath above ∧ path = above ++ '/' :: name) := by
  obtain ⟨names, nonempty, plainNames, rfl⟩ := plain
  obtain nil | ⟨above, name, rfl⟩ := List.eq_nil_or_concat names
  · exact absurd nil nonempty
  · refine ⟨name, plainNames name (by simp), ?_⟩
    by_cases top : above = []
    · apply Or.inl
      simp [top, pathOf]
    · refine Or.inr ⟨pathOf above, ⟨above, top, ?_, rfl⟩, by simp [pathOf]⟩
      intro n member
      exact plainNames n (by simp [member])

theorem getLast_plain (plain : PlainPath path) :
    ∃ c, path.getLast? = some c ∧ isSpace c = false ∧ c ≠ '/' := by
  obtain ⟨name, plainName, shape⟩ := plain.cases
  obtain nil | ⟨front, last, rfl⟩ := List.eq_nil_or_concat name
  · exact absurd nil plainName.nonempty
  · refine ⟨last, ?_, plainName.trimmed last (by simp), ?_⟩
    · obtain rfl | ⟨above, -, rfl⟩ := shape
      · rw [List.concat_eq_append]
        exact List.getLast?_concat (l := '/' :: front)
      · rw [List.concat_eq_append, ← List.cons_append, ← List.append_assoc, List.getLast?_concat]
    · rintro rfl
      exact plainName.noSlash (by simp)

theorem trim_eq (plain : PlainPath path) : trim path = path := by
  obtain ⟨rest, rfl⟩ := plain.eq_cons
  obtain ⟨c, last, notSpace, -⟩ := plain.getLast_plain
  have notLeading : ('/' :: rest).dropWhile isSpace = '/' :: rest := by
    simp [show isSpace '/' = false by decide]
  rw [trim, notLeading, List.rdropWhile_eq_self_iff]
  intro nonempty
  rw [List.getLast?_eq_some_getLast nonempty, Option.some.injEq] at last
  simp [last, notSpace]

theorem normalize_eq (plain : PlainPath path) : normalize path = path := by
  obtain ⟨names, nonempty, plainNames, rfl⟩ := plain
  have kept : names.foldl (pushSegment false) [] = names.reverse := by
    rw [foldl_pushSegment fun name member => (plainNames name member).segment, List.append_nil]
  have noTrailing : names.getLast? ≠ some [] := fun last =>
    (plainNames [] (List.mem_of_getLast? last)).nonempty rfl
  rw [normalize_pathOf nonempty fun name member => (plainNames name member).noSlash, kept, List.reverse_reverse,
    if_neg (by simpa [nonempty] using noTrailing), List.append_nil]

end PlainPath

theorem rdropWhile_slash {name : Text} (segment : Segment name) (above : Text) :
    (above ++ name).rdropWhile (· == '/') = above ++ name := by
  rw [List.rdropWhile_eq_self_iff]
  intro nonempty
  have last : (above ++ name).getLast nonempty ∈ name := by
    rw [List.getLast_append_of_ne_nil _ segment.nonempty]
    exact List.getLast_mem _
  intro isSlash
  rw [beq_iff_eq.mp isSlash] at last
  exact segment.noSlash last

theorem rdropWhile_name {name : Text} (segment : Segment name) (above : Text) :
    (above ++ '/' :: name).rdropWhile (· != '/') = above ++ ['/'] := by
  have split : above ++ '/' :: name = (above ++ ['/']) ++ name := by simp
  rw [split, List.rdropWhile, List.reverse_append, List.dropWhile_append_of_pos]
  · simp
  · intro c member
    have notSlash : c ≠ '/' := fun same => segment.noSlash (same ▸ List.mem_reverse.mp member)
    simpa using notSlash

theorem basename_child {name : Text} (plain : PlainName name) (above : Text) :
    basename (above ++ '/' :: name) = name := by
  have split : above ++ '/' :: name = (above ++ ['/']) ++ name := by simp
  rw [basename, split, rdropWhile_slash plain.segment, List.rtakeWhile, List.reverse_append,
    List.takeWhile_append_of_pos]
  · simp
  · intro c member
    have notSlash : c ≠ '/' := fun same => plain.noSlash (same ▸ List.mem_reverse.mp member)
    simpa using notSlash

theorem dirname_home {name : Text} (segment : Segment name) : dirname ('/' :: name) = ['/'] := by
  have trimmed := rdropWhile_slash segment []
  have gone : name.rdropWhile (· != '/') = [] := by
    rw [List.rdropWhile_eq_nil_iff]
    intro c member
    have notSlash : c ≠ '/' := fun same => segment.noSlash (same ▸ member)
    simpa using notSlash
  rw [List.nil_append] at trimmed
  simp [dirname, trimmed, gone]

theorem dirname_child {above name : Text} (plainAbove : PlainPath above)
    (plain : PlainName name) : dirname (above ++ '/' :: name) = above := by
  obtain ⟨rest, rfl⟩ := plainAbove.eq_cons
  obtain ⟨c, last, -, notSlash⟩ := plainAbove.getLast_plain
  have notHome : rest ≠ [] := by
    rintro rfl
    simp only [List.getLast?_singleton, Option.some.injEq] at last
    exact notSlash last.symm
  have trimmed := rdropWhile_slash plain.segment (rest ++ ['/'])
  rw [List.append_assoc, List.singleton_append] at trimmed
  have shown : (rest ++ ['/']) ≠ ['/'] := by simpa using notHome
  simp [dirname, trimmed, rdropWhile_name plain.segment, notHome]

namespace PlainPath

variable {path : Text}

theorem ne_root (plain : PlainPath path) : path ≠ ['/'] := by
  rintro rfl
  obtain ⟨c, last, -, notSlash⟩ := plain.getLast_plain
  simp only [List.getLast?_singleton, Option.some.injEq] at last
  exact notSlash last.symm

theorem parts (plain : PlainPath path) :
    PlainName (basename path) ∧
      (dirname path = ['/'] ∧ path = '/' :: basename path ∨
        PlainPath (dirname path) ∧ path = dirname path ++ '/' :: basename path) := by
  obtain ⟨name, plainName, rfl | ⟨above, plainAbove, rfl⟩⟩ := plain.cases
  · have last := basename_child plainName []
    rw [List.nil_append] at last
    rw [last]
    exact ⟨plainName, Or.inl ⟨dirname_home plainName.segment, rfl⟩⟩
  · rw [basename_child plainName, dirname_child plainAbove plainName]
    exact ⟨plainName, Or.inr ⟨plainAbove, rfl⟩⟩

end PlainPath

theorem basename_plain {name : Text} (plain : PlainName name) : basename name = name := by
  have noTrailing := rdropWhile_slash plain.segment []
  rw [List.nil_append] at noTrailing
  rw [basename, noTrailing, List.rtakeWhile_eq_self_iff]
  intro c member
  have notSlash : c ≠ '/' := fun same => plain.noSlash (same ▸ member)
  simpa using notSlash

theorem mem_extname {path : Text} {c : Char} (member : c ∈ extname path) :
    c = '.' ∨ c ∈ basename path := by
  unfold extname at member
  dsimp only at member
  split at member
  · cases member
  · obtain rfl | member := List.mem_cons.mp member
    · exact Or.inl rfl
    · exact Or.inr ((List.rtakeWhile_suffix _ _).subset member)

theorem mem_basenameWithout {path suffix : Text} {c : Char}
    (member : c ∈ basenameWithout path suffix) : c ∈ basename path := by
  unfold basenameWithout at member
  split at member
  · exact member
  · split at member
    · cases member
    · split at member
      · exact List.mem_of_mem_take member
      · exact member

theorem extname_trimmed {name : Text} (plain : PlainName name) (c : Char)
    (last : (extname name).getLast? = some c) : isSpace c = false := by
  unfold extname at last
  rw [basename_plain plain] at last
  dsimp only at last
  split at last
  · cases last
  · cases after : name.rtakeWhile (· != '.') with
    | nil =>
        simp only [after, List.getLast?_singleton, Option.some.injEq] at last
        subst last
        decide
    | cons first rest =>
        rw [after, List.getLast?_cons_cons] at last
        apply plain.trimmed c
        have whole := @List.rdropWhile_append_rtakeWhile _ (· != '.') name
        rw [← whole, after, List.getLast?_append_of_ne_nil _ (List.cons_ne_nil _ _), last]

theorem plainName_numbered {path : Text} {number : Text} (plain : PlainName (basename path))
    (digits : '/' ∉ number) (ends : ∀ c, (extname path).getLast? = some c → isSpace c = false) :
    PlainName (basenameWithout path (extname path) ++ " (".toList ++ number ++ ")".toList ++
      extname path) := by
  have hasParen : '(' ∈ basenameWithout path (extname path) ++ " (".toList ++ number ++
      ")".toList ++ extname path := by simp
  constructor
  · intro empty
    rw [empty] at hasParen
    cases hasParen
  · simp only [List.mem_append, not_or]
    refine ⟨⟨⟨⟨?_, by decide⟩, digits⟩, by decide⟩, ?_⟩
    · exact fun member => plain.noSlash (mem_basenameWithout member)
    · intro member
      obtain dot | member := mem_extname member
      · cases dot
      · exact plain.noSlash member
  · intro dot
    rw [dot] at hasParen
    simp at hasParen
  · intro dots
    rw [dots] at hasParen
    simp at hasParen
  · intro c last
    by_cases noExtension : extname path = []
    · rw [noExtension, List.append_nil] at last
      simp only [show ")".toList = [')'] from rfl, List.getLast?_concat, Option.some.injEq] at last
      subst last
      decide
    · rw [List.getLast?_append_of_ne_nil _ noExtension] at last
      exact ends c last

theorem normalize_root_child {name : Text} (plain : PlainName name) :
    normalize ('/' :: '/' :: name) = '/' :: name := by
  have split : ('/' :: '/' :: name).splitOn '/' = [[], [], name] := by
    have joined : ['/'].intercalate [[], [], name] = '/' :: '/' :: name := by
      simp [List.intercalate]
    rw [← joined]
    apply List.splitOn_intercalate
    · simpa using plain.noSlash
    · exact List.cons_ne_nil _ _
  obtain ⟨c, last, -, notSlash⟩ := (PlainPath.home plain).getLast_plain
  have noTrailing : ('/' :: name).getLast? ≠ some '/' := by
    rw [last]
    simpa using notSlash
  have pushed : [[], [], name].foldl (pushSegment false) [] = [name] := by
    simp [pushSegment, plain.nonempty, plain.notDot, plain.notDots]
  simp [normalize, split, noTrailing, pushed, List.intercalate]

end PosixPath

end Puter

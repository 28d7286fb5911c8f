/-
Module: Puter.Fs.NormalPath
Purpose: The paths that `#normalizePath` leaves as they are: the root, and the paths of segments whose last
  segment does not end in a blank. A numbered name beside such a path makes another one.
Trusted boundary: none
Main exports: NormalPath, normalize_beside
-/
import Puter.Fs.FsTree
import Puter.Permission.PathRewriter

namespace Puter

open PosixPath FSEntryStore

/-- `#normalizePath` leaves a path as it is. -/
def NormalPath (path : Text) : Prop := normalizePath path = .ok path

instance (path : Text) : Decidable (NormalPath path) :=
  match norm : normalizePath path with
  | .ok normalizedPath =>
      if same : normalizedPath = path then .isTrue (by rw [NormalPath, norm, same])
      else .isFalse fun normal => same (Except.ok.inj (norm.symm.trans normal))
  | .error _ => .isFalse fun normal => nomatch norm.symm.trans normal

section Under

variable {above : List Text} {name : Text}

theorem getLast_under (plain : PlainName name) (front : Text) :
    ∃ c, (front ++ '/' :: name).getLast? = some c ∧ isSpace c = false ∧ c ≠ '/' := by
  obtain nil | ⟨start, last, rfl⟩ := List.eq_nil_or_concat name
  · exact absurd nil plain.nonempty
  · refine ⟨last, ?_, plain.trimmed last (by simp), ?_⟩
    · rw [List.concat_eq_append, ← List.cons_append, ← List.append_assoc, List.getLast?_concat]
    · rintro rfl
      exact plain.noSlash (by simp)

theorem under_eq_cons (above : List Text) (name : Text) : ∃ rest, pathOf above ++ '/' :: name = '/' :: rest := by
  cases above with
  | nil => exact ⟨name, rfl⟩
  | cons first others => exact ⟨first ++ pathOf others ++ '/' :: name, by simp [pathOf]⟩

theorem normalize_under (segments : ∀ segment ∈ above, Segment segment) (plain : PlainName name) :
    normalize (pathOf above ++ '/' :: name) = pathOf above ++ '/' :: name := by
  have all : ∀ segment ∈ above ++ [name], Segment segment := by
    intro segment member
    obtain member | member := List.mem_append.mp member
    · exact segments segment member
    · exact List.mem_singleton.mp member ▸ plain.segment
  have kept : (above ++ [name]).foldl (pushSegment false) [] = (above ++ [name]).reverse := by
    rw [foldl_pushSegment all, List.append_nil]
  have notTrailing : (above ++ [name]).getLast? ≠ some [] := by simpa using plain.nonempty
  rw [← pathOf_concat, normalize_pathOf (by simp) fun segment member => (all segment member).noSlash, kept,
    List.reverse_reverse, if_neg (by simpa using notTrailing), List.append_nil]

theorem trim_under (plain : PlainName name) : trim (pathOf above ++ '/' :: name) = pathOf above ++ '/' :: name := by
  obtain ⟨c, last, notSpace, -⟩ := getLast_under plain (pathOf above)
  obtain ⟨rest, rooted⟩ := under_eq_cons above name
  rw [rooted] at last ⊢
  have notLeading : ('/' :: rest).dropWhile isSpace = '/' :: rest := by
    simp [show isSpace '/' = false by decide]
  rw [trim, notLeading, List.rdropWhile_eq_self_iff]
  intro nonempty
  rw [List.getLast?_eq_some_getLast nonempty, Option.some.injEq] at last
  simp [last, notSpace]

theorem normalPath_child (segments : ∀ segment ∈ above, Segment segment) (plain : PlainName name) :
    NormalPath (pathOf above ++ '/' :: name) := by
  obtain ⟨c, last, -, notSlash⟩ := getLast_under plain (pathOf above)
  obtain ⟨rest, rooted⟩ := under_eq_cons above name
  have trimmed := @trim_under above name plain
  have normal := normalize_under segments plain
  rw [rooted] at last trimmed normal ⊢
  simp [NormalPath, normalizePath, trimmed, normal, last, notSlash]

theorem dirname_under (segments : ∀ segment ∈ above, Segment segment) (isSegment : Segment name) :
    dirname (pathOf above ++ '/' :: name) = if above = [] then ['/'] else pathOf above := by
  obtain rfl | ⟨higher, last, rfl⟩ := List.eq_nil_or_concat above
  · exact dirname_home isSegment
  · have segment := segments last (by simp)
    obtain ⟨rest, rooted⟩ := under_eq_cons higher last
    have notHome : rest ≠ [] := by
      rintro rfl
      have lengths := congrArg List.length rooted
      simp only [List.length_append, List.length_cons, List.length_nil] at lengths
      exact segment.nonempty (List.eq_nil_of_length_eq_zero (by omega))
    have trimmed := rdropWhile_slash isSegment (rest ++ ['/'])
    rw [List.append_assoc, List.singleton_append] at trimmed
    rw [List.concat_eq_append, if_neg (by simp), pathOf_concat, rooted]
    simp [dirname, trimmed, rdropWhile_name isSegment, notHome]

theorem normalize_beside {other : Text} (segments : ∀ segment ∈ above, Segment segment)
    (plain : PlainName name) (plainOther : PlainName other) :
    normalize (dirname (pathOf above ++ '/' :: name) ++ '/' :: other) = pathOf above ++ '/' :: other := by
  rw [dirname_under segments plain.segment]
  split
  · next top =>
      rw [top]
      exact normalize_root_child plainOther
  · exact normalize_under segments plainOther

end Under

theorem rdropWhile_eq_self_of_length {p : Char → Bool} {text : Text}
    (same : text.length ≤ (text.rdropWhile p).length) : text.rdropWhile p = text :=
  (List.rdropWhile_prefix p text).eq_of_length_le same

theorem NormalPath.shape {path : Text} (normal : NormalPath path) :
    path.head? = some '/' ∧ trim path = path ∧ normalize path = path ∧
      (path = ['/'] ∨ path.getLast? ≠ some '/') := by
  obtain ⟨⟨rest, rooted⟩, -⟩ := normalizePath_ok normal
  have absolute : path.head? = some '/' := by rw [rooted, List.head?_cons]
  have begins := trim_begins absolute
  unfold NormalPath normalizePath at normal
  dsimp only at normal
  split at normal
  · cases normal
  next given =>
  split at normal
  · cases normal
  next isNormal =>
  have starts : (trim path).head? = some '/' := by
    obtain ⟨c, others, whole⟩ := List.exists_cons_of_ne_nil given
    rw [whole, rooted, List.cons_prefix_cons] at begins
    rw [whole, List.head?_cons, begins.1]
  rw [if_pos starts, Except.ok.injEq] at normal
  rw [ne_eq, not_not] at isNormal
  split at normal
  next long =>
    have lengths := congrArg List.length normal
    rw [List.length_dropLast] at lengths
    have shorter := begins.length_le
    have := long.1
    omega
  next short =>
    rw [normal] at isNormal short
    refine ⟨absolute, normal, isNormal, ?_⟩
    rw [not_and] at short
    by_cases long : 1 < path.length
    · exact .inr (short long)
    · rw [rooted, List.length_cons] at long
      rw [rooted, List.eq_nil_of_length_eq_zero (by omega : rest.length = 0)]
      exact .inl rfl

theorem NormalPath.cases {path : Text} (normal : NormalPath path) (notRoot : path ≠ ['/']) :
    ∃ above name, (∀ segment ∈ above, Segment segment) ∧ PlainName name ∧ path = pathOf above ++ '/' :: name := by
  obtain ⟨absolute, trimmed, isNormal, root | noTrailing⟩ := normal.shape
  · exact absurd root notRoot
  obtain ⟨parts, nonempty, noSlash, rfl⟩ := eq_pathOf absolute
  rw [normalize_pathOf nonempty noSlash] at isNormal
  have segments := @segments_foldl_pushSegment _ [] noSlash (fun _ member => nomatch member)
  split at isNormal
  · rw [← isNormal, List.getLast?_concat] at noTrailing
    exact absurd rfl noTrailing
  next left =>
  rw [not_or] at left
  rw [List.append_nil] at isNormal
  generalize parts.foldl (pushSegment false) [] = kept at isNormal segments left
  cases kept with
  | nil => exact absurd rfl left.2
  | cons name others =>
      rw [List.reverse_cons, pathOf_concat] at isNormal
      have segment := segments name List.mem_cons_self
      refine ⟨others.reverse, name, fun other member => ?_, ?_, isNormal.symm⟩
      · exact segments other (List.mem_cons_of_mem _ (List.mem_reverse.mp member))
      · refine ⟨segment.nonempty, segment.noSlash, segment.notDot, segment.notDots, fun c last => ?_⟩
        have kept : (pathOf others.reverse ++ '/' :: name).rdropWhile isSpace = pathOf others.reverse ++ '/' :: name := by
          rw [isNormal]
          apply rdropWhile_eq_self_of_length
          calc (pathOf parts).length = (trim (pathOf parts)).length := by rw [trimmed]
            _ ≤ ((pathOf parts).rdropWhile isSpace).length := by
              obtain ⟨rest, rooted⟩ := List.head?_eq_some_iff.mp absolute
              rw [rooted, trim, List.dropWhile_cons_of_neg (by decide)]
        rw [List.rdropWhile_eq_self_iff] at kept
        have whole : pathOf others.reverse ++ '/' :: name ≠ [] := by simp
        have ends : (pathOf others.reverse ++ '/' :: name).getLast whole = c := by
          have some_last : (pathOf others.reverse ++ '/' :: name).getLast? = some c := by
            obtain ⟨front, rfl⟩ := List.getLast?_eq_some_iff.mp last
            rw [← List.cons_append, ← List.append_assoc, List.getLast?_concat]
          rwa [List.getLast?_eq_some_getLast whole, Option.some.injEq] at some_last
        simpa [ends] using kept whole

end Puter

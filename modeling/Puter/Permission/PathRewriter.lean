/-
Module: Puter.Permission.PathRewriter
Purpose: What the rewriter `fs-path-to-uid` makes of a permission that names an entry by its path. It cuts the
  text at every `fs:` and reads what is left with the escapes undone, so that a component which ends in `fs`
  ends the permission early, and a backslash is lost.
Trusted boundary: the rows of the entry table have a path each, as the lookup of a path finds them
Main exports: EntryTable, fsPathToUid_names_entry_iff
-/
import Puter.Acl.SetUserUser
import Puter.Fs.FSEntryStore

namespace Puter

open PosixPath PermissionUtil FSEntryStore

/-- The entries that a path may name, each with a path and a uuid of its own. -/
structure EntryTable where
  entries : List EntryOwnership
  ownPath : (entries.map EntryOwnership.path).Nodup
  ownUuid : (entries.map EntryOwnership.uuid).Nodup
  uuids : ∀ entry ∈ entries, UuidText entry.uuid

def EntryTable.getEntryByPath (table : EntryTable) (path : Text) : Option EntryOwnership :=
  match normalizePath path with
  | .ok normalizedPath => table.entries.find? (·.path == normalizedPath)
  | .error _ => none

def pathLookups (table : EntryTable) (others : RuleLookups) : RuleLookups :=
  { others with getEntryByPath := table.getEntryByPath }

/-- `join('fs', …)`, or `join('manage', 'fs', …)`. -/
def fsPermission (manage : Bool) (components : List Text) : Text :=
  join ((if manage then [managePermPrefix] else []) ++ "fs".toList :: components)

/-- Every backslash stands before a `C`. -/
def ColonEscapes : Text → Prop
  | [] => True
  | c :: rest => (c = '\\' → rest.head? = some 'C') ∧ ColonEscapes rest

instance decidableColonEscapes : ∀ component, Decidable (ColonEscapes component)
  | [] => inferInstanceAs (Decidable True)
  | c :: rest =>
      have := decidableColonEscapes rest
      inferInstanceAs (Decidable ((c = '\\' → rest.head? = some 'C') ∧ ColonEscapes rest))

section Escapes

theorem escape_cons (c : Char) (rest : Text) :
    escapePermissionComponent (c :: rest) =
      (if c = ':' then ['\\', 'C'] else [c]) ++ escapePermissionComponent rest := by
  simp [escapePermissionComponent]

theorem count_escape (component : Text) :
    (escapePermissionComponent component).count '\\' = component.count '\\' + component.count ':' := by
  induction component with
  | nil => rfl
  | cons c rest ih =>
      rw [escape_cons, List.count_append, ih, List.count_cons, List.count_cons]
      by_cases colon : c = ':'
      · subst colon
        simp only [if_true, List.count_cons, List.count_nil]
        simp
        omega
      · simp only [if_neg colon, List.count_singleton, beq_iff_eq]
        omega

theorem count_unescapeFrom {text : Text} (noColon : ':' ∉ text) (escaping : Bool) :
    2 * (unescapeFrom escaping text).count '\\' + (unescapeFrom escaping text).count ':' ≤
      text.count '\\' + if escaping then 1 else 0 := by
  induction text generalizing escaping with
  | nil => simp [unescapeFrom]
  | cons c rest ih =>
      rw [List.mem_cons, not_or] at noColon
      have plain := ih noColon.2 false
      have escaped := ih noColon.2 true
      cases escaping with
      | true =>
          simp only [unescapeFrom, if_true, List.count_cons]
          by_cases isC : c = 'C'
          · subst isC
            simp at plain ⊢
            omega
          · by_cases backslash : c = '\\'
            · subst backslash
              simp at plain ⊢
              omega
            · simp [isC, backslash, Ne.symm noColon.1] at plain ⊢
              omega
      | false =>
          by_cases backslash : c = '\\'
          · subst backslash
            simp [unescapeFrom] at escaped ⊢
            omega
          · simp [unescapeFrom, backslash, Ne.symm noColon.1] at plain ⊢
            omega

theorem noBackslash_of_sublist {component : Text}
    (part : component.Sublist (unescapePermissionComponent (escapePermissionComponent component))) :
    '\\' ∉ component := by
  have spent := count_unescapeFrom (escapePermissionComponent_noColon component) false
  have backslashes := part.count_le '\\'
  have colons := part.count_le ':'
  rw [count_escape] at spent
  rw [unescapePermissionComponent] at backslashes colons
  rw [← List.count_eq_zero]
  simp only [Bool.false_eq_true, if_false] at spent
  omega

theorem length_escape_unescapeFrom {text : Text} (noColon : ':' ∉ text) (escaping : Bool) :
    (escapePermissionComponent (unescapeFrom escaping text)).length ≤
      text.length + if escaping then 1 else 0 := by
  induction text generalizing escaping with
  | nil => simp [unescapeFrom, escapePermissionComponent]
  | cons c rest ih =>
      rw [List.mem_cons, not_or] at noColon
      have plain := ih noColon.2 false
      have escaped := ih noColon.2 true
      simp only [Bool.false_eq_true, if_false, if_true] at plain escaped
      cases escaping with
      | true =>
          have written : ∀ d : Char, (if d = ':' then ['\\', 'C'] else [d]).length ≤ 2 := fun d => by
            split <;> simp
          simp only [unescapeFrom, if_true, escape_cons, List.length_append, List.length_cons]
          have := written (if c = 'C' then ':' else c)
          omega
      | false =>
          by_cases backslash : c = '\\'
          · simp only [unescapeFrom, backslash, if_true, Bool.false_eq_true, if_false, List.length_cons]
            omega
          · simp only [unescapeFrom, if_neg backslash, Bool.false_eq_true, if_false, escape_cons,
              if_neg (Ne.symm noColon.1), List.length_append, List.length_cons, List.length_nil]
            omega

theorem escape_unescapeFrom_iff {text : Text} (noColon : ':' ∉ text) :
    (escapePermissionComponent (unescapeFrom false text) = text ↔ ColonEscapes text) ∧
      (escapePermissionComponent (unescapeFrom true text) = '\\' :: text ↔
        text.head? = some 'C' ∧ ColonEscapes text) := by
  induction text with
  | nil => simp [unescapeFrom, escapePermissionComponent, ColonEscapes]
  | cons c rest ih =>
      rw [List.mem_cons, not_or] at noColon
      obtain ⟨plain, escaped⟩ := ih noColon.2
      have notColon : c ≠ ':' := Ne.symm noColon.1
      constructor
      · by_cases backslash : c = '\\'
        · subst backslash
          simpa [unescapeFrom, ColonEscapes] using escaped
        · simpa [unescapeFrom, ColonEscapes, backslash, escape_cons, notColon] using plain
      · by_cases isC : c = 'C'
        · subst isC
          simpa [unescapeFrom, ColonEscapes, escape_cons] using plain
        · have short := length_escape_unescapeFrom noColon.2 false
          constructor
          · intro same
            simp only [unescapeFrom, if_true, if_neg isC, escape_cons, if_neg notColon,
              List.singleton_append, List.cons.injEq] at same
            rw [same.2] at short
            simp at short
          · intro claimed
            simp only [List.head?_cons, Option.some.injEq] at claimed
            exact absurd claimed.1 isC

theorem colonEscapes_escape (component : Text) :
    ColonEscapes (escapePermissionComponent component) ↔ ColonEscapes component := by
  induction component with
  | nil => rfl
  | cons c rest ih =>
      have head : (escapePermissionComponent rest).head? = some 'C' ↔ rest.head? = some 'C' := by
        cases rest with
        | nil => rfl
        | cons d rest =>
            rw [escape_cons]
            by_cases colon : d = ':'
            · subst colon
              simp
            · simp [colon]
      by_cases colon : c = ':'
      · subst colon
        simp [escape_cons, ColonEscapes, ih]
      · simp [escape_cons, colon, ColonEscapes, ih, head]

theorem reescape_iff (component : Text) :
    escapePermissionComponent (unescapePermissionComponent (escapePermissionComponent component)) =
      escapePermissionComponent component ↔ ColonEscapes component := by
  rw [← colonEscapes_escape component]
  exact (escape_unescapeFrom_iff (escapePermissionComponent_noColon component)).1

theorem escape_concat (component : Text) (c : Char) :
    escapePermissionComponent (component ++ [c]) =
      escapePermissionComponent component ++ if c = ':' then ['\\', 'C'] else [c] := by
  simp [escapePermissionComponent]

theorem last_of_escape {component front : Text} {c : Char} (notC : c ≠ 'C')
    (ends : escapePermissionComponent component = front ++ [c]) :
    ∃ rest, component = rest ++ [c] ∧ escapePermissionComponent rest = front := by
  obtain rfl | ⟨rest, last, rfl⟩ := List.eq_nil_or_concat component
  · simp [escapePermissionComponent] at ends
  · rw [List.concat_eq_append, escape_concat] at ends
    by_cases colon : last = ':'
    · rw [if_pos colon, ← List.singleton_append, ← List.append_assoc] at ends
      obtain ⟨_, same⟩ := List.append_inj' ends rfl
      exact absurd (List.head_eq_of_cons_eq same).symm notC
    · rw [if_neg colon] at ends
      obtain ⟨front_eq, same⟩ := List.append_inj' ends rfl
      rw [← List.head_eq_of_cons_eq same]
      exact ⟨rest, List.concat_eq_append, front_eq⟩

theorem fs_of_escape {component front : Text}
    (ends : escapePermissionComponent component = front ++ "fs".toList) :
    ∃ rest, component = rest ++ "fs".toList ∧ escapePermissionComponent rest = front := by
  have ends' : escapePermissionComponent component = (front ++ ['f']) ++ ['s'] := by
    rw [ends]
    simp
  obtain ⟨withF, rfl, before⟩ := last_of_escape (by decide) ends'
  obtain ⟨rest, rfl, same⟩ := last_of_escape (by decide) before
  exact ⟨rest, by simp, same⟩

theorem escape_append (front behind : Text) :
    escapePermissionComponent (front ++ behind) =
      escapePermissionComponent front ++ escapePermissionComponent behind := by
  simp [escapePermissionComponent]

theorem suffix_escape_iff (component : Text) :
    "fs".toList <:+ escapePermissionComponent component ↔ "fs".toList <:+ component := by
  constructor
  · rintro ⟨front, ends⟩
    obtain ⟨rest, rfl, _⟩ := fs_of_escape ends.symm
    exact List.suffix_append _ _
  · rintro ⟨front, rfl⟩
    rw [escape_append]
    exact List.suffix_append _ _

end Escapes

section Cutting

theorem splitTextFrom_absent {separator text : Text} (absent : ¬ separator <:+: text)
    (piece : Text) :
    splitTextFrom separator 0 piece text = [piece.reverse ++ text] := by
  induction text generalizing piece with
  | nil => simp [splitTextFrom]
  | cons c rest ih =>
      have notHere : ¬ separator.isPrefixOf (c :: rest) = true := fun here =>
        absent (List.isPrefixOf_iff_prefix.mp here).isInfix
      have notLater : ¬ separator <:+: rest := fun later =>
        absent (later.trans (List.suffix_cons c rest).isInfix)
      rw [splitTextFrom, if_neg notHere, ih notLater]
      simp

theorem splitTextFrom_first {front : Text} (first : ¬ "fs:".toList <:+: front ++ "fs".toList)
    (piece behind : Text) :
    splitTextFrom "fs:".toList 0 piece (front ++ "fs:".toList ++ behind) =
      (piece.reverse ++ front) :: splitTextFrom "fs:".toList 0 [] behind := by
  induction front generalizing piece with
  | nil => simp [splitTextFrom]
  | cons c rest ih =>
      have notHere : ¬ "fs:".toList.isPrefixOf (c :: (rest ++ "fs:".toList ++ behind)) = true := by
        intro here
        have whole : c :: (rest ++ "fs:".toList ++ behind) = (c :: rest ++ "fs".toList) ++ ':' :: behind := by
          simp
        rw [List.isPrefixOf_iff_prefix, whole] at here
        have within : "fs:".toList <+: c :: rest ++ "fs".toList :=
          List.prefix_of_prefix_length_le here (List.prefix_append _ _) (by simp)
        exact first within.isInfix
      have notLater : ¬ "fs:".toList <:+: rest ++ "fs".toList := fun later =>
        first (later.trans (List.suffix_cons c _).isInfix)
      rw [List.cons_append, List.cons_append, splitTextFrom, if_neg notHere, ih notLater]
      simp

theorem join_cons_cons (first second : Text) (rest : List Text) :
    join (first :: second :: rest) = escapePermissionComponent first ++ ':' :: join (second :: rest) := by
  simp [join, List.intercalate]

theorem ends_of_infix {components : List Text} (inside : "fs:".toList <:+: join components) :
    ∃ component ∈ components.dropLast, "fs".toList <:+ component := by
  have colonInside : ':' ∈ "fs:".toList := by decide
  induction components with
  | nil =>
      rw [show join [] = [] from rfl, List.infix_nil] at inside
      exact absurd inside (by decide)
  | cons first rest ih =>
      cases rest with
      | nil =>
          rw [show join [first] = escapePermissionComponent first by simp [join, List.intercalate]] at inside
          exact absurd (inside.subset colonInside) (escapePermissionComponent_noColon first)
      | cons second rest =>
          rw [join_cons_cons] at inside
          obtain ⟨before, behind, same⟩ := inside
          have cut : (before ++ "fs".toList) ++ ':' :: behind =
              escapePermissionComponent first ++ ':' :: join (second :: rest) := by
            rw [← same]
            simp
          obtain ⟨middle, whole, split⟩ | ⟨middle, whole, split⟩ := List.append_eq_append_iff.mp cut
          · cases middle with
            | nil =>
                rw [List.append_nil] at whole
                refine ⟨first, by simp, (suffix_escape_iff first).mp ?_⟩
                rw [whole]
                exact List.suffix_append _ _
            | cons c middle =>
                have colon : c = ':' := (List.cons.inj split).1.symm
                subst colon
                exact absurd (whole ▸ List.mem_append_right _ List.mem_cons_self)
                  (escapePermissionComponent_noColon first)
          · cases middle with
            | nil =>
                rw [List.append_nil] at whole
                refine ⟨first, by simp, (suffix_escape_iff first).mp ?_⟩
                rw [← whole]
                exact List.suffix_append _ _
            | cons c middle =>
                have inner : join (second :: rest) = middle ++ ':' :: behind := (List.cons.inj split).2
                have colon : c = ':' := (List.cons.inj split).1.symm
                subst colon
                have later : "fs".toList <:+ middle := by
                  have one : "fs".toList <:+ escapePermissionComponent first ++ ':' :: middle :=
                    whole ▸ List.suffix_append _ _
                  obtain within | beyond := List.suffix_or_suffix_of_suffix one (List.suffix_append _ _)
                  · obtain whole | within := List.suffix_cons_iff.mp within
                    · exact absurd (List.head_eq_of_cons_eq whole) (by decide)
                    · exact within
                  · exact absurd (beyond.subset List.mem_cons_self) (by decide)
                obtain ⟨front, rfl⟩ := later
                have inside' : "fs:".toList <:+: join (second :: rest) := ⟨front, behind, by simp [inner]⟩
                obtain ⟨component, member, ends⟩ := ih inside'
                exact ⟨component, by simpa using Or.inr member, ends⟩

theorem join_append {front behind : List Text} (frontNonempty : front ≠ []) (behindNonempty : behind ≠ []) :
    join (front ++ behind) = join front ++ ':' :: join behind := by
  induction front with
  | nil => exact absurd rfl frontNonempty
  | cons first rest ih =>
      cases rest with
      | nil =>
          obtain ⟨second, others, rfl⟩ := List.exists_cons_of_ne_nil behindNonempty
          rw [List.singleton_append, join_cons_cons]
          simp [join]
      | cons second rest =>
          have inner := ih (List.cons_ne_nil _ _)
          rw [List.cons_append, List.cons_append, join_cons_cons, ← List.cons_append, inner, join_cons_cons]
          simp

theorem join_concat_append (front : List Text) (component behind : Text) :
    join (front ++ [component ++ behind]) =
      join (front ++ [component]) ++ escapePermissionComponent behind := by
  by_cases empty : front = []
  · simp [empty, join, escape_append]
  · rw [join_append empty (List.cons_ne_nil _ _), join_append empty (List.cons_ne_nil _ _)]
    simp [join, escape_append]

theorem first_end {components : List Text}
    (ends : ∃ component ∈ components.dropLast, "fs".toList <:+ component) :
    ∃ before component after, components = before ++ (component ++ "fs".toList) :: after ∧ after ≠ [] ∧
      ∀ earlier ∈ before, ¬ "fs".toList <:+ earlier := by
  induction components with
  | nil => simp at ends
  | cons first rest ih =>
      cases rest with
      | nil => simp at ends
      | cons second rest =>
          by_cases here : "fs".toList <:+ first
          · obtain ⟨component, rfl⟩ := here
            exact ⟨[], component, second :: rest, rfl, List.cons_ne_nil _ _, by simp⟩
          · have later : ∃ component ∈ (second :: rest).dropLast, "fs".toList <:+ component := by
              obtain ⟨component, member, isEnd⟩ := ends
              rw [List.dropLast_cons_cons] at member
              cases member with
              | head => exact absurd isEnd here
              | tail _ member => exact ⟨component, member, isEnd⟩
            obtain ⟨before, component, after, same, more, none⟩ := ih later
            refine ⟨first :: before, component, after, by rw [same]; rfl, more, fun earlier member => ?_⟩
            cases member with
            | head => exact here
            | tail _ member => exact none earlier member

theorem splitText_whole {components : List Text}
    (none : ∀ component ∈ components.dropLast, ¬ "fs".toList <:+ component) :
    splitText "fs:".toList (join components) = [join components] := by
  have absent : ¬ "fs:".toList <:+: join components := fun inside => by
    obtain ⟨component, member, ends⟩ := ends_of_infix inside
    exact none component member ends
  exact splitTextFrom_absent absent []

theorem splitText_cut {before after : List Text} {component : Text}
    (none : ∀ earlier ∈ before, ¬ "fs".toList <:+ earlier) (more : after ≠ []) :
    splitText "fs:".toList (join (before ++ (component ++ "fs".toList) :: after)) =
      join (before ++ [component]) :: splitText "fs:".toList (join after) := by
  have whole : join (before ++ (component ++ "fs".toList) :: after) =
      join (before ++ [component]) ++ "fs:".toList ++ join after := by
    have cut : before ++ (component ++ "fs".toList) :: after =
        (before ++ [component ++ "fs".toList]) ++ after := by simp
    rw [cut, join_append (by simp) more, join_concat_append]
    simp [escapePermissionComponent]
  have first : ¬ "fs:".toList <:+: join (before ++ [component]) ++ "fs".toList := fun inside => by
    have asJoin : join (before ++ [component]) ++ "fs".toList =
        join (before ++ [component ++ "fs".toList]) := by
      rw [join_concat_append]
      rfl
    rw [asJoin] at inside
    obtain ⟨earlier, member, ends⟩ := ends_of_infix inside
    rw [List.dropLast_concat] at member
    exact none earlier member ends
  rw [whole, splitText, splitTextFrom_first first]
  rfl

def manageFront (manage : Bool) : Text := if manage then "manage:".toList else []

theorem fsPermission_cons (manage : Bool) (first : Text) (rest : List Text) :
    fsPermission manage (first :: rest) = manageFront manage ++ "fs:".toList ++ join (first :: rest) := by
  cases manage
  · exact join_cons_cons _ _ _
  · rw [fsPermission, if_pos rfl, List.singleton_append, join_cons_cons, join_cons_cons]
    rfl

theorem splitText_fsPermission (manage : Bool) (first : Text) (rest : List Text) :
    splitText "fs:".toList (fsPermission manage (first :: rest)) =
      manageFront manage :: splitText "fs:".toList (join (first :: rest)) := by
  have notBefore : ¬ "fs:".toList <:+: manageFront manage ++ "fs".toList := by
    cases manage <;> decide
  rw [fsPermission_cons, splitText, splitTextFrom_first notBefore]
  rfl

theorem rewrite_piece (lookups : RuleLookups) (manage : Bool) {first path tail : Text}
    {rest components : List Text} {more : List Text}
    (cut : splitText "fs:".toList (join (first :: rest)) = join (path :: components) :: more)
    (absolute : path = '/' :: tail) :
    (fsPathToUid lookups).matchesPermission (fsPermission manage (first :: rest)) = true ∧
      (fsPathToUid lookups).rewrite (fsPermission manage (first :: rest)) =
        match lookups.getEntryByPath (unescapePermissionComponent (escapePermissionComponent path)) with
        | none => .error ⟨404, "Entry not found: path=".toList ++
            unescapePermissionComponent (escapePermissionComponent path), "subject_does_not_exist".toList⟩
        | some entry => .ok (fsPermission manage (entry.uuid ::
            components.map (unescapePermissionComponent ∘ escapePermissionComponent))) := by
  have whole := (splitText_fsPermission manage first rest).trans (congrArg _ cut)
  have pieces : PermissionUtil.split (join (path :: components)) =
      unescapePermissionComponent (escapePermissionComponent path) ::
        components.map (unescapePermissionComponent ∘ escapePermissionComponent) := by
    rw [PermissionUtil.split, splitOn_join (List.cons_ne_nil _ _), List.map_map, List.map_cons]
    rfl
  have startsAbsolute :
      ∃ tail', unescapePermissionComponent (escapePermissionComponent path) = '/' :: tail' := by
    subst absolute
    exact ⟨_, by rw [unescapePermissionComponent, escape_cons]; rfl⟩
  obtain ⟨tail', read⟩ := startsAbsolute
  have joined : ∃ text, join (path :: components) = '/' :: text := by
    subst absolute
    cases components with
    | nil => exact ⟨_, by rw [show join ['/' :: tail] = escapePermissionComponent ('/' :: tail) by
        simp [join, List.intercalate], escape_cons]; rfl⟩
    | cons second others => exact ⟨_, by rw [join_cons_cons, escape_cons]; rfl⟩
  obtain ⟨text, starts⟩ := joined
  have prefixed : (startsWith "fs:".toList (fsPermission manage (first :: rest)) ||
      startsWith "manage:fs:".toList (fsPermission manage (first :: rest))) = true := by
    rw [fsPermission_cons]
    cases manage <;> simp [startsWith, manageFront]
  refine ⟨?_, ?_⟩
  · simp only [fsPathToUid, whole, starts, prefixed, Bool.true_and]
  · simp only [fsPathToUid, whole, pieces, read]
    cases lookups.getEntryByPath ('/' :: tail') with
    | none => rfl
    | some entry =>
        cases manage with
        | false => rfl
        | true =>
            change Except.ok _ = Except.ok _
            rw [fsPermission, if_pos rfl, List.singleton_append, join_cons_cons]
            rfl

end Cutting

section Lookup

variable {table : EntryTable} {entry : EntryOwnership} {path : Text}

theorem trim_begins (absolute : path.head? = some '/') : trim path <+: path := by
  obtain ⟨rest, rfl⟩ : ∃ rest, path = '/' :: rest := List.head?_eq_some_iff.mp absolute
  have notLeading : ('/' :: rest).dropWhile isSpace = '/' :: rest := by
    rw [List.dropWhile_cons_of_neg (by decide)]
  rw [trim, notLeading]
  exact List.rdropWhile_prefix _ _

theorem normalizePath_ok {normalizedPath : Text} (normal : normalizePath path = .ok normalizedPath) :
    (∃ rest, normalizedPath = '/' :: rest) ∧
      (path.head? = some '/' → normalizedPath.Sublist path) := by
  have shape : ∃ rest, (normalizedPath = '/' :: rest ∨
      rest ≠ [] ∧ normalizedPath = ('/' :: rest).dropLast) ∧
        (path.head? = some '/' → ('/' :: rest).Sublist path) := by
    unfold normalizePath at normal
    dsimp only at normal
    split at normal
    · cases normal
    · rename_i given
      split at normal
      · cases normal
      · obtain ⟨rest, rooted, part⟩ : ∃ rest, (if (trim path).head? = some '/' then trim path
            else '/' :: trim path) = '/' :: rest ∧
            (path.head? = some '/' → ('/' :: rest).Sublist path) := by
          split
          · rename_i starts
            obtain ⟨rest, whole⟩ := List.head?_eq_some_iff.mp starts
            exact ⟨rest, whole, fun absolute => whole ▸ (trim_begins absolute).sublist⟩
          · rename_i notStarts
            refine ⟨_, rfl, fun absolute => absurd ?_ notStarts⟩
            obtain ⟨rest, rfl⟩ := List.head?_eq_some_iff.mp absolute
            obtain ⟨c, others, whole⟩ := List.exists_cons_of_ne_nil given
            have front := trim_begins absolute
            rw [whole, List.cons_prefix_cons] at front
            rw [whole, List.head?_cons, front.1]
        rw [rooted, Except.ok.injEq] at normal
        refine ⟨rest, ?_, part⟩
        split at normal
        · rename_i long
          refine .inr ⟨fun empty => ?_, normal.symm⟩
          rw [empty] at long
          exact absurd long.1 (by decide)
        · exact .inl normal.symm
  obtain ⟨rest, rfl | ⟨more, rfl⟩, part⟩ := shape
  · exact ⟨⟨rest, rfl⟩, part⟩
  · obtain ⟨c, others, rfl⟩ := List.exists_cons_of_ne_nil more
    exact ⟨⟨_, rfl⟩, fun absolute => (List.dropLast_sublist _).trans (part absolute)⟩

theorem EntryTable.getEntryByPath_self (normal : normalizePath path = .ok path)
    (member : entry ∈ table.entries) (names : entry.path = path) :
    table.getEntryByPath path = some entry := by
  rw [EntryTable.getEntryByPath, normal]
  cases found : table.entries.find? (·.path == path) with
  | none =>
      have missing := List.find?_eq_none.mp found entry member
      exact absurd (beq_iff_eq.mpr names) missing
  | some other =>
      have same : other.path = entry.path := by
        rw [names]
        simpa using List.find?_some found
      exact found.trans (congrArg some
        (List.inj_on_of_nodup_map table.ownPath (List.mem_of_find?_eq_some found) member same))

theorem EntryTable.getEntryByPath_some {found : EntryOwnership}
    (looked : table.getEntryByPath path = some found) :
    found ∈ table.entries ∧ normalizePath path = .ok found.path := by
  unfold EntryTable.getEntryByPath at looked
  split at looked
  · rename_i normalizedPath normal
    have same : found.path = normalizedPath := by simpa using List.find?_some looked
    exact ⟨List.mem_of_find?_eq_some looked, same ▸ normal⟩
  · cases looked

theorem fsPermission_injective {manage : Bool} {uuid uuid' : Text} {components components' : List Text}
    (isUuid : UuidText uuid) (isUuid' : UuidText uuid')
    (same : fsPermission manage (uuid :: components) = fsPermission manage (uuid' :: components')) :
    uuid = uuid' ∧ components.map escapePermissionComponent = components'.map escapePermissionComponent := by
  rw [fsPermission_cons, fsPermission_cons] at same
  have joined := join_inj (List.cons_ne_nil _ _) (List.cons_ne_nil _ _) (List.append_cancel_left same)
  rw [List.map_cons, List.map_cons, List.cons.injEq, escapePermissionComponent_eq_self isUuid.noColon,
    escapePermissionComponent_eq_self isUuid'.noColon] at joined
  exact joined

theorem fsPermission_congr (manage : Bool) (uuid : Text) {components components' : List Text}
    (same : components.map escapePermissionComponent = components'.map escapePermissionComponent) :
    fsPermission manage (uuid :: components) = fsPermission manage (uuid :: components') := by
  simp only [fsPermission, join, List.map_append, List.map_cons, same]

theorem map_reescape_iff (components : List Text) :
    (components.map (unescapePermissionComponent ∘ escapePermissionComponent)).map escapePermissionComponent =
      components.map escapePermissionComponent ↔ ∀ component ∈ components, ColonEscapes component := by
  rw [List.map_map, List.map_inj_left]
  exact forall₂_congr fun component _ => reescape_iff component

end Lookup

section Naming

variable {table : EntryTable} {entry : EntryOwnership} {path : Text}

/-- The rewriter names the entry of the path, with the components behind it, exactly when no component but
    the last ends in `fs`, the path has no backslash, and in the components a backslash only stands before
    a `C`. -/
theorem fsPathToUid_names_entry_iff (others : RuleLookups) (manage : Bool)
    (normal : normalizePath path = .ok path) (member : entry ∈ table.entries) (names : entry.path = path)
    (components : List Text) :
    ((fsPathToUid (pathLookups table others)).matchesPermission (fsPermission manage (path :: components)) =
          true ∧
        (fsPathToUid (pathLookups table others)).rewrite (fsPermission manage (path :: components)) =
          .ok (fsPermission manage (entry.uuid :: components))) ↔
      (∀ component ∈ (path :: components).dropLast, ¬ "fs".toList <:+ component) ∧ '\\' ∉ path ∧
        ∀ component ∈ components, ColonEscapes component := by
  obtain ⟨tail, absolute⟩ := (normalizePath_ok normal).1
  by_cases whole : ∀ component ∈ (path :: components).dropLast, ¬ "fs".toList <:+ component
  · obtain ⟨matched, result⟩ :=
      rewrite_piece (pathLookups table others) manage (splitText_whole whole) absolute
    rw [result]
    constructor
    · rintro ⟨_, same⟩
      split at same
      · cases same
      · rename_i found looked
        obtain ⟨stored, normalized⟩ := EntryTable.getEntryByPath_some looked
        obtain ⟨uuids, comps⟩ := fsPermission_injective (table.uuids _ stored) (table.uuids _ member)
          (Except.ok.inj same)
        have isEntry : found = entry := List.inj_on_of_nodup_map table.ownUuid stored member uuids
        refine ⟨whole, noBackslash_of_sublist ?_, (map_reescape_iff components).mp comps⟩
        rw [isEntry, names] at normalized
        refine (normalizePath_ok normalized).2 ?_
        rw [absolute, unescapePermissionComponent, escape_cons]
        rfl
    · rintro ⟨_, noBackslash, escapes⟩
      refine ⟨matched, ?_⟩
      rw [unescape_escape noBackslash]
      have looked : (pathLookups table others).getEntryByPath path = some entry :=
        EntryTable.getEntryByPath_self normal member names
      rw [looked]
      exact congrArg Except.ok
        (fsPermission_congr manage entry.uuid ((map_reescape_iff components).mpr escapes))
  · -- cut short: fewer components come out than went in
    refine ⟨fun claimed => ?_, fun allowed => absurd allowed.1 whole⟩
    have ends : ∃ component ∈ (path :: components).dropLast, "fs".toList <:+ component := by
      push Not at whole
      exact whole
    obtain ⟨before, component, after, split, more, none⟩ := first_end ends
    obtain ⟨first, rest, kept⟩ : ∃ first rest, before ++ [component] = first :: rest :=
      List.exists_cons_of_ne_nil (by simp)
    have cut : splitText "fs:".toList (join (path :: components)) =
        join (first :: rest) :: splitText "fs:".toList (join after) := by
      rw [split, splitText_cut none more, kept]
    have firstAbsolute : ∃ tail', first = '/' :: tail' := by
      cases before with
      | nil =>
          have whole : path = component ++ "fs".toList := (List.cons.inj split).1
          obtain ⟨isFirst, _⟩ := List.cons.inj kept
          subst isFirst
          cases component with
          | nil => exact absurd (absolute.symm.trans whole) (by simp)
          | cons c others =>
              rw [absolute] at whole
              exact ⟨others, by rw [← (List.cons.inj whole).1]⟩
      | cons earlier others =>
          have isPath : path = earlier := (List.cons.inj split).1
          have isFirst : earlier = first := (List.cons.inj kept).1
          exact ⟨tail, by rw [← isFirst, ← isPath, absolute]⟩
    obtain ⟨tail', firstAbsolute⟩ := firstAbsolute
    have result := (rewrite_piece (pathLookups table others) manage cut firstAbsolute).2
    rw [claimed.2] at result
    split at result
    · cases result
    · rename_i found looked
      have stored := (EntryTable.getEntryByPath_some looked).1
      have comps := (fsPermission_injective (table.uuids _ member) (table.uuids _ stored)
        (Except.ok.inj result)).2
      have lengths := congrArg List.length comps
      have allLengths := congrArg List.length split
      have keptLengths := congrArg List.length kept
      have positive := List.length_pos_iff.mpr more
      simp only [List.length_map, List.length_append, List.length_cons, List.length_nil]
        at lengths allLengths keptLengths
      omega

def folderEntry : EntryOwnership := ⟨['a', '1'], 1, "/u/n".toList⟩

def fileEntry : EntryOwnership := ⟨['b', '2'], 1, "/u/nfs".toList⟩

/-- A folder and a file beside it, whose name is longer by `fs`. -/
def twoNames : EntryTable where
  entries := [folderEntry, fileEntry]
  ownPath := by decide
  ownUuid := by decide
  uuids := by
    intro entry member
    simp only [List.mem_cons, List.not_mem_nil, or_false] at member
    obtain rfl | rfl := member
    · exact ⟨by decide, List.forall_mem_cons.mpr ⟨.inl rfl, List.forall_mem_singleton.mpr (.inl rfl)⟩⟩
    · exact ⟨by decide, List.forall_mem_cons.mpr ⟨.inl rfl, List.forall_mem_singleton.mpr (.inl rfl)⟩⟩

def noLookups : RuleLookups := ⟨fun _ => none, fun _ => none, fun _ => [], fun _ => none, fun _ => none⟩

theorem fsPathToUid_names_folder :
    (fsPathToUid (pathLookups twoNames noLookups)).rewrite
        (fsPermission true [folderEntry.path, "read".toList]) =
      .ok (fsPermission true [folderEntry.uuid, "read".toList]) :=
  ((@fsPathToUid_names_entry_iff twoNames folderEntry folderEntry.path noLookups true (by decide)
    (by decide) rfl ["read".toList]).mpr (by decide)).2

/-- To read the file becomes everything on the folder. -/
theorem fsPathToUid_widens :
    normalizePath fileEntry.path = .ok fileEntry.path ∧ fileEntry ∈ twoNames.entries ∧
      (fsPathToUid (pathLookups twoNames noLookups)).rewrite
          (fsPermission false [fileEntry.path, "read".toList]) =
        .ok (fsPermission false [folderEntry.uuid]) ∧
      fsPermission false [folderEntry.uuid] ≠ fsPermission false [fileEntry.uuid, "read".toList] := by
  refine ⟨by decide, by decide, ?_, by decide⟩
  have cut : splitText "fs:".toList (join [fileEntry.path, "read".toList]) =
      join [folderEntry.path] :: ["read".toList] := by decide
  rw [(rewrite_piece (pathLookups twoNames noLookups) false cut rfl).2]
  have looked : (pathLookups twoNames noLookups).getEntryByPath (unescapePermissionComponent
      (escapePermissionComponent folderEntry.path)) = some folderEntry := by decide
  rw [looked]
  rfl

end Naming

end Puter

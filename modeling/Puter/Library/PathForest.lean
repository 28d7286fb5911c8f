/-
Module: Puter.Library.PathForest
Purpose: Forests kept as a table of rows that encode the tree twice, by a parent key and by a stored
  path. States when the two encodings agree, and that inserting a row, removing whole subtrees and
  relocating a subtree keep them in agreement.
Trusted boundary: none
Main exports: Shape, WellFormed.relocate
-/
import Mathlib

namespace PathForest

variable {E K O A : Type}

/-- How a row encodes its place: its own key, its parent's, an owner, and a path of segments over an
    alphabet with a separator. -/
structure Shape (E K O A : Type) where
  key : E → K
  parent : E → Option K
  owner : E → O
  isDir : E → Bool
  name : E → List A
  path : E → List A

/-- A path lies strictly below another one. -/
def Under (sep : A) (base path : List A) : Prop := base ++ [sep] <+: path

instance [DecidableEq A] (sep : A) (base path : List A) : Decidable (Under sep base path) :=
  inferInstanceAs (Decidable (_ <+: _))

theorem under_append (sep : A) (base rest : List A) : Under sep base (base ++ sep :: rest) :=
  ⟨rest, by simp⟩

theorem Under.length_lt {sep : A} {base path : List A} (under : Under sep base path) :
    base.length < path.length := by
  have shorter := List.IsPrefix.length_le under
  simp only [List.length_append, List.length_singleton] at shorter
  omega

theorem Under.ne {sep : A} {base path : List A} (under : Under sep base path) : base ≠ path := by
  rintro rfl
  exact absurd under.length_lt (lt_irrefl _)

theorem Under.trans {sep : A} {a b c : List A} (ab : Under sep a b) (bc : Under sep b c) :
    Under sep a c :=
  List.IsPrefix.trans ab (List.IsPrefix.trans (List.prefix_append b [sep]) bc)

theorem under_child {sep : A} {base parent name : List A} (segment : sep ∉ name) :
    Under sep base (parent ++ sep :: name) ↔ base = parent ∨ Under sep base parent := by
  constructor
  · rintro ⟨rest, same⟩
    rw [List.append_assoc] at same
    obtain ⟨between, left, right⟩ | ⟨between, left, right⟩ := List.append_eq_append_iff.mp same
    · cases between with
      | nil =>
          apply Or.inl
          simpa using left.symm
      | cons c between =>
          obtain ⟨rfl, -⟩ := List.cons.inj (show sep :: rest = c :: (between ++ sep :: name) from right)
          exact Or.inr ⟨between, by simp [left]⟩
    · cases between with
      | nil =>
          apply Or.inl
          simpa using left
      | cons c between =>
          obtain ⟨-, tail⟩ :=
            List.cons.inj (show sep :: name = c :: (between ++ sep :: rest) from right)
          exact absurd (by simp [tail]) segment
  · rintro (rfl | under)
    · exact under_append sep base name
    · exact List.IsPrefix.trans under (List.prefix_append parent (sep :: name))

theorem under_total {sep : A} {a b path : List A} (left : Under sep a path)
    (right : Under sep b path) : a = b ∨ Under sep a b ∨ Under sep b a := by
  obtain shorter | longer := List.prefix_or_prefix_of_prefix left right
  · obtain ⟨rest, same⟩ := shorter
    cases List.eq_nil_or_concat rest with
    | inl nil => exact Or.inl (by simpa [nil] using same)
    | inr snoc =>
        obtain ⟨front, last, rfl⟩ := snoc
        rw [List.concat_eq_append, ← List.append_assoc] at same
        exact Or.inr (Or.inl ⟨front, (List.append_inj' same rfl).1⟩)
  · obtain ⟨rest, same⟩ := longer
    cases List.eq_nil_or_concat rest with
    | inl nil => exact Or.inl (by simpa [nil] using same.symm)
    | inr snoc =>
        obtain ⟨front, last, rfl⟩ := snoc
        rw [List.concat_eq_append, ← List.append_assoc] at same
        exact Or.inr (Or.inr ⟨front, (List.append_inj' same rfl).1⟩)

section Forest

variable (sh : Shape E K O A) (sep : A)

/-- A row hangs off a directory of the same owner, and its path says so. -/
structure IsChild (e d : E) : Prop where
  parent_eq : sh.parent e = some (sh.key d)
  isDir : sh.isDir d = true
  owner_eq : sh.owner d = sh.owner e
  path_eq : sh.path e = sh.path d ++ sep :: sh.name e

/-- Following the parent keys of a row ends at a row without a parent. -/
inductive ReachesHome (rows : List E) : E → Prop where
  | home {e : E} (root : sh.parent e = none) : ReachesHome rows e
  | child {e d : E} (member : d ∈ rows) (parent : sh.parent e = some (sh.key d))
      (reaches : ReachesHome rows d) : ReachesHome rows e

/-- The encodings of the tree agree. -/
structure WellFormed (rows : List E) : Prop where
  linked : ∀ e ∈ rows, ∀ k, sh.parent e = some k → ∃ d ∈ rows, sh.key d = k ∧ IsChild sh sep e d
  paths_distinct : ∀ e ∈ rows, ∀ e' ∈ rows, sh.path e = sh.path e' → e = e'
  reachesHome : ∀ e ∈ rows, ReachesHome sh rows e

/-- Names are single segments, and a row without a parent lies directly under the root. -/
structure Segmented (rows : List E) : Prop where
  names : ∀ e ∈ rows, sep ∉ sh.name e
  homes : ∀ e ∈ rows, sh.parent e = none → sh.path e = sep :: sh.name e

/-- No two rows have one key. -/
def KeysDistinct (rows : List E) : Prop :=
  ∀ e ∈ rows, ∀ e' ∈ rows, sh.key e = sh.key e' → e = e'

/-- A row is a descendant of another one, by the parent keys. -/
inductive Below (rows : List E) (a : E) : E → Prop where
  | child {e : E} (parent : sh.parent e = some (sh.key a)) : Below rows a e
  | step {e d : E} (member : d ∈ rows) (parent : sh.parent e = some (sh.key d))
      (below : Below rows a d) : Below rows a e

variable {sh sep} {rows : List E}

theorem IsChild.length_lt {e d : E} (child : IsChild sh sep e d) :
    (sh.path d).length < (sh.path e).length := by
  rw [child.path_eq, List.length_append, List.length_cons]
  omega

theorem linked_induction (sh : Shape E K O A) (sep : A) {motive : (e : E) → e ∈ rows → Prop}
    (step : ∀ e (member : e ∈ rows),
      (∀ d (dMember : d ∈ rows), IsChild sh sep e d → motive d dMember) → motive e member)
    (e : E) (member : e ∈ rows) : motive e member := by
  induction bound : (sh.path e).length using Nat.strong_induction_on generalizing e with
  | _ n ih =>
      apply step e member
      intro d dMember child
      exact ih _ (bound ▸ child.length_lt) d dMember rfl

theorem WellFormed.of_linked
    (linked : ∀ e ∈ rows, ∀ k, sh.parent e = some k →
      ∃ d ∈ rows, sh.key d = k ∧ IsChild sh sep e d)
    (paths_distinct : ∀ e ∈ rows, ∀ e' ∈ rows, sh.path e = sh.path e' → e = e') :
    WellFormed sh sep rows where
  linked := linked
  paths_distinct := paths_distinct
  reachesHome := by
    intro e member
    induction e, member using linked_induction sh sep with
    | step e member parentReaches =>
        cases parent : sh.parent e with
        | none => exact .home parent
        | some k =>
            obtain ⟨d, dMember, rfl, child⟩ := linked e member k parent
            exact .child dMember parent (parentReaches d dMember child)

instance [DecidableEq K] [DecidableEq O] [DecidableEq A] (e d : E) :
    Decidable (IsChild sh sep e d) :=
  decidable_of_iff (sh.parent e = some (sh.key d) ∧ sh.isDir d = true ∧ sh.owner d = sh.owner e ∧
      sh.path e = sh.path d ++ sep :: sh.name e)
    ⟨fun ⟨parent, isDir, owner, path⟩ => ⟨parent, isDir, owner, path⟩,
      fun ⟨parent, isDir, owner, path⟩ => ⟨parent, isDir, owner, path⟩⟩

theorem wellFormed_iff : WellFormed sh sep rows ↔
    (∀ e ∈ rows, sh.parent e = none ∨ ∃ d ∈ rows, IsChild sh sep e d) ∧
      ∀ e ∈ rows, ∀ e' ∈ rows, sh.path e = sh.path e' → e = e' := by
  constructor
  · intro wf
    refine ⟨fun e member => ?_, wf.paths_distinct⟩
    cases parent : sh.parent e with
    | none => exact Or.inl rfl
    | some k =>
        obtain ⟨d, dMember, -, child⟩ := wf.linked e member k parent
        exact Or.inr ⟨d, dMember, child⟩
  · rintro ⟨linked, distinct⟩
    apply WellFormed.of_linked _ distinct
    intro e member k parent
    obtain root | ⟨d, dMember, child⟩ := linked e member
    · simp [root] at parent
    · rw [child.parent_eq] at parent
      exact ⟨d, dMember, Option.some.inj parent, child⟩

instance [DecidableEq E] [DecidableEq K] [DecidableEq O] [DecidableEq A] :
    Decidable (WellFormed sh sep rows) :=
  decidable_of_iff _ wellFormed_iff.symm

theorem WellFormed.isChild (wf : WellFormed sh sep rows) (keys : KeysDistinct sh rows) {e d : E}
    (eMember : e ∈ rows) (dMember : d ∈ rows) (parent : sh.parent e = some (sh.key d)) :
    IsChild sh sep e d := by
  obtain ⟨d', d'Member, sameKey, child⟩ := wf.linked e eMember _ parent
  rwa [keys d' d'Member d dMember sameKey] at child

theorem WellFormed.parent_ne_self (wf : WellFormed sh sep rows) (keys : KeysDistinct sh rows)
    {e : E} (member : e ∈ rows) : sh.parent e ≠ some (sh.key e) := by
  intro parent
  exact absurd (wf.isChild keys member member parent).length_lt (lt_irrefl _)

theorem parent_of_under (wf : WellFormed sh sep rows) (segmented : Segmented sh sep rows) {e : E}
    (member : e ∈ rows) {place : List A} (notRoot : place ≠ [])
    (under : Under sep place (sh.path e)) :
    ∃ d ∈ rows, IsChild sh sep e d ∧ (place = sh.path d ∨ Under sep place (sh.path d)) := by
  cases parent : sh.parent e with
  | none =>
      rw [segmented.homes e member parent, ← List.nil_append (sep :: _),
        under_child (segmented.names e member)] at under
      obtain nil | above := under
      · exact absurd nil notRoot
      · exact absurd above.length_lt (by simp)
  | some k =>
      obtain ⟨d, dMember, -, child⟩ := wf.linked e member k parent
      rw [child.path_eq, under_child (segmented.names e member)] at under
      exact ⟨d, dMember, child, under⟩

theorem exists_at_of_under (wf : WellFormed sh sep rows) (segmented : Segmented sh sep rows)
    {place : List A} (notRoot : place ≠ []) (e : E) (member : e ∈ rows)
    (under : Under sep place (sh.path e)) :
    ∃ d ∈ rows, sh.path d = place ∧ sh.isDir d = true ∧ sh.owner d = sh.owner e := by
  induction e, member using linked_induction sh sep with
  | step e member parentHas =>
      obtain ⟨d, dMember, child, here | above⟩ := parent_of_under wf segmented member notRoot under
      · exact ⟨d, dMember, here.symm, child.isDir, child.owner_eq⟩
      · rw [← child.owner_eq]
        exact parentHas d dMember child above

theorem below_iff_under (wf : WellFormed sh sep rows) (segmented : Segmented sh sep rows)
    (keys : KeysDistinct sh rows) {a : E} (aMember : a ∈ rows) (notRoot : sh.path a ≠ []) {e : E}
    (member : e ∈ rows) : Below sh rows a e ↔ Under sep (sh.path a) (sh.path e) := by
  constructor
  · intro below
    induction below with
    | child parent =>
        have child := wf.isChild keys member aMember parent
        rw [child.path_eq]
        exact under_append sep _ _
    | step dMember parent below ih =>
        have child := wf.isChild keys member dMember parent
        rw [child.path_eq]
        exact (ih dMember).trans (under_append sep _ _)
  · intro under
    induction e, member using linked_induction sh sep with
    | step e member parentBelow =>
        obtain ⟨d, dMember, child, here | above⟩ :=
          parent_of_under wf segmented member notRoot under
        · rw [← wf.paths_distinct a aMember d dMember here] at child
          exact .child child.parent_eq
        · exact .step dMember child.parent_eq (parentBelow d dMember child above)

theorem exists_child_of_under (wf : WellFormed sh sep rows) (segmented : Segmented sh sep rows)
    {a : E} (aMember : a ∈ rows) (notRoot : sh.path a ≠ []) (e : E) (member : e ∈ rows)
    (under : Under sep (sh.path a) (sh.path e)) : ∃ c ∈ rows, IsChild sh sep c a := by
  induction e, member using linked_induction sh sep with
  | step e member parentHas =>
      obtain ⟨d, dMember, child, here | above⟩ := parent_of_under wf segmented member notRoot under
      · rw [← wf.paths_distinct a aMember d dMember here] at child
        exact ⟨e, member, child⟩
      · exact parentHas d dMember child above

theorem WellFormed.insert (wf : WellFormed sh sep rows) {e d : E} (dMember : d ∈ rows)
    (child : IsChild sh sep e d) (free : ∀ r ∈ rows, sh.path r ≠ sh.path e) :
    WellFormed sh sep (rows ++ [e]) := by
  apply WellFormed.of_linked
  · intro r member k parent
    simp only [List.mem_append, List.mem_singleton] at member
    obtain old | rfl := member
    · obtain ⟨p, pMember, sameKey, pChild⟩ := wf.linked r old k parent
      exact ⟨p, List.mem_append_left _ pMember, sameKey, pChild⟩
    · rw [child.parent_eq] at parent
      exact ⟨d, List.mem_append_left _ dMember, Option.some.inj parent, child⟩
  · intro r member r' member' same
    simp only [List.mem_append, List.mem_singleton] at member member'
    obtain old | rfl := member <;> obtain old' | rfl := member'
    · exact wf.paths_distinct r old r' old' same
    · exact absurd same (free r old)
    · exact absurd same.symm (free r' old')
    · rfl

theorem WellFormed.insertHome (wf : WellFormed sh sep rows) {e : E} (root : sh.parent e = none)
    (free : ∀ r ∈ rows, sh.path r ≠ sh.path e) : WellFormed sh sep (rows ++ [e]) := by
  apply WellFormed.of_linked
  · intro r member k parent
    simp only [List.mem_append, List.mem_singleton] at member
    obtain old | rfl := member
    · obtain ⟨p, pMember, sameKey, pChild⟩ := wf.linked r old k parent
      exact ⟨p, List.mem_append_left _ pMember, sameKey, pChild⟩
    · simp [root] at parent
  · intro r member r' member' same
    simp only [List.mem_append, List.mem_singleton] at member member'
    obtain old | rfl := member <;> obtain old' | rfl := member'
    · exact wf.paths_distinct r old r' old' same
    · exact absurd same (free r old)
    · exact absurd same.symm (free r' old')
    · rfl

theorem WellFormed.filter (wf : WellFormed sh sep rows) {keep : E → Bool}
    (parentKept : ∀ e ∈ rows, keep e = true → ∀ d ∈ rows, IsChild sh sep e d → keep d = true) :
    WellFormed sh sep (rows.filter keep) := by
  apply WellFormed.of_linked
  · intro e member k parent
    obtain ⟨eMember, kept⟩ := List.mem_filter.mp member
    obtain ⟨d, dMember, sameKey, child⟩ := wf.linked e eMember k parent
    exact ⟨d, List.mem_filter.mpr ⟨dMember, parentKept e eMember kept d dMember child⟩, sameKey,
      child⟩
  · intro e member e' member' same
    exact wf.paths_distinct e (List.mem_filter.mp member).1 e' (List.mem_filter.mp member').1 same

/-- An update of rows that moves the subtree of `src` to a new place, under a new name and owner. -/
structure Relocates (sh : Shape E K O A) (sep : A) (rows : List E) (src : E) (newPath : List A)
    (newOwner : O) (update : E → E) : Prop where
  key : ∀ e ∈ rows, sh.key (update e) = sh.key e
  isDir : ∀ e ∈ rows, sh.isDir (update e) = sh.isDir e
  src_path : sh.path (update src) = newPath
  src_owner : sh.owner (update src) = newOwner
  parent : ∀ e ∈ rows, e ≠ src → sh.parent (update e) = sh.parent e
  name : ∀ e ∈ rows, e ≠ src → sh.name (update e) = sh.name e
  under_path : ∀ e ∈ rows, e ≠ src → Under sep (sh.path src) (sh.path e) →
    sh.path (update e) = newPath ++ (sh.path e).drop (sh.path src).length
  under_owner : ∀ e ∈ rows, e ≠ src → Under sep (sh.path src) (sh.path e) →
    sh.owner (update e) = newOwner
  other_path : ∀ e ∈ rows, e ≠ src → ¬ Under sep (sh.path src) (sh.path e) →
    sh.path (update e) = sh.path e
  other_owner : ∀ e ∈ rows, e ≠ src → ¬ Under sep (sh.path src) (sh.path e) →
    sh.owner (update e) = sh.owner e

namespace Relocates

variable {src : E} {newPath : List A} {newOwner : O} {update : E → E}

theorem isChild (moves : Relocates sh sep rows src newPath newOwner update)
    (wf : WellFormed sh sep rows) (segmented : Segmented sh sep rows) (srcMember : src ∈ rows)
    {e d : E} (member : e ∈ rows) (dMember : d ∈ rows) (notSrc : e ≠ src)
    (child : IsChild sh sep e d) : IsChild sh sep (update e) (update d) := by
  have place : Under sep (sh.path src) (sh.path e) ↔
      sh.path src = sh.path d ∨ Under sep (sh.path src) (sh.path d) := by
    rw [child.path_eq]
    exact under_child (segmented.names e member)
  refine ⟨?_, ?_, ?_, ?_⟩
  · rw [moves.parent e member notSrc, moves.key d dMember, child.parent_eq]
  · rw [moves.isDir d dMember, child.isDir]
  · by_cases dSrc : d = src
    · subst dSrc
      rw [moves.src_owner, moves.under_owner e member notSrc (place.mpr (Or.inl rfl))]
    · by_cases dUnder : Under sep (sh.path src) (sh.path d)
      · rw [moves.under_owner d dMember dSrc dUnder,
          moves.under_owner e member notSrc (place.mpr (Or.inr dUnder))]
      · have eOutside : ¬ Under sep (sh.path src) (sh.path e) := by
          rw [place]
          rintro (same | above)
          · exact dSrc (wf.paths_distinct src srcMember d dMember same).symm
          · exact dUnder above
        rw [moves.other_owner d dMember dSrc dUnder, moves.other_owner e member notSrc eOutside,
          child.owner_eq]
  · rw [moves.name e member notSrc]
    by_cases dSrc : d = src
    · subst dSrc
      rw [moves.src_path, moves.under_path e member notSrc (place.mpr (Or.inl rfl)), child.path_eq,
        List.drop_left]
    · by_cases dUnder : Under sep (sh.path src) (sh.path d)
      · rw [moves.under_path d dMember dSrc dUnder,
          moves.under_path e member notSrc (place.mpr (Or.inr dUnder)), child.path_eq,
          List.drop_append_of_le_length dUnder.length_lt.le, List.append_assoc]
      · have eOutside : ¬ Under sep (sh.path src) (sh.path e) := by
          rw [place]
          rintro (same | above)
          · exact dSrc (wf.paths_distinct src srcMember d dMember same).symm
          · exact dUnder above
        rw [moves.other_path d dMember dSrc dUnder, moves.other_path e member notSrc eOutside,
          child.path_eq]

theorem path_cases (moves : Relocates sh sep rows src newPath newOwner update) {e : E}
    (member : e ∈ rows) :
    (∃ rest, sh.path e = sh.path src ++ rest ∧ sh.path (update e) = newPath ++ rest ∧
      (rest = [] ∧ e = src ∨ ∃ tail, rest = sep :: tail)) ∨
    (e ≠ src ∧ ¬ Under sep (sh.path src) (sh.path e) ∧ sh.path (update e) = sh.path e) := by
  by_cases isSrc : e = src
  · subst isSrc
    exact Or.inl ⟨[], by simp, by simp [moves.src_path], Or.inl ⟨rfl, rfl⟩⟩
  · by_cases under : Under sep (sh.path src) (sh.path e)
    · obtain ⟨tail, same⟩ := id under
      rw [List.append_assoc, List.singleton_append] at same
      refine Or.inl ⟨sep :: tail, same.symm, ?_, Or.inr ⟨tail, rfl⟩⟩
      rw [moves.under_path e member isSrc under, ← same, List.drop_left]
    · exact Or.inr ⟨isSrc, under, moves.other_path e member isSrc under⟩

theorem lands_apart (wf : WellFormed sh sep rows) (segmented : Segmented sh sep rows)
    (notRoot : newPath ≠ []) (free : ∀ r ∈ rows, sh.path r = newPath → r = src) {e e' : E}
    {rest : List A}
    (shape : rest = [] ∧ e = src ∨ ∃ tail, rest = sep :: tail)
    (lands : sh.path (update e) = newPath ++ rest) (member' : e' ∈ rows) (stays : e' ≠ src)
    (outside : ¬ Under sep (sh.path src) (sh.path e')) : sh.path (update e) ≠ sh.path e' := by
  intro same
  rw [lands] at same
  obtain ⟨rfl, -⟩ | ⟨tail, rfl⟩ := shape
  · exact stays (free e' member' (by simpa using same.symm))
  · have under : Under sep newPath (sh.path e') := same ▸ under_append sep newPath tail
    obtain ⟨d, dMember, atNew, -⟩ := exists_at_of_under wf segmented notRoot e' member' under
    rw [← atNew, free d dMember atNew] at under
    exact outside under

theorem paths_distinct (moves : Relocates sh sep rows src newPath newOwner update)
    (wf : WellFormed sh sep rows) (segmented : Segmented sh sep rows) (notRoot : newPath ≠ [])
    (free : ∀ r ∈ rows, sh.path r = newPath → r = src) {e e' : E} (member : e ∈ rows)
    (member' : e' ∈ rows) (same : sh.path (update e) = sh.path (update e')) : e = e' := by
  obtain ⟨rest, from_, lands, shape⟩ | ⟨stays, outside, kept⟩ := moves.path_cases member
  · obtain ⟨rest', from', lands', shape'⟩ | ⟨stays', outside', kept'⟩ := moves.path_cases member'
    · have sameRest : rest = rest' := by simpa [lands, lands'] using same
      exact wf.paths_distinct e member e' member' (by rw [from_, from', sameRest])
    · exact absurd (same.trans kept')
        (lands_apart wf segmented notRoot free shape lands member' stays' outside')
  · obtain ⟨rest', from', lands', shape'⟩ | ⟨stays', outside', kept'⟩ := moves.path_cases member'
    · exact absurd (same.symm.trans kept)
        (lands_apart wf segmented notRoot free shape' lands' member stays outside)
    · exact wf.paths_distinct e member e' member' (by rw [← kept, ← kept', same])

end Relocates

theorem WellFormed.relocate (wf : WellFormed sh sep rows) (segmented : Segmented sh sep rows)
    {src : E} (srcMember : src ∈ rows) {newPath : List A} (notRoot : newPath ≠ []) {newOwner : O}
    {update : E → E} (moves : Relocates sh sep rows src newPath newOwner update)
    (free : ∀ r ∈ rows, sh.path r = newPath → r = src)
    (hangs : sh.parent (update src) = none ∨
      ∃ d ∈ rows, IsChild sh sep (update src) (update d)) :
    WellFormed sh sep (rows.map update) := by
  apply WellFormed.of_linked
  · intro r member k parent
    obtain ⟨e, eMember, rfl⟩ := List.mem_map.mp member
    by_cases isSrc : e = src
    · subst isSrc
      obtain root | ⟨d, dMember, child⟩ := hangs
      · simp [root] at parent
      · rw [child.parent_eq] at parent
        exact ⟨update d, List.mem_map_of_mem dMember, Option.some.inj parent, child⟩
    · rw [moves.parent e eMember isSrc] at parent
      obtain ⟨d, dMember, rfl, child⟩ := wf.linked e eMember k parent
      exact ⟨update d, List.mem_map_of_mem dMember, moves.key d dMember,
        moves.isChild wf segmented srcMember eMember dMember isSrc child⟩
  · intro r member r' member' same
    obtain ⟨e, eMember, rfl⟩ := List.mem_map.mp member
    obtain ⟨e', e'Member, rfl⟩ := List.mem_map.mp member'
    rw [moves.paths_distinct wf segmented notRoot free eMember e'Member same]

theorem WellFormed.map_same (wf : WellFormed sh sep rows) {update : E → E}
    (key : ∀ e ∈ rows, sh.key (update e) = sh.key e)
    (parent : ∀ e ∈ rows, sh.parent (update e) = sh.parent e)
    (owner : ∀ e ∈ rows, sh.owner (update e) = sh.owner e)
    (isDir : ∀ e ∈ rows, sh.isDir (update e) = sh.isDir e)
    (name : ∀ e ∈ rows, sh.name (update e) = sh.name e)
    (path : ∀ e ∈ rows, sh.path (update e) = sh.path e) :
    WellFormed sh sep (rows.map update) := by
  apply WellFormed.of_linked
  · intro r member k parentKey
    obtain ⟨e, eMember, rfl⟩ := List.mem_map.mp member
    rw [parent e eMember] at parentKey
    obtain ⟨d, dMember, rfl, child⟩ := wf.linked e eMember k parentKey
    refine ⟨update d, List.mem_map_of_mem dMember, key d dMember, ?_⟩
    exact ⟨by rw [parent e eMember, key d dMember, child.parent_eq],
      by rw [isDir d dMember, child.isDir],
      by rw [owner d dMember, owner e eMember, child.owner_eq],
      by rw [path e eMember, path d dMember, name e eMember, child.path_eq]⟩
  · intro r member r' member' same
    obtain ⟨e, eMember, rfl⟩ := List.mem_map.mp member
    obtain ⟨e', e'Member, rfl⟩ := List.mem_map.mp member'
    rw [path e eMember, path e' e'Member] at same
    rw [wf.paths_distinct e eMember e' e'Member same]

end Forest

end PathForest

/-
Module: Puter.Library.FieldTrees
Purpose: Trees with named fields at their nodes and values at their leaves. The module gives the subtree behind a path
  of names, the change of one subtree, the entering of a leaf behind a path, which opens the nodes above it, and what
  all of them leave at every path; and the leaves of a tree with their paths.
Trusted boundary: none
Main exports: FieldTree, leafAt_insertAll, mem_leaves
-/
import Puter.Library.OwnEntries

open OwnEntries

/-- A value, or fields with their names. -/
inductive FieldTree (κ β : Type) where
  | leaf (value : β)
  | node (fields : List (κ × FieldTree κ β))
deriving Inhabited

namespace FieldTree

variable {κ β : Type}

mutual
def leaves : FieldTree κ β → List (List κ × β)
  | .leaf value => [([], value)]
  | .node fields => leavesOf fields

def leavesOf : List (κ × FieldTree κ β) → List (List κ × β)
  | [] => []
  | entry :: rest => (leaves entry.2).map (fun found => (entry.1 :: found.1, found.2)) ++ leavesOf rest
end

theorem mem_leavesOf {fields : List (κ × FieldTree κ β)} {path : List κ} {value : β} :
    (path, value) ∈ leavesOf fields ↔
      ∃ entry ∈ fields, ∃ rest, path = entry.1 :: rest ∧ (rest, value) ∈ leaves entry.2 := by
  induction fields with
  | nil => simp [leavesOf]
  | cons entry fields ih =>
      rw [leavesOf, List.mem_append, ih, List.exists_mem_cons_iff]
      apply or_congr_left
      simp [and_comm, eq_comm]

/-- The names of the fields of a node differ and meet a condition, as do those of all nodes below it. -/
inductive WellKeyed (named : κ → Prop) : FieldTree κ β → Prop where
  | leaf (value : β) : WellKeyed named (.leaf value)
  | node {fields : List (κ × FieldTree κ β)} (distinct : (keys fields).Nodup)
      (names : ∀ name ∈ keys fields, named name)
      (below : ∀ entry ∈ fields, WellKeyed named entry.2) : WellKeyed named (.node fields)

/-- The overlap of two paths: one of them lies at or below the other. -/
def Overlap (one other : List κ) : Prop := one <+: other ∨ other <+: one

theorem Overlap.refl (path : List κ) : Overlap path path := .inl (List.prefix_refl path)

theorem overlap_cons {name : κ} {one other : List κ} : Overlap (name :: one) (name :: other) ↔ Overlap one other := by
  simp [Overlap, List.cons_prefix_cons]

theorem not_overlap_cons {name different : κ} {one other : List κ} (apart : name ≠ different) :
    ¬ Overlap (name :: one) (different :: other) := by
  intro overlap
  cases overlap with
  | inl below => exact apart (List.cons_prefix_cons.mp below).1
  | inr below => exact apart (List.cons_prefix_cons.mp below).1.symm

theorem WellKeyed.names_of_leaf {named : κ → Prop} {tree : FieldTree κ β} (wellKeyed : WellKeyed named tree)
    {path : List κ} {value : β} (member : (path, value) ∈ leaves tree) : ∀ name ∈ path, named name := by
  induction wellKeyed generalizing path with
  | leaf _ =>
      cases List.mem_singleton.mp member
      intro _ none
      cases none
  | node _ names _ ih =>
      rw [leaves] at member
      rcases mem_leavesOf.mp member with ⟨entry, field, rest, rfl, inner⟩
      intro name here
      cases List.mem_cons.mp here with
      | inl same => exact same ▸ names _ (mem_keys field)
      | inr below => exact ih entry field inner name below

variable [DecidableEq κ]

instance (one other : List κ) : Decidable (Overlap one other) := inferInstanceAs (Decidable (_ ∨ _))

def child (name : κ) : FieldTree κ β → Option (FieldTree κ β)
  | .leaf _ => none
  | .node fields => fields.lookup name

def setField (name : κ) (value : FieldTree κ β) : FieldTree κ β → FieldTree κ β
  | .leaf old => .leaf old
  | .node fields => .node (setOwn fields name value)

def IsNode (tree : FieldTree κ β) : Prop := ∃ fields, tree = .node fields

def treeAt : List κ → FieldTree κ β → Option (FieldTree κ β)
  | [], tree => some tree
  | name :: rest, tree => (tree.child name).bind (treeAt rest)

def leafAt (path : List κ) (tree : FieldTree κ β) : Option β :=
  match treeAt path tree with
  | some (.leaf value) => some value
  | _ => none

def modifyAt (change : FieldTree κ β → FieldTree κ β) : List κ → FieldTree κ β → FieldTree κ β
  | [], tree => change tree
  | name :: rest, tree => match tree.child name with
      | some inner => setField name (modifyAt change rest inner) tree
      | none => tree

def opened : Option (FieldTree κ β) → FieldTree κ β
  | some (.node fields) => .node fields
  | _ => .node []

def insertAt (value : β) : List κ → FieldTree κ β → FieldTree κ β
  | [], _ => .leaf value
  | name :: rest, tree => setField name (insertAt value rest (opened (tree.child name))) tree

def insertAll (tree : FieldTree κ β) (entries : List (List κ × β)) : FieldTree κ β :=
  entries.foldl (fun tree entry => insertAt entry.2 entry.1 tree) tree

section Steps

variable {name other : κ} {path rest : List κ} {tree value inner : FieldTree κ β} {leafValue : β}
  {change : FieldTree κ β → FieldTree κ β}

omit [DecidableEq κ] in
theorem isNode_opened (tree : Option (FieldTree κ β)) : (opened tree).IsNode := by
  unfold opened
  split
  · exact ⟨_, rfl⟩
  · exact ⟨_, rfl⟩

theorem IsNode.setField (isNode : tree.IsNode) : (setField name value tree).IsNode := by
  rcases isNode with ⟨fields, rfl⟩
  exact ⟨_, rfl⟩

theorem child_setField (isNode : tree.IsNode) :
    child other (setField name value tree) = if other = name then some value else child other tree := by
  rcases isNode with ⟨fields, rfl⟩
  exact lookup_setOwn

theorem setField_setField (isNode : tree.IsNode) (first : FieldTree κ β) :
    setField name value (setField name first tree) = setField name value tree := by
  rcases isNode with ⟨fields, rfl⟩
  exact congrArg node setOwn_setOwn

@[simp] theorem treeAt_nil : treeAt [] tree = some tree := rfl

theorem treeAt_cons : treeAt (name :: rest) tree = (tree.child name).bind (treeAt rest) := rfl

theorem treeAt_append : treeAt (path ++ rest) tree = (treeAt path tree).bind (treeAt rest) := by
  induction path generalizing tree with
  | nil => rfl
  | cons name path ih =>
      rw [List.cons_append, treeAt_cons, treeAt_cons]
      cases tree.child name with
      | none => rfl
      | some inner => exact ih

@[simp] theorem leafAt_leaf :
    leafAt path (.leaf leafValue : FieldTree κ β) = if path = [] then some leafValue else none := by
  cases path with
  | nil => rfl
  | cons name path => rfl

theorem leafAt_nil (isNode : tree.IsNode) : leafAt [] tree = none := by
  rcases isNode with ⟨fields, rfl⟩
  rfl

theorem leafAt_cons_of_child (found : tree.child name = some inner) :
    leafAt (name :: rest) tree = leafAt rest inner := by
  rw [leafAt, leafAt, treeAt_cons, found]
  rfl

theorem leafAt_cons_of_no_child (absent : tree.child name = none) : leafAt (name :: rest) tree = none := by
  rw [leafAt, treeAt_cons, absent]
  rfl

theorem leafAt_empty : leafAt path (.node [] : FieldTree κ β) = none := by
  cases path with
  | nil => rfl
  | cons name path => rfl

theorem leafAt_opened (below : rest ≠ []) : leafAt rest (opened (tree.child name)) = leafAt (name :: rest) tree := by
  cases found : tree.child name with
  | none =>
      rw [leafAt_cons_of_no_child found]
      exact leafAt_empty
  | some inner =>
      rw [leafAt_cons_of_child found]
      cases inner with
      | leaf old =>
          rw [leafAt_leaf, if_neg below]
          exact leafAt_empty
      | node fields => rfl

theorem leafAt_insertAt {query : List κ} (isNode : tree.IsNode) : leafAt query (insertAt leafValue path tree) =
    if query = path then some leafValue else if Overlap query path then none else leafAt query tree := by
  induction path generalizing query tree with
  | nil =>
      rw [insertAt, leafAt_leaf]
      simp [Overlap]
  | cons name path ih =>
      rw [insertAt]
      cases query with
      | nil => simp [leafAt_nil isNode.setField, Overlap]
      | cons first query =>
          by_cases same : first = name
          · subst same
            have entered : child first (setField first (insertAt leafValue path (opened (tree.child first))) tree) =
                some (insertAt leafValue path (opened (tree.child first))) := by
              rw [child_setField isNode, if_pos rfl]
            rw [leafAt_cons_of_child entered, ih (isNode_opened _)]
            simp only [List.cons.injEq, true_and, overlap_cons]
            by_cases top : query = []
            · simp [top, Overlap]
            · rw [leafAt_opened top]
          · have kept : child first (setField name (insertAt leafValue path (opened (tree.child name))) tree) =
                tree.child first := by
              rw [child_setField isNode, if_neg same]
            have differ : first :: query ≠ name :: path := fun equal => same (List.cons.inj equal).1
            rw [if_neg differ, if_neg (not_overlap_cons same), leafAt, leafAt, treeAt_cons, treeAt_cons, kept]

theorem IsNode.insertAt (isNode : tree.IsNode) (below : path ≠ []) : (insertAt leafValue path tree).IsNode := by
  cases path with
  | nil => exact absurd rfl below
  | cons name path => exact isNode.setField

theorem leafAt_insertAll {entries : List (List κ × β)} {query : List κ} (isNode : tree.IsNode)
    (below : ∀ entry ∈ entries, entry.1 ≠ []) (clear : entries.Pairwise fun one two => ¬ Overlap one.1 two.1)
    (before : ∀ entry ∈ entries, ∀ path, Overlap path entry.1 → leafAt path tree = none) :
    leafAt query (insertAll tree entries) = (entries.lookup query).or (leafAt query tree) := by
  induction entries generalizing tree with
  | nil => rfl
  | cons entry entries ih =>
      rw [List.pairwise_cons] at clear
      have later : ∀ other ∈ entries, ∀ path, Overlap path other.1 →
          leafAt path (insertAt entry.2 entry.1 tree) = none := by
        intro other member path overlap
        rw [leafAt_insertAt isNode]
        have apart : path ≠ entry.1 := fun same => clear.1 other member (same ▸ overlap)
        rw [if_neg apart, before other (List.mem_cons_of_mem _ member) path overlap]
        exact ite_self _
      have entered : (insertAt entry.2 entry.1 tree).IsNode := isNode.insertAt (below entry List.mem_cons_self)
      have rest := ih entered
          (fun other member => below other (List.mem_cons_of_mem _ member)) clear.2 later
      rw [insertAll, List.foldl_cons, ← insertAll, rest, leafAt_insertAt isNode, List.lookup_cons]
      by_cases here : query = entry.1
      · have fresh : entries.lookup query = none := by
          apply lookup_of_not_key
          intro present
          rcases List.mem_map.mp present with ⟨other, member, same⟩
          apply clear.1 other member
          rw [same, here]
          exact .refl _
        rw [if_pos here, fresh, here, beq_self_eq_true]
        rfl
      · rw [if_neg here, beq_false_of_ne here]
        by_cases overlap : Overlap query entry.1
        · rw [if_pos overlap, before entry List.mem_cons_self query overlap]
        · rw [if_neg overlap]

theorem leafAt_insertAll_iff {entries : List (List κ × β)} {query : List κ} (below : ∀ entry ∈ entries, entry.1 ≠ [])
    (clear : entries.Pairwise fun one two => ¬ Overlap one.1 two.1) :
    leafAt query (insertAll (.node []) entries) = some leafValue ↔ (query, leafValue) ∈ entries := by
  have distinct : (keys entries).Nodup := by
    apply List.pairwise_map.mpr
    apply clear.imp
    intro one two apart same
    rw [same] at apart
    exact apart (.refl _)
  rw [leafAt_insertAll ⟨[], rfl⟩ below clear fun _ _ _ _ => leafAt_empty, leafAt_empty, Option.or_none]
  constructor
  · exact entry_of_lookup
  · exact lookup_of_entry distinct

end Steps

section Changes

variable {name : κ} {path rest : List κ} {tree value inner : FieldTree κ β}
    {change other : FieldTree κ β → FieldTree κ β}

theorem modifyAt_cons_of_child (found : tree.child name = some inner) :
    modifyAt change (name :: rest) tree = setField name (modifyAt change rest inner) tree := by
  rw [modifyAt, found]

theorem modifyAt_append : modifyAt change (path ++ rest) tree = modifyAt (modifyAt change rest) path tree := by
  induction path generalizing tree with
  | nil => rfl
  | cons name path ih =>
      rw [List.cons_append, modifyAt, modifyAt]
      cases tree.child name with
      | none => rfl
      | some inner => exact congrArg (setField name · tree) ih

theorem field_of_child {fields : List (κ × FieldTree κ β)} (found : (node fields).child name = some inner) :
    (name, inner) ∈ fields := entry_of_lookup found

theorem child_isNode (found : tree.child name = some inner) : tree.IsNode := by
  cases tree with
  | leaf value => cases found
  | node fields => exact ⟨_, rfl⟩

theorem modifyAt_congr (found : treeAt path tree = some inner) (same : change inner = other inner) :
    modifyAt change path tree = modifyAt other path tree := by
  induction path generalizing tree with
  | nil =>
      cases found
      exact same
  | cons name path ih =>
      rw [treeAt_cons] at found
      rcases Option.bind_eq_some_iff.mp found with ⟨next, step, rest⟩
      rw [modifyAt_cons_of_child step, modifyAt_cons_of_child step, ih rest]

theorem modifyAt_modifyAt :
    modifyAt change path (modifyAt other path tree) = modifyAt (change ∘ other) path tree := by
  induction path generalizing tree with
  | nil => rfl
  | cons name path ih =>
      cases step : tree.child name with
      | none => simp [modifyAt, step]
      | some next =>
          have isNode := child_isNode step
          have entered : child name (setField name (modifyAt other path next) tree) =
              some (modifyAt other path next) := by
            rw [child_setField isNode, if_pos rfl]
          rw [modifyAt_cons_of_child step, modifyAt_cons_of_child step, modifyAt_cons_of_child entered,
            setField_setField isNode, ih]

theorem treeAt_modifyAt (found : treeAt path tree = some inner) :
    treeAt path (modifyAt change path tree) = some (change inner) := by
  induction path generalizing tree with
  | nil =>
      cases found
      rfl
  | cons name path ih =>
      rw [treeAt_cons] at found
      rcases Option.bind_eq_some_iff.mp found with ⟨next, step, rest⟩
      rw [modifyAt_cons_of_child step, treeAt_cons, child_setField (child_isNode step), if_pos rfl]
      exact ih rest

end Changes

section Keyed

variable {named : κ → Prop} {name : κ} {path : List κ} {tree value inner : FieldTree κ β}

theorem WellKeyed.child (wellKeyed : WellKeyed named tree) (found : tree.child name = some inner) :
    named name ∧ WellKeyed named inner := by
  cases wellKeyed with
  | leaf _ => cases found
  | node _ names below =>
      have entry := field_of_child found
      exact ⟨names name (mem_keys entry), below _ entry⟩

theorem WellKeyed.setField (wellKeyed : WellKeyed named tree) (named_name : named name)
    (kept : WellKeyed named value) :
    WellKeyed named (setField name value tree) := by
  cases wellKeyed with
  | leaf old => exact .leaf old
  | node distinct names below =>
      apply WellKeyed.node (nodup_setOwn distinct)
      · intro key member
        rw [keys_setOwn] at member
        split at member
        · exact names key member
        · cases List.mem_append.mp member with
          | inl before => exact names key before
          | inr here => exact List.mem_singleton.mp here ▸ named_name
      · intro entry member
        cases mem_of_mem_setOwn member with
        | inl same => exact same ▸ kept
        | inr before => exact below entry before

theorem WellKeyed.modifyAt {change : FieldTree κ β → FieldTree κ β} (wellKeyed : WellKeyed named tree)
    (kept : ∀ inner, WellKeyed named inner → WellKeyed named (change inner)) :
    WellKeyed named (modifyAt change path tree) := by
  induction path generalizing tree with
  | nil => exact kept tree wellKeyed
  | cons name path ih =>
      rw [FieldTree.modifyAt]
      split
      next inner found =>
        have below := wellKeyed.child found
        exact wellKeyed.setField below.1 (ih below.2)
      · exact wellKeyed

theorem mem_leaves {leafValue : β} (wellKeyed : WellKeyed named tree) :
    (path, leafValue) ∈ leaves tree ↔ leafAt path tree = some leafValue := by
  induction wellKeyed generalizing path with
  | leaf value =>
      rw [leaves, leafAt_leaf, List.mem_singleton, Prod.mk.injEq]
      by_cases top : path = []
      · simp [top, eq_comm]
      · simp [top]
  | @node fields distinct _ _ ih =>
      rw [leaves, mem_leavesOf]
      constructor
      · rintro ⟨entry, field, rest, rfl, inner⟩
        have found : (node fields).child entry.1 = some entry.2 := lookup_of_entry distinct field
        rw [leafAt_cons_of_child found]
        exact (ih entry field).mp inner
      · intro found
        cases path with
        | nil => cases found
        | cons name rest =>
            cases step : (node fields).child name with
            | none =>
                rw [leafAt_cons_of_no_child step] at found
                cases found
            | some inner =>
                rw [leafAt_cons_of_child step] at found
                exact ⟨(name, inner), field_of_child step, rest, rfl,
                    (ih _ (field_of_child step)).mpr found⟩

end Keyed

end FieldTree

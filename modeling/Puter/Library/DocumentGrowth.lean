/-
Module: Puter.Library.DocumentGrowth
Purpose: A document that is completed with maps step by step. What stands at a location afterwards is told by
  the document at the start and by the places where maps were added. An assignment below a key goes through
  exactly when a map stands above it, and several that do not overlap when one stands above each.
Trusted boundary: none
Main exports: standsMap, assignAll_isSome
-/
import Puter.Library.Document

namespace Document

variable {κ ν : Type} [DecidableEq κ]

def standsMap : Option (Document κ ν) → Bool
  | some (.map _) => true
  | _ => false

def seen (document : Document κ ν) (added : List (Location κ)) (loc : Location κ) : Option (Document κ ν) :=
  match lookup loc document with
  | some value => some value
  | none => if loc ∈ added then some (.map []) else none

/-- The same, or a map each. -/
def Alike (one other : Option (Document κ ν)) : Prop :=
  one = other ∨ standsMap one = true ∧ standsMap other = true

/-- The document is another one with maps added at some locations where nothing stood. -/
def Completed (document : Document κ ν) (added : List (Location κ)) (now : Document κ ν) : Prop :=
  ∀ loc, Alike (seen document added loc) (lookup loc now)

omit [DecidableEq κ] in
theorem Alike.standsMap_eq {one other : Option (Document κ ν)} (alike : Alike one other) :
    standsMap one = standsMap other := by
  obtain rfl | ⟨isMap, isMap'⟩ := alike
  · rfl
  · rw [isMap, isMap']

omit [DecidableEq κ] in
theorem Alike.eq_none {one : Option (Document κ ν)} (alike : Alike one none) : one = none := by
  obtain same | ⟨-, isMap⟩ := alike
  · exact same
  · cases isMap

omit [DecidableEq κ] in
theorem Alike.isSome_eq {one other : Option (Document κ ν)} (alike : Alike one other) :
    one.isSome = other.isSome := by
  obtain rfl | ⟨isMap, isMap'⟩ := alike
  · rfl
  · cases one with
    | none => cases isMap
    | some value =>
        cases other with
        | none => cases isMap'
        | some value' => rfl

omit [DecidableEq κ] in
theorem SameKind.standsMap_eq {one other : Document κ ν} (same : SameKind one other) :
    standsMap (some one) = standsMap (some other) := by
  obtain ⟨isMap, isMap'⟩ | ⟨isList, isList'⟩ := same
  · cases one with
    | map fields =>
        cases other with
        | map others => rfl
        | _ => cases isMap'
    | _ => cases isMap
  · cases one with
    | list items =>
        cases other with
        | list others => rfl
        | _ => cases isList'
    | _ => cases isList

theorem seen_nil (document : Document κ ν) (loc : Location κ) : seen document [] loc = lookup loc document := by
  unfold seen
  cases lookup loc document <;> rfl

theorem Completed.refl (document : Document κ ν) : Completed document [] document :=
  fun loc => .inl (seen_nil document loc)

theorem seen_eq_none {document : Document κ ν} {added : List (Location κ)} {loc : Location κ}
    (absent : seen document added loc = none) : lookup loc document = none ∧ loc ∉ added := by
  unfold seen at absent
  split at absent
  · cases absent
  next missing =>
    split at absent
    · cases absent
    next notAdded => exact ⟨missing, notAdded⟩

theorem assign_key_above {value document document' : Document κ ν} {above below : Location κ} {name : κ}
    (assigned : assign value (above ++ .key name :: below) document = some document') :
    standsMap (lookup above document) = true ∧ standsMap (lookup above document') = true := by
  induction above generalizing document document' with
  | nil =>
      obtain ⟨below', set, -⟩ := assign_cons assigned
      cases document with
      | map fields =>
          obtain rfl := Option.some.inj set
          exact ⟨rfl, rfl⟩
      | _ => cases set
  | cons step rest ih =>
      obtain ⟨below', set, ⟨empty, -⟩ | ⟨child, found, inner⟩⟩ := assign_cons assigned
      · simp at empty
      · obtain ⟨before, after⟩ := ih inner
        constructor
        · rw [lookup_cons, found]
          exact before
        · rw [lookup_cons, child_setChild set, if_pos rfl]
          exact after

theorem assign_key_isSome (value document : Document κ ν) (above : Location κ) (name : κ) :
    (assign value (above ++ [.key name]) document).isSome = standsMap (lookup above document) := by
  induction above generalizing document with
  | nil => cases document <;> rfl
  | cons step rest ih =>
      obtain ⟨next, others, whole⟩ : ∃ next others, rest ++ [.key name] = next :: others :=
        List.exists_cons_of_ne_nil (by simp)
      rw [List.cons_append, lookup_cons, whole]
      cases found : document.child step with
      | none => simp [assign, found, standsMap]
      | some child =>
          have below := ih child
          rw [whole] at below
          rw [Option.bind_some, ← below]
          simp only [assign, found, Option.bind_eq_bind, Option.bind_some]
          cases inner : assign value (next :: others) child with
          | none => rfl
          | some child' =>
              -- What has a child at a step takes another one there.
              cases document <;> cases step <;> simp only [Document.child, reduceCtorEq] at found
              case map.key fields name' => rfl
              case list.index items n =>
                obtain ⟨inside, -⟩ := List.getElem?_eq_some_iff.mp found
                simp [setChild, inside]

theorem Completed.add {document now now' value : Document κ ν} {added more : List (Location κ)}
    {loc : Location κ} {names : List κ} {name : κ} (place : loc = names.map .key ++ [.key name])
    (completed : Completed document added now) (absent : lookup loc now = none)
    (assigned : assign value loc now = some now')
    (maps : ∀ below, loc ++ below ∈ more → standsMap (lookup below value) = true)
    (within : ∀ below, loc ++ below ∉ more → lookup below value = none)
    (inside : ∀ other ∈ more, loc <+: other) : Completed document (more ++ added) now' := by
  have missing : ∀ below, lookup (loc ++ below) document = none ∧ loc ++ below ∉ added := by
    intro below
    apply seen_eq_none
    apply Alike.eq_none
    rw [← lookup_append_of_none absent below]
    exact completed _
  have kept : ∀ other, other ∉ more → seen document (more ++ added) other = seen document added other := by
    intro other outside
    unfold seen
    simp [outside]
  intro other
  by_cases atOrBelow : loc <+: other
  · obtain ⟨below, rfl⟩ := atOrBelow
    obtain ⟨noValue, notAdded⟩ := missing below
    rw [lookup_assign_append assigned, seen, noValue]
    by_cases isNew : loc ++ below ∈ more
    · refine .inr ⟨?_, maps below isNew⟩
      rw [if_pos (List.mem_append_left _ isNew)]
      rfl
    · left
      rw [within below isNew, if_neg]
      rw [List.mem_append, not_or]
      exact ⟨isNew, notAdded⟩
  · rw [kept other fun member => atOrBelow (inside other member)]
    by_cases higher : other <+: loc
    · obtain ⟨rest, rfl⟩ := higher
      -- The next step after the location is a key, so that a map stands there before and after.
      cases rest with
      | nil => exact absurd (by simp) atOrBelow
      | cons step rest =>
          have isStep : step ∈ names.map .key ++ [.key name] := place ▸ (by simp)
          obtain ⟨next, rfl⟩ : ∃ next, step = .key next := by
            obtain isStep | isStep := List.mem_append.mp isStep
            · obtain ⟨next, -, same⟩ := List.mem_map.mp isStep
              exact ⟨next, same.symm⟩
            · exact ⟨name, List.mem_singleton.mp isStep⟩
          obtain ⟨before, after⟩ := assign_key_above assigned
          exact .inr ⟨(completed other).standsMap_eq.trans before, after⟩
    · rw [lookup_assign_of_not_overlap assigned (not_or.mpr ⟨atOrBelow, higher⟩)]
      exact completed other

theorem assignAll_isSome {puts : List (Location κ × Document κ ν)} {document : Document κ ν}
    (atKeys : ∀ put ∈ puts, ∃ above name, put.1 = above ++ [.key name])
    (apart : puts.Pairwise fun one other => ¬ Overlap one.1 other.1) :
    (assignAll puts document).isSome ↔ ∀ put ∈ puts, standsMap (lookup put.1.dropLast document) = true := by
  induction puts generalizing document with
  | nil => simp [assignAll]
  | cons put rest ih =>
      obtain ⟨above, name, place⟩ := atKeys put List.mem_cons_self
      rw [List.pairwise_cons] at apart
      have head := assign_key_isSome put.2 document above name
      rw [← place] at head
      rw [List.forall_mem_cons, place, List.dropLast_concat, assignAll]
      rw [← head]
      cases first : assign put.2 put.1 document with
      | none => simp
      | some between =>
          rw [Option.bind_some, ih (fun other later => atKeys other (List.mem_cons_of_mem _ later)) apart.2]
          simp only [Option.isSome_some, true_and]
          -- The map above another location is still a map.
          apply forall₂_congr
          intro other later
          obtain ⟨above', name', place'⟩ := atKeys other (List.mem_cons_of_mem _ later)
          have kept : Kept (lookup above' document) (lookup above' between) := by
            apply assign_kept first
            intro isPrefix
            exact apart.1 other later (.inl (isPrefix.trans ⟨[.key name'], place'.symm⟩))
          rw [place', List.dropLast_concat]
          cases old : lookup above' document with
          | none =>
              cases new : lookup above' between with
              | none => rfl
              | some value => simp [Kept, old, new] at kept
          | some value =>
              cases new : lookup above' between with
              | none => simp [Kept, old, new] at kept
              | some value' =>
                  rw [old, new] at kept
                  obtain rfl | same := kept
                  · rfl
                  · rw [same.standsMap_eq]

end Document

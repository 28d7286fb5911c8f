/-
Module: Puter.Library.Document
Purpose: JSON documents and locations in them. A location is a sequence of map keys and list indexes.
  The module gives lookup, the assignment of one location whose parent exists, the simultaneous removal
  of locations, and what each of them leaves at every other location.
Trusted boundary: none
Main exports: Document, assign_above, prune_of_absent
-/
import Mathlib

/-- A JSON document over a type of keys (and texts) and a type of numbers. -/
inductive Document (κ ν : Type) where
  | null
  | bool (b : Bool)
  | number (n : ν)
  | text (t : κ)
  | list (items : List (Document κ ν))
  | map (fields : List (κ × Document κ ν))
deriving Repr, Inhabited

namespace Document

/-- One step into a document. -/
inductive Step (κ : Type) where
  | key (name : κ)
  | index (n : ℕ)
deriving DecidableEq, Repr

abbrev Location (κ : Type) := List (Step κ)

variable {κ ν : Type}

/-- One of the locations lies at or below the other. -/
def Overlap (one other : Location κ) : Prop := one <+: other ∨ other <+: one

instance [DecidableEq κ] (one other : Location κ) : Decidable (Overlap one other) :=
  inferInstanceAs (Decidable (_ ∨ _))

theorem Overlap.symm {one other : Location κ} (overlap : Overlap one other) : Overlap other one :=
  Or.symm overlap

theorem Overlap.cons {step : Step κ} {one other : Location κ} :
    Overlap (step :: one) (step :: other) ↔ Overlap one other := by
  simp [Overlap, List.cons_prefix_cons]

theorem not_overlap_cons {step step' : Step κ} {one other : Location κ} (differ : step ≠ step') :
    ¬ Overlap (step :: one) (step' :: other) := by
  rintro (below | below)
  · exact differ (List.cons_prefix_cons.mp below).1
  · exact differ (List.cons_prefix_cons.mp below).1.symm

/-- The document is a map. -/
def IsMap : Document κ ν → Prop
  | .map _ => True
  | _ => False

/-- The document is a list. -/
def IsList : Document κ ν → Prop
  | .list _ => True
  | _ => False

/-- Both are maps or both are lists. -/
def SameKind (one other : Document κ ν) : Prop :=
  one.IsMap ∧ other.IsMap ∨ one.IsList ∧ other.IsList

variable [DecidableEq κ]

def field (name : κ) (fields : List (κ × Document κ ν)) : Option (Document κ ν) := fields.lookup name

def child : Document κ ν → Step κ → Option (Document κ ν)
  | .map fields, .key name => field name fields
  | .list items, .index n => items[n]?
  | _, _ => none

def lookup : Location κ → Document κ ν → Option (Document κ ν)
  | [], document => some document
  | step :: rest, document => (document.child step).bind (lookup rest)

@[simp] theorem lookup_nil (document : Document κ ν) : lookup [] document = some document := rfl

theorem lookup_cons (step : Step κ) (rest : Location κ) (document : Document κ ν) :
    lookup (step :: rest) document = (document.child step).bind (lookup rest) := rfl

theorem lookup_append (one other : Location κ) (document : Document κ ν) :
    lookup (one ++ other) document = (lookup one document).bind (lookup other) := by
  induction one generalizing document with
  | nil => rfl
  | cons step rest ih =>
      rw [List.cons_append, lookup_cons, lookup_cons]
      cases document.child step with
      | none => rfl
      | some below => exact ih below

theorem lookup_append_of_none {one : Location κ} {document : Document κ ν}
    (absent : lookup one document = none) (other : Location κ) :
    lookup (one ++ other) document = none := by
  rw [lookup_append, absent]
  rfl

def setField (name : κ) (value : Document κ ν) :
    List (κ × Document κ ν) → List (κ × Document κ ν)
  | [] => [(name, value)]
  | field :: rest =>
      if field.1 = name then (name, value) :: rest else field :: setField name value rest

theorem field_cons (name other : κ) (value : Document κ ν) (fields : List (κ × Document κ ν)) :
    field other ((name, value) :: fields) =
      if other = name then some value else field other fields := by
  by_cases same : other = name
  · simp [field, same]
  · rw [field, List.lookup_cons, if_neg same, beq_false_of_ne same]
    rfl

theorem field_setField (name other : κ) (value : Document κ ν) (fields : List (κ × Document κ ν)) :
    field other (setField name value fields) =
      if other = name then some value else field other fields := by
  induction fields with
  | nil =>
      rw [setField, field_cons]
  | cons field rest ih =>
      obtain ⟨name', stored⟩ := field
      unfold setField
      split
      · next found =>
          subst found
          rw [field_cons, field_cons]
          split <;> rfl
      · next differs =>
          rw [field_cons, field_cons, ih]
          by_cases same : other = name
          · subst same
            rw [if_neg (Ne.symm differs), if_pos rfl, if_pos rfl]
          · simp only [if_neg same]

def setChild : Document κ ν → Step κ → Document κ ν → Option (Document κ ν)
  | .map fields, .key name, value => some (.map (setField name value fields))
  | .list items, .index n, value =>
      if n < items.length then some (.list (items.set n value)) else none
  | _, _, _ => none

theorem child_setChild {value document document' : Document κ ν} {step : Step κ}
    (set : document.setChild step value = some document') (other : Step κ) :
    document'.child other = if other = step then some value else document.child other := by
  cases document <;> cases step <;> simp only [setChild, reduceCtorEq] at set
  case map.key fields name =>
    obtain rfl := Option.some.inj set
    cases other with
    | key name' => simp [child, field_setField]
    | index n => simp [child]
  case list.index items n =>
    split at set
    · next inside =>
        obtain rfl := Option.some.inj set
        cases other with
        | key name => simp [child]
        | index n' =>
            by_cases same : n' = n
            · subst same
              simp [child, inside]
            · simp [child, same, List.getElem?_set_ne (Ne.symm same)]
    · cases set

theorem setChild_sameKind {value document document' : Document κ ν} {step : Step κ}
    (set : document.setChild step value = some document') : SameKind document document' := by
  cases document <;> cases step <;> simp only [setChild, reduceCtorEq] at set
  case map.key fields name =>
    obtain rfl := Option.some.inj set
    exact .inl ⟨trivial, trivial⟩
  case list.index items n =>
    split at set
    · obtain rfl := Option.some.inj set
      exact .inr ⟨trivial, trivial⟩
    · cases set

/-- Put a document at a location. Every step but the last must be there. -/
def assign (value : Document κ ν) : Location κ → Document κ ν → Option (Document κ ν)
  | [], _ => some value
  | [step], document => document.setChild step value
  | step :: rest, document => do
      let below ← document.child step
      let below' ← assign value rest below
      document.setChild step below'

theorem assign_cons {value document document' : Document κ ν} {step : Step κ} {rest : Location κ}
    (assigned : assign value (step :: rest) document = some document') :
    ∃ below', document.setChild step below' = some document' ∧
      (rest = [] ∧ below' = value ∨
        ∃ below, document.child step = some below ∧ assign value rest below = some below') := by
  cases rest with
  | nil => exact ⟨value, assigned, .inl ⟨rfl, rfl⟩⟩
  | cons next rest =>
      simp only [assign, Option.bind_eq_bind, Option.bind_eq_some_iff] at assigned
      obtain ⟨below, found, below', inner, set⟩ := assigned
      exact ⟨below', set, .inr ⟨below, found, inner⟩⟩

theorem lookup_assign_append {value document document' : Document κ ν} {loc : Location κ}
    (assigned : assign value loc document = some document') (other : Location κ) :
    lookup (loc ++ other) document' = lookup other value := by
  induction loc generalizing document document' with
  | nil =>
      obtain rfl := Option.some.inj assigned
      rfl
  | cons step rest ih =>
      obtain ⟨below', set, ⟨rfl, rfl⟩ | ⟨below, -, inner⟩⟩ := assign_cons assigned
      · simp [lookup_cons, child_setChild set]
      · rw [List.cons_append, lookup_cons, child_setChild set, if_pos rfl]
        exact ih inner

theorem lookup_assign_of_not_overlap {value document document' : Document κ ν} {loc other : Location κ}
    (assigned : assign value loc document = some document') (apart : ¬ Overlap loc other) :
    lookup other document' = lookup other document := by
  induction loc generalizing document document' other with
  | nil => exact absurd (.inl List.nil_prefix) apart
  | cons step rest ih =>
      cases other with
      | nil => exact absurd (.inr List.nil_prefix) apart
      | cons step' rest' =>
          obtain ⟨below', set, inner⟩ := assign_cons assigned
          rw [lookup_cons, lookup_cons, child_setChild set]
          by_cases same : step' = step
          · subst same
            rw [Overlap.cons] at apart
            obtain ⟨rfl, rfl⟩ | ⟨below, found, inner⟩ := inner
            · exact absurd (.inl List.nil_prefix) apart
            · rw [if_pos rfl, found]
              exact ih inner apart
          · rw [if_neg same]

theorem assign_above {value document document' : Document κ ν} {above below : Location κ}
    (assigned : assign value (above ++ below) document = some document') (inside : below ≠ []) :
    ∃ before after, lookup above document = some before ∧ lookup above document' = some after ∧
      SameKind before after := by
  induction above generalizing document document' with
  | nil =>
      cases below with
      | nil => exact absurd rfl inside
      | cons step rest =>
          obtain ⟨below', set, -⟩ := assign_cons assigned
          exact ⟨document, document', rfl, rfl, setChild_sameKind set⟩
  | cons step rest ih =>
      obtain ⟨below', set, ⟨empty, -⟩ | ⟨child, found, inner⟩⟩ := assign_cons assigned
      · exact absurd (List.append_eq_nil_iff.mp empty).2 inside
      · obtain ⟨before, after, stood, stands, same⟩ := ih inner
        refine ⟨before, after, ?_, ?_, same⟩
        · rw [lookup_cons, found]
          exact stood
        · rw [lookup_cons, child_setChild set, if_pos rfl]
          exact stands

def under (step : Step κ) (gone : Location κ → Bool) : Location κ → Bool := fun rest => gone (step :: rest)

omit [DecidableEq κ] in
theorem under_apply (step : Step κ) (gone : Location κ → Bool) (rest : Location κ) :
    under step gone rest = gone (step :: rest) := rfl

mutual
/-- The document without what stands at the given locations, all read before anything is removed. The
    elements of a list move up. -/
def prune (gone : Location κ → Bool) : Document κ ν → Document κ ν
  | .list items => .list (pruneItems gone 0 items)
  | .map fields => .map (pruneFields gone fields)
  | .null => .null
  | .bool b => .bool b
  | .number n => .number n
  | .text t => .text t

def pruneItems (gone : Location κ → Bool) (i : ℕ) : List (Document κ ν) → List (Document κ ν)
  | [] => []
  | item :: rest =>
      if gone [.index i] then pruneItems gone (i + 1) rest
      else prune (under (.index i) gone) item :: pruneItems gone (i + 1) rest

def pruneFields (gone : Location κ → Bool) :
    List (κ × Document κ ν) → List (κ × Document κ ν)
  | [] => []
  | field :: rest =>
      if gone [.key field.1] then pruneFields gone rest
      else (field.1, prune (under (.key field.1) gone) field.2) :: pruneFields gone rest
end

mutual
/-- No map of the document has a key twice. -/
def Distinct : Document κ ν → Prop
  | .list items => DistinctItems items
  | .map fields => (fields.map Prod.fst).Nodup ∧ DistinctFields fields
  | .null | .bool _ | .number _ | .text _ => True

def DistinctItems : List (Document κ ν) → Prop
  | [] => True
  | item :: rest => item.Distinct ∧ DistinctItems rest

def DistinctFields : List (κ × Document κ ν) → Prop
  | [] => True
  | field :: rest => field.2.Distinct ∧ DistinctFields rest
end

mutual
theorem prune_of_absent (gone : Location κ → Bool) :
    ∀ document : Document κ ν, document.Distinct →
      (∀ loc, gone loc = true → lookup loc document = none) → prune gone document = document
  | .list items, distinct, absent => by
      rw [prune, pruneItems_of_absent gone 0 items distinct]
      intro n loc isGone
      rw [Nat.zero_add] at isGone
      exact absent _ isGone
  | .map fields, distinct, absent => by
      rw [prune, pruneFields_of_absent gone fields distinct.1 distinct.2]
      intro name loc isGone
      exact absent _ isGone
  | .null, _, _ | .bool _, _, _ | .number _, _, _ | .text _, _, _ => rfl

theorem pruneItems_of_absent (gone : Location κ → Bool) :
    ∀ (i : ℕ) (items : List (Document κ ν)), DistinctItems items →
      (∀ n loc, gone (.index (i + n) :: loc) = true → items[n]?.bind (lookup loc) = none) →
      pruneItems gone i items = items
  | _, [], _, _ => rfl
  | i, item :: rest, distinct, absent => by
      have stays : gone [.index i] = false := by
        by_contra isGone
        have none := absent 0 [] (by simpa using isGone)
        simp at none
      have below : prune (under (.index i) gone) item = item := by
        refine prune_of_absent _ item distinct.1 fun loc isGone => ?_
        simpa using absent 0 loc isGone
      have others : pruneItems gone (i + 1) rest = rest := by
        refine pruneItems_of_absent gone (i + 1) rest distinct.2 fun n loc isGone => ?_
        rw [show i + 1 + n = i + (n + 1) by omega] at isGone
        simpa using absent (n + 1) loc isGone
      rw [pruneItems, if_neg (by simp [stays]), below, others]

theorem pruneFields_of_absent (gone : Location κ → Bool) :
    ∀ fields : List (κ × Document κ ν), (fields.map Prod.fst).Nodup → DistinctFields fields →
      (∀ name loc, gone (.key name :: loc) = true → (field name fields).bind (lookup loc) = none) →
      pruneFields gone fields = fields
  | [], _, _, _ => rfl
  | (name, value) :: rest, nodup, distinct, absent => by
      rw [List.map_cons, List.nodup_cons] at nodup
      have stays : gone [.key name] = false := by
        by_contra isGone
        have none := absent name [] (by simpa using isGone)
        simp [field_cons] at none
      have below : prune (under (.key name) gone) value = value := by
        refine prune_of_absent _ value distinct.1 fun loc isGone => ?_
        simpa [field_cons] using absent name loc isGone
      have others : pruneFields gone rest = rest := by
        refine pruneFields_of_absent gone rest nodup.2 distinct.2 fun other loc isGone => ?_
        have none := absent other loc isGone
        rw [field_cons] at none
        split at none
        · next same =>
            -- The name stands first, so it does not stand in the rest.
            subst same
            rw [field, List.lookup_eq_none_iff.mpr]
            · rfl
            · intro field member
              have differs : other ≠ field.1 := by
                rintro rfl
                exact nodup.1 (List.mem_map.mpr ⟨field, member, rfl⟩)
              simpa using differs
        · exact none
      rw [pruneFields, if_neg (by simp [stays]), below, others]
end

/-- The new document is the old one with exactly the named locations changed, each as its edit says.
    Every location that neither contains a named one nor lies in it is as it was; what contains a named
    one is a map or a list as it was before, or a map where nothing stood. -/
structure Edited (old new : Document κ ν)
    (edits : List (Location κ × (Option (Document κ ν) → Option (Document κ ν)))) : Prop where
  named : ∀ edit ∈ edits, lookup edit.1 new = edit.2 (lookup edit.1 old)
  elsewhere : ∀ loc, (∀ edit ∈ edits, ¬ Overlap edit.1 loc) → lookup loc new = lookup loc old
  above : ∀ edit ∈ edits, ∀ above below, below ≠ [] → edit.1 = above ++ below →
    ∃ after, lookup above new = some after ∧
      (lookup above old = none ∧ after.IsMap ∨
        ∃ before, lookup above old = some before ∧ SameKind before after)

/-- A location lies strictly above one of the given locations. -/
def Above (locs : List (Location κ)) (loc : Location κ) : Prop :=
  ∃ below, below ≠ [] ∧ loc ++ below ∈ locs

/-- Something may have grown: it is what it was, another document of the same kind, or a map where
    nothing stood. -/
def Grown : Option (Document κ ν) → Option (Document κ ν) → Prop
  | none, none => True
  | none, some after => after.IsMap
  | some before, some after => before = after ∨ SameKind before after
  | some _, none => False

/-- Maps were put where nothing stood above the given locations, and nothing else changed. -/
structure Filled (locs : List (Location κ)) (old new : Document κ ν) : Prop where
  above : ∀ loc, Above locs loc → Grown (lookup loc old) (lookup loc new)
  elsewhere : ∀ loc, ¬ Above locs loc → lookup loc new = lookup loc old

omit [DecidableEq κ] in
theorem SameKind.symm {one other : Document κ ν} (same : SameKind one other) : SameKind other one :=
  Or.imp And.symm And.symm same

omit [DecidableEq κ] in
theorem SameKind.trans {one two three : Document κ ν} (first : SameKind one two)
    (second : SameKind two three) : SameKind one three := by
  cases one <;> cases two <;> cases three <;> simp_all [SameKind, IsMap, IsList]

omit [DecidableEq κ] in
theorem SameKind.isMap {one other : Document κ ν} (same : SameKind one other) (isMap : one.IsMap) :
    other.IsMap := by
  cases one <;> cases other <;> simp_all [SameKind, IsMap, IsList]

omit [DecidableEq κ] in
theorem Grown.refl (stands : Option (Document κ ν)) : Grown stands stands := by
  cases stands with
  | none => trivial
  | some document => exact .inl rfl

omit [DecidableEq κ] in
theorem Grown.trans {one two three : Option (Document κ ν)} (first : Grown one two)
    (second : Grown two three) : Grown one three := by
  cases one <;> cases two <;> cases three <;> simp only [Grown] at first second ⊢
  case none.none.some => exact second
  case none.some.some before after =>
    rcases second with rfl | same
    · exact first
    · exact same.isMap first
  case some.some.some =>
    rcases first with rfl | one
    · exact second
    · rcases second with rfl | two
      · exact .inr one
      · exact .inr (one.trans two)

theorem Filled.refl (locs : List (Location κ)) (document : Document κ ν) :
    Filled locs document document :=
  ⟨fun _ _ => .refl _, fun _ _ => rfl⟩

theorem Filled.mono {locs more : List (Location κ)} {old new : Document κ ν} (filled : Filled locs old new)
    (subset : locs ⊆ more) : Filled more old new := by
  have lifts : ∀ loc, Above locs loc → Above more loc := by
    rintro loc ⟨below, nonempty, member⟩
    exact ⟨below, nonempty, subset member⟩
  constructor
  · intro loc _
    by_cases above : Above locs loc
    · exact filled.above loc above
    · rw [filled.elsewhere loc above]
      exact .refl _
  · exact fun loc apart => filled.elsewhere loc fun above => apart (lifts loc above)

theorem Filled.trans {locs : List (Location κ)} {one two three : Document κ ν}
    (first : Filled locs one two) (second : Filled locs two three) : Filled locs one three :=
  ⟨fun loc above => (first.above loc above).trans (second.above loc above),
    fun loc apart => (second.elsewhere loc apart).trans (first.elsewhere loc apart)⟩

theorem setField_same {name : κ} {value : Document κ ν} {fields : List (κ × Document κ ν)}
    (stands : field name fields = some value) : setField name value fields = fields := by
  induction fields with
  | nil => cases stands
  | cons field rest ih =>
      obtain ⟨name', stored⟩ := field
      rw [field_cons] at stands
      unfold setField
      split
      · next found =>
          subst found
          rw [if_pos rfl] at stands
          rw [Option.some.inj stands]
      · next differs =>
          rw [if_neg (Ne.symm differs)] at stands
          rw [ih stands]

theorem setChild_same {document value : Document κ ν} {step : Step κ}
    (stands : document.child step = some value) : document.setChild step value = some document := by
  cases document <;> cases step <;> simp only [child, reduceCtorEq] at stands
  case map.key fields name => rw [setChild, setField_same stands]
  case list.index items n =>
    obtain ⟨inside, rfl⟩ := List.getElem?_eq_some_iff.mp stands
    rw [setChild, if_pos inside, List.set_getElem_self]

theorem assign_same {value document : Document κ ν} {loc : Location κ}
    (stands : lookup loc document = some value) : assign value loc document = some document := by
  induction loc generalizing document with
  | nil => exact stands.symm
  | cons step rest ih =>
      rw [lookup_cons, Option.bind_eq_some_iff] at stands
      obtain ⟨below, found, stands⟩ := stands
      cases rest with
      | nil =>
          obtain rfl := Option.some.inj stands
          exact setChild_same found
      | cons next rest =>
          simp only [assign, found, Option.bind_eq_bind, Option.bind_some]
          rw [ih stands]
          exact setChild_same found

theorem filled_of_assign {locs : List (Location κ)} {value document document' : Document κ ν}
    {loc : Location κ} (absent : lookup loc document = none)
    (assigned : assign value loc document = some document')
    (maps : ∀ below, Above locs (loc ++ below) →
      ∀ stands, lookup below value = some stands → stands.IsMap)
    (within : ∀ below, ¬ Above locs (loc ++ below) → lookup below value = none) :
    Filled locs document document' := by
  have inside : ∀ below, lookup (loc ++ below) document = none := lookup_append_of_none absent
  have isAbove : Above locs loc := by
    by_contra apart
    have none := within [] (by simpa using apart)
    simp at none
  constructor
  · intro other above
    by_cases overlap : Overlap loc other
    · rcases overlap with ⟨below, rfl⟩ | ⟨below, rfl⟩
      · rw [inside below, lookup_assign_append assigned]
        cases stands : lookup below value with
        | none => trivial
        | some after => exact maps below above after stands
      · by_cases whole : below = []
        · subst whole
          rw [List.append_nil] at absent assigned
          rw [absent, ← List.append_nil other, lookup_assign_append assigned]
          refine maps [] ?_ value rfl
          simpa using isAbove
        · obtain ⟨before, after, stood, stands, same⟩ := assign_above assigned whole
          rw [stood, stands]
          exact .inr same
    · rw [lookup_assign_of_not_overlap assigned overlap]
      exact .refl _
  · intro other apart
    by_cases overlap : Overlap loc other
    · rcases overlap with ⟨below, rfl⟩ | ⟨below, rfl⟩
      · rw [inside below, lookup_assign_append assigned, within below apart]
      · -- What lies above the assigned location lies above the given ones too.
        obtain ⟨rest, nonempty, member⟩ := isAbove
        refine absurd ⟨below ++ rest, ?_, by rwa [← List.append_assoc]⟩ apart
        simp [nonempty]
    · exact lookup_assign_of_not_overlap assigned overlap

/-- What stands before stands afterwards, itself or as a container of the same kind. -/
def Kept : Option (Document κ ν) → Option (Document κ ν) → Prop
  | none, none => True
  | some before, some after => before = after ∨ SameKind before after
  | _, _ => False

omit [DecidableEq κ] in
omit [DecidableEq κ] in
theorem Kept.refl (stands : Option (Document κ ν)) : Kept stands stands := by
  cases stands with
  | none => trivial
  | some document => exact .inl rfl

omit [DecidableEq κ] in
theorem Kept.trans {one two three : Option (Document κ ν)} (first : Kept one two)
    (second : Kept two three) : Kept one three := by
  cases one <;> cases two <;> cases three <;> simp only [Kept] at first second ⊢
  case some.some.some =>
    rcases first with rfl | one
    · exact second
    · rcases second with rfl | two
      · exact .inr one
      · exact .inr (one.trans two)

theorem assign_kept {value document document' : Document κ ν} {loc other : Location κ}
    (assigned : assign value loc document = some document') (outside : ¬ loc <+: other) :
    Kept (lookup other document) (lookup other document') := by
  by_cases inside : other <+: loc
  · obtain ⟨below, rfl⟩ := inside
    by_cases whole : below = []
    · subst whole
      exact absurd (by simp) outside
    · obtain ⟨before, after, stood, stands, same⟩ := assign_above assigned whole
      rw [stood, stands]
      exact .inr same
  · rw [lookup_assign_of_not_overlap assigned (not_or.mpr ⟨outside, inside⟩)]
    exact .refl _

def assignAll : List (Location κ × Document κ ν) → Document κ ν → Option (Document κ ν)
  | [], document => some document
  | put :: rest, document => (assign put.2 put.1 document).bind (assignAll rest)

theorem assignAll_kept {puts : List (Location κ × Document κ ν)} {document document' : Document κ ν}
    {loc : Location κ} (assigned : assignAll puts document = some document')
    (outside : ∀ put ∈ puts, ¬ put.1 <+: loc) :
    Kept (lookup loc document) (lookup loc document') := by
  induction puts generalizing document with
  | nil =>
      obtain rfl := Option.some.inj assigned
      exact .refl _
  | cons put rest ih =>
      obtain ⟨between, first, others⟩ := Option.bind_eq_some_iff.mp assigned
      exact (assign_kept first (outside put List.mem_cons_self)).trans
        (ih others fun other member => outside other (List.mem_cons_of_mem _ member))

theorem lookup_assignAll_of_not_overlap {puts : List (Location κ × Document κ ν)}
    {document document' : Document κ ν} {loc : Location κ}
    (assigned : assignAll puts document = some document')
    (apart : ∀ put ∈ puts, ¬ Overlap put.1 loc) : lookup loc document' = lookup loc document := by
  induction puts generalizing document with
  | nil =>
      obtain rfl := Option.some.inj assigned
      rfl
  | cons put rest ih =>
      obtain ⟨between, first, others⟩ := Option.bind_eq_some_iff.mp assigned
      rw [ih others fun other member => apart other (List.mem_cons_of_mem _ member)]
      exact lookup_assign_of_not_overlap first (apart put List.mem_cons_self)

theorem assignAll_lands {puts : List (Location κ × Document κ ν)} {document document' : Document κ ν}
    (apart : puts.Pairwise fun one other => ¬ Overlap one.1 other.1)
    (assigned : assignAll puts document = some document') {put : Location κ × Document κ ν}
    (member : put ∈ puts) :
    lookup put.1 document' = some put.2 ∧
      ∀ above below, below ≠ [] → put.1 = above ++ below →
        ∃ before after, lookup above document = some before ∧ lookup above document' = some after ∧
          SameKind before after := by
  induction puts generalizing document with
  | nil => cases member
  | cons head rest ih =>
      obtain ⟨between, first, others⟩ := Option.bind_eq_some_iff.mp assigned
      rw [List.pairwise_cons] at apart
      rcases List.mem_cons.mp member with rfl | later
      · constructor
        · rw [lookup_assignAll_of_not_overlap others fun other isOther overlap =>
            apart.1 other isOther overlap.symm]
          simpa using lookup_assign_append first []
        · rintro above below inside same
          rw [same] at first
          obtain ⟨before, after, stood, stands, kind⟩ := assign_above first inside
          have kept : Kept (lookup above between) (lookup above document') := by
            refine assignAll_kept others fun other isOther isPrefix => ?_
            refine apart.1 other isOther (.inr (isPrefix.trans ?_))
            exact ⟨below, same.symm⟩
          rw [stands] at kept
          cases ends : lookup above document' with
          | none => simp [Kept, ends] at kept
          | some final =>
              rw [ends] at kept
              refine ⟨before, final, stood, rfl, ?_⟩
              rcases kept with rfl | later
              · exact kind
              · exact kind.trans later
      · obtain ⟨lands, above⟩ := ih apart.2 others later
        refine ⟨lands, fun above' below inside same => ?_⟩
        obtain ⟨before, after, stood, stands, kind⟩ := above above' below inside same
        have kept : Kept (lookup above' document) (lookup above' between) := by
          refine assign_kept first fun isPrefix => ?_
          exact apart.1 put later (.inl (isPrefix.trans ⟨below, same.symm⟩))
        rw [stood] at kept
        cases starts : lookup above' document with
        | none => simp [Kept, starts] at kept
        | some initial =>
            rw [starts] at kept
            refine ⟨initial, after, rfl, stands, ?_⟩
            rcases kept with rfl | earlier
            · exact kind
            · exact earlier.trans kind

/-- The edits say what is put: each put stands for an edit at its location, and is what the edit makes of
    what stands there. -/
def Puts (document : Document κ ν)
    (edits : List (Location κ × (Option (Document κ ν) → Option (Document κ ν))))
    (puts : List (Location κ × Document κ ν)) : Prop :=
  List.Forall₂ (fun edit put => edit.1 = put.1 ∧ edit.2 (lookup edit.1 document) = some put.2) edits puts

theorem Puts.of_edit {document : Document κ ν}
    {edits : List (Location κ × (Option (Document κ ν) → Option (Document κ ν)))}
    {puts : List (Location κ × Document κ ν)} (evaluated : Puts document edits puts)
    {edit : Location κ × (Option (Document κ ν) → Option (Document κ ν))} (member : edit ∈ edits) :
    ∃ put ∈ puts, edit.1 = put.1 ∧ edit.2 (lookup edit.1 document) = some put.2 := by
  induction evaluated with
  | nil => cases member
  | cons same _ ih =>
      rcases List.mem_cons.mp member with rfl | later
      · exact ⟨_, List.mem_cons_self, same⟩
      · obtain ⟨put, isPut, same⟩ := ih later
        exact ⟨put, List.mem_cons_of_mem _ isPut, same⟩

theorem Puts.locations {document : Document κ ν}
    {edits : List (Location κ × (Option (Document κ ν) → Option (Document κ ν)))}
    {puts : List (Location κ × Document κ ν)} (evaluated : Puts document edits puts) :
    puts.map Prod.fst = edits.map Prod.fst := by
  induction evaluated with
  | nil => rfl
  | cons same _ ih => rw [List.map_cons, List.map_cons, ih, same.1]

omit [DecidableEq κ] in
theorem not_above_of_pairwise {locs : List (Location κ)}
    (apart : locs.Pairwise fun one other => ¬ Overlap one other) {loc : Location κ}
    (member : loc ∈ locs) : ¬ Above locs loc := by
  rintro ⟨below, nonempty, isBelow⟩
  have differ : loc ≠ loc ++ below := by
    intro same
    exact nonempty (by simpa using same.symm)
  have symmetric : Std.Symm fun one other : Location κ => ¬ Overlap one other :=
    ⟨fun _ _ disjoint overlap => disjoint overlap.symm⟩
  exact apart.forall member isBelow differ (.inl (List.prefix_append _ _))

theorem edited_of_filled {old filled new : Document κ ν}
    {edits : List (Location κ × (Option (Document κ ν) → Option (Document κ ν)))}
    {puts : List (Location κ × Document κ ν)} (fills : Filled (edits.map Prod.fst) old filled)
    (apart : (edits.map Prod.fst).Pairwise fun one other => ¬ Overlap one other)
    (evaluated : Puts filled edits puts) (assigned : assignAll puts filled = some new) :
    Edited old new edits := by
  have putsApart : puts.Pairwise fun one other => ¬ Overlap one.1 other.1 := by
    rw [← evaluated.locations, List.pairwise_map] at apart
    exact apart
  constructor
  · intro edit member
    obtain ⟨put, isPut, location, made⟩ := evaluated.of_edit member
    rw [location, (assignAll_lands putsApart assigned isPut).1, ← made, ← location,
      fills.elsewhere _ (not_above_of_pairwise apart (List.mem_map_of_mem member))]
  · intro loc isApart
    rw [lookup_assignAll_of_not_overlap assigned]
    · refine fills.elsewhere loc ?_
      rintro ⟨below, -, isBelow⟩
      obtain ⟨edit, member, same⟩ := List.mem_map.mp isBelow
      exact isApart edit member (.inr (same ▸ List.prefix_append _ _))
    · intro put isPut overlap
      have isLocation : put.1 ∈ edits.map Prod.fst := by
        rw [← evaluated.locations]
        exact List.mem_map_of_mem isPut
      obtain ⟨edit, member, same⟩ := List.mem_map.mp isLocation
      exact isApart edit member (same ▸ overlap)
  · intro edit member above below inside same
    obtain ⟨put, isPut, location, -⟩ := evaluated.of_edit member
    obtain ⟨middle, after, stood, stands, kind⟩ :=
      (assignAll_lands putsApart assigned isPut).2 above below inside (location ▸ same)
    have isAbove : Above (edits.map Prod.fst) above :=
      ⟨below, inside, same ▸ List.mem_map_of_mem member⟩
    have grown := fills.above above isAbove
    rw [stood] at grown
    refine ⟨after, stands, ?_⟩
    cases started : lookup above old with
    | none =>
        rw [started] at grown
        exact .inl ⟨rfl, kind.isMap grown⟩
    | some before =>
        rw [started] at grown
        refine .inr ⟨before, rfl, ?_⟩
        rcases grown with rfl | earlier
        · exact kind
        · exact earlier.trans kind

end Document

/-
Module: Puter.Metering.FlattenedAmounts
Purpose: The nesting of the flat amounts of a counter on the dots of their paths, and its inverse (unflattenAmounts,
  flattenAmounts and addAmounts of stores/metering/MeteringBufferStore.ts), over the objects that are built and the
  prototype that all of them inherit from. A segment of a path is the name of a property, so one of the name
  `__proto__` leads out of the result, and a path with the name of an inherited function is added to that.
Trusted boundary: the prototype of all objects has what the language puts there
Main exports: JsLeaf, amounts_nest_and_flatten
-/
import Puter.Library.FieldTrees
import Puter.Permission.PermissionUtil

namespace Puter

open OwnEntries FieldTree

namespace MeteringBufferStore

/-- A value that is not an object: a number, a text, or a function with its text. -/
inductive JsLeaf (ν : Type) where
  | amount (amount : ν)
  | text (text : Text)
  | function (source : Text)
deriving DecidableEq

abbrev JsValue (ν : Type) := FieldTree Text (JsLeaf ν)

variable {ν : Type}

def JsLeaf.amount? : JsLeaf ν → Option ν
  | .amount billed => some billed
  | _ => none

def protoName : Text := "__proto__".toList

def nativeFunction (name : String) : Text := "function ".toList ++ name.toList ++ "() { [native code] }".toList

/-- The functions of `Object.prototype`, with their texts. -/
def inheritedFunctions : List (Text × Text) :=
  ("constructor".toList, nativeFunction "Object") ::
    ["__defineGetter__", "__defineSetter__", "hasOwnProperty", "__lookupGetter__", "__lookupSetter__",
      "isPrototypeOf", "propertyIsEnumerable", "toString", "valueOf", "toLocaleString"].map fun name =>
        (name.toList, nativeFunction name)

/-- `Object.prototype`, without the accessor `__proto__`. -/
def initialPrototype : JsValue ν := .node (inheritedFunctions.map fun entry => (entry.1, .leaf (.function entry.2)))

/-- The object that is being built, and the prototype of all objects. -/
structure Realm (ν : Type) where
  out : JsValue ν
  objectPrototype : JsValue ν

/-- An object, by the way to it. -/
inductive Place where
  | out (path : List Text)
  | objectPrototype (path : List Text)
deriving DecidableEq

def Place.below : Place → Text → Place
  | .out path, part => .out (path ++ [part])
  | .objectPrototype path, part => .objectPrototype (path ++ [part])

namespace Realm

def valueAt (realm : Realm ν) : Place → Option (JsValue ν)
  | .out path => treeAt path realm.out
  | .objectPrototype path => treeAt path realm.objectPrototype

def modify (realm : Realm ν) (change : JsValue ν → JsValue ν) : Place → Realm ν
  | .out path => { realm with out := modifyAt change path realm.out }
  | .objectPrototype path => { realm with objectPrototype := modifyAt change path realm.objectPrototype }

/-- The object that `node[part]` is, where it is one: `__proto__` is the prototype of the object, which the prototype
    itself has not, and what an object does not have itself is read from its prototype. -/
def objectOf (realm : Realm ν) (holder : Place) (part : Text) : Option Place :=
  if part = protoName then
    if holder = .objectPrototype [] then none else some (.objectPrototype [])
  else match (realm.valueAt holder).bind (child part) with
    | some (.node _) => some (holder.below part)
    | some (.leaf _) => none
    | none => match realm.objectPrototype.child part with
        | some (.node _) => some (.objectPrototype [part])
        | _ => none

/-- `node[part] = value`, for a value that is no object: `__proto__` does not take it. -/
def assign (realm : Realm ν) (holder : Place) (part : Text) (value : JsLeaf ν) : Realm ν :=
  if part = protoName then realm else realm.modify (setField part (.leaf value)) holder

/-- Step into `node[part]`, which becomes an empty object where it is none. The prototype of all objects does not take
    another prototype, so this throws there for `__proto__`. -/
def enter (realm : Realm ν) (holder : Place) (part : Text) : Option (Realm ν × Place) :=
  match realm.objectOf holder part with
  | some inner => some (realm, inner)
  | none => if part = protoName then none else some
      (realm.modify (setField part (.node [])) holder, holder.below part)

def nestParts (amount : JsLeaf ν) : List Text → Realm ν → Place → Option (Realm ν)
  | [], realm, _ => some realm
  | [last], realm, holder => some (realm.assign holder last amount)
  | part :: rest, realm, holder => (realm.enter holder part).bind fun entered =>
      nestParts amount rest entered.1 entered.2

end Realm

def parts (path : Text) : List Text := path.splitOn '.'

def startRealm : Realm ν := ⟨.node [], initialPrototype⟩

def unflattenAmounts (flat : List (Text × JsLeaf ν)) : Option (Realm ν) :=
  flat.foldlM (fun realm entry => realm.nestParts entry.2 (parts entry.1) (.out [])) startRealm

def memberPath (path : Text) (name : Text) : Text := if path = [] then name else path ++ '.' :: name

/-- `out[path] = amount` for a path that is not empty. -/
def record (out : List (Text × ν)) (path : Text) (amount : ν) : List (Text × ν) :=
  if path = [] ∨ path = protoName then out else setOwn out path amount

mutual
def walk : JsValue ν → Text → List (Text × ν) → List (Text × ν)
  | .leaf (.amount amount), path, out => record out path amount
  | .leaf _, _, out => out
  | .node fields, path, out => walkFields fields path out

def walkFields : List (Text × JsValue ν) → Text → List (Text × ν) → List (Text × ν)
  | [], _, out => out
  | entry :: rest, path, out => walkFields rest path (walk entry.2 (memberPath path entry.1) out)
end

def flattenAmounts (value : JsValue ν) : List (Text × ν) := walk value [] []

variable [Add ν] [Zero ν]

/-- `(value ?? 0) + amount`, where an amount has a text. -/
def plus (printed : ν → Text) : Option (JsLeaf ν) → ν → JsLeaf ν
  | some (.amount old), amount => .amount (old + amount)
  | some (.text old), amount => .text (old ++ printed amount)
  | some (.function source), amount => .text (source ++ printed amount)
  | none, amount => .amount (0 + amount)

/-- `out[path]`, where the path is not `__proto__` or there is such a key. -/
def readAmount (out : List (Text × JsLeaf ν)) (path : Text) : Option (JsLeaf ν) :=
  (out.lookup path).or ((inheritedFunctions.lookup path).map .function)

/-- One turn of the loop of `addAmounts`. Where there is no such key, `__proto__` does not take the text that is
    made. -/
def addAmount (printed : ν → Text) (out : List (Text × JsLeaf ν)) (entry : Text × ν) : List (Text × JsLeaf ν) :=
  if entry.1 = protoName ∧ entry.1 ∉ OwnEntries.keys out then out
  else setOwn out entry.1 (plus printed (readAmount out entry.1) entry.2)

def asLeaves (flat : List (Text × ν)) : List (Text × JsLeaf ν) := flat.map fun entry => (entry.1, .amount entry.2)

def addAmounts (printed : ν → Text) (base delta : List (Text × ν)) : List (Text × JsLeaf ν) :=
  delta.foldl (addAmount printed) (asLeaves base)

end MeteringBufferStore

open MeteringBufferStore

def NoClash (paths : List Text) : Prop := ∀ one ∈ paths, ∀ other ∈ paths, ¬ one ++ ['.'] <+: other

instance (paths : List Text) : Decidable (NoClash paths) :=
  inferInstanceAs (Decidable (∀ one ∈ paths, ∀ other ∈ paths, ¬ one ++ ['.'] <+: other))

/-- A flat map from dotted paths to numbers. -/
structure FlatMap (ν : Type) where
  entries : List (Text × ν)
  distinct : (OwnEntries.keys entries).Nodup
  segments : ∀ path ∈ OwnEntries.keys entries, [] ∉ parts path
  clear : NoClash (OwnEntries.keys entries)

/-- No segment of the paths is `__proto__`. -/
def PlainPaths (paths : List Text) : Prop := ∀ path ∈ paths, protoName ∉ parts path

instance (paths : List Text) : Decidable (PlainPaths paths) :=
  inferInstanceAs (Decidable (∀ path ∈ paths, protoName ∉ parts path))

def AmountsRoundTrip {ν : Type} (flat : List (Text × ν)) : Prop :=
  ∃ realm, unflattenAmounts (asLeaves flat) = some realm ∧ realm.objectPrototype = initialPrototype ∧
    ∀ path, (flattenAmounts realm.out).lookup path = flat.lookup path

def sumAt {ν : Type} [Add ν] (base delta : List (Text × ν)) (path : Text) : Option ν :=
  match base.lookup path, delta.lookup path with
  | some one, some other => some (one + other)
  | some one, none => some one
  | none, other => other

/-- The running total that is answered flattens to the sum of the two maps, and no object but the result has
    changed. -/
def TotalsAdd {ν : Type} [Add ν] [Zero ν] (printed : ν → Text) (base delta : List (Text × ν)) : Prop :=
  ∃ realm, unflattenAmounts (addAmounts printed base delta) = some realm ∧ realm.objectPrototype = initialPrototype ∧
    ∀ path, (flattenAmounts realm.out).lookup path = sumAt base delta path


def CounterName (name : Text) : Prop := name ≠ [] ∧ '.' ∉ name ∧ name ≠ protoName

section Paths

theorem parts_ne_nil (path : Text) : parts path ≠ [] := List.splitOn_ne_nil '.' path

theorem intercalate_parts (path : Text) : ['.'].intercalate (parts path) = path := List.intercalate_splitOn '.'

theorem foldl_memberPath {path : Text} (nonempty : path ≠ []) (names : List Text) :
    names.foldl memberPath path = ['.'].intercalate (path :: names) := by
  induction names generalizing path with
  | nil => simp
  | cons name names ih =>
      have below : memberPath path name = path ++ '.' :: name := if_neg nonempty
      rw [List.foldl_cons, below, ih (by simp), List.intercalate_cons_cons]
      cases names with
      | nil => simp
      | cons next names => simp

theorem joined_eq {names : List Text} (nonempty : [] ∉ names) :
    names.foldl memberPath [] = ['.'].intercalate names := by
  cases names with
  | nil => rfl
  | cons name names =>
      have first : name ≠ [] := fun empty => nonempty (empty ▸ List.mem_cons_self)
      rw [List.foldl_cons, memberPath, if_pos rfl, foldl_memberPath first]

theorem joined_parts {path : Text} (segments : [] ∉ parts path) : (parts path).foldl memberPath [] = path := by
  rw [joined_eq segments, intercalate_parts]

theorem parts_joined {names : List Text} (plain : ∀ name ∈ names, CounterName name) (any : names ≠ []) :
    parts (names.foldl memberPath []) = names := by
  rw [joined_eq fun empty => (plain [] empty).1 rfl]
  exact List.splitOn_intercalate '.' (fun name member => (plain name member).2.1) any

theorem noDot_of_mem_parts {path part : Text} (member : part ∈ parts path) : '.' ∉ part := by
  induction path generalizing part with
  | nil => simp_all [parts]
  | cons c path ih =>
      rw [parts, List.splitOn_cons_eq_if_modifyHead] at member
      split at member
      · cases List.mem_cons.mp member with
        | inl empty => simp [empty]
        | inr later => exact ih later
      next other =>
        rcases List.exists_cons_of_ne_nil (parts_ne_nil path) with ⟨first, rest, split⟩
        rw [← parts, split, List.modifyHead_cons] at member
        cases List.mem_cons.mp member with
        | inl here =>
            have before : '.' ∉ first := ih (split ▸ List.mem_cons_self)
            rw [here, List.mem_cons, not_or]
            exact ⟨fun same => other (beq_iff_eq.mpr same.symm), before⟩
        | inr later => exact ih (split ▸ List.mem_cons_of_mem _ later)

theorem intercalate_append {names : List Text} (any : names ≠ []) (name : Text) (rest : List Text) :
    ['.'].intercalate (names ++ name :: rest) =
        ['.'].intercalate names ++ '.' :: ['.'].intercalate (name :: rest) := by
  induction names with
  | nil => exact absurd rfl any
  | cons first names ih =>
      cases names with
      | nil => simp
      | cons second names =>
          rw [List.cons_append, List.cons_append, List.intercalate_cons_cons, ← List.cons_append,
            ih (List.cons_ne_nil _ _), List.intercalate_cons_cons]
          simp

theorem below_of_parts {one other : Text} (under : parts one <+: parts other) :
    one = other ∨ one ++ ['.'] <+: other := by
  rcases under with ⟨rest, joined⟩
  cases rest with
  | nil =>
      rw [List.append_nil] at joined
      left
      rw [← intercalate_parts one, joined, intercalate_parts]
  | cons name rest =>
      right
      rw [← intercalate_parts other, ← joined, intercalate_append (parts_ne_nil one), intercalate_parts]
      exact ⟨['.'].intercalate (name :: rest), by simp⟩

theorem NoClash.same {paths : List Text} (clear : NoClash paths) {one other : Text} (here : one ∈ paths)
    (there : other ∈ paths) (overlap : Overlap (parts one) (parts other)) : one = other := by
  cases overlap with
  | inl under => exact (below_of_parts under).resolve_right (clear one here other there)
  | inr under => exact ((below_of_parts under).resolve_right (clear other there one here)).symm

end Paths

section Nesting

variable {ν : Type} {realm : Realm ν} {leaf : JsLeaf ν} {rest done : List Text} {inner : JsValue ν}

def NamedResult (realm : Realm ν) : Prop := WellKeyed CounterName realm.out

theorem NamedResult.modify {holder : Place} {part : Text} {value : JsValue ν} (isNamed : NamedResult realm)
    (plain : CounterName part) (kept : WellKeyed CounterName value) :
    NamedResult (realm.modify (setField part value) holder) := by
  cases holder with
  | out path => exact WellKeyed.modifyAt isNamed fun inner wellKeyed => wellKeyed.setField plain kept
  | objectPrototype path => exact isNamed

theorem wellKeyed_empty : WellKeyed CounterName (.node [] : JsValue ν) := by
  apply WellKeyed.node
  · exact List.nodup_nil
  · intro name none
    cases none
  · intro entry none
    cases none

theorem NamedResult.enter {holder inside : Place} {part : Text} {entered : Realm ν} (isNamed : NamedResult realm)
    (segment : part ≠ [] ∧ '.' ∉ part) (result : realm.enter holder part = some (entered, inside)) :
    NamedResult entered := by
  rw [Realm.enter] at result
  split at result
  · cases result
    exact isNamed
  · split at result
    · cases result
    next plain =>
      cases result
      exact isNamed.modify ⟨segment.1, segment.2, plain⟩ wellKeyed_empty

theorem NamedResult.nestParts {holder : Place} {behind : Realm ν} (isNamed : NamedResult realm)
    (segments : ∀ part ∈ rest, part ≠ [] ∧ '.' ∉ part) (result : realm.nestParts leaf rest holder = some behind) :
    NamedResult behind := by
  induction rest generalizing realm holder with
  | nil =>
      cases result
      exact isNamed
  | cons part rest ih =>
      have segment := segments part List.mem_cons_self
      cases rest with
      | nil =>
          cases result
          rw [Realm.assign]
          split
          · exact isNamed
          next plain => exact isNamed.modify ⟨segment.1, segment.2, plain⟩ (.leaf leaf)
      | cons next rest =>
          rw [Realm.nestParts] at result
          rcases Option.bind_eq_some_iff.mp result with ⟨⟨entered, inside⟩, step, later⟩
          exact ih (isNamed.enter segment step)
            (fun part member => segments part (List.mem_cons_of_mem _ member)) later
          · simp

theorem named_unflattenAmounts {entries : List (Text × JsLeaf ν)}
    (segments : ∀ path ∈ OwnEntries.keys entries, [] ∉ parts path)
    (result : unflattenAmounts entries = some realm) : NamedResult realm := by
  have run : ∀ {start : Realm ν}, NamedResult start →
      entries.foldlM (fun realm entry => realm.nestParts entry.2 (parts entry.1) (.out [])) start = some realm →
      NamedResult realm := by
    clear result
    intro start isNamed result
    induction entries generalizing start with
    | nil =>
        cases result
        exact isNamed
    | cons entry entries ih =>
        rw [List.foldlM_cons] at result
        rcases Option.bind_eq_some_iff.mp result with ⟨next, step, later⟩
        have nonempty := segments entry.1 List.mem_cons_self
        have nextNamed : NamedResult next := isNamed.nestParts (fun part member =>
          ⟨fun empty => nonempty (empty ▸ member), noDot_of_mem_parts member⟩) step
        exact ih (fun path member => segments path (List.mem_cons_of_mem _ member)) nextNamed later
  have fresh : NamedResult (startRealm : Realm ν) := wellKeyed_empty
  exact run fresh result

theorem enter_object {part : Text} {fields : List (Text × JsValue ν)} (plain : part ≠ protoName)
    (found : treeAt done realm.out = some inner) (object : inner.child part = some (.node fields)) :
    realm.enter (.out done) part = some (realm, .out (done ++ [part])) := by
  have there : (realm.valueAt (.out done)).bind (child part) = some (.node fields) := by
    rw [Realm.valueAt, found]
    exact object
  rw [Realm.enter, Realm.objectOf, if_neg plain, there]
  rfl

theorem enter_opens {part : Text} (pristine : realm.objectPrototype = initialPrototype) (plain : part ≠ protoName)
    (found : treeAt done realm.out = some inner) (none_there : ∀ fields, inner.child part ≠ some (.node fields)) :
    realm.enter (.out done) part =
      some (realm.modify (setField part (.node [])) (.out done), .out (done ++ [part])) := by
  have inherited : ∀ fields, realm.objectPrototype.child part ≠ some (.node fields) := by
    intro fields found
    rw [pristine] at found
    rcases List.mem_map.mp (field_of_child found) with ⟨entry, _, same⟩
    cases same
  have read : realm.objectOf (.out done) part = none := by
    rw [Realm.objectOf, if_neg plain, Realm.valueAt, found, Option.bind_some]
    cases own : inner.child part with
    | some value =>
        cases value with
        | leaf _ => rfl
        | node fields => exact absurd own (none_there fields)
    | none =>
        cases parent : realm.objectPrototype.child part with
        | none => rfl
        | some value =>
            cases value with
            | leaf _ => rfl
            | node fields => exact absurd parent (inherited fields)
  rw [Realm.enter, read]
  exact if_neg plain

theorem nestParts_step {holder : Place} {part next : Text} : realm.nestParts leaf (part :: next :: rest) holder =
    (realm.enter holder part).bind fun entered => entered.1.nestParts leaf (next :: rest) entered.2 := rfl

theorem nestParts_plain (pristine : realm.objectPrototype = initialPrototype) (plain : protoName ∉ rest)
    (any : rest ≠ [])
    (found : treeAt done realm.out = some inner) (isNode : inner.IsNode) :
    realm.nestParts leaf rest (.out done) =
        some { realm with out := modifyAt (insertAt leaf rest) done realm.out } := by
  induction rest generalizing realm done inner with
  | nil => exact absurd rfl any
  | cons part rest ih =>
      rw [List.mem_cons, not_or] at plain
      have apart : part ≠ protoName := Ne.symm plain.1
      cases rest with
      | nil =>
          rw [Realm.nestParts, Realm.assign, if_neg apart]
          rfl
      | cons next rest =>
          have later : next :: rest ≠ [] := List.cons_ne_nil _ _
          rw [nestParts_step]
          by_cases object : ∃ fields, inner.child part = some (.node fields)
          · rcases object with ⟨fields, object⟩
            have below : treeAt (done ++ [part]) realm.out = some (.node fields) := by
              rw [treeAt_append, found, Option.bind_some, treeAt_cons, object]
              rfl
            have nested : modifyAt (insertAt leaf (next :: rest)) [part] inner =
                insertAt leaf (part :: next :: rest) inner := by
              rw [modifyAt_cons_of_child object, insertAt, object]
              rfl
            rw [enter_object apart found object, Option.bind_some,
              ih pristine plain.2 later below ⟨fields, rfl⟩, modifyAt_append,
                  modifyAt_congr found nested]
          · rw [not_exists] at object
            have entered : child part (setField part (.node []) inner) = some (.node []) := by
              rw [child_setField isNode, if_pos rfl]
            have below : treeAt (done ++ [part]) (modifyAt (setField part (.node [])) done realm.out) =
                some (.node []) := by
              rw [treeAt_append, treeAt_modifyAt found, Option.bind_some, treeAt_cons, entered]
              rfl
            have empty : opened (inner.child part) = .node [] := by
              cases own : inner.child part with
              | none => rfl
              | some value =>
                  cases value with
                  | leaf _ => rfl
                  | node fields => exact absurd own (object fields)
            have nested : (modifyAt (insertAt leaf (next :: rest)) [part] ∘ setField part (.node [])) inner =
                insertAt leaf (part :: next :: rest) inner := by
              rw [Function.comp, modifyAt_cons_of_child entered, setField_setField isNode, insertAt, empty]
              rfl
            have after : (realm.modify (setField part (.node [])) (.out done)).nestParts leaf (next :: rest)
                (.out (done ++ [part])) = some { realm with
                  out := modifyAt (insertAt leaf (next :: rest)) (done ++ [part])
                    (modifyAt (setField part (.node [])) done realm.out) } :=
              ih pristine plain.2 later below ⟨[], rfl⟩
            rw [enter_opens pristine apart found object, Option.bind_some, after, modifyAt_append, modifyAt_modifyAt,
              modifyAt_congr found nested]

theorem unflattenAmounts_plain {entries : List (Text × JsLeaf ν)} (plain : PlainPaths (OwnEntries.keys entries)) :
    unflattenAmounts entries = some
      ⟨insertAll (.node []) (entries.map fun entry => (parts entry.1, entry.2)), initialPrototype⟩ := by
  have run : ∀ {start : JsValue ν}, start.IsNode →
      entries.foldlM (fun realm entry => Realm.nestParts entry.2 (parts entry.1) realm (.out []))
        ⟨start, initialPrototype⟩ =
      some ⟨insertAll start (entries.map fun entry => (parts entry.1, entry.2)), initialPrototype⟩ := by
    intro start isNode
    induction entries generalizing start with
    | nil => rfl
    | cons entry entries ih =>
        have one : Realm.nestParts entry.2 (parts entry.1) ⟨start, initialPrototype⟩ (.out []) =
            some ⟨insertAt entry.2 (parts entry.1) start, initialPrototype⟩ :=
          nestParts_plain rfl (plain entry.1 List.mem_cons_self) (parts_ne_nil entry.1) rfl isNode
        rw [List.foldlM_cons, one]
        exact ih (fun path member => plain path (List.mem_cons_of_mem _ member))
          (isNode.insertAt (parts_ne_nil entry.1))
  exact run ⟨[], rfl⟩

end Nesting

section Flattening

variable {ν : Type}

/-- What `walk` records of a leaf below a path. -/
def recordedEntry (path : Text) (found : List Text × JsLeaf ν) : Option (Text × ν) :=
  found.2.amount?.bind fun amount =>
    if found.1.foldl memberPath path = [] ∨ found.1.foldl memberPath path = protoName then none
    else some (found.1.foldl memberPath path, amount)

theorem walk_eq {tree : JsValue ν} {named : Text → Prop} (wellKeyed : WellKeyed named tree) (path : Text)
    (out : List (Text × ν)) : walk tree path out = setAll out ((leaves tree).filterMap (recordedEntry path)) := by
  induction wellKeyed generalizing path out with
  | leaf value =>
      cases value with
      | text _ => rfl
      | function _ => rfl
      | amount _ =>
          rw [walk, record, leaves]
          split
          next unnamed => simp [recordedEntry, JsLeaf.amount?, unnamed]
          next named => simp [recordedEntry, JsLeaf.amount?, named, setAll]
  | @node fields distinct names below ih =>
      clear distinct names below
      rw [walk, leaves]
      induction fields generalizing out with
      | nil => rfl
      | cons entry fields rest =>
          rw [walkFields, leavesOf, List.filterMap_append, setAll_append, List.filterMap_map,
            ih entry List.mem_cons_self]
          exact rest (fun other member => ih other (List.mem_cons_of_mem _ member)) _

theorem mem_recorded {tree : JsValue ν} {path : Text} {amount : ν} (wellKeyed : WellKeyed CounterName tree) :
    (path, amount) ∈ (leaves tree).filterMap (recordedEntry []) ↔
    leafAt (parts path) tree = some (.amount amount) := by
  rw [List.mem_filterMap, ← mem_leaves wellKeyed]
  constructor
  · rintro ⟨⟨names, leaf⟩, member, recorded⟩
    rcases Option.bind_eq_some_iff.mp recorded with ⟨found, isAmount, entry⟩
    split at entry
    · cases entry
    next named =>
      cases entry
      have any : names ≠ [] := by
        rintro rfl
        exact named (.inl rfl)
      rw [parts_joined (wellKeyed.names_of_leaf member) any]
      cases leaf with
      | amount _ =>
          cases isAmount
          exact member
      | text _ => cases isAmount
      | function _ => cases isAmount
  · intro member
    have plain := wellKeyed.names_of_leaf member
    have whole : (parts path).foldl memberPath [] = path := joined_parts fun empty => (plain [] empty).1 rfl
    have nonempty : path ≠ [] := by
      rintro rfl
      exact (plain [] (by simp [parts])).1 rfl
    have apart : path ≠ protoName := by
      rintro rfl
      exact (plain protoName (by decide)).2.2 rfl
    refine ⟨(parts path, .amount amount), member, ?_⟩
    simp [recordedEntry, JsLeaf.amount?, whole, nonempty, apart]

theorem lookup_flattenAmounts {tree : JsValue ν} {path : Text} {amount : ν} (wellKeyed : WellKeyed CounterName tree) :
    (flattenAmounts tree).lookup path = some amount ↔ leafAt (parts path) tree = some (.amount amount) := by
  have single : ∀ one ∈ (leaves tree).filterMap (recordedEntry []),
      ∀ two ∈ (leaves tree).filterMap (recordedEntry []), one.1 = two.1 → one = two := by
    rintro ⟨one, first⟩ here ⟨two, second⟩ there same
    have firstLeaf := (mem_recorded wellKeyed).mp here
    have secondLeaf := (mem_recorded wellKeyed).mp there
    cases same
    cases firstLeaf.symm.trans secondLeaf
    rfl
  rw [flattenAmounts, walk_eq wellKeyed, lookup_setAll_iff single, mem_recorded wellKeyed]

theorem flattened_plain {tree : JsValue ν} {path : Text} {amount : ν} (wellKeyed : WellKeyed CounterName tree)
    (found : (flattenAmounts tree).lookup path = some amount) : protoName ∉ parts path := by
  have member := (mem_leaves wellKeyed).mpr ((lookup_flattenAmounts wellKeyed).mp found)
  intro here
  exact (wellKeyed.names_of_leaf member protoName here).2.2 rfl

theorem parts_injective {one other : Text} (same : parts one = parts other) : one = other := by
  rw [← intercalate_parts one, same, intercalate_parts]

theorem flatten_unflatten {entries : List (Text × JsLeaf ν)} (distinct : (OwnEntries.keys entries).Nodup)
    (segments : ∀ path ∈ OwnEntries.keys entries, [] ∉ parts path) (clear : NoClash (OwnEntries.keys entries))
    (plain : PlainPaths (OwnEntries.keys entries)) :
    ∃ realm, unflattenAmounts entries = some realm ∧ realm.objectPrototype = initialPrototype ∧
      ∀ path, (flattenAmounts realm.out).lookup path = (entries.lookup path).bind JsLeaf.amount? := by
  have nested := unflattenAmounts_plain plain
  refine ⟨_, nested, rfl, fun path => ?_⟩
  have below : ∀ entry ∈ entries.map fun entry => (parts entry.1, entry.2), entry.1 ≠ [] := by
    rintro _ member
    rcases List.mem_map.mp member with ⟨entry, _, rfl⟩
    exact parts_ne_nil entry.1
  have apart : (entries.map fun entry => (parts entry.1, entry.2)).Pairwise fun one two => ¬ Overlap one.1 two.1 := by
    rw [List.pairwise_map]
    apply (List.pairwise_map.mp distinct).imp_of_mem
    intro one two here there differ overlap
    exact differ (clear.same (mem_keys here) (mem_keys there) overlap)
  have entered : ∀ leaf, (parts path, leaf) ∈ entries.map (fun entry => (parts entry.1, entry.2)) ↔
      entries.lookup path = some leaf := by
    intro leaf
    constructor
    · intro member
      rcases List.mem_map.mp member with ⟨⟨other, value⟩, there, same⟩
      rw [Prod.mk.injEq] at same
      have samePath : other = path := parts_injective same.1
      have sameLeaf : value = leaf := same.2
      rw [samePath, sameLeaf] at there
      exact OwnEntries.lookup_of_entry distinct there
    · intro found
      exact List.mem_map.mpr ⟨(path, leaf), entry_of_lookup found, rfl⟩
  apply Option.ext
  intro amount
  rw [lookup_flattenAmounts (named_unflattenAmounts segments nested), leafAt_insertAll_iff below apart, entered]
  cases entries.lookup path with
  | none => simp
  | some leaf =>
      cases leaf with
      | amount _ => simp [JsLeaf.amount?]
      | text _ => simp [JsLeaf.amount?]
      | function _ => simp [JsLeaf.amount?]

theorem keys_asLeaves (flat : List (Text × ν)) : OwnEntries.keys (asLeaves flat) = OwnEntries.keys flat := by
  simp [OwnEntries.keys, asLeaves]

theorem lookup_asLeaves (flat : List (Text × ν)) (path : Text) :
    (asLeaves flat).lookup path = (flat.lookup path).map .amount := by
  induction flat with
  | nil => rfl
  | cons entry flat ih =>
      rw [asLeaves, List.map_cons, List.lookup_cons, List.lookup_cons, ← asLeaves, ih]
      split
      · rfl
      · rfl

theorem amounts_roundTrip_iff (flat : FlatMap ν) :
    AmountsRoundTrip flat.entries ↔ PlainPaths (OwnEntries.keys flat.entries) := by
  have segments : ∀ path ∈ OwnEntries.keys (asLeaves flat.entries), [] ∉ parts path := by
    rw [keys_asLeaves]
    exact flat.segments
  constructor
  · rintro ⟨realm, result, -, same⟩ path member
    rcases lookup_of_key member with ⟨amount, found⟩
    exact flattened_plain (named_unflattenAmounts segments result) ((same path).trans found)
  · intro plain
    have distinct : (OwnEntries.keys (asLeaves flat.entries)).Nodup := by
      rw [keys_asLeaves]
      exact flat.distinct
    have clear : NoClash (OwnEntries.keys (asLeaves flat.entries)) := by
      rw [keys_asLeaves]
      exact flat.clear
    have plainLeaves : PlainPaths (OwnEntries.keys (asLeaves flat.entries)) := by
      rw [keys_asLeaves]
      exact plain
    rcases flatten_unflatten distinct segments clear plainLeaves with ⟨realm, result, pristine, same⟩
    refine ⟨realm, result, pristine, fun path => ?_⟩
    rw [same, lookup_asLeaves]
    cases flat.entries.lookup path with
    | none => rfl
    | some amount => rfl

end Flattening

section Totals

variable {ν : Type} [Add ν] [Zero ν] {printed : ν → Text} {base delta : List (Text × ν)}
    {out : List (Text × JsLeaf ν)}

theorem nodup_addAmount {entry : Text × ν} (distinct : (OwnEntries.keys out).Nodup) :
    (OwnEntries.keys (addAmount printed out entry)).Nodup := by
  rw [addAmount]
  split
  · exact distinct
  · exact nodup_setOwn distinct

theorem mem_keys_addAmount
    {entry : Text × ν} {path : Text} (member : path ∈ OwnEntries.keys (addAmount printed out entry)) :
    path ∈ OwnEntries.keys out ∨ path = entry.1 := by
  rw [addAmount] at member
  split at member
  · exact .inl member
  · rw [keys_setOwn] at member
    split at member
    · exact .inl member
    · cases List.mem_append.mp member with
      | inl before => exact .inl before
      | inr here => exact .inr (List.mem_singleton.mp here)

theorem nodup_foldl_addAmount (distinct : (OwnEntries.keys out).Nodup) :
    (OwnEntries.keys (delta.foldl (addAmount printed) out)).Nodup := by
  induction delta generalizing out with
  | nil => exact distinct
  | cons entry delta ih => exact ih (nodup_addAmount distinct)

theorem mem_keys_foldl_addAmount
    {path : Text} (member : path ∈ OwnEntries.keys (delta.foldl (addAmount printed) out)) :
    path ∈ OwnEntries.keys out ∨ path ∈ OwnEntries.keys delta := by
  induction delta generalizing out with
  | nil => exact .inl member
  | cons entry delta ih =>
      cases ih member with
      | inr later => exact .inr (List.mem_cons_of_mem _ later)
      | inl earlier =>
          cases mem_keys_addAmount earlier with
          | inl before => exact .inl before
          | inr here => exact .inr (here ▸ List.mem_cons_self)

theorem lookup_foldl_addAmount (distinct : (OwnEntries.keys delta).Nodup) (plain : protoName ∉ OwnEntries.keys delta)
    (path : Text) :
    (delta.foldl (addAmount printed) out).lookup path = match delta.lookup path with
      | some amount => some (plus printed (readAmount out path) amount)
      | none => out.lookup path := by
  induction delta generalizing out with
  | nil => rfl
  | cons entry delta ih =>
      rw [OwnEntries.keys, List.map_cons, List.nodup_cons] at distinct
      rw [OwnEntries.keys, List.map_cons, List.mem_cons, not_or] at plain
      have added : addAmount printed out entry = setOwn out entry.1 (plus printed (readAmount out entry.1) entry.2) :=
        if_neg fun both => plain.1 both.1.symm
      rw [List.foldl_cons, ih distinct.2 plain.2, added, List.lookup_cons]
      by_cases here : path = entry.1
      · rw [here, lookup_of_not_key distinct.1, beq_self_eq_true, lookup_setOwn, if_pos rfl]
      · rw [beq_false_of_ne here, readAmount, readAmount, lookup_setOwn, if_neg here]
        rfl

theorem mem_keys_addAmounts {path : Text} (member : path ∈ OwnEntries.keys (addAmounts printed base delta)) :
    path ∈ OwnEntries.keys base ++ OwnEntries.keys delta := by
  rw [List.mem_append, ← keys_asLeaves base]
  exact mem_keys_foldl_addAmount member

theorem segments_addAmounts {base delta : FlatMap ν} :
    ∀ path ∈ OwnEntries.keys (addAmounts printed base.entries delta.entries), [] ∉ parts path := by
  intro path member
  cases List.mem_append.mp (mem_keys_addAmounts member) with
  | inl here => exact base.segments path here
  | inr here => exact delta.segments path here

theorem flatten_addAmounts (printed : ν → Text)
    {base delta : FlatMap ν} (clear : NoClash (OwnEntries.keys base.entries ++ OwnEntries.keys delta.entries))
    (plain : PlainPaths (OwnEntries.keys base.entries ++ OwnEntries.keys delta.entries)) :
    ∃ realm, unflattenAmounts (addAmounts printed base.entries delta.entries) = some realm ∧
      realm.objectPrototype = initialPrototype ∧
      ∀ path, (flattenAmounts realm.out).lookup path = match delta.entries.lookup path with
        | some amount => (plus printed (readAmount (asLeaves base.entries) path) amount).amount?
        | none => base.entries.lookup path := by
  have distinct : (OwnEntries.keys (addAmounts printed base.entries delta.entries)).Nodup := by
    apply nodup_foldl_addAmount
    rw [keys_asLeaves]
    exact base.distinct
  have noClash : NoClash (OwnEntries.keys (addAmounts printed base.entries delta.entries)) := by
    intro one here other there
    exact clear one (mem_keys_addAmounts here) other (mem_keys_addAmounts there)
  have plainSum : PlainPaths (OwnEntries.keys (addAmounts printed base.entries delta.entries)) :=
    fun path member => plain path (mem_keys_addAmounts member)
  have noProto : protoName ∉ OwnEntries.keys delta.entries :=
    fun member => plain protoName (List.mem_append_right _ member) (by decide)
  rcases flatten_unflatten distinct segments_addAmounts noClash plainSum with ⟨realm, result, pristine, same⟩
  refine ⟨realm, result, pristine, fun path => ?_⟩
  rw [same, addAmounts, lookup_foldl_addAmount delta.distinct noProto]
  cases delta.entries.lookup path with
  | some amount => rfl
  | none =>
      simp only [lookup_asLeaves]
      cases base.entries.lookup path with
      | none => rfl
      | some amount => rfl

end Totals

section Sums

variable {ν : Type} [AddZeroClass ν] {printed : ν → Text}

theorem plus_iff (base delta : List (Text × ν)) (path : Text) :
    (match delta.lookup path with
      | some amount => (plus printed (readAmount (asLeaves base) path) amount).amount?
      | none => base.lookup path) = sumAt base delta path ↔
    (path ∈ OwnEntries.keys delta → path ∈ OwnEntries.keys base ∨ path ∉ OwnEntries.keys inheritedFunctions) := by
  rw [readAmount, lookup_asLeaves, sumAt]
  cases there : delta.lookup path with
  | none =>
      have absent : path ∉ OwnEntries.keys delta := not_key_of_lookup there
      simp only [absent, false_implies, iff_true]
      cases base.lookup path with
      | none => rfl
      | some amount => rfl
  | some amount =>
      have present : path ∈ OwnEntries.keys delta := mem_keys (entry_of_lookup there)
      cases before : base.lookup path with
      | some old =>
          have known : path ∈ OwnEntries.keys base := mem_keys (entry_of_lookup before)
          simp [known, plus, JsLeaf.amount?]
      | none =>
          have unknown : path ∉ OwnEntries.keys base := not_key_of_lookup before
          cases inherited : inheritedFunctions.lookup path with
          | some source =>
              have named : path ∈ OwnEntries.keys inheritedFunctions := mem_keys (entry_of_lookup inherited)
              simp [present, unknown, named, plus, JsLeaf.amount?]
          | none =>
              have unnamed : path ∉ OwnEntries.keys inheritedFunctions := not_key_of_lookup inherited
              simp [unnamed, plus, JsLeaf.amount?]

theorem sumAt_of_key {base delta : List (Text × ν)}
    {path : Text} (member : path ∈ OwnEntries.keys base ++ OwnEntries.keys delta) :
    ∃ amount, sumAt base delta path = some amount := by
  rw [sumAt]
  cases before : base.lookup path with
  | some old =>
      cases delta.lookup path with
      | none => exact ⟨old, rfl⟩
      | some amount => exact ⟨old + amount, rfl⟩
  | none => exact lookup_of_key ((List.mem_append.mp member).resolve_left (not_key_of_lookup before))

theorem totalsAdd_iff (base delta : FlatMap ν)
    (clear : NoClash (OwnEntries.keys base.entries ++ OwnEntries.keys delta.entries)) :
    TotalsAdd printed base.entries delta.entries ↔
        PlainPaths (OwnEntries.keys base.entries ++ OwnEntries.keys delta.entries) ∧
      ∀ path ∈ OwnEntries.keys delta.entries, path ∈ OwnEntries.keys base.entries ∨
          path ∉ OwnEntries.keys inheritedFunctions := by
  constructor
  · rintro ⟨realm, result, pristine, same⟩
    have plain : PlainPaths (OwnEntries.keys base.entries ++ OwnEntries.keys delta.entries) := by
      intro path member
      rcases sumAt_of_key member with ⟨amount, found⟩
      exact flattened_plain (named_unflattenAmounts segments_addAmounts result) ((same path).trans found)
    rcases flatten_addAmounts printed clear plain with ⟨_, result', -, values⟩
    cases result.symm.trans result'
    exact ⟨plain, fun path => (plus_iff base.entries delta.entries path).mp ((values path).symm.trans (same path))⟩
  · rintro ⟨plain, numbers⟩
    rcases flatten_addAmounts printed clear plain with ⟨realm, result, pristine, values⟩
    exact ⟨realm, result, pristine, fun path =>
      (values path).trans ((plus_iff base.entries delta.entries path).mpr (numbers path))⟩

end Sums

/-- A counter that is nested flattens to its map and changes no object but the result exactly when no segment of its
    paths is `__proto__`; and the running total from a base and a delta is their sum exactly when that holds of both
    and no path that only the delta has is the name of a function that all objects inherit. -/
theorem amounts_nest_and_flatten {ν : Type} [AddZeroClass ν] (printed : ν → Text) (flat base delta : FlatMap ν)
    (clear : NoClash (OwnEntries.keys base.entries ++ OwnEntries.keys delta.entries)) :
    (AmountsRoundTrip flat.entries ↔ PlainPaths (OwnEntries.keys flat.entries)) ∧
      (TotalsAdd printed base.entries delta.entries ↔
      PlainPaths (OwnEntries.keys base.entries ++ OwnEntries.keys delta.entries) ∧
        ∀ path ∈ OwnEntries.keys delta.entries, path ∈ OwnEntries.keys base.entries ∨
            path ∉ OwnEntries.keys inheritedFunctions) :=
  ⟨amounts_roundTrip_iff flat, totalsAdd_iff base delta clear⟩

section Counted

def countedBase : FlatMap ℤ where
  entries := [("total".toList, 5), ("constructor.units".toList, 2)]
  distinct := by decide
  segments := by decide +kernel
  clear := by decide +kernel

def countedDelta : FlatMap ℤ where
  entries := [("constructor.units".toList, 3), ("chat.toString.units".toList, 1)]
  distinct := by decide
  segments := by decide +kernel
  clear := by decide +kernel

theorem counted_amounts_add : AmountsRoundTrip countedBase.entries ∧
    TotalsAdd (fun amount : ℤ => (toString amount).toList) countedBase.entries countedDelta.entries := by
  have settled := amounts_nest_and_flatten
      (fun amount : ℤ => (toString amount).toList) countedBase countedBase countedDelta
    (by decide +kernel)
  exact ⟨settled.1.mpr (by decide +kernel), settled.2.mpr ⟨by decide +kernel, by decide +kernel⟩⟩

/-- A usage type of the name `__proto__`. -/
def protoAmounts : FlatMap ℤ where
  entries := [("__proto__.units".toList, 1)]
  distinct := by decide
  segments := by decide +kernel
  clear := by decide +kernel

def noAmounts : FlatMap ℤ := ⟨[], List.nodup_nil, by decide, by decide⟩

/-- A usage type of the name `toString`, counted for the first time. -/
def toStringAmounts : FlatMap ℤ where
  entries := [("toString".toList, 5)]
  distinct := by decide
  segments := by decide +kernel
  clear := by decide +kernel

/-- What is counted for a usage type of the name `__proto__` lands on the prototype of all objects, and a first
    amount for `toString` becomes a text. -/
theorem proto_amounts_lost : ¬ AmountsRoundTrip protoAmounts.entries ∧
    ¬ TotalsAdd (fun amount : ℤ => (toString amount).toList) noAmounts.entries toStringAmounts.entries := by
  constructor
  · rintro ⟨realm, result, -, same⟩
    have empty : realm.out = .node [] := by
      cases result
      rfl
    have found := same "__proto__.units".toList
    rw [empty] at found
    exact absurd found (by decide +kernel)
  · rw [totalsAdd_iff noAmounts toStringAmounts (by decide +kernel)]
    decide +kernel

end Counted

end Puter

/-
Module: Puter.Permission.PermissionKeys
Purpose: When components come back from a joined text, and which keys of the permission caches and of the flat view
  are shared. Escaping leaves the backslash alone, and reading takes every backslash for an escape.
Trusted boundary: none
Main exports: checkCacheKey, components_round_trip_iff
-/
import Puter.Permission.PathRewriter
import Puter.Permission.PermissionStore

namespace Puter

open PermissionUtil

def checkCacheKey (uid permission generation : Text) : Text :=
  join ["permission-check".toList, uid, 'g' :: generation, "p".toList, permission]

def Backslashless (components : List Text) : Prop := ∀ component ∈ components, '\\' ∉ component

instance decidableBackslashless (components : List Text) : Decidable (Backslashless components) :=
  inferInstanceAs (Decidable (∀ component ∈ components, '\\' ∉ component))

theorem unescape_escape_iff {component : Text} :
    unescapePermissionComponent (escapePermissionComponent component) = component ↔ '\\' ∉ component := by
  constructor
  · intro same
    apply noBackslash_of_sublist
    rw [same]
  · exact unescape_escape

theorem split_join_iff {components : List Text} (nonempty : components ≠ []) :
    split (join components) = components ↔ Backslashless components := by
  constructor
  · intro same component member
    rw [split, splitOn_join nonempty, List.map_map] at same
    have fixed : ∀ other ∈ components, (unescapePermissionComponent ∘ escapePermissionComponent) other = id other :=
      List.map_inj_left.mp (same.trans (List.map_id components).symm)
    exact unescape_escape_iff.mp (fixed component member)
  · exact split_join nonempty

theorem Backslashless.join_injective {left right : List Text} (leftPlain : Backslashless left)
    (rightPlain : Backslashless right) (leftNonempty : left ≠ []) (rightNonempty : right ≠ [])
    (same : join left = join right) : left = right := by
  rw [← split_join leftNonempty leftPlain, same, split_join rightNonempty rightPlain]

section Shared

theorem escape_colon (front behind : Text) :
    escapePermissionComponent (front ++ ':' :: behind) = escapePermissionComponent (front ++ ['\\', 'C'] ++ behind) := by
  have written : escapePermissionComponent (':' :: behind) =
      escapePermissionComponent ['\\', 'C'] ++ escapePermissionComponent behind := rfl
  rw [escape_append, escape_append, escape_append, written, List.append_assoc]

theorem escape_shared_iff {component : Text} :
    (∃ other, other ≠ component ∧ escapePermissionComponent other = escapePermissionComponent component) ↔
      ':' ∈ component ∨ ['\\', 'C'] <:+: component := by
  constructor
  · rintro ⟨other, differs, same⟩
    by_cases colon : ':' ∈ component
    · exact .inl colon
    · rw [escapePermissionComponent_eq_self colon] at same
      have otherColon : ':' ∈ other := by
        by_contra noColon
        exact differs ((escapePermissionComponent_eq_self noColon).symm.trans same)
      obtain ⟨front, behind, rfl⟩ := List.append_of_mem otherColon
      refine .inr ⟨escapePermissionComponent front, escapePermissionComponent behind, ?_⟩
      rw [← same, escape_append, escape_cons, if_pos rfl, List.append_assoc]
  · rintro (colon | ⟨front, behind, rfl⟩)
    · obtain ⟨front, behind, rfl⟩ := List.append_of_mem colon
      refine ⟨front ++ ['\\', 'C'] ++ behind, fun same => ?_, (escape_colon front behind).symm⟩
      have lengths := congrArg List.length same
      simp only [List.length_append, List.length_cons, List.length_nil] at lengths
      omega
    · refine ⟨front ++ ':' :: behind, fun same => ?_, escape_colon front behind⟩
      have lengths := congrArg List.length same
      simp only [List.length_append, List.length_cons, List.length_nil] at lengths
      omega

theorem join_shared_iff {components : List Text} (nonempty : components ≠ []) :
    (∃ others, others ≠ [] ∧ others ≠ components ∧ join others = join components) ↔
      ∃ component ∈ components, ':' ∈ component ∨ ['\\', 'C'] <:+: component := by
  constructor
  · rintro ⟨others, othersNonempty, differ, same⟩
    by_contra none
    refine differ ?_
    have escaped := join_inj othersNonempty nonempty same
    have lengths : others.length = components.length := by simpa using congrArg List.length escaped
    refine List.ext_getElem lengths fun place inOthers inComponents => ?_
    by_contra differsThere
    refine none ⟨components[place], List.getElem_mem inComponents, escape_shared_iff.mp ⟨_, differsThere, ?_⟩⟩
    have there := congrArg (·[place]?) escaped
    simpa [inOthers, inComponents] using there
  · rintro ⟨component, member, shared⟩
    obtain ⟨other, differs, same⟩ := escape_shared_iff.mpr shared
    obtain ⟨front, behind, rfl⟩ := List.append_of_mem member
    refine ⟨front ++ other :: behind, by simp, fun sameList => differs ?_, ?_⟩
    · exact (List.cons.inj (List.append_cancel_left sameList)).1
    · rw [join, join, List.map_append, List.map_append, List.map_cons, List.map_cons, same]

end Shared

section Keys

variable {uid uid' permission permission' generation generation' : Text}

theorem buildScanCacheKey_injective {options options' : List Text} (plain : Backslashless (uid :: generation :: options))
    (plain' : Backslashless (uid' :: generation' :: options'))
    (same : buildScanCacheKey uid options generation = buildScanCacheKey uid' options' generation') :
    uid = uid' ∧ options = options' ∧ generation = generation' := by
  simp only [Backslashless, List.forall_mem_cons] at plain plain'
  have components := Backslashless.join_injective (by simp [Backslashless, plain]; exact plain.2.2)
    (by simp [Backslashless, plain']; exact plain'.2.2) (List.cons_ne_nil _ _) (List.cons_ne_nil _ _) same
  simp only [List.cons.injEq, true_and] at components
  exact ⟨components.1, components.2.2, components.2.1⟩

theorem checkCacheKey_injective (plain : Backslashless [uid, permission, generation])
    (plain' : Backslashless [uid', permission', generation'])
    (same : checkCacheKey uid permission generation = checkCacheKey uid' permission' generation') :
    uid = uid' ∧ permission = permission' ∧ generation = generation' := by
  simp only [Backslashless, List.forall_mem_cons] at plain plain'
  have components := Backslashless.join_injective (by simp [Backslashless, plain])
    (by simp [Backslashless, plain']) (List.cons_ne_nil _ _) (List.cons_ne_nil _ _) same
  simp only [List.cons.injEq, true_and] at components
  exact ⟨components.1, components.2.2.1, components.2.1⟩

theorem flatKey_injective {holder holder' : Nat} (plain : '\\' ∉ permission) (plain' : '\\' ∉ permission')
    (same : flatKey holder permission = flatKey holder' permission') : holder = holder' ∧ permission = permission' := by
  have sameHolder := flatKey_holder_inj same
  subst sameHolder
  have escaped := join_inj (List.cons_ne_nil _ _) (List.cons_ne_nil _ _) same
  simp only [List.map_cons, List.map_nil, List.cons.injEq, true_and, and_true] at escaped
  refine ⟨rfl, ?_⟩
  rw [← unescape_escape plain, escaped, unescape_escape plain']

end Keys

/-- Components come back from the joined text just when none of them has a backslash, and keys made of such
    components tell apart what they are made of. -/
theorem components_round_trip_iff (components : List Text) (nonempty : components ≠ []) :
    (split (join components) = components ↔ Backslashless components) ∧
      (∀ others, others ≠ [] → Backslashless components → Backslashless others → join components = join others →
        components = others) ∧
      ((∃ others, others ≠ [] ∧ others ≠ components ∧ join others = join components) ↔
        ∃ component ∈ components, ':' ∈ component ∨ ['\\', 'C'] <:+: component) ∧
      (∀ uid uid' options options' generation generation', Backslashless (uid :: generation :: options) →
        Backslashless (uid' :: generation' :: options') →
        buildScanCacheKey uid options generation = buildScanCacheKey uid' options' generation' →
          uid = uid' ∧ options = options' ∧ generation = generation') ∧
      (∀ uid uid' permission permission' generation generation', Backslashless [uid, permission, generation] →
        Backslashless [uid', permission', generation'] →
        checkCacheKey uid permission generation = checkCacheKey uid' permission' generation' →
          uid = uid' ∧ permission = permission' ∧ generation = generation') ∧
      ∀ holder holder' permission permission', '\\' ∉ permission → '\\' ∉ permission' →
        flatKey holder permission = flatKey holder' permission' → holder = holder' ∧ permission = permission' := by
  refine ⟨split_join_iff nonempty, ?_, join_shared_iff nonempty, ?_, ?_, ?_⟩
  · intro others othersNonempty plain othersPlain same
    exact plain.join_injective othersPlain nonempty othersNonempty same
  · intro uid uid' options options' generation generation' plain plain' same
    exact buildScanCacheKey_injective plain plain' same
  · intro uid uid' permission permission' generation generation' plain plain' same
    exact checkCacheKey_injective plain plain' same
  · intro holder holder' permission permission' plain plain' same
    exact flatKey_injective plain plain' same

theorem components_round_trip_at :
    split (join ["perm".toList, "a:b".toList]) = ["perm".toList, "a:b".toList] ∧
      (flatKey 1 "fs:n1:read".toList = flatKey 1 "fs:n1:read".toList → 1 = 1 ∧ "fs:n1:read".toList = "fs:n1:read".toList) :=
  ⟨(components_round_trip_iff _ (List.cons_ne_nil _ _)).1.mpr (by decide),
    (components_round_trip_iff ["perm".toList] (List.cons_ne_nil _ _)).2.2.2.2.2 1 1 _ _ (by decide) (by decide)⟩

/-- A component with a backslash does not come back, and a permission that has backslashes has the keys of one that has
    colons. -/
theorem backslash_shares_key :
    split (join [['a', '\\', 'b']]) = [['a', 'b']] ∧
      (let colons := "fs:n1:read".toList
        let backslashes := "fs\\Cn1\\Cread".toList
        colons ≠ backslashes ∧ buildScanCacheKey ['u'] [colons] ['1'] = buildScanCacheKey ['u'] [backslashes] ['1'] ∧
          checkCacheKey ['u'] colons ['1'] = checkCacheKey ['u'] backslashes ['1'] ∧
          flatKey 1 colons = flatKey 1 backslashes) := by
  decide

end Puter

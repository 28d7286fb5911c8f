/-
Module: Puter.Fs.PathPrefix
Purpose: What `updatePathPrefixForUser` makes of the stored paths. The pattern selects what lies under the old prefix
  and nothing else, whatever the names are; the cut is at the JavaScript length of the prefix, which is its number
  of characters just when none of them is outside the basic plane.
Trusted boundary: SUBSTR counts characters, and LIKE tells upper and lower case apart
Main exports: Moved, updatePathPrefixForUser_moves_iff
-/
import Puter.Fs.TreeInvariant

namespace Puter

open PosixPath StateRun FSEntryStore PathForest

/-- A path under the old prefix becomes the same path under the new one, and another path stays as it is. -/
structure Moved (old new before after : Text) : Prop where
  under : ∀ rest, before = old ++ '/' :: rest → after = new ++ '/' :: rest
  other : ¬ Under '/' old before → after = before

/-- The columns other than the path, the owner and the time of the last change. -/
def SameColumns (before after : FSEntry) : Prop :=
  after = { before with
    path := after.path
    userId := after.userId
    details := { before.details with modified := after.details.modified } }

def MovesPaths (old new : Text) (before after : List FSEntry) : Prop :=
  List.Forall₂ (fun row row' => Moved old new row.path row'.path) before after

def BasicPlane (text : Text) : Prop := ∀ c ∈ text, c.toNat < 0x10000

theorem utf16Length_cons (c : Char) (text : Text) :
    utf16Length (c :: text) = (if c.toNat < 0x10000 then 1 else 2) + utf16Length text := by
  simp [utf16Length]

theorem utf16Length_eq_length_iff {text : Text} : utf16Length text = text.length ↔ BasicPlane text := by
  induction text with
  | nil => exact ⟨fun _ c member => (nomatch member), fun _ => rfl⟩
  | cons c text ih =>
      have longer := length_le_utf16Length text
      rw [BasicPlane, List.forall_mem_cons, ← BasicPlane, ← ih, utf16Length_cons, List.length_cons]
      split
      · next basic =>
        constructor
        · intro same
          exact ⟨basic, by omega⟩
        · rintro ⟨-, same⟩
          omega
      · next wide =>
        constructor
        · intro same
          omega
        · rintro ⟨basic, -⟩
          exact absurd basic wide

section Paths

variable {old new path : Text}

theorem under_iff : Under '/' old path ↔ ∃ rest, path = old ++ '/' :: rest := by
  constructor
  · rintro ⟨rest, rfl⟩
    exact ⟨rest, by simp⟩
  · rintro ⟨rest, rfl⟩
    exact under_append '/' old rest

theorem Moved.refl (old path : Text) : Moved old old path path := ⟨fun _ same => same, fun _ => rfl⟩

theorem Moved.outside (outside : ¬ Under '/' old path) : Moved old new path path :=
  ⟨fun rest same => absurd (under_iff.mpr ⟨rest, same⟩) outside, fun _ => rfl⟩

theorem rewrittenPath_moved_iff (under : Under '/' old path) :
    Moved old new path (rewrittenPath old new path) ↔ BasicPlane old := by
  obtain ⟨rest, rfl⟩ := under_iff.mp under
  have longer := length_le_utf16Length old
  rw [← utf16Length_eq_length_iff]
  constructor
  · intro moved
    have same := List.append_cancel_left (moved.under rest rfl)
    have lengths := congrArg List.length same
    simp only [List.length_drop, List.length_append, List.length_cons] at lengths
    omega
  · intro cut
    have same : rewrittenPath old new (old ++ '/' :: rest) = new ++ '/' :: rest := by
      rw [rewrittenPath, cut, List.drop_left]
    refine ⟨fun other isOther => ?_, fun outside => absurd under outside⟩
    rw [same, List.append_cancel_left isOther]

end Paths

section Run

variable {env : FsEnv} {s : FsState} {userId : Nat} {old new : Text} {newUserId : Option Nat}

def rewrittenRows (env : FsEnv) (userId : Nat) (old new : Text) (newUserId : Option Nat) (entries : List FSEntry) :
    List FSEntry :=
  if old = new then entries
  else updateWhere (fun entry => pathLike old entry.path) (rewrittenRow env userId old new newUserId) entries

theorem updatePathPrefixForUser_run (normalOld : normalizePath old = .ok old) (normalNew : normalizePath new = .ok new) :
    updatePathPrefixForUser env userId old new newUserId s =
      if old = ['/'] ∨ new = ['/'] then
        .error (.ofHttp 400 "Cannot rewrite path prefix to/from root".toList "bad_request") s
      else .ok () { s with entries := rewrittenRows env userId old new newUserId s.entries } := by
  have normalizedOld : normalized old = pure old := by rw [normalized, normalOld]
  have normalizedNew : normalized new = pure new := by rw [normalized, normalNew]
  rw [updatePathPrefixForUser, normalizedOld, normalizedNew, pure_bind, pure_bind]
  by_cases root : old = ['/'] ∨ new = ['/']
  · have refused : (old == ['/'] || new == ['/']) = true := by simpa using root
    rw [if_pos root, refused]
    rfl
  · have passed : (old == ['/'] || new == ['/']) = false := by simpa using root
    rw [if_neg root, passed, rewrittenRows]
    by_cases same : old = new
    · rw [if_pos same, same, bne_self_eq_false]
      rfl
    · rw [if_neg same, bne_iff_ne.mpr same]
      rfl

theorem rewrittenRows_sameColumns (env : FsEnv) (userId : Nat) (old new : Text) (newUserId : Option Nat)
    (entries : List FSEntry) :
    List.Forall₂ SameColumns entries (rewrittenRows env userId old new newUserId entries) := by
  rw [rewrittenRows]
  split
  · exact List.forall₂_same.mpr fun row _ => rfl
  · rw [updateWhere, List.forall₂_map_right_iff]
    refine List.forall₂_same.mpr fun row _ => ?_
    split
    · rfl
    · rfl

theorem rewrittenRows_moves_iff {entries : List FSEntry} :
    MovesPaths old new entries (rewrittenRows env userId old new newUserId entries) ↔
      old = new ∨ BasicPlane old ∨ ∀ entry ∈ entries, ¬ Under '/' old entry.path := by
  rw [rewrittenRows]
  by_cases same : old = new
  · subst same
    rw [if_pos rfl]
    refine iff_of_true ?_ (.inl rfl)
    exact List.forall₂_same.mpr fun row _ => Moved.refl old row.path
  · rw [if_neg same, MovesPaths, updateWhere, List.forall₂_map_right_iff, List.forall₂_same]
    have row_iff : ∀ entry : FSEntry,
        Moved old new entry.path (if pathLike old entry.path then rewrittenRow env userId old new newUserId entry
          else entry).path ↔ (Under '/' old entry.path → BasicPlane old) := by
      intro entry
      by_cases under : Under '/' old entry.path
      · rw [if_pos (pathLike_iff.mpr under), rewrittenRow_path, rewrittenPath_moved_iff under]
        exact ⟨fun basic _ => basic, fun basic => basic under⟩
      · rw [if_neg fun like => under (pathLike_iff.mp like)]
        exact iff_of_true (Moved.outside under) fun isUnder => absurd isUnder under
    constructor
    · intro moved
      by_cases basic : BasicPlane old
      · exact .inr (.inl basic)
      · exact .inr (.inr fun entry member under => basic ((row_iff entry).mp (moved entry member) under))
    · rintro (isSame | basic | outside) entry member
      · exact absurd isSame same
      · exact (row_iff entry).mpr fun _ => basic
      · exact (row_iff entry).mpr fun under => absurd under (outside entry member)

end Run

/-- The rewrite of a prefix other than the root moves the paths under it, and only these, just when the old prefix
    stays within the basic plane, nothing lies under it, or it is not changed. -/
theorem updatePathPrefixForUser_moves_iff (env : FsEnv) (s : FsState) (userId : Nat) (old new : Text)
    (newUserId : Option Nat) (normalOld : normalizePath old = .ok old) (normalNew : normalizePath new = .ok new) :
    if old = ['/'] ∨ new = ['/'] then
      ∃ error, updatePathPrefixForUser env userId old new newUserId s = .error error s
    else
      ∃ s', updatePathPrefixForUser env userId old new newUserId s = .ok () s' ∧ s' = { s with entries := s'.entries } ∧
        List.Forall₂ SameColumns s.entries s'.entries ∧
        (MovesPaths old new s.entries s'.entries ↔
          old = new ∨ BasicPlane old ∨ ∀ entry ∈ s.entries, ¬ Under '/' old entry.path) := by
  rw [updatePathPrefixForUser_run normalOld normalNew]
  by_cases root : old = ['/'] ∨ new = ['/']
  · rw [if_pos root, if_pos root]
    exact ⟨_, rfl⟩
  · rw [if_neg root, if_neg root]
    exact ⟨_, rfl, rfl, rewrittenRows_sameColumns env userId old new newUserId s.entries, rewrittenRows_moves_iff⟩

/-- Names with the characters of patterns in them are moved as they are. -/
theorem updatePathPrefixForUser_moves_patterns :
    let s := { sampleTree with entries :=
      [sampleHome, sampleRow 2 1 (some 1) "a%_!".toList "/u/a%_!/x".toList true 0,
        sampleRow 3 1 (some 1) "ab".toList "/u/abcd/x".toList true 0] }
    ∃ s', updatePathPrefixForUser openEnv 1 "/u/a%_!".toList "/u/b".toList none s = .ok () s' ∧
      MovesPaths "/u/a%_!".toList "/u/b".toList s.entries s'.entries := by
  have moves := updatePathPrefixForUser_moves_iff openEnv { sampleTree with entries :=
      [sampleHome, sampleRow 2 1 (some 1) "a%_!".toList "/u/a%_!/x".toList true 0,
        sampleRow 3 1 (some 1) "ab".toList "/u/abcd/x".toList true 0] } 1 "/u/a%_!".toList "/u/b".toList none
    (by decide +kernel) (by decide +kernel)
  rw [if_neg (by decide)] at moves
  obtain ⟨s', ran, -, -, iff⟩ := moves
  exact ⟨s', ran, iff.mpr (.inr (.inl (by simp [BasicPlane])))⟩

/-- A directory whose name is outside the basic plane: the slash below it is cut off too. -/
theorem updatePathPrefixForUser_miscuts :
    ∃ s', updatePathPrefixForUser openEnv 1 ['/', 'u', '/', '😀'] ['/', 'u', '/', 'b'] none sampleTree = .ok () s' ∧
      s'.entries.map (·.path) = [['/', 'u'], ['/', 'u', '/', '😀'], ['/', 'u', '/', 'b', 'x']] ∧
      ¬ MovesPaths ['/', 'u', '/', '😀'] ['/', 'u', '/', 'b'] sampleTree.entries s'.entries := by
  refine ⟨_, (updatePathPrefixForUser_run (by decide +kernel) (by decide +kernel)).trans (if_neg (by decide)), ?_, ?_⟩
  · decide +kernel
  · rw [rewrittenRows_moves_iff]
    rintro (same | basic | outside)
    · exact absurd same (by decide)
    · exact absurd (basic '😀' (by simp)) (by decide)
    · exact outside sampleFile (by simp [sampleTree]) (by decide)

end Puter

/-
Module: Puter.Fs.MaskedPaths
Purpose: Masked share paths lead back, and lead nowhere else. Whatever roots a request has learned, the path that
  is published for an entry of another user is resolved to the entry's own path; and a path that comes in is left
  as it is, or becomes the path of the entry that its uuid names, or one strictly beneath that entry.
Trusted boundary: none
Main exports: SharedTree, masked_paths_resolve
-/
import Puter.Fs.SharePathMask
import Puter.Fs.FsTree

namespace Puter

open PosixPath PathForest SharePathMask

/-- A filesystem in good order whose uuids are uuids, and whose homes are named after the users that own them. -/
structure SharedTree (uuidText : Nat → Text) (users : List UserRow) (entries : List FSEntry) : Prop where
  tree : WellFormed entries
  names : ∀ e ∈ entries, Segment e.name
  homes : ∀ e ∈ entries, e.parentUid = none → e.path = '/' :: e.name
  uuids : ∀ e ∈ entries, isUuid (uuidText e.uuid) = true
  uuidsDistinct : ∀ e ∈ entries, ∀ e' ∈ entries, uuidText e.uuid = uuidText e'.uuid → e = e'
  owners : ∀ e ∈ entries, e.parentUid = none → ∀ user ∈ users, user.username = e.name ↔ user.id = e.userId

section Paths

theorem pathOf_append (names others : List Text) : pathOf (names ++ others) = pathOf names ++ pathOf others := by
  simp [pathOf]

theorem pathOf_injective {names others : List Text} (noSlash : ∀ name ∈ names, '/' ∉ name)
    (noSlash' : ∀ name ∈ others, '/' ∉ name) (same : pathOf names = pathOf others) : names = others := by
  cases names with
  | nil =>
      cases others with
      | nil => rfl
      | cons name others => simp [pathOf] at same
  | cons first names =>
      cases others with
      | nil => simp [pathOf] at same
      | cons name others =>
          have cut := congrArg (List.splitOn '/') same
          rw [splitOn_pathOf (List.cons_ne_nil _ _) noSlash, splitOn_pathOf (List.cons_ne_nil _ _) noSlash'] at cut
          exact (List.cons.inj cut).2

theorem ownerSegment_pathOf {name : Text} {names : List Text} (noSlash : ∀ n ∈ name :: names, '/' ∉ n) :
    ownerSegment (pathOf (name :: names)) = name := by
  rw [ownerSegment, splitOn_pathOf (List.cons_ne_nil _ _) noSlash]
  rfl

theorem intercalate_pathOf (base : Text) (rest : List Text) :
    ['/'].intercalate (base :: rest) = base ++ pathOf rest := by
  induction rest generalizing base with
  | nil => simp [pathOf, List.intercalate]
  | cons name rest ih =>
      have step : ['/'].intercalate (base :: name :: rest) = base ++ '/' :: ['/'].intercalate (name :: rest) := by
        simp [List.intercalate]
      rw [step, ih]
      simp [pathOf]

theorem normalize_pathOf_eq_iff {parts : List Text} (nonempty : parts ≠ [])
    (noSlash : ∀ part ∈ parts, '/' ∉ part) (notEmpty : ∀ part ∈ parts, part ≠ []) :
    normalize (pathOf parts) = pathOf parts ↔ ∀ part ∈ parts, Segment part := by
  have noTrailing : parts.getLast? ≠ some [] := fun last => notEmpty [] (List.mem_of_getLast? last) rfl
  have segments := @segments_foldl_pushSegment _ [] noSlash (fun _ member => nomatch member)
  rw [normalize_pathOf nonempty noSlash]
  constructor
  · intro same
    split at same
    next left =>
      rw [or_iff_right noTrailing] at left
      rw [left] at same
      cases parts with
      | nil => exact absurd rfl nonempty
      | cons part others =>
          have lengths := congrArg List.length same
          obtain ⟨c, cs, whole⟩ := List.exists_cons_of_ne_nil (notEmpty part List.mem_cons_self)
          simp [pathOf, whole] at lengths
    next left =>
      rw [List.append_nil] at same
      have kept :=
        pathOf_injective (fun name member => (segments name (List.mem_reverse.mp member)).noSlash) noSlash same
      intro part member
      rw [← kept] at member
      exact segments part (List.mem_reverse.mp member)
  · intro all
    rw [foldl_pushSegment all, List.append_nil, List.reverse_reverse, if_neg (by simpa [nonempty] using noTrailing),
      List.append_nil]

end Paths

section Tree

variable {uuidText : Nat → Text} {users : List UserRow} {entries : List FSEntry}

theorem SharedTree.place (shared : SharedTree uuidText users entries) (e : FSEntry) (member : e ∈ entries) :
    ∃ home ∈ entries, home.parentUid = none ∧ home.userId = e.userId ∧
      ∃ rest, (∀ name ∈ home.name :: rest, Segment name) ∧ e.path = pathOf (home.name :: rest) := by
  induction e, member using linked_induction fsShape '/' with
  | step e member parentPlaced =>
      have segment := shared.names e member
      cases parent : e.parentUid with
      | none =>
          refine ⟨e, member, parent, rfl, [], by simpa using segment, ?_⟩
          rw [shared.homes e member parent]
          simp [pathOf]
      | some k =>
          obtain ⟨d, dMember, -, child⟩ := shared.tree.linked e member k parent
          obtain ⟨home, isHome, root, owned, rest, segments, above⟩ := parentPlaced d dMember child
          refine ⟨home, isHome, root, owned.trans child.owner_eq, rest ++ [e.name], ?_, ?_⟩
          · intro name isName
            rw [← List.cons_append] at isName
            obtain old | new := List.mem_append.mp isName
            · exact segments name old
            · exact List.mem_singleton.mp new ▸ segment
          · rw [show e.path = d.path ++ '/' :: e.name from child.path_eq, above, ← List.cons_append, pathOf_concat]

def maskedPath (uuidText : Nat → Text) (root : FSEntry) : Text :=
  maskedRoot (ownerSegment root.path) (uuidText root.uuid) root.name

theorem isUuid_noSlash {text : Text} (uuid : isUuid text = true) : '/' ∉ text := by
  intro member
  rw [isUuid, Bool.and_eq_true, List.all_eq_true] at uuid
  exact absurd (uuid.2 '/' member) (by decide)

theorem isUuid_ne_nil {text : Text} (uuid : isUuid text = true) : text ≠ [] := by
  rintro rfl
  exact absurd uuid (by decide)

theorem parseMaskedSharePath_pathOf {owner uuid : Text} {parts : List Text} (isOwner : Segment owner)
    (isId : isUuid uuid = true) (noSlash : ∀ part ∈ parts, '/' ∉ part) :
    parseMaskedSharePath (pathOf (owner :: uuid :: parts)) = some ⟨owner, uuid, ['/'].intercalate parts⟩ := by
  have cut : (['/'].intercalate (owner :: uuid :: parts)).splitOn '/' = owner :: uuid :: parts := by
    apply List.splitOn_intercalate
    · intro part member
      rw [List.mem_cons, List.mem_cons] at member
      obtain rfl | rfl | member := member
      · exact isOwner.noSlash
      · exact isUuid_noSlash isId
      · exact noSlash part member
    · exact List.cons_ne_nil _ _
  rw [← (intercalate_nil_cons _ (List.cons_ne_nil _ _)).2, parseMaskedSharePath]
  simp only [cut]
  rw [if_neg (by simp [isOwner.nonempty, isUuid_ne_nil isId, isId])]

theorem getEntryByUuid_self (shared : SharedTree uuidText users entries) {e : FSEntry} (member : e ∈ entries) :
    getEntryByUuid uuidText entries (uuidText e.uuid) = some e := by
  have isFound : (entries.find? fun entry => uuidText entry.uuid == uuidText e.uuid).isSome :=
    List.find?_isSome.mpr ⟨e, member, beq_self_eq_true _⟩
  obtain ⟨found, isFound⟩ := Option.isSome_iff_exists.mp isFound
  have same : uuidText found.uuid = uuidText e.uuid := by simpa using List.find?_some isFound
  rw [getEntryByUuid, isFound, shared.uuidsDistinct found (List.mem_of_find?_eq_some isFound) e member same]

theorem realPath_below {root : FSEntry} {owner uuid : Text} {names rest : List Text} (isRoot : root.path = pathOf names)
    (nonempty : names ≠ []) (owned : ownerSegment root.path = owner) (segment : Segment root.name)
    (segments : ∀ name ∈ names ++ rest, Segment name) :
    realPath root ⟨owner, uuid, ['/'].intercalate (root.name :: rest)⟩ = some (root.path ++ pathOf rest) := by
  have cut : (['/'].intercalate (root.name :: rest)).splitOn '/' = root.name :: rest := by
    apply List.splitOn_intercalate
    · intro part member
      obtain rfl | member := List.mem_cons.mp member
      · exact segment.noSlash
      · exact (segments part (List.mem_append_right _ member)).noSlash
    · exact List.cons_ne_nil _ _
  have kept : (root.name :: rest).filter (· ≠ []) = root.name :: rest := by
    rw [List.filter_eq_self]
    intro part member
    obtain rfl | member := List.mem_cons.mp member
    · simpa using segment.nonempty
    · simpa using (segments part (List.mem_append_right _ member)).nonempty
  have normal : normalize (root.path ++ pathOf rest) = root.path ++ pathOf rest := by
    rw [isRoot, ← pathOf_append, normalize_pathOf_eq_iff (by simp [nonempty])]
    · exact segments
    · exact fun part member => (segments part member).noSlash
    · exact fun part member => (segments part member).nonempty
  rw [realPath, if_neg (by simp [owned])]
  simp only [cut, kept]
  rw [if_neg (by simp), intercalate_pathOf, if_neg (by simp [normal])]

theorem resolves_below (shared : SharedTree uuidText users entries) {root : FSEntry} (member : root ∈ entries)
    {rest : List Text} (segments : ∀ name ∈ rest, Segment name) (context : Option SharePathMasker)
    {actor : Option Actor} (other : actorUsername actor ≠ some (ownerSegment root.path)) :
    (resolveSharePath uuidText entries context actor (maskedPath uuidText root ++ pathOf rest)).1 =
      root.path ++ pathOf rest := by
  obtain ⟨home, -, -, -, below, above, isRoot⟩ := shared.place root member
  have owner : ownerSegment root.path = home.name := by
    rw [isRoot, ownerSegment_pathOf fun name isName => (above name isName).noSlash]
  have segment := shared.names root member
  have spelled : maskedPath uuidText root ++ pathOf rest =
      pathOf (ownerSegment root.path :: uuidText root.uuid :: root.name :: rest) := by
    simp [maskedPath, maskedRoot, pathOf]
  have parsed := @parseMaskedSharePath_pathOf (ownerSegment root.path) _ (root.name :: rest)
    (owner ▸ above home.name List.mem_cons_self) (shared.uuids root member) (by
      intro part isPart
      obtain rfl | isPart := List.mem_cons.mp isPart
      · exact segment.noSlash
      · exact (segments part isPart).noSlash)
  have real := @realPath_below _ _ (uuidText root.uuid) _ rest isRoot (List.cons_ne_nil _ _) rfl segment (by
    intro name isName
    obtain isName | isName := List.mem_append.mp isName
    · exact above name isName
    · exact segments name isName)
  rw [spelled, resolveSharePath, parsed]
  simp only [if_neg other, getEntryByUuid_self shared member, real]

end Tree

section Learning

variable {uuidText : Nat → Text} {users : List UserRow} {entries : List FSEntry}

def LearnedRoots (uuidText : Nat → Text) (entries : List FSEntry) (masker : SharePathMasker) : Prop :=
  ∀ root ∈ masker.roots, ∃ e ∈ entries, root = (e.path, maskedPath uuidText e)

theorem LearnedRoots.learn {masker : SharePathMasker} (learned : LearnedRoots uuidText entries masker)
    {e : FSEntry} (member : e ∈ entries) :
    LearnedRoots uuidText entries (masker.learn e.path (maskedPath uuidText e)) := by
  unfold SharePathMasker.learn
  split
  · intro root isRoot
    obtain ⟨old, isOld, rfl⟩ := List.mem_map.mp isRoot
    split
    · exact ⟨e, member, rfl⟩
    · exact learned old isOld
  · intro root isRoot
    obtain isRoot | isRoot := List.mem_append.mp isRoot
    · exact learned root isRoot
    · exact ⟨e, member, List.mem_singleton.mp isRoot⟩

/-- What a request has made of its masker so far: roots were learned from entries, paths were resolved, and
    paths were masked, for whichever actors. -/
inductive ContextOf (uuidText : Nat → Text) (entries : List FSEntry) : Option SharePathMasker → Prop where
  | fresh : ContextOf uuidText entries none
  | learns {context : Option SharePathMasker} (before : ContextOf uuidText entries context) (actor : Option Actor)
      {roots : List FSEntry} (real : ∀ root ∈ roots, root ∈ entries) :
      ContextOf uuidText entries (some (learnShareRoots uuidText context actor roots))
  | resolves {context : Option SharePathMasker} (before : ContextOf uuidText entries context) (actor : Option Actor)
      (path : Text) : ContextOf uuidText entries (resolveSharePath uuidText entries context actor path).2
  | masks {context : Option SharePathMasker} (before : ContextOf uuidText entries context) (actor : Option Actor) :
      ContextOf uuidText entries (some (maskerFor context actor))

theorem LearnedRoots.maskerFor {context : Option SharePathMasker}
    (learned : ∀ masker, context = some masker → LearnedRoots uuidText entries masker) (actor : Option Actor) :
    LearnedRoots uuidText entries (maskerFor context actor) := by
  unfold SharePathMask.maskerFor
  cases context with
  | none => exact fun root isRoot => nomatch isRoot
  | some existing =>
      dsimp only
      split
      · exact learned existing rfl
      · split
        · exact learned existing rfl
        · exact fun root isRoot => nomatch isRoot

theorem LearnedRoots.learnShareRoots {context : Option SharePathMasker}
    (learned : ∀ masker, context = some masker → LearnedRoots uuidText entries masker) (actor : Option Actor)
    {roots : List FSEntry} (real : ∀ root ∈ roots, root ∈ entries) :
    LearnedRoots uuidText entries (learnShareRoots uuidText context actor roots) := by
  unfold SharePathMask.learnShareRoots
  generalize SharePathMask.maskerFor context actor = masker, LearnedRoots.maskerFor learned actor = start
  clear learned
  induction roots generalizing masker with
  | nil => exact start
  | cons root others ih =>
      rw [List.foldl_cons]
      apply ih fun other isOther => real other (List.mem_cons_of_mem _ isOther)
      split
      · exact start
      · exact start.learn (real root List.mem_cons_self)

theorem realPath_some {root : FSEntry} {parsed : MaskedSharePath} {real : Text}
    (found : realPath root parsed = some real) :
    ownerSegment root.path = parsed.ownerUsername ∧
      ∃ rest, (∀ name ∈ rest, name ≠ [] ∧ '/' ∉ name) ∧ real = root.path ++ pathOf rest ∧
        normalize real = real := by
  unfold realPath at found
  split at found
  · cases found
  next owner =>
  rw [not_not] at owner
  split at found
  · cases found
  next head rest segments =>
  split at found
  · cases found
  dsimp only at found
  split at found
  · cases found
  next normal =>
  rw [not_not, intercalate_pathOf] at normal
  rw [intercalate_pathOf, Option.some.injEq] at found
  refine ⟨owner, rest, fun name member => ?_, found.symm, found ▸ normal⟩
  have isPart : name ∈ (parsed.tail.splitOn '/').filter (· ≠ []) := segments ▸ List.mem_cons_of_mem _ member
  obtain ⟨part, nonempty⟩ := List.mem_filter.mp isPart
  exact ⟨by simpa using nonempty, slash_notMem_splitOn name part⟩

theorem resolveSharePath_cases (uuidText : Nat → Text) (entries : List FSEntry) (context : Option SharePathMasker)
    (actor : Option Actor) (path : Text) :
    resolveSharePath uuidText entries context actor path = (path, context) ∨
      ∃ parsed, parseMaskedSharePath path = some parsed ∧
        ∃ root ∈ entries, uuidText root.uuid = parsed.rootUuid ∧ ∃ real, realPath root parsed = some real ∧
          resolveSharePath uuidText entries context actor path =
            (real, some ((maskerFor context actor).learn root.path
              (maskedRoot parsed.ownerUsername (uuidText root.uuid) root.name))) := by
  unfold resolveSharePath
  cases readPath : parseMaskedSharePath path with
  | none => exact .inl rfl
  | some parsed =>
      dsimp only
      split
      · exact .inl rfl
      · cases found : getEntryByUuid uuidText entries parsed.rootUuid with
        | none => exact .inl rfl
        | some root =>
            cases isReal : realPath root parsed with
            | none => exact .inl (by simp only [isReal])
            | some real =>
                refine .inr ⟨parsed, rfl, root, List.mem_of_find?_eq_some found, by simpa using List.find?_some found,
                  real, isReal, ?_⟩
                simp only [isReal]

theorem ContextOf.learned {context : Option SharePathMasker} (reached : ContextOf uuidText entries context) :
    ∀ masker, context = some masker → LearnedRoots uuidText entries masker := by
  induction reached with
  | fresh => exact fun masker isMasker => nomatch isMasker
  | learns before actor real learned =>
      rintro masker ⟨⟩
      exact LearnedRoots.learnShareRoots learned actor real
  | @resolves context before actor path learned =>
      intro masker isMasker
      obtain same | ⟨parsed, -, root, member, -, real, isReal, same⟩ :=
        resolveSharePath_cases uuidText entries context actor path
      · rw [same] at isMasker
        exact learned masker isMasker
      · rw [same] at isMasker
        cases isMasker
        rw [← (realPath_some isReal).1]
        exact (LearnedRoots.maskerFor learned actor).learn member
  | masks before actor learned =>
      rintro masker ⟨⟩
      exact LearnedRoots.maskerFor learned actor

end Learning

section Masking

variable {uuidText : Nat → Text} {users : List UserRow} {entries : List FSEntry}

def AtOrAbove (base path : Text) : Prop := path = base ∨ Under '/' base path

theorem longestLearnedRoot_some {masker : SharePathMasker} {path best : Text}
    (found : masker.longestLearnedRoot path = some best) :
    AtOrAbove best path ∧ ∃ masked, (best, masked) ∈ masker.roots := by
  unfold SharePathMasker.longestLearnedRoot at found
  have scan : ∀ (roots : List (Text × Text)) (start : Option Text),
      (∀ b, start = some b → AtOrAbove b path ∧ ∃ masked, (b, masked) ∈ masker.roots) →
      (∀ root ∈ roots, root ∈ masker.roots) →
      ∀ b, roots.foldl (fun bestReal root =>
          if path ≠ root.1 ∧ (root.1 ++ ['/']).isPrefixOf path = false then bestReal
          else if bestReal.all fun best => decide (best.length < root.1.length) then some root.1
          else bestReal) start = some b → AtOrAbove b path ∧ ∃ masked, (b, masked) ∈ masker.roots := by
    intro roots
    induction roots with
    | nil => exact fun start holds _ b isBest => holds b isBest
    | cons root others ih =>
        intro start holds part b isBest
        rw [List.foldl_cons] at isBest
        refine ih _ (fun b' isBest' => ?_)
          (fun r isRoot => part r (List.mem_cons_of_mem _ isRoot)) b isBest
        split at isBest'
        · exact holds b' isBest'
        next covers =>
        split at isBest'
        · cases isBest'
          rw [not_and_or, not_not, Bool.not_eq_false, List.isPrefixOf_iff_prefix] at covers
          exact ⟨covers, root.2, part root List.mem_cons_self⟩
        · exact holds b' isBest'
  exact scan masker.roots none (fun b isBest => nomatch isBest) (fun root isRoot => isRoot) best found

theorem lookup_of_mem {pairs : List (Text × Text)} {key value : Text} (member : (key, value) ∈ pairs) :
    ∃ kept, pairs.lookup key = some kept ∧ (key, kept) ∈ pairs := by
  induction pairs with
  | nil => cases member
  | cons pair others ih =>
      rw [List.lookup_cons]
      split
      next same =>
        rw [beq_iff_eq] at same
        exact ⟨pair.2, rfl, same ▸ List.mem_cons_self⟩
      next differs =>
        obtain ⟨kept, isKept, later⟩ := ih (by
          obtain rfl | later := List.mem_cons.mp member
          · simp at differs
          · exact later)
        exact ⟨kept, isKept, List.mem_cons_of_mem _ later⟩

theorem rest_of_atOrAbove {names others : List Text}
    (segments : ∀ name ∈ names, Segment name) (segments' : ∀ name ∈ others, Segment name) (covers : AtOrAbove (pathOf names) (pathOf others)) :
    ∃ rest, others = names ++ rest := by
  obtain same | ⟨tail, same⟩ := covers
  · exact ⟨[], by rw [List.append_nil, pathOf_injective (fun name member => (segments' name member).noSlash)
      (fun name member => (segments name member).noSlash) same]⟩
  · have cut : pathOf (names ++ tail.splitOn '/') = pathOf others := by
      rw [← same, pathOf_append, ← (intercalate_nil_cons _ (List.splitOn_ne_nil '/' tail)).2,
        List.intercalate_splitOn, List.append_assoc, List.singleton_append]
    refine ⟨tail.splitOn '/', (pathOf_injective ?_ (fun name member => (segments' name member).noSlash) cut).symm⟩
    intro name member
    obtain member | member := List.mem_append.mp member
    · exact (segments name member).noSlash
    · exact slash_notMem_splitOn name member

def OwnedByAnother (actor : Option Actor) (e : FSEntry) : Prop :=
  ∃ userId, actorUserId actor = some userId ∧ e.userId ≠ userId

theorem maskerFor_actorUserId (context : Option SharePathMasker) {actor : Option Actor} {userId : Nat}
    (known : actorUserId actor = some userId) : (maskerFor context actor).actorUserId = some userId := by
  unfold maskerFor
  cases context with
  | none => exact known
  | some existing =>
      dsimp only
      rw [known]
      split
      next same =>
        obtain absent | same := same
        · cases absent
        · exact same.symm
      next => split <;> rfl

theorem mask_cases (shared : SharedTree uuidText users entries) {masker : SharePathMasker}
    (learned : LearnedRoots uuidText entries masker) {userId : Nat} (known : masker.actorUserId = some userId)
    {e : FSEntry} (member : e ∈ entries) (foreign : e.userId ≠ userId) :
    ∃ root ∈ entries, ∃ rest, (∀ name ∈ rest, Segment name) ∧ e.path = root.path ++ pathOf rest ∧
      masker.mask uuidText e = maskedPath uuidText root ++ pathOf rest := by
  obtain ⟨home, -, -, -, below, segments, isPath⟩ := shared.place e member
  have owner : ownerSegment e.path = home.name := by
    rw [isPath, ownerSegment_pathOf fun name isName => (segments name isName).noSlash]
  unfold SharePathMasker.mask
  rw [known, if_neg (by simpa using Ne.symm foreign)]
  cases found : masker.longestLearnedRoot e.path with
  | some best =>
      obtain ⟨covers, masked, isRoot⟩ := longestLearnedRoot_some found
      obtain ⟨kept, isKept, isRoot⟩ := lookup_of_mem isRoot
      obtain ⟨root, isEntry, same⟩ := learned _ isRoot
      obtain ⟨rfl, rfl⟩ := Prod.mk.inj same
      obtain ⟨home', -, -, -, above, segments', isPath'⟩ := shared.place root isEntry
      rw [isPath, isPath'] at covers
      obtain ⟨rest, names⟩ := rest_of_atOrAbove segments' segments covers
      have whole : e.path = root.path ++ pathOf rest := by rw [isPath, names, pathOf_append, isPath']
      refine ⟨root, isEntry, rest, fun name isName => ?_, whole, ?_⟩
      · exact segments name (names ▸ List.mem_append_right _ isName)
      · dsimp only [SharePathMasker.belowRoot]
        rw [isKept, whole, List.drop_left, Option.getD_some]
  | none =>
      refine ⟨e, member, [], (fun name isName => nomatch isName), by simp [pathOf], ?_⟩
      have named := shared.names e member
      dsimp only
      rw [if_neg (by simp [owner, named.nonempty, (segments home.name List.mem_cons_self).nonempty])]
      simp [maskedPath, pathOf]

def ActsForUser (users : List UserRow) (actor : Option Actor) : Prop :=
  ∀ userId, actorUserId actor = some userId →
    ∃ user ∈ users, user.id = userId ∧ actorUsername actor = some user.username

theorem ownerSegment_ne_username (shared : SharedTree uuidText users entries) {actor : Option Actor}
    (acts : ActsForUser users actor) {e : FSEntry} (member : e ∈ entries) (foreign : OwnedByAnother actor e) :
    actorUsername actor ≠ some (ownerSegment e.path) := by
  obtain ⟨userId, known, differs⟩ := foreign
  obtain ⟨user, isUser, rfl, named⟩ := acts userId known
  obtain ⟨home, isHome, root, owned, rest, segments, isPath⟩ := shared.place e member
  rw [named, isPath, ownerSegment_pathOf fun name isName => (segments name isName).noSlash]
  intro same
  apply differs
  rw [← owned]
  exact ((shared.owners home isHome root user isUser).mp (Option.some.inj same)).symm

theorem ownerSegment_append {base : Text} {names rest : List Text} (nonempty : names ≠ [])
    (isBase : base = pathOf names) (noSlash : ∀ name ∈ names ++ rest, '/' ∉ name) : ownerSegment (base ++ pathOf rest) = ownerSegment base := by
  cases names with
  | nil => exact absurd rfl nonempty
  | cons name names =>
      have whole : pathOf (name :: names) ++ pathOf rest = pathOf (name :: (names ++ rest)) := by
        rw [← pathOf_append, List.cons_append]
      rw [isBase, whole, @ownerSegment_pathOf name (names ++ rest) noSlash,
        ownerSegment_pathOf fun n member => noSlash n (List.mem_append_left _ member)]

/-- What a path may be resolved to: itself, or the path of the entry that its uuid names, or a path strictly
    beneath that entry; in the tree of the user it names. -/
def Confined (uuidText : Nat → Text) (entries : List FSEntry) (path resolved : Text) : Prop :=
  resolved = path ∨
    ∃ parsed, parseMaskedSharePath path = some parsed ∧
      ∃ root ∈ entries, uuidText root.uuid = parsed.rootUuid ∧ ownerSegment resolved = parsed.ownerUsername ∧
        ∃ rest, (∀ name ∈ rest, Segment name) ∧ resolved = root.path ++ pathOf rest

theorem resolveSharePath_confined (shared : SharedTree uuidText users entries) (context : Option SharePathMasker)
    (actor : Option Actor) (path : Text) :
    Confined uuidText entries path (resolveSharePath uuidText entries context actor path).1 := by
  obtain same | ⟨parsed, isParsed, root, member, named, real, isReal, same⟩ :=
    resolveSharePath_cases uuidText entries context actor path
  · exact .inl (by rw [same])
  · obtain ⟨owner, rest, parts, rfl, normal⟩ := realPath_some isReal
    obtain ⟨home, -, -, -, below, segments, isPath⟩ := shared.place root member
    have allParts : ∀ part ∈ home.name :: below ++ rest, part ≠ [] ∧ '/' ∉ part := by
      intro part isPart
      obtain isPart | isPart := List.mem_append.mp isPart
      · exact ⟨(segments part isPart).nonempty, (segments part isPart).noSlash⟩
      · exact parts part isPart
    have all : ∀ part ∈ home.name :: below ++ rest, Segment part := by
      rw [isPath, ← pathOf_append] at normal
      exact (normalize_pathOf_eq_iff (by simp) (fun part isPart => (allParts part isPart).2)
        fun part isPart => (allParts part isPart).1).mp normal
    refine .inr ⟨parsed, isParsed, root, member, named, ?_, rest, fun name isName => ?_, by rw [same]⟩
    · rw [same, ownerSegment_append (List.cons_ne_nil _ _) isPath fun part isPart => (allParts part isPart).2]
      exact owner
    · exact all name (List.mem_append_right _ isName)

end Masking

section Sample

def sampleUuid (n : Nat) : Text := "00000000-0000-4000-8000-00000000000".toList ++ decimal n

def aliceAndBob : List UserRow :=
  [⟨1, ['1'], ['a', 'l', 'i', 'c', 'e'], true⟩, ⟨2, ['2'], ['b', 'o', 'b'], true⟩]

def aliceRow (uuid : Nat) (parent : Option Nat) (name path : Text) (isDir : Bool) : FSEntry :=
  ⟨uuid, uuid, 1, parent, parent, name, path, isDir, false, none, false, none, none, none, 0,
    ⟨none, none, none, none, false, 0, 0, 0⟩⟩

def aliceEntries : List FSEntry :=
  [aliceRow 1 none ['a', 'l', 'i', 'c', 'e'] "/alice".toList true,
    aliceRow 2 (some 1) ['W'] "/alice/W".toList true,
    aliceRow 3 (some 2) ['f'] "/alice/W/f".toList false]

theorem aliceEntries_shared : SharedTree sampleUuid aliceAndBob aliceEntries where
  tree := by decide +kernel
  names := fun e member => ((by decide +kernel : ∀ e ∈ aliceEntries, PlainName e.name) e member).segment
  homes := by decide +kernel
  uuids := by decide +kernel
  uuidsDistinct := by decide +kernel
  owners := by decide +kernel

def bobActing : Option Actor := some (.ofUser ⟨2, ['2'], ['b', 'o', 'b'], true⟩)

theorem bobActing_user : ActsForUser aliceAndBob bobActing := by
  intro userId known
  exact ⟨⟨2, ['2'], ['b', 'o', 'b'], true⟩, by simp [aliceAndBob], Option.some.inj known, rfl⟩

end Sample

end Puter

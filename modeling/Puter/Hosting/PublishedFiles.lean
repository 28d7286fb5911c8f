/-
Module: Puter.Hosting.PublishedFiles
Purpose: What a hosted site publishes. The reserved names are looked for in the normalized request path, but the
  store trims a path before it looks it up, and the target of an error page is not compared with the name of
  the config file. The module says exactly for which requests a site serves nothing but a file strictly
  beneath its root that is neither worker source nor the config file.
Trusted boundary: none
Main exports: lookedUp, serveSite_publishes_iff
-/
import Puter.Fs.TreeInvariant
import Puter.Hosting.PuterSite

namespace Puter

open PosixPath FSEntryStore PercentEncoding

def lookedUp (urlPath : Text) : Text :=
  let trimmed := urlPath.rdropWhile isSpace
  if trimmed.getLast? = some '/' then trimmed.dropLast else trimmed

def Reserved (urlPath : Text) : Bool := isSiteConfigPath urlPath || isWorkersSourcePath urlPath

/-- A file strictly beneath the root that is neither worker source nor the config file. -/
structure Published (root e : FSEntry) : Prop where
  isFile : e.isDir = false
  beneath : ∃ rest, rest ≠ [] ∧ e.path = root.path ++ '/' :: rest ∧ isWorkersSourcePath ('/' :: rest) = false
  notConfig : e.name ≠ siteConfigName

section Texts

variable {base tail urlPath : Text}

theorem trim_below (absolute : base.head? = some '/') (below : tail.head? = some '/') :
    trim (base ++ tail) = base ++ tail.rdropWhile isSpace := by
  have notSpace : isSpace '/' = false := by decide
  have front : (base ++ tail).dropWhile isSpace = base ++ tail := by
    cases base with
    | nil => cases absolute
    | cons first rest =>
        rw [List.head?_cons, Option.some.injEq] at absolute
        subst absolute
        simp [notSpace]
  have stops : tail.reverse.dropWhile isSpace ≠ [] := by
    rw [Ne, List.dropWhile_eq_nil_iff]
    intro allSpace
    have slash := allSpace '/' (List.mem_reverse.mpr (List.mem_of_mem_head? below))
    rw [notSpace] at slash
    cases slash
  rw [trim, front, List.rdropWhile, List.reverse_append, List.dropWhile_append]
  simp [stops, List.rdropWhile]

theorem rdropWhile_isSpace_ne_nil (below : urlPath.head? = some '/') : urlPath.rdropWhile isSpace ≠ [] := by
  rw [Ne, List.rdropWhile_eq_nil_iff]
  intro allSpace
  have slash := allSpace '/' (List.mem_of_mem_head? below)
  rw [show isSpace '/' = false by decide] at slash
  cases slash

theorem normalizePath_below (absolute : base.head? = some '/') (below : urlPath.head? = some '/') {path : Text}
    (normalized : normalizePath (base ++ urlPath) = .ok path) : path = base ++ lookedUp urlPath := by
  have stays := rdropWhile_isSpace_ne_nil below
  have rooted : (base ++ urlPath.rdropWhile isSpace).head? = some '/' := by
    rw [List.head?_append, absolute]
    rfl
  have long : 1 < (base ++ urlPath.rdropWhile isSpace).length := by
    have nonempty : 0 < base.length := List.length_pos_iff.mpr fun nil => by simp [nil] at absolute
    have more : 0 < (urlPath.rdropWhile isSpace).length := List.length_pos_iff.mpr stays
    rw [List.length_append]
    omega
  unfold normalizePath at normalized
  simp only [trim_below absolute below] at normalized
  split at normalized
  · cases normalized
  · split at normalized
    · cases normalized
    · rw [Except.ok.injEq] at normalized
      rw [← normalized, lookedUp, List.getLast?_append_of_ne_nil _ stays]
      by_cases slash : (urlPath.rdropWhile isSpace).getLast? = some '/'
      · simp only [slash, long, and_self, if_true]
        exact List.dropLast_append_of_ne_nil stays
      · simp only [slash, and_false, if_false]

theorem basename_below (below : tail.head? = some '/') (last : tail.getLast? ≠ some '/') :
    basename (base ++ tail) = basename tail := by
  have nonempty : tail ≠ [] := by
    rintro rfl
    cases below
  have noTrailing : ∀ text : Text, (text ++ tail).rdropWhile (· == '/') = text ++ tail := by
    intro text
    rw [List.rdropWhile_eq_self_iff]
    intro whole isSlash
    rw [List.getLast_append_of_ne_nil whole nonempty, beq_iff_eq] at isSlash
    exact last (by rw [List.getLast?_eq_some_getLast nonempty, isSlash])
  have stops : (tail.reverse.takeWhile (· != '/')).length ≠ tail.reverse.length := by
    intro same
    have whole := (List.takeWhile_prefix (· != '/')).eq_of_length same
    have slash := List.mem_takeWhile_imp (whole ▸ List.mem_reverse.mpr (List.mem_of_mem_head? below))
    simp at slash
  have alone := noTrailing []
  rw [List.nil_append] at alone
  rw [basename, basename, noTrailing base, alone, List.rtakeWhile, List.rtakeWhile, List.reverse_append,
    List.takeWhile_append, if_neg stops]

theorem lookedUp_eq {c : Char} (last : urlPath.getLast? = some c) (notSpace : isSpace c = false)
    (notSlash : c ≠ '/') : lookedUp urlPath = urlPath := by
  have whole : urlPath.rdropWhile isSpace = urlPath := by
    rw [List.rdropWhile_eq_self_iff]
    intro nonempty
    rw [List.getLast?_eq_some_getLast nonempty, Option.some.injEq] at last
    simp [last, notSpace]
  rw [lookedUp, whole, last, if_neg (by simpa using notSlash)]

def Clean (path : Text) : Prop :=
  ∃ names : List Text, (∀ name ∈ names, Segment name) ∧
    (names ≠ [] ∧ path = pathOf names ∨ path = pathOf (names ++ [[]]))

theorem clean_normalize (absolute : urlPath.head? = some '/') : Clean (normalize urlPath) := by
  obtain ⟨parts, nonempty, noSlash, rfl⟩ := eq_pathOf absolute
  have segments := @segments_foldl_pushSegment parts [] noSlash fun _ member => nomatch member
  refine ⟨(parts.foldl (pushSegment false) []).reverse, fun name member =>
    segments name (List.mem_reverse.mp member), ?_⟩
  rw [normalize_pathOf nonempty noSlash]
  split
  · right
    rw [pathOf_concat]
  · next stays =>
      rw [not_or] at stays
      exact .inl ⟨by simpa using stays.2, List.append_nil _⟩

theorem Clean.head (clean : Clean urlPath) : urlPath.head? = some '/' := by
  obtain ⟨names, -, ⟨nonempty, rfl⟩ | rfl⟩ := clean
  · cases names with
    | nil => exact absurd rfl nonempty
    | cons name names => rfl
  · cases names with
    | nil => rfl
    | cons name names => rfl

theorem pathJoin_root_head (file : Text) : (pathJoin [['/'], file]).head? = some '/' := by
  have absolute : (['/'].intercalate ([['/'], file].filter (· ≠ []))).head? = some '/' := by
    by_cases empty : file = []
    · simp [empty, List.intercalate]
    · simp [empty, List.intercalate]
  exact (clean_normalize absolute).head

theorem resolvedUrlPath_clean {reqPath : Text} (resolved : resolvedUrlPath reqPath = some urlPath) :
    Clean urlPath := by
  obtain ⟨decoded, -, rfl⟩ := Option.map_eq_some_iff.mp resolved
  exact clean_normalize (pathJoin_root_head decoded)

theorem errorTarget_clean {config : Option SiteConfig} {status : ℕ} {target : Text × ℕ}
    (found : errorTarget config status = some target) : Clean target.1 := by
  obtain ⟨_, -, found⟩ := Option.bind_eq_some_iff.mp found
  obtain ⟨rule, -, found⟩ := Option.bind_eq_some_iff.mp found
  dsimp only at found
  split at found
  · cases found
  · cases found
    exact clean_normalize (pathJoin_root_head rule.file)

theorem isWorkersSourcePath_pathOf {parts : List Text} (nonempty : parts ≠ [])
    (noSlash : ∀ part ∈ parts, '/' ∉ part) :
    isWorkersSourcePath (pathOf parts) = false ↔ ∀ part ∈ parts, part.map lowerChar ≠ workersFolder := by
  rw [isWorkersSourcePath, splitOn_pathOf nonempty noSlash, List.any_eq_false, List.forall_mem_cons]
  simp only [decide_eq_true_eq]
  exact ⟨fun all => all.2, fun all => ⟨by decide, all⟩⟩

theorem pathJoin_pair {first second : Text} (some_first : first ≠ []) (some_second : second ≠ []) :
    pathJoin [first, second] = normalize (first ++ '/' :: second) := by
  have kept : [first, second].filter (· ≠ []) = [first, second] :=
    List.filter_eq_self.mpr (by simp [some_first, some_second])
  rw [pathJoin, kept]
  simp [List.intercalate]

theorem plainName_indexHtml : PlainName indexHtml := by decide

theorem folder_index (plain : PlainPath base) (clean : Clean urlPath)
    (notWorkers : isWorkersSourcePath urlPath = false) :
    ∃ rest, rest ≠ [] ∧ pathJoin [base ++ urlPath, indexHtml] = base ++ '/' :: rest ∧
      lookedUp ('/' :: rest) = '/' :: rest ∧ isWorkersSourcePath ('/' :: rest) = false ∧
      basename ('/' :: rest) = indexHtml := by
  obtain ⟨baseNames, baseNonempty, basePlain, rfl⟩ := plain
  obtain ⟨names, segments, shape⟩ := clean
  obtain ⟨gap, isGap, rfl⟩ : ∃ gap : List Text, (gap = [] ∧ names ≠ [] ∨ gap = [[]]) ∧
      urlPath = pathOf (names ++ gap) := by
    obtain ⟨nonempty, rfl⟩ | rfl := shape
    · exact ⟨[], .inl ⟨rfl, nonempty⟩, by rw [List.append_nil]⟩
    · exact ⟨[[]], .inr rfl, rfl⟩
  have indexSegment := plainName_indexHtml.segment
  have gapNoSlash : ∀ part ∈ gap, '/' ∉ part := by
    obtain ⟨rfl, -⟩ | rfl := isGap
    · exact fun _ member => nomatch member
    · exact List.forall_mem_singleton.mpr List.not_mem_nil
  have partsNonempty : names ++ gap ≠ [] := by
    obtain ⟨rfl, nonempty⟩ | rfl := isGap
    · simpa using nonempty
    · simp
  have noSlash : ∀ part ∈ names ++ gap, '/' ∉ part := by
    intro part member
    obtain isName | inGap := List.mem_append.mp member
    · exact (segments part isName).noSlash
    · exact gapNoSlash part inGap
  obtain ⟨rest, isRest⟩ : ∃ rest, pathOf (names ++ [indexHtml]) = '/' :: rest := by
    cases names with
    | nil => exact ⟨_, rfl⟩
    | cons name names => exact ⟨_, rfl⟩
  have lastLetter : ('/' :: rest).getLast? = some 'l' := by
    rw [← isRest, pathOf_concat]
    exact List.getLast?_append_of_ne_nil _ (List.cons_ne_nil _ _)
  refine ⟨rest, ?_, ?_, lookedUp_eq lastLetter (by decide) (by decide), ?_, ?_⟩
  · rintro rfl
    simp at lastLetter
  · have kept : pathOf baseNames ++ pathOf (names ++ gap) ≠ [] := by
      cases baseNames with
      | nil => exact absurd rfl baseNonempty
      | cons name names => exact List.cons_ne_nil _ _
    have joined : pathOf baseNames ++ pathOf (names ++ gap) ++ '/' :: indexHtml =
        pathOf (baseNames ++ names ++ gap ++ [indexHtml]) := by
      rw [pathOf_concat]
      simp [pathOf]
    have all : ∀ name ∈ baseNames ++ names, Segment name := by
      intro name member
      obtain inBase | below := List.mem_append.mp member
      · exact (basePlain name inBase).segment
      · exact segments name below
    have piled : (baseNames ++ names ++ gap ++ [indexHtml]).foldl (pushSegment false) [] =
        (baseNames ++ names ++ [indexHtml]).reverse := by
      have skips : ∀ kept, gap.foldl (pushSegment false) kept = kept := by
        intro kept
        obtain ⟨rfl, -⟩ | rfl := isGap
        · rfl
        · simp [pushSegment]
      rw [List.foldl_append, List.foldl_append, foldl_pushSegment all, skips,
        foldl_pushSegment (List.forall_mem_singleton.mpr indexSegment)]
      simp
    have everyPart : ∀ part ∈ baseNames ++ names ++ gap ++ [indexHtml], '/' ∉ part := by
      intro part member
      obtain front | last := List.mem_append.mp member
      · obtain isName | inGap := List.mem_append.mp front
        · exact (all part isName).noSlash
        · exact gapNoSlash part inGap
      · exact List.mem_singleton.mp last ▸ indexSegment.noSlash
    rw [pathJoin_pair kept indexSegment.nonempty, joined, normalize_pathOf (by simp) everyPart, piled, List.reverse_reverse, ← isRest,
      if_neg (by simp [indexHtml]), List.append_nil, List.append_assoc]
    simp [pathOf]
  · rw [← isRest]
    rw [isWorkersSourcePath_pathOf partsNonempty noSlash] at notWorkers
    rw [isWorkersSourcePath_pathOf (by simp)]
    · intro part member
      obtain isName | isIndex := List.mem_append.mp member
      · exact notWorkers part (List.mem_append_left _ isName)
      · rw [List.mem_singleton.mp isIndex]
        decide
    · intro part member
      obtain isName | isIndex := List.mem_append.mp member
      · exact (segments part isName).noSlash
      · exact List.mem_singleton.mp isIndex ▸ indexSegment.noSlash
  · rw [← isRest, pathOf_concat]
    exact basename_child plainName_indexHtml _

theorem lookedUp_shape (absolute : urlPath.head? = some '/') :
    lookedUp urlPath = [] ∨ ∃ rest, lookedUp urlPath = '/' :: rest := by
  have stays := rdropWhile_isSpace_ne_nil absolute
  obtain ⟨rest, isRest⟩ : ∃ rest, urlPath.rdropWhile isSpace = '/' :: rest := by
    cases trimmed : urlPath.rdropWhile isSpace with
    | nil => exact absurd trimmed stays
    | cons first rest =>
        have front : first :: rest <+: urlPath := trimmed ▸ List.rdropWhile_prefix _ _
        obtain ⟨more, rfl⟩ := front
        exact ⟨rest, by simpa using absolute⟩
  rw [lookedUp, isRest]
  split
  · cases rest with
    | nil => exact .inl rfl
    | cons next rest => exact .inr ⟨_, rfl⟩
  · exact .inr ⟨rest, rfl⟩

end Texts

section Entries

variable {s : FsState} {root e : FSEntry} {urlPath : Text}

theorem entryByPath_ok {entries : List FSEntry} {path : Text} :
    entryByPath entries path = .ok (some e) ↔
      ∃ normalizedPath, normalizePath path = .ok normalizedPath ∧ entryAt entries normalizedPath = some e := by
  unfold entryByPath
  cases normalizePath path with
  | ok normalizedPath => simp [Except.map]
  | error error => simp [Except.map]

theorem PosixPath.PlainPath.head {path : Text} (plain : PlainPath path) : path.head? = some '/' := by
  obtain ⟨rest, rfl⟩ := plain.eq_cons
  rfl

theorem found_below (kept : WellKept s) (member : root ∈ s.entries) (absolute : urlPath.head? = some '/')
    (found : entryByPath s.entries (root.path ++ urlPath) = .ok (some e)) :
    e ∈ s.entries ∧ e.path = root.path ++ lookedUp urlPath := by
  obtain ⟨path, normalized, stands⟩ := entryByPath_ok.mp found
  obtain ⟨eMember, isPath⟩ := entryAt_some stands
  exact ⟨eMember, isPath.trans (normalizePath_below (kept.plainPath root member).head absolute normalized)⟩

theorem published_iff (kept : WellKept s) (member : root ∈ s.entries) (isDir : root.isDir = true)
    (absolute : urlPath.head? = some '/') (eMember : e ∈ s.entries) (isFile : e.isDir = false)
    (place : e.path = root.path ++ lookedUp urlPath) :
    Published root e ↔ Reserved (lookedUp urlPath) = false := by
  obtain ⟨c, last, -, notSlash⟩ := (kept.plainPath e eMember).getLast_plain
  obtain nothing | ⟨rest, isRest⟩ := lookedUp_shape absolute
  · rw [nothing, List.append_nil] at place
    rw [kept.tree.paths_distinct e eMember root member place, isDir] at isFile
    cases isFile
  · rw [isRest] at place ⊢
    rw [place, List.getLast?_append_of_ne_nil _ (List.cons_ne_nil _ _)] at last
    have nonempty : rest ≠ [] := by
      rintro rfl
      rw [List.getLast?_singleton, Option.some.injEq] at last
      exact notSlash last.symm
    have sameName : basename ('/' :: rest) = e.name := by
      have below := @basename_below root.path ('/' :: rest) rfl (by rw [last]; simpa using notSlash)
      rw [← kept.basename_eq eMember, place, below]
    rw [Reserved, Bool.or_eq_false_iff, isSiteConfigPath, sameName, decide_eq_false_iff_not]
    constructor
    · rintro ⟨-, ⟨rest', -, place', notWorkers⟩, notConfig⟩
      rw [place, List.append_cancel_left_eq] at place'
      exact ⟨notConfig, place' ▸ notWorkers⟩
    · exact fun ⟨notConfig, notWorkers⟩ => ⟨isFile, ⟨rest, nonempty, place, notWorkers⟩, notConfig⟩

theorem requestedEntry_file (kept : WellKept s) (member : root ∈ s.entries) (clean : Clean urlPath)
    (found : requestedEntry s.entries root.path urlPath = .ok (some e)) (isFile : e.isDir = false) :
    Reserved urlPath = false ∧ e ∈ s.entries ∧ (e.path = root.path ++ lookedUp urlPath ∨ Published root e) := by
  unfold requestedEntry at found
  split at found
  · cases found
  · next free =>
      have notReserved : Reserved urlPath = false := Bool.eq_false_iff.mpr free
      have notWorkers := (Bool.or_eq_false_iff.mp notReserved).2
      split at found
      · next entry stands =>
          split at found
          · obtain ⟨rest, nonempty, joined, same, restFree, isIndex⟩ :=
              folder_index (kept.plainPath root member) clean notWorkers
            rw [joined] at found
            obtain ⟨eMember, place⟩ := found_below kept member rfl found
            rw [same] at place
            have named : e.name = indexHtml := by
              obtain ⟨c, last, -, notSlash⟩ := (kept.plainPath e eMember).getLast_plain
              rw [place, List.getLast?_append_of_ne_nil _ (List.cons_ne_nil _ _)] at last
              have below := @basename_below root.path ('/' :: rest) rfl (by rw [last]; simpa using notSlash)
              rw [← kept.basename_eq eMember, place, below, isIndex]
            refine ⟨notReserved, eMember, .inr ⟨isFile, ⟨rest, nonempty, place, restFree⟩, ?_⟩⟩
            rw [named]
            decide
          · cases found
            obtain ⟨eMember, place⟩ := found_below kept member clean.head stands
            exact ⟨notReserved, eMember, .inl place⟩
      · obtain ⟨eMember, place⟩ := found_below kept member clean.head found
        exact ⟨notReserved, eMember, .inl place⟩

theorem normalize_plain_slash {path : Text} (plain : PlainPath path) :
    normalize (path ++ ['/']) = path ++ ['/'] := by
  obtain ⟨names, nonempty, plainNames, rfl⟩ := plain
  have segments : ∀ name ∈ names, Segment name := fun name member => (plainNames name member).segment
  have noSlash : ∀ part ∈ names ++ [[]], '/' ∉ part := by
    intro part member
    obtain isName | empty := List.mem_append.mp member
    · exact (segments part isName).noSlash
    · exact List.mem_singleton.mp empty ▸ List.not_mem_nil
  have piled : (names ++ [[]]).foldl (pushSegment false) [] = names.reverse := by
    rw [List.foldl_append, foldl_pushSegment segments, List.append_nil]
    simp [pushSegment]
  rw [← pathOf_concat, normalize_pathOf (by simp) noSlash, piled, List.reverse_reverse, if_pos (by simp),
    pathOf_concat]

theorem found_of_stored (kept : WellKept s) (member : root ∈ s.entries) (absolute : urlPath.head? = some '/')
    (eMember : e ∈ s.entries) (place : e.path = root.path ++ lookedUp urlPath) :
    entryByPath s.entries (root.path ++ urlPath) = .ok (some e) := by
  have plain := kept.plainPath e eMember
  have rootHead := (kept.plainPath root member).head
  have found : entryAt s.entries e.path = some e := by
    unfold entryAt
    cases first : s.entries.find? (·.path == e.path) with
    | none => simpa using List.find?_eq_none.mp first e eMember
    | some other =>
        have samePath : other.path = e.path := by simpa using List.find?_some first
        rw [kept.tree.paths_distinct other (List.mem_of_find?_eq_some first) e eMember samePath]
  have stays := rdropWhile_isSpace_ne_nil absolute
  have trimmed : trim (root.path ++ urlPath) = e.path ∨ trim (root.path ++ urlPath) = e.path ++ ['/'] := by
    rw [trim_below rootHead absolute, place, lookedUp]
    split
    · next slash =>
        right
        have parts := List.dropLast_append_getLast? _ slash
        rw [List.append_assoc, parts]
    · exact .inl rfl
  have normal : normalize (trim (root.path ++ urlPath)) = trim (root.path ++ urlPath) := by
    obtain same | slashed := trimmed
    · rw [same, plain.normalize_eq]
    · rw [slashed, normalize_plain_slash plain]
  have nonempty : trim (root.path ++ urlPath) ≠ [] := by
    obtain same | slashed := trimmed
    · rw [same]
      exact plain.ne_nil
    · simp [slashed]
  cases normalized : normalizePath (root.path ++ urlPath) with
  | error error =>
      simp only [normalizePath, nonempty, if_false, normal, ne_eq, not_true] at normalized
      cases normalized
  | ok path =>
      refine entryByPath_ok.mpr ⟨path, normalized, ?_⟩
      rw [normalizePath_below rootHead absolute normalized, ← place, found]

end Entries

def StoredFile (entries : List FSEntry) (path : Text) : Prop := ∃ e ∈ entries, e.isDir = false ∧ e.path = path

def DirectlyExposed (entries : List FSEntry) (root : FSEntry) (urlPath : Text) : Prop :=
  Reserved urlPath = false ∧ Reserved (lookedUp urlPath) = true ∧
    StoredFile entries (root.path ++ lookedUp urlPath)

/-- The request finds no file, and the error page for that is a file that is reserved as it is looked up. -/
def ExposedByErrorPage (env : SiteEnv) (entries : List FSEntry) (root : FSEntry) (urlPath : Text) : Prop :=
  (∃ entry, requestedEntry entries root.path urlPath = .ok entry ∧ entry.all (·.isDir) = true) ∧
    ∃ target, errorTarget (loadSiteConfig env entries root.path root.id) 404 = some target ∧
      isWorkersSourcePath target.1 = false ∧ Reserved (lookedUp target.1) = true ∧
      StoredFile entries (root.path ++ lookedUp target.1)

section Replies

variable {env : SiteEnv} {s : FsState} {root e : FSEntry} {urlPath : Text}

theorem rdropWhile_plain {path : Text} (plain : PlainPath path) : path.rdropWhile (· = '/') = path := by
  obtain ⟨c, last, -, notSlash⟩ := plain.getLast_plain
  rw [List.rdropWhile_eq_self_iff]
  intro nonempty
  rw [List.getLast?_eq_some_getLast nonempty, Option.some.injEq] at last
  simpa [last] using notSlash

theorem errorPage_eq (plain : PlainPath root.path) (config : Option SiteConfig) :
    errorPage s.entries config root.path =
      match errorTarget config 404 with
      | none => .ok none
      | some target =>
          if isWorkersSourcePath target.1 then .ok none
          else (entryByPath s.entries (root.path ++ target.1)).map fun candidate =>
            (candidate.filter (!·.isDir)).map fun entry => (entry, target.2) := by
  rw [errorPage, resolveErrorTarget, rdropWhile_plain plain]
  cases errorTarget config 404 with
  | none => rfl
  | some target =>
      dsimp only [Option.map_some]
      rw [List.drop_left]

theorem replyAt_streams (plain : PlainPath root.path) {status : Option ℕ} :
    replyAt env s.entries root urlPath = .streams e status ↔
      (requestedEntry s.entries root.path urlPath = .ok (some e) ∧ e.isDir = false ∧ status = none) ∨
        (∃ entry, requestedEntry s.entries root.path urlPath = .ok entry ∧ entry.all (·.isDir) = true) ∧
          ∃ target, errorTarget (loadSiteConfig env s.entries root.path root.id) 404 = some target ∧
            isWorkersSourcePath target.1 = false ∧
            entryByPath s.entries (root.path ++ target.1) = .ok (some e) ∧ e.isDir = false ∧
            status = some target.2 := by
  have page : replyMissing s.entries (loadSiteConfig env s.entries root.path root.id) root.path = .streams e status ↔
      ∃ target, errorTarget (loadSiteConfig env s.entries root.path root.id) 404 = some target ∧
        isWorkersSourcePath target.1 = false ∧
        entryByPath s.entries (root.path ++ target.1) = .ok (some e) ∧ e.isDir = false ∧
        status = some target.2 := by
    rw [replyMissing, errorPage_eq plain]
    cases errorTarget (loadSiteConfig env s.entries root.path root.id) 404 with
    | none => simp
    | some target =>
        simp only [Option.some.injEq, exists_eq_left']
        cases workers : isWorkersSourcePath target.1 with
        | true => simp
        | false =>
            simp only [Bool.false_eq_true, if_false, true_and]
            cases entryByPath s.entries (root.path ++ target.1) with
            | error error => simp [Except.map]
            | ok candidate =>
                cases candidate with
                | none => simp [Except.map]
                | some entry =>
                    cases dir : entry.isDir with
                    | true =>
                        simp only [Except.map, Option.filter_some, dir, Bool.not_true, Bool.false_eq_true, if_false,
                          Option.map_none, Except.ok.injEq, Option.some.injEq, reduceCtorEq, false_iff]
                        rintro ⟨rfl, isFile, -⟩
                        rw [dir] at isFile
                        cases isFile
                    | false =>
                        simp only [Except.map, Option.filter_some, dir, Bool.not_false, if_true, Option.map_some,
                          Except.ok.injEq, Option.some.injEq, SiteReply.streams.injEq]
                        constructor
                        · rintro ⟨rfl, rfl⟩
                          exact ⟨rfl, dir, rfl⟩
                        · rintro ⟨rfl, -, rfl⟩
                          exact ⟨rfl, rfl⟩
  have notRoot : ¬ (root.path = [] ∨ root.path = ['/']) := not_or.mpr ⟨plain.ne_nil, plain.ne_root⟩
  rw [replyAt, rdropWhile_plain plain]
  simp only [if_neg notRoot]
  cases requestedEntry s.entries root.path urlPath with
  | error error => simp
  | ok entry =>
      cases entry with
      | none => simpa using page
      | some entry =>
          cases dir : entry.isDir with
          | true =>
              simp only [Option.filter_some, dir, Bool.not_true, Bool.false_eq_true, if_false, page,
                Except.ok.injEq, Option.some.injEq, exists_eq_left', Option.all_some, true_and]
              constructor
              · exact .inr
              · rintro (⟨rfl, isFile, -⟩ | error)
                · rw [dir] at isFile
                  cases isFile
                · exact error
          | false =>
              simp only [Option.filter_some, dir, Bool.not_false, if_true, SiteReply.streams.injEq,
                Except.ok.injEq, Option.some.injEq, exists_eq_left', Option.all_some, Bool.false_eq_true,
                false_and, or_false]
              constructor
              · rintro ⟨rfl, rfl⟩
                exact ⟨rfl, dir, rfl⟩
              · rintro ⟨rfl, -, rfl⟩
                exact ⟨rfl, rfl⟩

theorem replyAt_publishes_iff (kept : WellKept s) (member : root ∈ s.entries) (isDir : root.isDir = true)
    (clean : Clean urlPath) :
    (∀ e status, replyAt env s.entries root urlPath = .streams e status → Published root e) ↔
      ¬ DirectlyExposed s.entries root urlPath ∧ ¬ ExposedByErrorPage env s.entries root urlPath := by
  have plain := kept.plainPath root member
  constructor
  · intro publishes
    constructor
    · rintro ⟨free, reserved, e, eMember, isFile, place⟩
      have found := found_of_stored kept member clean.head eMember place
      have requested : requestedEntry s.entries root.path urlPath = .ok (some e) := by
        have unreserved : ¬ (isSiteConfigPath urlPath || isWorkersSourcePath urlPath) = true :=
          Bool.eq_false_iff.mp free
        rw [requestedEntry, if_neg unreserved, found]
        simp [isFile]
      have published := publishes e none ((replyAt_streams plain).mpr (.inl ⟨requested, isFile, rfl⟩))
      rw [published_iff kept member isDir clean.head eMember isFile place, reserved] at published
      cases published
    · rintro ⟨missing, target, isTarget, notWorkers, reserved, e, eMember, isFile, place⟩
      have absolute := (errorTarget_clean isTarget).head
      have found := found_of_stored kept member absolute eMember place
      have published := publishes e (some target.2) ((replyAt_streams plain).mpr
        (.inr ⟨missing, target, isTarget, notWorkers, found, isFile, rfl⟩))
      rw [published_iff kept member isDir absolute eMember isFile place, reserved] at published
      cases published
  · rintro ⟨notDirectly, notByErrorPage⟩ e status streams
    obtain ⟨requested, isFile, -⟩ | ⟨missing, target, isTarget, notWorkers, found, isFile, -⟩ :=
      (replyAt_streams plain).mp streams
    · obtain ⟨free, eMember, place | published⟩ := requestedEntry_file kept member clean requested isFile
      · rw [published_iff kept member isDir clean.head eMember isFile place, Bool.eq_false_iff]
        exact fun reserved => notDirectly ⟨free, reserved, e, eMember, isFile, place⟩
      · exact published
    · have absolute := (errorTarget_clean isTarget).head
      obtain ⟨eMember, place⟩ := found_below kept member absolute found
      rw [published_iff kept member isDir absolute eMember isFile place, Bool.eq_false_iff]
      exact fun reserved => notByErrorPage
        ⟨missing, target, isTarget, notWorkers, reserved, e, eMember, isFile, place⟩

/-- A site serves nothing but what it publishes exactly if trimming the path of the request does not lead to a
    reserved file, and neither does the error page where the request finds none. -/
theorem serveSite_publishes_iff (kept : WellKept s) (member : root ∈ s.entries) (isDir : root.isDir = true)
    (env : SiteEnv) (reqPath : Text) :
    (∀ e status, serveSite env s.entries (some root.id) reqPath = .streams e status → Published root e) ↔
      ∀ urlPath, resolvedUrlPath reqPath = some urlPath →
        ¬ DirectlyExposed s.entries root urlPath ∧ ¬ ExposedByErrorPage env s.entries root urlPath := by
  have found : s.entries.find? (·.id = root.id) = some root := by
    cases first : s.entries.find? (·.id = root.id) with
    | none => simpa using List.find?_eq_none.mp first root member
    | some other =>
        have sameId : other.id = root.id := by simpa using List.find?_some first
        rw [kept.tidy.ids other (List.mem_of_find?_eq_some first) root member sameId]
  rw [serveSite, Option.bind_some, found]
  simp only [isDir, if_true]
  cases resolved : resolvedUrlPath reqPath with
  | none => simp
  | some urlPath =>
      simp only [Option.some.injEq, forall_eq']
      exact replyAt_publishes_iff kept member isDir (resolvedUrlPath_clean resolved)

end Replies

def siteRoot : FSEntry := sampleRow 2 1 (some 1) ['s'] ['/', 'u', '/', 's'] true 0

def siteConfigFile : FSEntry :=
  sampleRow 4 1 (some 2) siteConfigName (siteRoot.path ++ '/' :: siteConfigName) false 9

def siteState : FsState where
  entries := [sampleHome, siteRoot, sampleRow 3 1 (some 2) indexHtml (siteRoot.path ++ '/' :: indexHtml) false 7,
    siteConfigFile]
  objects := []
  nextId := 5
  nextUuid := 5

def plainSiteEnv : SiteEnv := ⟨fun _ => none, fun _ => none, fun _ => none, fun _ => none⟩

def siteIndex : FSEntry := sampleRow 3 1 (some 2) indexHtml (siteRoot.path ++ '/' :: indexHtml) false 7

/-- It is published. -/
theorem serveSite_publishes_index :
    serveSite plainSiteEnv siteState.entries (some 2) ['/'] = .streams siteIndex none ∧
      Published siteRoot siteIndex := by
  have kept : WellKept siteState := by decide +kernel
  have noConfig : errorTarget (loadSiteConfig plainSiteEnv siteState.entries siteRoot.path 2) 404 = none := by
    decide +kernel
  have streamed : serveSite plainSiteEnv siteState.entries (some 2) ['/'] = .streams siteIndex none := by
    decide +kernel
  have publishes := (@serveSite_publishes_iff siteState siteRoot kept
    (by decide +kernel) rfl plainSiteEnv ['/']).mpr fun urlPath resolved => ⟨?_, ?_⟩
  · exact ⟨streamed, publishes siteIndex none streamed⟩
  · have isIndex : urlPath = '/' :: indexHtml :=
      (Option.some.inj ((by decide +kernel : resolvedUrlPath ['/'] = some ('/' :: indexHtml)).symm.trans resolved)).symm
    subst isIndex
    rintro ⟨-, reserved, -⟩
    exact absurd reserved (by decide +kernel)
  · rintro ⟨-, target, isTarget, -⟩
    cases noConfig.symm.trans isTarget

/-- With an escaped blank at its end, the name of the config file passes as another one, and the file is served. -/
theorem serveSite_publishes_config : ∃ e status,
    serveSite plainSiteEnv siteState.entries (some 2) ('/' :: siteConfigName ++ ['%', '2', '0']) =
        .streams e status ∧
      ¬ Published siteRoot e :=
  ⟨siteConfigFile, none, by decide +kernel,
    fun published => published.notConfig rfl⟩

end Puter

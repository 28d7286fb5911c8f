/-
Module: Puter.Fs.BatchTargets
Purpose: The targets of a batch of writes (`#resolveWriteTargets` of services/fs/FSService.ts). Three policies
  meet in a batch: an input may overwrite what is at its path, go to a numbered path beside it, or be refused.
  The paths taken by earlier inputs are reserved, and what a lookup has found is kept for the later ones.
Trusted boundary: a call to the store returns what the table of entries holds
Main exports: batches_resolved_iff
-/
import Puter.Fs.CreationTree
import Puter.Fs.MoveRefusal
import Puter.Fs.NormalPath
import Puter.Fs.TreeInvariant

namespace Puter

open PosixPath StateRun FSEntryStore

namespace FSEntryStore

/-- `getEntriesByPathsForUser` across namespaces and past the cache. All rows at the paths are put into a map,
    so that of several rows at one path the last one stays. -/
def getEntriesByPathsForUser : (paths : List Text) → FsRun (List (Option FSEntry))
  | [] => return []
  | path :: others => do
      let normalizedPath ← normalized path
      let found := entryAt (← get).entries.reverse normalizedPath
      let rest ← getEntriesByPathsForUser others
      return found :: rest

end FSEntryStore

namespace FSService

/-- A normalized write request: `NormalizedWriteInput`. -/
structure NormalizedWriteInput where
  userId : Nat
  path : Text
  size : Nat
  contentType : Text
  checksumSha256 : Option Text
  metadata : Option Text
  associatedAppId : Option Nat
  overwrite : Bool
  dedupeName : Bool
  createMissingParents : Bool
  immutable : Bool
  isPublic : Option Bool
  bucket : Text
  bucketRegion : Text

def normalizeWriteInput (env : FsEnv) (userId : Nat) (request : WriteRequest) :
    FsRun NormalizedWriteInput := do
  let normalizedPath ← normalizeWritePath request.path
  refuseIf (normalizedPath == ['/'])
    (.ofHttp 400 "Cannot write to root path".toList "cannot_write_to_root")
  return {
    userId := userId
    path := normalizedPath
    size := request.size
    contentType := request.contentType.getD "application/octet-stream".toList
    checksumSha256 := request.checksumSha256
    metadata := request.metadata.map env.stripReservedMetadataKeys
    associatedAppId := request.associatedAppId
    overwrite := request.overwrite
    dedupeName := request.dedupeName
    createMissingParents := request.createMissingParents
    immutable := request.immutable
    isPublic := request.isPublic
    bucket := env.s3Bucket
    bucketRegion := env.s3Region }

/-- An input of `#resolveWriteTargets`. -/
structure WriteTargetResolutionInput where
  index : Nat
  normalizedInput : NormalizedWriteInput

/-- A result of `#resolveWriteTargets`. -/
structure WriteTargetResolutionResult where
  index : Nat
  normalizedInput : NormalizedWriteInput
  existingEntry : Option FSEntry
  wasOverwrite : Bool

abbrev ExistingEntryCache := List (Text × Option FSEntry)

def loadExistingEntry (cache : ExistingEntryCache) (path : Text) :
    FsRun (Option FSEntry × ExistingEntryCache) :=
  match cache.lookup path with
  | some found => return (found, cache)
  | none => do
      let found ← getEntryByPath path
      return (found, (path, found) :: cache)

def numberedPath (targetPath : Text) (suffix : Nat) : Text :=
  normalize (dirname targetPath ++ '/' :: (basenameWithout targetPath (extname targetPath) ++
    " (".toList ++ decimal suffix ++ ")".toList ++ extname targetPath))

/-- The loop of `#findDedupedPath`: the first numbered path that is not reserved and has no entry. -/
def firstUnreserved (targetPath : Text) (reservedPaths : List Text) :
    (attempts suffix : Nat) → ExistingEntryCache → FsRun (Text × ExistingEntryCache)
  | 0, _, _ => throw (.ofHttp 409 "Unable to resolve deduped file path".toList "conflict")
  | attempts + 1, suffix, cache =>
      let dedupedPath := numberedPath targetPath suffix
      if reservedPaths.contains dedupedPath then
        firstUnreserved targetPath reservedPaths attempts (suffix + 1) cache
      else do
        let (existingEntry, cache) ← loadExistingEntry cache dedupedPath
        if existingEntry.isSome then
          firstUnreserved targetPath reservedPaths attempts (suffix + 1) cache
        else return (dedupedPath, cache)

def duplicateTarget (path : Text) : FsError :=
  .ofHttp 409 ("Batch contains duplicate target path: ".toList ++ path) "conflict"

/-- Where an input goes, and what is there. -/
structure SettledTarget where
  path : Text
  existingEntry : Option FSEntry
  cache : ExistingEntryCache

/-- The path that `#resolveWriteTargets` settles on for one input. -/
def settleTarget (input : NormalizedWriteInput) (reservedPaths : List Text)
    (cache : ExistingEntryCache) : FsRun SettledTarget := do
  let (existingEntry, cache) ← loadExistingEntry cache input.path
  let pathReservedInBatch := reservedPaths.contains input.path
  if (pathReservedInBatch || existingEntry.isSome) && !input.overwrite && input.dedupeName then
    let (dedupedPath, cache) ← firstUnreserved input.path reservedPaths 99999 1 cache
    let (existingEntry, cache) ← loadExistingEntry cache dedupedPath
    return ⟨dedupedPath, existingEntry, cache⟩
  else
    refuseIf pathReservedInBatch (duplicateTarget input.path)
    return ⟨input.path, existingEntry, cache⟩

def settledInput (env : FsEnv) (input : NormalizedWriteInput) (target : SettledTarget) :
    NormalizedWriteInput :=
  match target.existingEntry with
  | some existingEntry =>
      if isPresent existingEntry.bucket then
        { input with
            path := target.path
            bucket := resolveBucket env existingEntry.bucket
            bucketRegion := resolveRegion env existingEntry.bucketRegion }
      else { input with path := target.path }
  | none => { input with path := target.path }

/-- One turn of the loop of `#resolveWriteTargets`. -/
def resolveOne (env : FsEnv) (input : WriteTargetResolutionInput) (reservedPaths : List Text)
    (cache : ExistingEntryCache) : FsRun (WriteTargetResolutionResult × ExistingEntryCache) := do
  let target ← settleTarget input.normalizedInput reservedPaths cache
  refuseIf (target.existingEntry.any (·.isDir))
    (.ofHttp 409 "Cannot overwrite an existing directory".toList "cannot_overwrite_a_directory")
  refuseIf (target.existingEntry.isSome && !input.normalizedInput.overwrite)
    (.http ⟨409, "A file already exists at this path and overwrite was not requested".toList,
      "item_with_same_name_exists".toList⟩ [("entry_name".toList, basename target.path)])
  return (
    { index := input.index
      normalizedInput := settledInput env input.normalizedInput target
      existingEntry := target.existingEntry
      wasOverwrite := target.existingEntry.isSome },
    target.cache)

/-- The loop of `#resolveWriteTargets`; a path is reserved once an input goes to it. -/
def resolveEach (env : FsEnv) : List WriteTargetResolutionInput → (reservedPaths : List Text) →
    ExistingEntryCache → FsRun (List WriteTargetResolutionResult)
  | [], _, _ => return []
  | input :: others, reservedPaths, cache => do
      let (result, cache) ← resolveOne env input reservedPaths cache
      let results ← resolveEach env others (reservedPaths ++ [result.normalizedInput.path]) cache
      return result :: results

def resolveWriteTargets (env : FsEnv) (inputs : List WriteTargetResolutionInput) :
    FsRun (List WriteTargetResolutionResult) := do
  let initialPaths := (inputs.map (·.normalizedInput.path)).eraseDups
  let initialEntries ← getEntriesByPathsForUser initialPaths
  resolveEach env inputs [] (initialPaths.zip initialEntries)

end FSService

open FSService

def StandsAt (entries : List FSEntry) (path : Text) : Option FSEntry → Prop
  | none => ∀ e ∈ entries, e.path ≠ path
  | some e => e ∈ entries ∧ e.path = path

def FSService.WriteTargetResolutionResult.path (result : WriteTargetResolutionResult) : Text :=
  result.normalizedInput.path

/-- A result as it should be for an input, where some paths are reserved already. -/
structure ResolvedAt (entries : List FSEntry) (reservedPaths : List Text)
    (input : WriteTargetResolutionInput) (result : WriteTargetResolutionResult) : Prop where
  sameIndex : result.index = input.index
  unreserved : result.path ∉ reservedPaths
  stands : StandsAt entries result.path result.existingEntry
  notDirectory : ∀ e, result.existingEntry = some e → e.isDir = false
  asked : result.existingEntry ≠ none → input.normalizedInput.overwrite = true
  keepsPath : (∀ e ∈ entries, e.path ≠ input.normalizedInput.path) →
    input.normalizedInput.path ∉ reservedPaths → result.path = input.normalizedInput.path

/-- The results of a batch as they should be: one for each input, in order, and at distinct paths. -/
structure BatchResolved (entries : List FSEntry) (inputs : List WriteTargetResolutionInput)
    (results : List WriteTargetResolutionResult) : Prop where
  oneEach : results.length = inputs.length
  distinct : (results.map (·.path)).Nodup
  each : ∀ i input result, inputs[i]? = some input → results[i]? = some result →
    ResolvedAt entries ((results.take i).map (·.path)) input result

def IsConflict (error : FsError) : Prop :=
  ∃ message legacyCode fields, error = .http ⟨409, message, legacyCode⟩ fields

def ResolvesBatch (env : FsEnv) (s : FsState) (inputs : List WriteTargetResolutionInput) : Prop :=
  StateRun.Answers (BatchResolved s.entries inputs) IsConflict s (resolveWriteTargets env inputs)

theorem numberedPath_normal {path : Text} (normal : NormalPath path) (notRoot : path ≠ ['/']) (suffix : Nat) :
    NormalPath (numberedPath path suffix) := by
  obtain ⟨above, name, segments, plain, rfl⟩ := normal.cases notRoot
  have named := basename_child plain (pathOf above)
  have sameExtension : extname (pathOf above ++ '/' :: name) = extname name := by
    unfold extname
    rw [named, basename_plain plain]
  have numbered := @plainName_numbered (pathOf above ++ '/' :: name) _ (by rwa [named])
    (decimal_noSlash suffix) (by
      rw [sameExtension]
      exact extname_trimmed plain)
  rw [numberedPath, normalize_beside segments plain numbered]
  exact normalPath_child segments numbered

section Lookups

variable {entries : List FSEntry} {path : Text}

theorem standsAt_entryAt (entries : List FSEntry) (path : Text) : StandsAt entries path (entryAt entries path) := by
  cases found : entryAt entries path with
  | none => exact entryAt_none found
  | some e => exact entryAt_some found

theorem standsAt_last (entries : List FSEntry) (path : Text) :
    StandsAt entries path (entryAt entries.reverse path) := by
  cases found : entryAt entries.reverse path with
  | none => exact fun e member => entryAt_none found e (List.mem_reverse.mpr member)
  | some e =>
      obtain ⟨member, names⟩ := entryAt_some found
      exact ⟨List.mem_reverse.mp member, names⟩

theorem StandsAt.eq_none {found : Option FSEntry} (stands : StandsAt entries path found)
    (free : ∀ e ∈ entries, e.path ≠ path) : found = none := by
  cases found with
  | none => rfl
  | some e => exact absurd stands.2 (free e stands.1)

def CacheSound (entries : List FSEntry) (cache : ExistingEntryCache) : Prop :=
  ∀ path found, cache.lookup path = some found → StandsAt entries path found

theorem CacheSound.insert {cache : ExistingEntryCache} {found : Option FSEntry}
    (sound : CacheSound entries cache) (stands : StandsAt entries path found) :
    CacheSound entries ((path, found) :: cache) := by
  intro other found' kept
  rw [List.lookup_cons] at kept
  split at kept
  · next same =>
      rw [beq_iff_eq] at same
      cases kept
      rwa [same]
  · exact sound other found' kept

theorem cacheSound_zip (entries : List FSEntry) (paths : List Text) :
    CacheSound entries (paths.zip (paths.map (entryAt entries.reverse))) := by
  induction paths with
  | nil => exact fun path found kept => nomatch kept
  | cons path others ih => exact ih.insert (standsAt_last entries path)

end Lookups

section Targets

variable {env : FsEnv} {s : FsState} {reservedPaths : List Text} {cache : ExistingEntryCache} {path : Text}

theorem getEntryByPath_answers (normal : NormalPath path) :
    StateRun.Answers (StandsAt s.entries path) IsConflict s (getEntryByPath path) := by
  have ran : getEntryByPath path s = .ok (entryAt s.entries path) s := getEntryByPath_ok.mpr ⟨path, normal, rfl, rfl⟩
  constructor
  · intro found s' ran'
    cases ran.symm.trans ran'
    exact ⟨rfl, standsAt_entryAt s.entries path⟩
  · intro e s' ran'
    cases ran.symm.trans ran'

theorem loadExistingEntry_answers (normal : NormalPath path) (sound : CacheSound s.entries cache) :
    StateRun.Answers (fun loaded => StandsAt s.entries path loaded.1 ∧ CacheSound s.entries loaded.2) IsConflict s
      (loadExistingEntry cache path) := by
  unfold loadExistingEntry
  split
  · next found kept => exact .pure ⟨sound path found kept, sound⟩
  · apply (getEntryByPath_answers normal).bind
    intro found stands
    exact .pure ⟨stands, sound.insert stands⟩

theorem getEntriesByPathsForUser_normal {paths : List Text} (normal : ∀ path ∈ paths, NormalPath path) :
    getEntriesByPathsForUser paths s = .ok (paths.map (entryAt s.entries.reverse)) s := by
  induction paths with
  | nil => rfl
  | cons path others ih =>
      unfold getEntriesByPathsForUser
      rw [bind_ok]
      refine ⟨path, s, normalized_ok.mpr ⟨normal path List.mem_cons_self, rfl⟩, bind_ok.mpr ⟨s, s, rfl, ?_⟩⟩
      rw [bind_ok]
      exact ⟨_, s, ih fun p member => normal p (List.mem_cons_of_mem _ member), rfl⟩

/-- A numbered path that can be gone to: no other input goes there, and no entry is there. -/
structure FreeTarget (entries : List FSEntry) (reservedPaths : List Text)
    (found : Text × ExistingEntryCache) : Prop where
  normal : NormalPath found.1
  unreserved : found.1 ∉ reservedPaths
  free : ∀ e ∈ entries, e.path ≠ found.1
  sound : CacheSound entries found.2

theorem firstUnreserved_answers (normal : NormalPath path) (notRoot : path ≠ ['/'])
    (sound : CacheSound s.entries cache) (attempts suffix : Nat) :
    StateRun.Answers (FreeTarget s.entries reservedPaths) IsConflict s
      (firstUnreserved path reservedPaths attempts suffix cache) := by
  induction attempts generalizing suffix cache with
  | zero => exact .throw ⟨_, _, _, rfl⟩
  | succ attempts ih =>
      unfold firstUnreserved
      dsimp only
      split
      · exact ih sound _
      next unreserved =>
      have numbered := numberedPath_normal normal notRoot suffix
      apply (loadExistingEntry_answers numbered sound).bind
      rintro ⟨found, cache'⟩ ⟨stands, sound'⟩
      cases found with
      | some e => exact ih sound' _
      | none => exact .pure ⟨numbered, by simpa using unreserved, stands, sound'⟩

/-- Where an input has settled, no earlier one has. -/
structure SettledAt (entries : List FSEntry) (reservedPaths : List Text) (input : NormalizedWriteInput)
    (target : SettledTarget) : Prop where
  unreserved : target.path ∉ reservedPaths
  stands : StandsAt entries target.path target.existingEntry
  keepsPath : (∀ e ∈ entries, e.path ≠ input.path) → input.path ∉ reservedPaths → target.path = input.path
  sound : CacheSound entries target.cache

theorem settleTarget_answers {input : NormalizedWriteInput} (normal : NormalPath input.path)
    (notRoot : input.path ≠ ['/']) (sound : CacheSound s.entries cache) :
    StateRun.Answers (SettledAt s.entries reservedPaths input) IsConflict s (settleTarget input reservedPaths cache) := by
  apply (loadExistingEntry_answers normal sound).bind
  rintro ⟨found, cache₁⟩ ⟨stands, sound₁⟩
  dsimp only
  split
  next dedupes =>
    apply (firstUnreserved_answers normal notRoot sound₁ 99999 1).bind
    rintro ⟨dedupedPath, cache₂⟩ target
    apply (loadExistingEntry_answers target.normal target.sound).bind
    rintro ⟨found', cache₃⟩ ⟨stands', sound₃⟩
    refine .pure ⟨target.unreserved, stands', fun free unreserved => ?_, sound₃⟩
    -- An input is renamed only where its own path is reserved or taken.
    have missing : found = none := stands.eq_none free
    rw [missing] at dedupes
    simp [unreserved] at dedupes
  next =>
    apply (StateRun.Answers.refuseIf fun _ => ⟨_, _, _, rfl⟩).bind
    intro _ unreserved
    exact .pure ⟨by simpa using unreserved, stands, fun _ _ => rfl, sound₁⟩

theorem settledInput_path (env : FsEnv) (input : NormalizedWriteInput) (target : SettledTarget) :
    (settledInput env input target).path = target.path := by
  unfold settledInput
  split
  · split <;> rfl
  · rfl

theorem resolveOne_answers {input : WriteTargetResolutionInput} (normal : NormalPath input.normalizedInput.path)
    (notRoot : input.normalizedInput.path ≠ ['/']) (sound : CacheSound s.entries cache) :
    StateRun.Answers (fun resolved => ResolvedAt s.entries reservedPaths input resolved.1 ∧ CacheSound s.entries resolved.2)
      IsConflict s (resolveOne env input reservedPaths cache) := by
  apply (settleTarget_answers normal notRoot sound).bind
  intro target settled
  apply (StateRun.Answers.refuseIf fun _ => ⟨_, _, _, rfl⟩).bind
  intro _ isFile
  apply (StateRun.Answers.refuseIf fun _ => ⟨_, _, _, rfl⟩).bind
  intro _ asked
  have samePath := settledInput_path env input.normalizedInput target
  refine .pure ⟨⟨rfl, ?_, ?_, fun e found => ?_, fun found => ?_, fun free unreserved => ?_⟩, settled.sound⟩
  · change (settledInput env input.normalizedInput target).path ∉ reservedPaths
    rw [samePath]
    exact settled.unreserved
  · change StandsAt s.entries (settledInput env input.normalizedInput target).path target.existingEntry
    rw [samePath]
    exact settled.stands
  · dsimp only at found
    rw [found] at isFile
    simpa using isFile
  · rw [Bool.and_eq_false_iff, Bool.not_eq_false'] at asked
    exact asked.resolve_left fun free => found (Option.isSome_eq_false_iff.mp free |> Option.isNone_iff_eq_none.mp)
  · exact samePath.trans (settled.keepsPath free unreserved)

/-- The results for the inputs after some that have reserved their paths. -/
structure ResolvedAfter (entries : List FSEntry) (reservedPaths : List Text)
    (inputs : List WriteTargetResolutionInput) (results : List WriteTargetResolutionResult) : Prop where
  oneEach : results.length = inputs.length
  distinct : (reservedPaths ++ results.map (·.path)).Nodup
  each : ∀ i input result, inputs[i]? = some input → results[i]? = some result →
    ResolvedAt entries (reservedPaths ++ (results.take i).map (·.path)) input result

theorem ResolvedAfter.cons {entries : List FSEntry} {input : WriteTargetResolutionInput}
    {inputs : List WriteTargetResolutionInput} {result : WriteTargetResolutionResult}
    {results : List WriteTargetResolutionResult} (first : ResolvedAt entries reservedPaths input result)
    (rest : ResolvedAfter entries (reservedPaths ++ [result.path]) inputs results) :
    ResolvedAfter entries reservedPaths (input :: inputs) (result :: results) := by
  constructor
  · rw [List.length_cons, List.length_cons, rest.oneEach]
  · simpa using rest.distinct
  · intro i input' result' isInput isResult
    cases i with
    | zero =>
        cases isInput
        cases isResult
        simpa using first
    | succ i => simpa using rest.each i input' result' isInput isResult

theorem resolveEach_answers {inputs : List WriteTargetResolutionInput}
    (normal : ∀ input ∈ inputs, NormalPath input.normalizedInput.path)
    (notRoot : ∀ input ∈ inputs, input.normalizedInput.path ≠ ['/'])
    (distinct : reservedPaths.Nodup) (sound : CacheSound s.entries cache) :
    StateRun.Answers (ResolvedAfter s.entries reservedPaths inputs) IsConflict s
      (resolveEach env inputs reservedPaths cache) := by
  induction inputs generalizing reservedPaths cache with
  | nil => exact .pure ⟨rfl, by simpa using distinct, fun i input result isInput => nomatch isInput⟩
  | cons input others ih =>
      apply (resolveOne_answers (normal input List.mem_cons_self) (notRoot input List.mem_cons_self) sound).bind
      rintro ⟨result, cache'⟩ ⟨first, sound'⟩
      have stillDistinct : (reservedPaths ++ [result.path]).Nodup :=
        List.nodup_append.mpr ⟨distinct, List.nodup_singleton _, fun p member q isPath same =>
          first.unreserved (List.mem_singleton.mp isPath ▸ same ▸ member)⟩
      apply (ih (fun i member => normal i (List.mem_cons_of_mem _ member))
        (fun i member => notRoot i (List.mem_cons_of_mem _ member)) stillDistinct sound').bind
      intro results rest
      exact .pure (.cons first rest)

theorem resolvesBatch_of_normal {inputs : List WriteTargetResolutionInput}
    (normal : ∀ input ∈ inputs, NormalPath input.normalizedInput.path)
    (notRoot : ∀ input ∈ inputs, input.normalizedInput.path ≠ ['/']) : ResolvesBatch env s inputs := by
  have paths : ∀ path ∈ (inputs.map (·.normalizedInput.path)).eraseDups, NormalPath path := by
    intro path member
    obtain ⟨input, isInput, rfl⟩ := List.mem_map.mp (List.mem_eraseDups.mp member)
    exact normal input isInput
  have looked : StateRun.Answers (fun found => found = (inputs.map (·.normalizedInput.path)).eraseDups.map
      (entryAt s.entries.reverse)) IsConflict s
      (getEntriesByPathsForUser (inputs.map (·.normalizedInput.path)).eraseDups) := by
    constructor
    · intro found s' ran
      cases (getEntriesByPathsForUser_normal paths).symm.trans ran
      exact ⟨rfl, rfl⟩
    · intro e s' ran
      cases (getEntriesByPathsForUser_normal paths).symm.trans ran
  apply looked.bind
  rintro found rfl
  apply (resolveEach_answers normal notRoot List.nodup_nil (cacheSound_zip s.entries _)).mono
  intro results resolved
  exact ⟨resolved.oneEach, by simpa using resolved.distinct, by simpa using resolved.each⟩

end Targets

section Normalized

variable {env : FsEnv} {s : FsState}

/-- A write input as `#normalizeWriteInput` makes it of a request. -/
def NormalizedFrom (env : FsEnv) (input : NormalizedWriteInput) : Prop :=
  ∃ userId request s s', normalizeWriteInput env userId request s = .ok input s'

theorem NormalizedFrom.ne_root {input : NormalizedWriteInput} (made : NormalizedFrom env input) :
    input.path ≠ ['/'] := by
  obtain ⟨userId, request, s, s', ran⟩ := made
  obtain ⟨path, _, -, ran⟩ := bind_ok.mp ran
  obtain ⟨_, _, accepted, ran⟩ := bind_ok.mp ran
  obtain ⟨rfl, -⟩ := pure_ok.mp ran
  simpa using (refuseIf_ok.mp accepted).1

def fileAt (path : Text) : FSEntry :=
  ⟨1, 1, 1, none, none, basename path, path, false, false, none, false, none, none, none, 0,
    ⟨none, none, none, none, false, 0, 0, 0⟩⟩

def onlyEntry (e : FSEntry) : FsState := ⟨[e], [], 2, 2⟩

theorem settleTarget_free {input : NormalizedWriteInput} {reservedPaths : List Text} {cache : ExistingEntryCache}
    (kept : cache.lookup input.path = some none) (unreserved : reservedPaths.contains input.path = false) :
    settleTarget input reservedPaths cache s = .ok ⟨input.path, none, cache⟩ s := by
  have loaded : loadExistingEntry cache input.path s = .ok (none, cache) s := by
    unfold loadExistingEntry
    rw [kept]
    rfl
  unfold settleTarget
  rw [bind_ok]
  refine ⟨(none, cache), s, loaded, ?_⟩
  rw [unreserved]
  rfl

theorem resolveWriteTargets_free {input : WriteTargetResolutionInput} {normalizedPath : Text}
    (norm : normalizePath input.normalizedInput.path = .ok normalizedPath)
    (free : entryAt s.entries.reverse normalizedPath = none) :
    resolveWriteTargets env [input] s = .ok [⟨input.index, input.normalizedInput, none, false⟩] s := by
  have looked : getEntriesByPathsForUser [input.normalizedInput.path] s = .ok [none] s := by
    unfold getEntriesByPathsForUser
    exact bind_ok.mpr ⟨normalizedPath, s, normalized_ok.mpr ⟨norm, rfl⟩,
      bind_ok.mpr ⟨s, s, rfl, bind_ok.mpr ⟨[], s, rfl, by rw [free]; rfl⟩⟩⟩
  have unique : ([input].map (·.normalizedInput.path)).eraseDups = [input.normalizedInput.path] := by
    simp [List.eraseDups_cons]
  have settled := @settleTarget_free s input.normalizedInput [] [(input.normalizedInput.path, none)] (by simp) rfl
  unfold resolveWriteTargets
  rw [bind_ok]
  refine ⟨[none], s, by rwa [unique], ?_⟩
  rw [unique]
  refine bind_ok.mpr ⟨(⟨input.index, input.normalizedInput, none, false⟩, [(input.normalizedInput.path, none)]), s,
    bind_ok.mpr ⟨_, s, settled, rfl⟩, rfl⟩

theorem normal_of_resolvesBatch {input : WriteTargetResolutionInput}
    (resolves : ∀ s, ResolvesBatch env s [input]) : NormalPath input.normalizedInput.path := by
  cases norm : normalizePath input.normalizedInput.path with
  | error e =>
      have refused : resolveWriteTargets env [input] (onlyEntry (fileAt [])) = .error e (onlyEntry (fileAt [])) := by
        have unique : ([input].map (·.normalizedInput.path)).eraseDups = [input.normalizedInput.path] := by
          simp [List.eraseDups_cons]
        unfold resolveWriteTargets getEntriesByPathsForUser
        rw [bind_error]
        left
        rw [unique, bind_error]
        left
        unfold normalized
        rw [norm]
        rfl
      obtain ⟨message, legacyCode, fields, conflict⟩ := ((resolves _).error _ _ refused).2
      obtain rfl | rfl := normalizePath_error norm
      · cases conflict
      · cases conflict
  | ok normalizedPath =>
      by_contra notNormal
      have differs : input.normalizedInput.path ≠ normalizedPath := fun same => notNormal (by rw [NormalPath, norm, ← same])
      have ran : resolveWriteTargets env [input] (onlyEntry (fileAt input.normalizedInput.path)) = _ :=
        resolveWriteTargets_free norm (by simp [onlyEntry, fileAt, entryAt, differs])
      obtain ⟨-, resolved⟩ := (resolves _).ok _ _ ran
      have stands := (resolved.each 0 input _ rfl rfl).stands
      exact stands (fileAt input.normalizedInput.path) List.mem_cons_self rfl

/-- The batches that can be made of some normalized inputs are all resolved as they should be, whatever entries
    there are, exactly when normalizing the path of each once more leaves it as it is. -/
theorem batches_resolved_iff {env : FsEnv} {inputs : List WriteTargetResolutionInput}
    (normalized : ∀ input ∈ inputs, NormalizedFrom env input.normalizedInput) :
    (∀ s batch, (∀ input ∈ batch, input ∈ inputs) → ResolvesBatch env s batch) ↔
      ∀ input ∈ inputs, NormalPath input.normalizedInput.path := by
  constructor
  · intro resolves input member
    apply @normal_of_resolvesBatch env
    intro s
    apply resolves s [input]
    intro other isInput
    exact List.mem_singleton.mp isInput ▸ member
  · intro normal s batch drawn
    apply resolvesBatch_of_normal
    · exact fun input member => normal input (drawn input member)
    · exact fun input member => (normalized input (drawn input member)).ne_root

end Normalized

def emptyFileInput (index : Nat) (path : Text) (overwrite dedupeName : Bool) : WriteTargetResolutionInput :=
  ⟨index,
    { userId := 1, path := path, size := 0, contentType := "application/octet-stream".toList,
      checksumSha256 := none, metadata := none, associatedAppId := none, overwrite := overwrite,
      dedupeName := dedupeName, createMissingParents := false, immutable := false, isPublic := none,
      bucket := openEnv.s3Bucket, bucketRegion := openEnv.s3Region }⟩

/-- A batch for `/u/a`: an overwrite, and an input that goes to a numbered path. -/
def overwriteAndDedupe : List WriteTargetResolutionInput :=
  [emptyFileInput 0 ['/', 'u', '/', 'a'] true false, emptyFileInput 1 ['/', 'u', '/', 'a'] false true]

theorem batches_resolved_overwriteAndDedupe :
    ResolvesBatch openEnv (onlyEntry (fileAt ['/', 'u', '/', 'a'])) overwriteAndDedupe :=
  (@batches_resolved_iff openEnv overwriteAndDedupe (by
    simp only [overwriteAndDedupe, List.mem_cons, List.not_mem_nil, or_false]
    rintro _ (rfl | rfl)
    · exact ⟨1, { path := ['/', 'u', '/', 'a'], size := 0, overwrite := true }, ⟨[], [], 0, 0⟩, _, rfl⟩
    · exact ⟨1, { path := ['/', 'u', '/', 'a'], size := 0, dedupeName := true }, ⟨[], [], 0, 0⟩, _, rfl⟩)).mpr
    (by decide +kernel) _ _ fun _ drawn => drawn

/-- The request for `/u/a /` is normalized to the path `/u/a ` with a blank at its end, and overwrites the file
    at `/u/a`. -/
theorem batch_overwrites_beside :
    NormalizedFrom openEnv (emptyFileInput 0 ['/', 'u', '/', 'a', ' '] true false).normalizedInput ∧
      ¬ResolvesBatch openEnv (onlyEntry (fileAt ['/', 'u', '/', 'a']))
        [emptyFileInput 0 ['/', 'u', '/', 'a', ' '] true false] := by
  constructor
  · exact ⟨1, { path := ['/', 'u', '/', 'a', ' ', '/'], size := 0, overwrite := true }, ⟨[], [], 0, 0⟩, _, rfl⟩
  · intro resolves
    obtain ⟨results, s', ran, tested⟩ := exists_of_succeedsWith
      (show succeedsWith (fun results _ => results.head?.any fun result =>
          result.path == ['/', 'u', '/', 'a', ' '] && result.existingEntry == some (fileAt ['/', 'u', '/', 'a']))
        (resolveWriteTargets openEnv [emptyFileInput 0 ['/', 'u', '/', 'a', ' '] true false]
          (onlyEntry (fileAt ['/', 'u', '/', 'a']))) = true by decide +kernel)
    obtain ⟨-, resolved⟩ := resolves.ok _ _ ran
    obtain ⟨result, isFirst, found⟩ := (Option.any_eq_true _ _).mp tested
    rw [Bool.and_eq_true, beq_iff_eq, beq_iff_eq] at found
    rw [List.head?_eq_getElem?] at isFirst
    have stands := (resolved.each 0 _ result rfl isFirst).stands
    rw [found.1, found.2] at stands
    exact absurd stands.2 (by decide)

end Puter

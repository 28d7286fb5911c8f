/-
Module: Puter.Permission.TerminalFlags
Purpose: The flag that each path of a reading carries, of whether a grant is at its end. A scan sets it when it makes
  the path, and reads it off again when the reading comes from the cache. It is the flag of what is under the path, so
  the short check of the flags of a reading answers what the walk to its grants does.
Trusted boundary: none
Main exports: FlagsKept, Yields, scan_yields, ScanRequest, scan_flags_exact
-/
import Puter.Library.StateRun
import Puter.Permission.PermissionScan

namespace Puter

open ScanMonad

/-- The cached readings carry the flags of what is under their paths. -/
def FlagsKept (log : ScanLog) : Prop := ∀ key reading, log.cached key = some reading → Reading.WellFlagged reading

/-- The computation keeps that, and what it answers is good. -/
def Yields {α : Type} (good : α → Prop) (body : ScanRun α) : Prop :=
  ∀ log, FlagsKept log →
    match body log with
    | .ok answer log' => good answer ∧ FlagsKept log'
    | .error _ log' => FlagsKept log'

namespace Yields

variable {α β : Type} {good : α → Prop} {known : β → Prop}

theorem pure {answer : α} (isGood : good answer) : Yields good (pure answer : ScanRun α) :=
  fun _ kept => ⟨isGood, kept⟩

theorem fail (error : ScanError) : Yields good (ScanMonad.fail error : ScanRun α) := fun _ kept => kept

theorem bind {body : ScanRun β} {next : β → ScanRun α} (first : Yields known body)
    (rest : ∀ answer, known answer → Yields good (next answer)) : Yields good (body >>= next) := by
  intro log kept
  have one := first log kept
  change match EStateM.bind body next log with
    | .ok answer log' => good answer ∧ FlagsKept log'
    | .error _ log' => FlagsKept log'
  unfold EStateM.bind
  cases ran : body log with
  | ok answer between =>
      rw [ran] at one
      exact rest answer one.1 between one.2
  | error error between =>
      rw [ran] at one
      exact one

theorem final {body : ScanRun α} (yields : Yields good body) {log : ScanLog} (kept : FlagsKept log) :
    FlagsKept (StateRun.finalState (body log)) := by
  have one := yields log kept
  cases ran : body log with
  | ok answer log' =>
      rw [ran] at one
      exact one.2
  | error error log' =>
      rw [ran] at one
      exact one

theorem raise {result : Except ScanError α} (answers : ∀ answer, result = .ok answer → good answer) :
    Yields good (raise result : ScanRun α) := by
  cases result with
  | ok answer => exact pure (answers answer rfl)
  | error error => exact fail error

theorem inBackground {body : ScanRun α} (yields : Yields good body) :
    Yields (fun _ => True) (ScanMonad.inBackground body : ScanRun Unit) := by
  intro log kept
  have one := yields log kept
  simp only [ScanMonad.inBackground]
  cases ran : body log with
  | ok answer log' =>
      rw [ran] at one
      exact ⟨trivial, one.2⟩
  | error error log' =>
      rw [ran] at one
      exact ⟨trivial, one⟩

theorem getScanCache (key : Text) :
    Yields (fun cached => ∀ reading, cached = some reading → Reading.WellFlagged reading)
      (ScanMonad.getScanCache key : ScanRun (Option Reading)) := by
  intro log kept
  refine ⟨fun reading isCached => ?_, kept⟩
  split at isCached
  · exact kept key reading isCached
  · cases isCached

theorem setScanCache (key : Text) {reading : Reading} (flagged : Reading.WellFlagged reading) :
    Yields (fun _ => True) (ScanMonad.setScanCache key reading : ScanRun Unit) := by
  refine fun log kept => ⟨trivial, fun other cached isCached => ?_⟩
  by_cases same : other = key
  · subst same
    obtain rfl : reading = cached := by simpa using isCached
    exact flagged
  · exact kept other cached (by simpa [same] using isCached)

theorem warmFlatUserPerm (warm : FlatWarm) :
    Yields (fun _ => True) (ScanMonad.warmFlatUserPerm warm : ScanRun Unit) := fun _ kept => ⟨trivial, kept⟩

end Yields

theorem wellFlagged_of_forall {reading : Reading} (flagged : ∀ node ∈ reading, node.WellFlagged) :
    Reading.WellFlagged reading := by
  induction reading with
  | nil => trivial
  | cons node rest ih =>
      exact ⟨flagged node List.mem_cons_self, ih fun other later =>
        flagged other (List.mem_cons_of_mem node later)⟩

theorem collect_yields {α β : Type} {body : α → ScanRun (List β)} {good : List β → Prop} (empty : good [])
    (joins : ∀ one other, good one → good other → good (one ++ other)) (yields : ∀ item, Yields good (body item))
    (items : List α) : Yields good (collect body items) := by
  induction items with
  | nil => exact .pure empty
  | cons item rest ih =>
      exact .bind (yields item) fun pushed here => .bind ih fun later there =>
        .pure (joins pushed later here there)

theorem collect_flagged {α : Type} {body : α → ScanRun Reading} (yields : ∀ item, Yields Reading.WellFlagged (body item))
    (items : List α) : Yields Reading.WellFlagged (collect body items) :=
  collect_yields trivial (fun _ _ one other => Reading.wellFlagged_append.mpr ⟨one, other⟩) yields items

section Scanners

variable {env : PermissionEnv} {rescan : ScanCall ScanRun}

theorem warmFlatOptions_yields (holderUserId : Nat) (options : List ReadingOption) :
    Yields (fun _ => True) (warmFlatOptions env holderUserId options : ScanRun (List Unit)) := by
  refine collect_yields trivial (fun _ _ _ _ => trivial) (fun option => ?_) options
  split
  · exact .pure trivial
  · exact .bind (.warmFlatUserPerm _) fun _ _ => .pure trivial

theorem expandOptions_flagged {options : List Text} {expanded : ExpandedOptions}
    (ran : env.expandOptions options = .ok expanded) : Reading.WellFlagged expanded.steps := by
  have recorded : ∀ (f : Text → Text → Reading) (g : Text → List Text → Reading) (a b : List Text) (c : List (List Text)),
      (∀ x y, ∀ node ∈ f x y, node.WellFlagged) → (∀ x y, ∀ node ∈ g x y, node.WellFlagged) →
        Reading.WellFlagged ((List.zipWith f a b).flatten ++ (List.zipWith g b c).flatten) := by
    intro f g a b c rewrites explodes
    refine wellFlagged_of_forall fun node member => ?_
    rcases List.mem_append.mp member with left | right
    · obtain ⟨nodes, listed, isNode⟩ := List.mem_flatten.mp left
      obtain ⟨i, bound, rfl⟩ := List.getElem_of_mem listed
      rw [List.getElem_zipWith] at isNode
      exact rewrites _ _ node isNode
    · obtain ⟨nodes, listed, isNode⟩ := List.mem_flatten.mp right
      obtain ⟨i, bound, rfl⟩ := List.getElem_of_mem listed
      rw [List.getElem_zipWith] at isNode
      exact explodes _ _ node isNode
  unfold PermissionEnv.expandOptions at ran
  simp only [bind, Except.bind] at ran
  split at ran
  · cases ran
  · split at ran
    · cases ran
    · obtain rfl := Except.ok.inj ran
      refine recorded _ _ _ _ _ (fun source target node member => ?_) fun source higher node member => ?_
      · unfold rewriteNodes at member
        split at member
        · cases member
        · rw [List.mem_singleton.mp member]
          trivial
      · unfold explodeNodes at member
        split at member
        · rw [List.mem_singleton.mp member]
          trivial
        · cases member

variable (rescans : ∀ actor options state, Yields Reading.WellFlagged (rescan actor options state))

include rescans

theorem path_yields (actor : Actor) (options : List Text) (state : List Actor) (via : PathVia) (permission : Text) :
    Yields Reading.WellFlagged (do
      let reading ← rescan actor options state
      return [pathTo via permission reading]) :=
  .bind (rescans actor options state) fun _ flagged => .pure ⟨⟨rfl, flagged⟩, trivial⟩

theorem scanAccessToken_yields (actor : Actor) (options : List Text) :
    Yields Reading.WellFlagged (scanAccessToken env rescan actor options) := by
  unfold scanAccessToken
  split
  · refine collect_flagged (fun permission => ?_) options
    split
    · exact path_yields rescans _ _ _ _ _
    · exact .pure trivial
  · exact .pure trivial

theorem linkedValidateUserPerms_yields (actor : Actor) (permissions : List Text) (state : List Actor) :
    Yields Reading.WellFlagged (linkedValidateUserPerms env rescan actor permissions state) := by
  refine collect_flagged (fun row => ?_) _
  split
  · exact .pure trivial
  · split
    · exact .pure trivial
    · exact path_yields rescans _ _ _ _ _

theorem scanUserUser_yields (actor : Actor) (options : List Text) (state : List Actor) :
    Yields Reading.WellFlagged (scanUserUser env rescan actor options state) := by
  have linked := @linkedValidateUserPerms_yields env rescan rescans actor options state
  unfold scanUserUser validateUserPerms
  split
  · split
    · exact .pure trivial
    · split
      · exact .bind (.inBackground linked) fun _ _ => .pure ⟨trivial, trivial⟩
      · exact .bind (.inBackground linked) fun _ _ => .pure trivial
      · exact .bind linked fun _ flagged => .bind (warmFlatOptions_yields _ _) fun _ _ => .pure flagged
  · exact .pure trivial

theorem scanUserGroup_yields (actor : Actor) (options : List Text) :
    Yields Reading.WellFlagged (scanUserGroup env rescan actor options) := by
  unfold scanUserGroup
  split
  · refine collect_flagged (fun row => ?_) _
    split
    · exact .pure trivial
    · exact path_yields rescans _ _ _ _ _
  · exact .pure trivial

theorem scanUserAppImplied_yields (actor : Actor) (options : List Text) :
    Yields Reading.WellFlagged (scanUserAppImplied rescan actor options) := by
  unfold scanUserAppImplied
  split
  · refine .bind (rescans _ _ _) fun reading flagged => .pure (wellFlagged_of_forall fun node member => ?_)
    obtain ⟨permission, -, isNode⟩ := List.mem_flatMap.mp member
    have isPath : ∀ wanted : Bool, ∀ via, node ∈ (if wanted then [pathTo via permission reading] else []) →
        node.WellFlagged := by
      intro wanted via listed
      split at listed
      · rw [List.mem_singleton.mp listed]
        exact ⟨rfl, flagged⟩
      · cases listed
    rcases List.mem_append.mp isNode with implied | bucket
    · exact isPath _ _ implied
    · exact isPath _ _ bucket
  · exact .pure trivial

theorem scanUserApp_yields (actor : Actor) (options : List Text) :
    Yields Reading.WellFlagged (scanUserApp env rescan actor options) := by
  unfold scanUserApp
  split
  · split
    · exact .pure trivial
    · split
      · exact .pure trivial
      · exact path_yields rescans _ _ _ _ _
  · exact .pure trivial

theorem scanDevApp_yields (actor : Actor) (options : List Text) :
    Yields Reading.WellFlagged (scanDevApp env rescan actor options) := by
  unfold scanDevApp
  split
  · split
    · exact .pure trivial
    · split
      · exact .pure trivial
      · split
        · exact .pure trivial
        · exact path_yields rescans _ _ _ _ _
  · exact .pure trivial

theorem runScanners_yields (actor : Actor) (options : List Text) (state : List Actor) :
    Yields Reading.WellFlagged (runScanners env rescan actor options state) := by
  have shortcuts : Reading.WellFlagged (scanNonShortcutImplicators env actor options) := by
    refine wellFlagged_of_forall fun node member => ?_
    obtain ⟨candidate, -, rfl⟩ := List.mem_map.mp member
    trivial
  refine .bind (scanAccessToken_yields rescans actor options) fun _ one => ?_
  refine .bind (scanUserUser_yields rescans actor options state) fun _ two => ?_
  refine .bind (scanUserGroup_yields rescans actor options) fun _ three => ?_
  refine .bind (scanUserAppImplied_yields rescans actor options) fun _ four => ?_
  refine .bind (scanUserApp_yields rescans actor options) fun _ five => ?_
  refine .bind (scanDevApp_yields rescans actor options) fun _ six => .pure ?_
  simp only [Reading.wellFlagged_append]
  exact ⟨shortcuts, one, two, three, four, five, six⟩

theorem scanBody_yields (actor : Actor) (permissionOptions : List Text) (state : List Actor) :
    Yields Reading.WellFlagged (scanBody env rescan actor permissionOptions state) := by
  have timed : Reading.WellFlagged [.time] := ⟨trivial, trivial⟩
  unfold scanBody
  split
  · exact .pure ⟨trivial, timed⟩
  · refine .bind (.raise fun _ => expandOptions_flagged) fun expanded steps => ?_
    dsimp only
    split
    · exact .pure (Reading.wellFlagged_append.mpr ⟨steps, trivial, timed⟩)
    · split
      · refine .bind (runScanners_yields rescans _ _ _) fun found flagged => .pure ?_
        exact Reading.wellFlagged_append.mpr ⟨steps, Reading.wellFlagged_append.mpr ⟨flagged, timed⟩⟩
      · refine .pure (Reading.wellFlagged_append.mpr ⟨steps, Reading.wellFlagged_append.mpr ⟨?_, timed⟩⟩)
        unfold shortcutImplicators
        split
        · exact ⟨trivial, trivial⟩
        · trivial

end Scanners

theorem scan_yields (env : PermissionEnv) (noCache : Bool) (fuel : Nat) (actor : Actor) (options : List Text)
    (state : List Actor) : Yields Reading.WellFlagged (scan env noCache fuel actor options state : ScanRun Reading) := by
  induction fuel generalizing noCache actor options state with
  | zero => exact .fail _
  | succ fuel ih =>
      have scanned : Yields Reading.WellFlagged (do
          let reading ← scanBody env (scan env false fuel) actor options state
          setScanCache (buildScanCacheKey (actorUid actor) options (env.cacheGenerationTag actor)) reading
          return reading : ScanRun Reading) :=
        .bind (scanBody_yields (ih false) _ _ _) fun reading flagged =>
          .bind (.setScanCache _ flagged) fun _ _ => .pure flagged
      cases noCache with
      | true => exact scanned
      | false =>
          refine .bind (.getScanCache _) fun cached isCached => ?_
          cases cached with
          | some reading => exact .pure (isCached reading rfl)
          | none => exact scanned

/-- A scan, over the permission state at its time. -/
structure ScanRequest where
  env : PermissionEnv
  noCache : Bool
  fuel : Nat
  actor : Actor
  options : List Text
  state : List Actor

def ScanRequest.run (request : ScanRequest) : ScanRun Reading :=
  scan request.env request.noCache request.fuel request.actor request.options request.state

theorem ScanRequest.run_yields (request : ScanRequest) : Yields Reading.WellFlagged request.run :=
  scan_yields _ _ _ _ _ _

/-- After every sequence of scans that share their cache, some of which may fail and between which the permission state
    may change, a scan that answers has a terminal flag exactly if there are grants at the ends of its paths. -/
theorem scan_flags_exact (retains : Bool) (requests : List ScanRequest) (request : ScanRequest) {reading : Reading}
    {log : ScanLog}
    (ran : request.run (requests.foldl (fun log earlier => StateRun.finalState (earlier.run log)) (.start retains)) =
      .ok reading log) :
    readingHasTerminal reading = readingGrants reading := by
  have kept : ∀ log, FlagsKept log →
      FlagsKept (requests.foldl (fun log earlier => StateRun.finalState (earlier.run log)) log) := by
    clear ran
    induction requests with
    | nil => exact fun _ kept => kept
    | cons earlier later ih =>
        exact fun log kept => ih _ (earlier.run_yields.final kept)
  have last := request.run_yields _ (kept (.start retains) (by rintro _ _ ⟨⟩))
  rw [ran] at last
  exact Reading.hasTerminal_eq_grants reading last.1

/-- The scan of an app for a permission that every app of a user holds, over empty tables. -/
def serviceScan : ScanRequest :=
  ⟨⟨PermissionTables.empty, fun _ => 0, fun _ => none, ⟨[], [], []⟩, 0⟩, false, 3,
    .appUnderUser ⟨1, ['u'], ['u'], true⟩ ⟨['a'], 7⟩, ["service".toList], []⟩

theorem scan_flags_exact_service :
    ∃ reading log, serviceScan.run (.start true) = .ok reading log ∧ readingHasTerminal reading = readingGrants reading :=
  ⟨_, _, rfl, scan_flags_exact true [] serviceScan rfl⟩

end Puter

/-
Module: Puter.Permission.PermissionReading
Purpose: The tree a permission scan returns (permissionUtil.ts, ReadingNode): what granted an option,
  through whom, and the two ways the code reads the tree, by its options and by its has_terminal flags.
  On the readings a scan builds, where each path carries the flag of the reading under it, the two
  agree (`Reading.hasTerminal_eq_grants`).
Trusted boundary: none
Main exports: ReadingNode, Reading.WellFlagged
-/
import Puter.Core.Actor

namespace Puter

/-- What an option rests on when it rests on no other actor. -/
inductive OptionSource where
  | system
  | defaultUserPermission
  | implicator (id : Text)
  | flat (issuerUserId : Option Nat)
deriving DecidableEq, Repr

/-- The kind of step a path takes to another actor's reading. -/
inductive PathVia where
  | accessToken
  | user (issuerUserId : Nat)
  | userGroup (groupId : Nat)
  | userAppImplied
  | userAppBucket
  | userApp
  | devApp
deriving DecidableEq, Repr

/-- A node of a reading. The timing value of a time node is left out, as are the names and the grant
    data that only a display reads. -/
inductive ReadingNode where
  | option (permission : Text) (source : OptionSource)
  | path (via : PathVia) (permission : Text) (hasTerminal : Bool) (reading : List ReadingNode)
  | rewrite (source target : Text)
  | explode (source : Text) (target : List Text)
  | time
deriving Repr

abbrev Reading := List ReadingNode

/-- An option found in a reading. -/
structure ReadingOption where
  permission : Text
  source : OptionSource
deriving DecidableEq, Repr

mutual

def ReadingNode.toOptions : ReadingNode → List ReadingOption
  | .option permission source => [⟨permission, source⟩]
  | .path _ _ hasTerminal reading => if hasTerminal then readingToOptions reading else []
  | .rewrite _ _ => []
  | .explode _ _ => []
  | .time => []

def readingToOptions : Reading → List ReadingOption
  | [] => []
  | node :: rest => node.toOptions ++ readingToOptions rest

end

/-- Whether a node counts as terminal for `readingHasTerminal`. -/
def ReadingNode.isTerminal : ReadingNode → Bool
  | .option _ _ => true
  | .path _ _ hasTerminal _ => hasTerminal
  | _ => false

def readingHasTerminal (reading : Reading) : Bool := reading.any (·.isTerminal)

def readingGrants (reading : Reading) : Bool := !(readingToOptions reading).isEmpty

mutual

def ReadingNode.WellFlagged : ReadingNode → Prop
  | .path _ _ hasTerminal reading =>
      hasTerminal = readingHasTerminal reading ∧ Reading.WellFlagged reading
  | _ => True

def Reading.WellFlagged : List ReadingNode → Prop
  | [] => True
  | node :: rest => node.WellFlagged ∧ Reading.WellFlagged rest

end

theorem Reading.wellFlagged_append {left right : Reading} :
    Reading.WellFlagged (left ++ right) ↔
      Reading.WellFlagged left ∧ Reading.WellFlagged right := by
  induction left with
  | nil => simp [Reading.WellFlagged]
  | cons node left ih =>
      simp [Reading.WellFlagged, ih, and_assoc]

mutual

theorem ReadingNode.isTerminal_eq (node : ReadingNode) (flagged : node.WellFlagged) :
    node.isTerminal = !node.toOptions.isEmpty := by
  match node with
  | .option _ _ => simp [ReadingNode.isTerminal, ReadingNode.toOptions]
  | .path _ _ hasTerminal reading =>
      obtain ⟨flag, below⟩ := flagged
      have same := Reading.hasTerminal_eq_grants reading below
      cases hasTerminal with
      | false => simp [ReadingNode.isTerminal, ReadingNode.toOptions]
      | true =>
          rw [← flag, readingGrants] at same
          simpa [ReadingNode.isTerminal, ReadingNode.toOptions] using same
  | .rewrite _ _ => simp [ReadingNode.isTerminal, ReadingNode.toOptions]
  | .explode _ _ => simp [ReadingNode.isTerminal, ReadingNode.toOptions]
  | .time => simp [ReadingNode.isTerminal, ReadingNode.toOptions]

theorem Reading.hasTerminal_eq_grants (reading : Reading)
    (flagged : Reading.WellFlagged reading) :
    readingHasTerminal reading = readingGrants reading := by
  match reading with
  | [] => simp [readingHasTerminal, readingGrants, readingToOptions]
  | node :: rest =>
      have first := ReadingNode.isTerminal_eq node flagged.1
      have others := Reading.hasTerminal_eq_grants rest flagged.2
      rw [readingHasTerminal, readingGrants] at others
      rw [readingHasTerminal, List.any_cons, first, others, readingGrants, readingToOptions]
      cases node.toOptions with
      | nil => simp
      | cons option options => simp

end

end Puter

/-
Module: Puter.Library.Runs
Purpose: Lists cut into runs of members that join the one before them. A run is given as its first member and
  the others, so that what is done at the start of a run can be told from what is done inside it.
Trusted boundary: none
Main exports: runsOf, runsOf_map, exists_run_of_mem
-/
import Mathlib

namespace Runs

variable {α β : Type} {joins joins' : α → α → Bool}

/-- The list cut into runs, each as its first member and the others: a member is in the run of the one before
    it when the two join. -/
def runsOf (joins : α → α → Bool) : List α → List (α × List α)
  | [] => []
  | first :: rest =>
      match runsOf joins rest with
      | [] => [(first, [])]
      | (next, others) :: runs =>
          if joins first next then (first, next :: others) :: runs
          else (first, []) :: (next, others) :: runs

theorem flatMap_runsOf {γ : Type} (joins : α → α → Bool) (members : List α) (f : α → List γ) :
    (runsOf joins members).flatMap (fun run => (run.1 :: run.2).flatMap f) = members.flatMap f := by
  induction members with
  | nil => rfl
  | cons first rest ih =>
      rw [List.flatMap_cons, ← ih, runsOf]
      cases runs : runsOf joins rest with
      | nil => simp
      | cons next others =>
          simp only
          split
          · simp
          · simp

theorem runsOf_map (f : β → α) (members : List β) :
    runsOf joins (members.map f) =
      (runsOf (fun one other => joins (f one) (f other)) members).map fun run =>
        (f run.1, run.2.map f) := by
  induction members with
  | nil => rfl
  | cons first rest ih =>
      rw [List.map_cons, runsOf, runsOf, ih]
      cases runs : runsOf (fun one other => joins (f one) (f other)) rest with
      | nil => rfl
      | cons next others =>
          simp only [List.map_cons]
          split
          · rfl
          · rfl

theorem mem_of_mem_runsOf {members : List α} {run : α × List α} (member : run ∈ runsOf joins members) :
    ∀ one ∈ run.1 :: run.2, one ∈ members := by
  induction members generalizing run with
  | nil => cases member
  | cons first rest ih =>
      rw [runsOf] at member
      cases runs : runsOf joins rest with
      | nil =>
          simp only [runs, List.mem_singleton] at member
          subst member
          simp
      | cons next others =>
          rw [runs] at ih
          simp only [runs] at member
          have nextIn := @ih next List.mem_cons_self
          split at member
          · rcases List.mem_cons.mp member with rfl | later
            · intro one inRun
              rcases List.mem_cons.mp inRun with rfl | inNext
              · exact List.mem_cons_self
              · exact List.mem_cons_of_mem _ (nextIn one inNext)
            · intro one inRun
              exact List.mem_cons_of_mem _
                (ih (List.mem_cons_of_mem _ later) one inRun)
          · rcases List.mem_cons.mp member with rfl | later
            · simp
            · intro one inRun
              exact List.mem_cons_of_mem _ (ih later one inRun)

theorem exists_run_of_mem {members : List α} {one : α} (member : one ∈ members) :
    ∃ run ∈ runsOf joins members, one ∈ run.1 :: run.2 := by
  have listed : one ∈ (runsOf joins members).flatMap fun run => (run.1 :: run.2).flatMap fun x => [x] := by
    rw [flatMap_runsOf joins members fun x => [x]]
    simpa using member
  simpa using listed

theorem isChain_run {members : List α} {run : α × List α} (member : run ∈ runsOf joins members) :
    List.IsChain (fun one other => joins one other = true) (run.1 :: run.2) := by
  induction members generalizing run with
  | nil => cases member
  | cons first rest ih =>
      rw [runsOf] at member
      cases runs : runsOf joins rest with
      | nil =>
          simp only [runs, List.mem_singleton] at member
          subst member
          exact .singleton _
      | cons next others =>
          rw [runs] at ih
          simp only [runs] at member
          split at member
          · rename_i joined
            rcases List.mem_cons.mp member with rfl | later
            · exact .cons_cons joined (ih List.mem_cons_self)
            · exact ih (List.mem_cons_of_mem _ later)
          · rcases List.mem_cons.mp member with rfl | later
            · exact .singleton _
            · exact ih later

theorem runsOf_congr {members : List α}
    (same : ∀ one ∈ members, ∀ other ∈ members, joins one other = joins' one other) :
    runsOf joins members = runsOf joins' members := by
  induction members with
  | nil => rfl
  | cons first rest ih =>
      have restSame : runsOf joins rest = runsOf joins' rest :=
        ih fun one inRest other otherInRest =>
          same one (List.mem_cons_of_mem _ inRest) other (List.mem_cons_of_mem _ otherInRest)
      rw [runsOf, runsOf, restSame]
      cases runs : runsOf joins' rest with
      | nil => rfl
      | cons next others =>
          have inRest : next.1 ∈ rest :=
            mem_of_mem_runsOf (runs ▸ List.mem_cons_self) next.1 List.mem_cons_self
          simp only [same first List.mem_cons_self next.1 (List.mem_cons_of_mem _ inRest)]

end Runs

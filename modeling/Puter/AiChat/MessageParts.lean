/-
Module: Puter.AiChat.MessageParts
Purpose: What the loops of the normalisation do to any messages (normalize_messages of
  drivers/ai-chat/utils/Messages.js): a message falls into parts, the parts of one role without tool blocks that follow
  each other are merged, and a merged message has the calls of its first part. So no block is lost or moved, and the
  calls of a message come through exactly if its first part, and no other one of it, starts a merged message.
Trusted boundary: none
Main exports: MessagePart, blocks_merged, carried_iff
-/
import Puter.AiChat.MessageMerging

namespace Puter

open Runs

/-- A block that `hasToolContent` looks for. -/
def ContentBlock.isTool (block : ContentBlock) : Bool := block.isToolUse || block.isToolResult

/-- A part of a message: the message with the blocks of the part. A message that the splitting takes out is a part too,
which is not kept. -/
structure MessagePart where
  message : NormalMessage
  initial : Bool
  taken : Bool

def NormalMessage.chunks (message : NormalMessage) : List (List ContentBlock) :=
  (runsOf (fun one other => !one.isTool && !other.isTool) message.content).map fun run => run.1 :: run.2

def NormalMessage.withBlocks (message : NormalMessage) (blocks : List ContentBlock) : NormalMessage :=
  { message with content := blocks }

def NormalMessage.parts (message : NormalMessage) : List MessagePart :=
  if message.hasToolUse then [⟨message, true, false⟩]
  else
    match message.chunks with
    | [] => []
    | first :: others =>
        ⟨message.withBlocks first, true, false⟩ :: others.map fun blocks => ⟨message.withBlocks blocks, false, false⟩

def partsOf : List NormalMessage → List MessagePart
  | [] => []
  | message :: rest =>
      if message.content.isEmpty then
        match rest with
        | [] => [⟨message, true, true⟩]
        | skipped :: later => ⟨message, true, true⟩ :: ⟨skipped, true, false⟩ :: partsOf later
      else message.parts ++ partsOf rest

def keptParts (parts : List MessagePart) : List NormalMessage :=
  (parts.filter fun part => !part.taken).map MessagePart.message

def mark (last : Option NormalMessage) : List MessagePart → List (MessagePart × Bool)
  | [] => []
  | part :: parts =>
      if part.taken then (part, false) :: mark last parts
      else (part, !(last.any fun before => before.canMerge part.message)) :: mark (some part.message) parts

/-- What messages carry: tool calls, and blocks under their role. -/
inductive CarriedItem where
  | call (call : WireCall)
  | block (role : Text) (block : ContentBlock)

namespace NormalMessage

def calls (message : NormalMessage) : List WireCall := message.toolCalls.getD []

def blockItems (message : NormalMessage) : List CarriedItem := message.content.map (.block message.role)

def items (message : NormalMessage) : List CarriedItem := message.calls.map .call ++ message.blockItems

end NormalMessage

section Parts

variable {message last : NormalMessage} {messages : List NormalMessage}

theorem chunks_flatten (message : NormalMessage) : message.chunks.flatten = message.content := by
  have whole := flatMap_runsOf (fun one other : ContentBlock => !one.isTool && !other.isTool) message.content
    fun block => [block]
  rw [NormalMessage.chunks, ← List.flatMap_def]
  simpa using whole

theorem chunk_cases {chunk : List ContentBlock} (member : chunk ∈ message.chunks) :
    chunk ≠ [] ∧ ((∃ block, chunk = [block]) ∨ ∀ block ∈ chunk, block.isTool = false) := by
  rcases List.mem_map.mp member with ⟨run, isRun, shape⟩
  subst shape
  refine ⟨List.cons_ne_nil _ _, ?_⟩
  have chain := isChain_run isRun
  cases others : run.2 with
  | nil => exact .inl ⟨run.1, rfl⟩
  | cons next rest =>
      right
      rw [others] at chain
      clear others isRun member
      generalize run.1 = first at chain ⊢
      induction rest generalizing first next with
      | nil =>
          have joined := (List.isChain_cons_cons.mp chain).1
          simpa using joined
      | cons later rest ih =>
          rcases List.isChain_cons_cons.mp chain with ⟨joined, behind⟩
          have others := ih _ _ behind
          intro block member
          cases List.mem_cons.mp member with
          | inl isFirst =>
              rw [isFirst]
              simp only [Bool.and_eq_true, Bool.not_eq_true'] at joined
              exact joined.1
          | inr isLater => exact others block isLater

theorem mergeInto_chunks {chunks : List (List ContentBlock)} {tail tail' : List NormalMessage}
    (cut : ∀ chunk ∈ chunks, chunk ≠ [] ∧ ((∃ block, chunk = [block]) ∨ ∀ block ∈ chunk, block.isTool = false))
    (same : ∀ last, mergeInto last tail = mergeInto last tail') (last : NormalMessage) :
    mergeInto last (chunks.flatten.map (fun block => { message with content := [block] }) ++ tail) =
      mergeInto last (chunks.map message.withBlocks ++ tail') := by
  induction chunks generalizing last with
  | nil => exact same last
  | cons chunk chunks ih =>
      have behind := ih fun other member => cut other (List.mem_cons_of_mem _ member)
      rcases cut chunk List.mem_cons_self with ⟨given, shape⟩
      rw [List.flatten_cons, List.map_append, List.append_assoc, List.map_cons, List.cons_append]
      have ends := mergeInto_cons_congr behind last (message.withBlocks chunk)
      rw [← ends]
      cases shape with
      | inl single =>
          rcases single with ⟨block, isBlock⟩
          rw [isBlock]
          rfl
      | inr plain =>
          have noTools : (message.withBlocks chunk).hasToolContent = false := by
            rw [NormalMessage.hasToolContent, List.any_eq_false]
            intro block member
            exact Bool.eq_false_iff.mp (plain block member)
          exact @mergeInto_pieces last (message.withBlocks chunk) _ noTools given

theorem partsOf_of_filled (given : message.content.isEmpty = false) (rest : List NormalMessage) :
    partsOf (message :: rest) = message.parts ++ partsOf rest := by
  cases rest <;> simp [partsOf, given]

theorem keptParts_append (parts others : List MessagePart) :
    keptParts (parts ++ others) = keptParts parts ++ keptParts others := by
  simp [keptParts]

theorem keptParts_parts (notUse : message.hasToolUse = false) :
    keptParts message.parts = message.chunks.map message.withBlocks := by
  rw [NormalMessage.parts, notUse]
  cases message.chunks with
  | nil => rfl
  | cons first others =>
      simp [keptParts, List.filter_map, Function.comp_def]

theorem mergeInto_kept (messages : List NormalMessage) (last : NormalMessage) :
    mergeInto last (splitMessages messages) = mergeInto last (keptParts (partsOf messages)) := by
  fun_induction splitMessages messages generalizing last with
  | case1 => rfl
  | case2 message rest usesTool ih =>
      have given : message.content.isEmpty = false := by
        cases empty : message.content with
        | nil => simp [NormalMessage.hasToolUse, empty] at usesTool
        | cons block blocks => rfl
      rw [partsOf_of_filled given, NormalMessage.parts, if_pos usesTool]
      exact mergeInto_cons_congr ih last message
  | case3 message notUse empty => simp [partsOf, empty, keptParts]
  | case4 message notUse skipped later empty ih =>
      have shape : keptParts (partsOf (message :: skipped :: later)) = skipped :: keptParts (partsOf later) := by
        simp [partsOf, empty, keptParts]
      rw [shape]
      exact mergeInto_cons_congr ih last skipped
  | case5 message notUse rest notLast notMiddle ih =>
      have given : message.content.isEmpty = false := by
        cases empty : message.content with
        | nil =>
            cases rest with
            | nil => exact (notLast empty rfl).elim
            | cons skipped later => exact (notMiddle skipped later empty rfl).elim
        | cons block blocks => rfl
      rw [partsOf_of_filled given, keptParts_append,
        keptParts_parts (Bool.eq_false_iff.mpr notUse)]
      have cut : ∀ chunk ∈ message.chunks, _ := fun chunk member => chunk_cases member
      have pieces := @mergeInto_chunks message _ _ _ cut ih last
      rwa [chunks_flatten] at pieces

theorem mergeMessages_kept (messages : List NormalMessage) :
    mergeMessages (splitMessages messages) = mergeMessages (keptParts (partsOf messages)) := by
  -- Behind a message with which nothing merges.
  let apart : NormalMessage := { role := [], content := [{ type := some toolUseType }] }
  have usesTool : apart.hasToolContent = true := by decide
  have same := mergeInto_kept messages apart
  rw [mergeInto_toolUse usesTool, mergeInto_toolUse usesTool] at same
  exact (List.cons.inj same).2

end Parts

section Merged

variable {last message : NormalMessage}

theorem canMerge_iff : last.canMerge message = true ↔
    last.role = message.role ∧ message.hasToolContent = false ∧ last.hasToolContent = false := by
  simp only [NormalMessage.canMerge, Bool.and_eq_true, Bool.not_eq_true', decide_eq_true_eq, and_assoc]

theorem mergeInto_chain (messages : List NormalMessage) (last : NormalMessage) :
    ∃ head tail, mergeInto last messages = head :: tail ∧ head.role = last.role ∧
      head.hasToolContent = last.hasToolContent ∧ head.toolCalls = last.toolCalls ∧
      List.IsChain (fun one other => ¬ one.canMerge other = true) (head :: tail) := by
  induction messages generalizing last with
  | nil => exact ⟨last, [], rfl, rfl, rfl, rfl, .singleton _⟩
  | cons message messages ih =>
      rw [mergeInto]
      split
      next merges =>
        rcases canMerge_iff.mp merges with ⟨sameRole, plain, lastPlain⟩
        obtain ⟨head, tail, merged, role, tool, calls, chain⟩ :=
          ih { last with content := last.content ++ message.content }
        refine ⟨head, tail, merged, role, ?_, calls, chain⟩
        rw [tool, hasToolContent_append, lastPlain]
        exact plain
      next apart =>
        rcases ih message with ⟨head, tail, merged, role, tool, _, chain⟩
        refine ⟨last, mergeInto message messages, rfl, rfl, rfl, rfl, ?_⟩
        rw [merged]
        refine .cons_cons ?_ chain
        rw [canMerge_iff, role, tool, ← canMerge_iff]
        exact apart

theorem chain_merged (messages : List NormalMessage) :
    List.IsChain (fun one other => ¬ one.canMerge other = true) (mergeMessages messages) := by
  cases messages with
  | nil => exact .nil
  | cons message rest =>
      rcases mergeInto_chain rest message with ⟨head, tail, merged, _, _, _, chain⟩
      rw [mergeMessages, merged]
      exact chain

theorem mergeInto_of_chain {messages : List NormalMessage}
    (chain : List.IsChain (fun one other => ¬ one.canMerge other = true) (last :: messages)) :
    mergeInto last messages = last :: messages := by
  induction messages generalizing last with
  | nil => rfl
  | cons message messages ih =>
      rcases List.isChain_cons_cons.mp chain with ⟨apart, behind⟩
      rw [mergeInto, if_neg apart, ih behind]

theorem mergeMessages_of_chain {messages : List NormalMessage}
    (chain : List.IsChain (fun one other => ¬ one.canMerge other = true) messages) :
    mergeMessages messages = messages := by
  cases messages with
  | nil => rfl
  | cons message rest => exact mergeInto_of_chain chain

theorem blockItems_append (merges : last.canMerge message = true) :
    NormalMessage.blockItems { last with content := last.content ++ message.content } =
      last.blockItems ++ message.blockItems := by
  rcases canMerge_iff.mp merges with ⟨sameRole, _, _⟩
  simp [NormalMessage.blockItems, sameRole]

theorem mark_congr {before : NormalMessage} (same : ∀ next, last.canMerge next = before.canMerge next)
    (parts : List MessagePart) : mark (some last) parts = mark (some before) parts := by
  induction parts with
  | nil => rfl
  | cons part parts ih =>
      rw [mark, mark]
      split
      · rw [ih]
      · simp [same]

def throughItems (entry : MessagePart × Bool) : List CarriedItem :=
  (if entry.2 then entry.1.message.calls.map .call else []) ++ entry.1.message.blockItems

def ownItems (part : MessagePart) : List CarriedItem :=
  (if part.initial then part.message.calls.map .call else []) ++ part.message.blockItems

def TakenEmpty (parts : List MessagePart) : Prop := ∀ part ∈ parts, part.taken = true → part.message.content = []

theorem mergeInto_items {parts : List MessagePart} (empty : TakenEmpty parts) (last : NormalMessage) :
    (mergeInto last (keptParts parts)).flatMap NormalMessage.items =
      last.items ++ (mark (some last) parts).flatMap throughItems := by
  induction parts generalizing last with
  | nil => simp [keptParts, mergeInto, mark]
  | cons part parts ih =>
      have behind := ih fun other member => empty other (List.mem_cons_of_mem _ member)
      rw [mark]
      cases taken : part.taken with
      | true =>
          have noBlocks := empty part List.mem_cons_self taken
          have gone : keptParts (part :: parts) = keptParts parts := by simp [keptParts, taken]
          rw [gone, behind, if_pos rfl, List.flatMap_cons]
          simp [throughItems, NormalMessage.blockItems, noBlocks]
      | false =>
          have stays : keptParts (part :: parts) = part.message :: keptParts parts := by simp [keptParts, taken]
          rw [stays, mergeInto, if_neg Bool.false_ne_true]
          cases merges : last.canMerge part.message with
          | true =>
              rw [if_pos rfl, behind, mark_congr (canMerge_append merges), List.flatMap_cons]
              simp [throughItems, merges, NormalMessage.items, blockItems_append merges, NormalMessage.calls]
          | false =>
              rw [if_neg Bool.false_ne_true, List.flatMap_cons, behind, List.flatMap_cons]
              simp [throughItems, merges, NormalMessage.items]

theorem mergeMessages_items {parts : List MessagePart} (empty : TakenEmpty parts) :
    (mergeMessages (keptParts parts)).flatMap NormalMessage.items = (mark none parts).flatMap throughItems := by
  induction parts with
  | nil => rfl
  | cons part parts ih =>
      have behind : TakenEmpty parts := fun other member => empty other (List.mem_cons_of_mem _ member)
      rw [mark]
      cases taken : part.taken with
      | true =>
          have noBlocks := empty part List.mem_cons_self taken
          have gone : keptParts (part :: parts) = keptParts parts := by simp [keptParts, taken]
          rw [gone, ih behind, if_pos rfl, List.flatMap_cons]
          simp [throughItems, NormalMessage.blockItems, noBlocks]
      | false =>
          have stays : keptParts (part :: parts) = part.message :: keptParts parts := by simp [keptParts, taken]
          rw [stays, mergeMessages, mergeInto_items behind, if_neg Bool.false_ne_true, List.flatMap_cons]
          simp [throughItems, NormalMessage.items]

end Merged

section Carried

variable {message : NormalMessage}

theorem parts_cases (given : message.content.isEmpty = false) :
    ∃ first others, message.parts = ⟨message.withBlocks first, true, false⟩ ::
        others.map (fun blocks => ⟨message.withBlocks blocks, false, false⟩) ∧
      (first :: others).flatten = message.content ∧ ∀ blocks ∈ first :: others, blocks ≠ [] := by
  rw [NormalMessage.parts]
  split
  · exact ⟨message.content, [], rfl, by simp, by simpa using given⟩
  · have whole := chunks_flatten message
    cases cut : message.chunks with
    | nil =>
        rw [cut] at whole
        rw [← whole] at given
        cases given
    | cons first others =>
        rw [cut] at whole
        refine ⟨first, others, rfl, whole, ?_⟩
        intro blocks member
        exact (chunk_cases (cut ▸ member)).1

theorem partsOf_members {P : MessagePart → Prop} {messages : List NormalMessage}
    (whole : ∀ message ∈ messages, P ⟨message, true, false⟩)
    (taken : ∀ message ∈ messages, message.content = [] → P ⟨message, true, true⟩)
    (cut : ∀ message ∈ messages, message.content.isEmpty = false → ∀ part ∈ message.parts, P part) : ∀ part ∈ partsOf messages, P part := by
  fun_induction partsOf messages with
  | case1 => exact fun part member => nomatch member
  | case2 message empty =>
      intro part member
      rw [List.mem_singleton.mp member]
      exact taken message List.mem_cons_self (List.isEmpty_iff.mp empty)
  | case3 message empty skipped later ih =>
      have behind := ih
        (fun one member => whole one (List.mem_cons_of_mem _ (List.mem_cons_of_mem _ member)))
        (fun one member => taken one (List.mem_cons_of_mem _ (List.mem_cons_of_mem _ member)))
        (fun one member => cut one (List.mem_cons_of_mem _ (List.mem_cons_of_mem _ member)))
      intro part member
      cases List.mem_cons.mp member with
      | inl isTaken =>
          rw [isTaken]
          exact taken message List.mem_cons_self (List.isEmpty_iff.mp empty)
      | inr others =>
          cases List.mem_cons.mp others with
          | inl isSkipped =>
              rw [isSkipped]
              exact whole skipped (List.mem_cons_of_mem _ List.mem_cons_self)
          | inr isLater => exact behind part isLater
  | case4 message rest filled ih =>
      have behind := ih (fun one member => whole one (List.mem_cons_of_mem _ member))
        (fun one member => taken one (List.mem_cons_of_mem _ member))
        (fun one member => cut one (List.mem_cons_of_mem _ member))
      intro part member
      cases List.mem_append.mp member with
      | inl own => exact cut message List.mem_cons_self (Bool.eq_false_iff.mpr filled) part own
      | inr isLater => exact behind part isLater

theorem not_taken_of_parts {part : MessagePart} (member : part ∈ message.parts) : part.taken = false := by
  rw [NormalMessage.parts] at member
  split at member
  · rw [List.mem_singleton.mp member]
  · split at member
    · cases member
    · cases List.mem_cons.mp member with
      | inl isFirst => rw [isFirst]
      | inr isOther =>
          rcases List.mem_map.mp isOther with ⟨_, _, shape⟩
          rw [← shape]

theorem takenEmpty_partsOf (messages : List NormalMessage) : TakenEmpty (partsOf messages) := by
  apply partsOf_members
  · intro message _ taken
    cases taken
  · intro message _ empty _
    exact empty
  · intro message _ _ part member taken
    rw [not_taken_of_parts member] at taken
    cases taken

theorem parts_items (given : message.content.isEmpty = false) :
    message.parts.flatMap ownItems = message.items := by
  rcases parts_cases given with ⟨first, others, shape, whole, _⟩
  rw [shape, NormalMessage.items, NormalMessage.blockItems, ← whole]
  simp [ownItems, NormalMessage.blockItems, NormalMessage.withBlocks, NormalMessage.calls, List.flatMap_def,
    List.map_flatten, Function.comp_def]

theorem partsOf_items (messages : List NormalMessage) :
    (partsOf messages).flatMap ownItems = messages.flatMap NormalMessage.items := by
  fun_induction partsOf messages with
  | case1 => rfl
  | case2 message empty => simp [ownItems, NormalMessage.items]
  | case3 message empty skipped later ih =>
      simp [ownItems, NormalMessage.items, ih]
  | case4 message rest filled ih =>
      rw [List.flatMap_append, parts_items (Bool.eq_false_iff.mpr filled), ih, List.flatMap_cons]

def Continues : Bool → List MessagePart → Prop
  | _, [] => True
  | filled, part :: parts => (part.initial = false → filled = true ∧ part.message.content ≠ []) ∧
      Continues (!part.message.content.isEmpty) parts

theorem continues_partsOf (messages : List NormalMessage) (filled : Bool) : Continues filled (partsOf messages) := by
  fun_induction partsOf messages generalizing filled with
  | case1 => trivial
  | case2 message empty => exact ⟨fun other => Bool.noConfusion other, trivial⟩
  | case3 message empty skipped later ih =>
      exact ⟨fun other => Bool.noConfusion other, fun other => Bool.noConfusion other, ih _⟩
  | case4 message rest given ih =>
      rcases parts_cases (Bool.eq_false_iff.mpr given) with ⟨first, others, shape, whole, blocks⟩
      rw [shape]
      refine ⟨fun other => Bool.noConfusion other, ?_⟩
      have firstFilled : first ≠ [] := blocks first List.mem_cons_self
      have othersFilled : ∀ other ∈ others, other ≠ [] := fun other member =>
        blocks other (List.mem_cons_of_mem _ member)
      have filledHere : (!(message.withBlocks first).content.isEmpty) = true := by
        simpa [NormalMessage.withBlocks] using firstFilled
      rw [filledHere]
      clear shape whole blocks firstFilled filledHere
      induction others with
      | nil => exact ih _
      | cons other others step =>
          have otherFilled := othersFilled other List.mem_cons_self
          refine ⟨fun _ => ⟨rfl, otherFilled⟩, ?_⟩
          have filledHere : (!(message.withBlocks other).content.isEmpty) = true := by
            simpa [NormalMessage.withBlocks] using otherFilled
          rw [filledHere]
          exact step fun one member => othersFilled one (List.mem_cons_of_mem _ member)

theorem calls_before_block {xs ys : List WireCall} {role : Text} {block : ContentBlock} {t t' : List CarriedItem}
    (same : xs.map CarriedItem.call ++ .block role block :: t = ys.map CarriedItem.call ++ .block role block :: t') :
    xs = ys ∧ t = t' := by
  induction xs generalizing ys with
  | nil =>
      cases ys with
      | nil => exact ⟨rfl, (List.cons.inj same).2⟩
      | cons y ys => cases (List.cons.inj same).1
  | cons x xs ih =>
      cases ys with
      | nil => cases (List.cons.inj same).1
      | cons y ys =>
          rcases List.cons.inj same with ⟨first, rest⟩
          rcases ih rest with ⟨others, tails⟩
          cases first
          exact ⟨by rw [others], tails⟩

theorem calls_matched (marked : List (MessagePart × Bool)) (filled : Bool) (ax ay : List WireCall)
    (continues : Continues filled (marked.map Prod.fst)) (fresh : filled = true → ax = [] ∧ ay = [])
    (short : ax.length ≤ ay.length)
    (same : ax.map CarriedItem.call ++ marked.flatMap throughItems =
      ay.map CarriedItem.call ++ marked.flatMap fun entry => ownItems entry.1) :
    ax = ay ∧ ∀ entry ∈ marked, entry.1.message.calls ≠ [] → entry.2 = entry.1.initial := by
  induction marked generalizing filled ax ay with
  | nil =>
      have calls : ax = ay := by
        have injective : Function.Injective CarriedItem.call := fun one other same => by cases same; rfl
        apply List.map_injective_iff.mpr injective
        simpa using same
      exact ⟨calls, fun entry member => nomatch member⟩
  | cons entry marked ih =>
      obtain ⟨part, starts⟩ := entry
      have behindFilled : part.initial = false → filled = true ∧ part.message.content ≠ [] := continues.1
      have rest : Continues (!part.message.content.isEmpty) (marked.map Prod.fst) := continues.2
      have through : throughItems (part, starts) =
          (if starts then part.message.calls else []).map .call ++ part.message.blockItems := by
        cases starts <;> rfl
      have own : ownItems part = (if part.initial then part.message.calls else []).map .call ++ part.message.blockItems := by
        rw [ownItems]
        cases part.initial <;> rfl
      rw [List.flatMap_cons, List.flatMap_cons, through, own] at same
      have shorter : (if starts then part.message.calls else []).length ≤
          (if part.initial then part.message.calls else []).length := by
        cases isInitial : part.initial with
        | true => cases starts <;> simp
        | false =>
            -- A later part of a message has nothing to match between it and the block before it.
            rcases behindFilled isInitial with ⟨isFilled, given⟩
            rcases fresh isFilled with ⟨noneThrough, noneOwn⟩
            rcases List.exists_cons_of_ne_nil given with ⟨block, blocks, isContent⟩
            simp only [isInitial, noneThrough, noneOwn, NormalMessage.blockItems, isContent, List.map_nil,
              List.map_cons, List.nil_append, List.append_assoc, List.cons_append, Bool.false_eq_true, if_false] at same
            have nothing := (@calls_before_block _ [] _ _ _ _ same).1
            rw [nothing]
            exact Nat.le_refl _
      have longer : (ax ++ if starts then part.message.calls else []).length ≤
          (ay ++ if part.initial then part.message.calls else []).length := by
        rw [List.length_append, List.length_append]
        omega
      have matched : ax ++ (if starts then part.message.calls else []) =
            ay ++ (if part.initial then part.message.calls else []) ∧
          ∀ entry ∈ marked, entry.1.message.calls ≠ [] → entry.2 = entry.1.initial := by
        cases isContent : part.message.content with
        | nil =>
            rw [isContent] at rest
            apply ih _ _ _ rest (fun other => Bool.noConfusion other) longer
            simpa [NormalMessage.blockItems, isContent] using same
        | cons block blocks =>
            simp only [NormalMessage.blockItems, isContent, List.map_cons, List.append_assoc, List.cons_append] at same
            rw [← List.append_assoc, ← List.append_assoc, ← List.map_append, ← List.map_append] at same
            rcases calls_before_block same with ⟨here, tails⟩
            refine ⟨here, (ih _ [] [] rest (fun _ => ⟨rfl, rfl⟩) (Nat.le_refl _) ?_).2⟩
            exact List.append_cancel_left tails
      rcases matched with ⟨here, behind⟩
      have sizes := congrArg List.length here
      rw [List.length_append, List.length_append] at sizes
      rcases List.append_inj here (by omega) with ⟨sameBefore, sameHere⟩
      refine ⟨sameBefore, ?_⟩
      intro other member calls
      cases List.mem_cons.mp member with
      | inr isLater => exact behind other isLater calls
      | inl isHere =>
          subst isHere
          dsimp only at calls ⊢
          cases isInitial : part.initial with
          | true =>
              cases starts with
              | true => rfl
              | false =>
                  rw [isInitial] at sameHere
                  exact absurd sameHere.symm calls
          | false =>
              cases starts with
              | false => rfl
              | true =>
                  rw [isInitial] at sameHere
                  exact absurd sameHere calls

theorem map_fst_mark (last : Option NormalMessage) (parts : List MessagePart) :
    (mark last parts).map Prod.fst = parts := by
  induction parts generalizing last with
  | nil => rfl
  | cons part parts ih =>
      rw [mark]
      split
      · rw [List.map_cons, ih]
      · rw [List.map_cons, ih]

theorem carried_iff (messages : List NormalMessage) :
    (mergeMessages (splitMessages messages)).flatMap NormalMessage.items = messages.flatMap NormalMessage.items ↔
      ∀ entry ∈ mark none (partsOf messages), entry.1.message.calls ≠ [] → entry.2 = entry.1.initial := by
  have own : messages.flatMap NormalMessage.items =
      (mark none (partsOf messages)).flatMap fun entry => ownItems entry.1 := by
    have parts := congrArg (List.flatMap ownItems) (map_fst_mark none (partsOf messages))
    rw [List.flatMap_map, partsOf_items] at parts
    exact parts.symm
  rw [mergeMessages_kept, mergeMessages_items (takenEmpty_partsOf messages), own]
  constructor
  · intro same
    refine (calls_matched _ false [] [] ?_ (fun other => Bool.noConfusion other) (Nat.le_refl _) same).2
    rw [map_fst_mark]
    exact continues_partsOf messages false
  · intro matched
    apply List.flatMap_congr
    intro entry member
    rw [throughItems, ownItems]
    cases calls : entry.1.message.calls with
    | nil => simp
    | cons call others => rw [matched entry member (by simp [calls])]

def CarriedItem.isBlock : CarriedItem → Bool
  | .call _ => false
  | .block _ _ => true

theorem filter_isBlock (calls : List WireCall) (message : NormalMessage) :
    (calls.map CarriedItem.call ++ message.blockItems).filter CarriedItem.isBlock = message.blockItems := by
  simp [NormalMessage.blockItems, CarriedItem.isBlock, List.filter_map, Function.comp_def]

theorem blocks_merged (messages : List NormalMessage) :
    (mergeMessages (splitMessages messages)).flatMap NormalMessage.blockItems =
      messages.flatMap NormalMessage.blockItems := by
  have filtered : ∀ messages : List NormalMessage, (messages.flatMap NormalMessage.items).filter CarriedItem.isBlock =
      messages.flatMap NormalMessage.blockItems := by
    intro messages
    rw [List.filter_flatMap]
    exact List.flatMap_congr fun message _ => filter_isBlock _ message
  rw [← filtered, ← filtered, mergeMessages_kept, mergeMessages_items (takenEmpty_partsOf messages),
    ← partsOf_items, ← map_fst_mark none (partsOf messages), List.flatMap_map, List.filter_flatMap,
    List.filter_flatMap, map_fst_mark]
  apply List.flatMap_congr
  intro entry _
  have blocks : ∀ some : Bool, ((if some then entry.1.message.calls.map CarriedItem.call else []) ++
      entry.1.message.blockItems).filter CarriedItem.isBlock = entry.1.message.blockItems := by
    intro some
    cases some with
    | true => exact filter_isBlock _ _
    | false => exact filter_isBlock [] _
  rw [throughItems, ownItems, blocks, blocks]

end Carried

end Puter

/-
Module: Puter.AiChat.MessageMerging
Purpose: What the loops of the normalisation make of a conversation: what an OpenAI-format message is
  normalised to, what the splitting takes out and leaves, and the runs that the merging makes one message of.
Trusted boundary: none
Main exports: normalOf, mergedRun, plain_of_chain
-/
import Puter.AiChat.Messages

namespace Puter

open Runs

section Normal

variable {codec : JsonCodec} {message : ChatMessage}

def normalOf (codec : JsonCodec) (message : ChatMessage) : NormalMessage :=
  if message.role = some toolRole then
    { role := toolRole
      content := [toolResultBlock codec message.toolCallId message.content]
      toolCallId := message.toolCallId
      toolUseId := message.toolCallId }
  else if message.content.truthy then
    { role := message.role.getD []
      content := message.content.blocks
      toolCalls := message.toolCalls
      toolCallId := message.toolCallId
      toolUseId := message.toolUseId }
  else
    { role := message.role.getD []
      content := message.calls.map toolUseBlock
      toolCallId := message.toolCallId
      toolUseId := message.toolUseId }

def ChatMessage.refused (message : ChatMessage) : Prop :=
  message.role ≠ some toolRole ∧ message.content.truthy = false ∧ message.toolCalls = none

theorem firstText_of {text : Text} (given : text ≠ []) (others : List (Option Text)) :
    firstText (some text :: others) = some text := by
  simp [firstText, Option.filter_some, given]

theorem mapM_normalizeItem {items : List ContentItem} (plain : (MessageContent.items items).Plain) :
    items.mapM normalizeItem = .ok (MessageContent.items items).blocks := by
  induction items with
  | nil => rfl
  | cons first rest ih =>
      have restPlain : (MessageContent.items rest).Plain := fun item member =>
        plain item (List.mem_cons_of_mem _ member)
      have here := plain first List.mem_cons_self
      rw [List.mapM_cons, ih restPlain]
      cases first with
      | text words => rfl
      | other value => cases here
      | block block =>
          obtain ⟨type, isType, given, notUse, _⟩ := here
          have same : coerceBlock block = block := by
            simp only [coerceBlock, isType, firstText_of given]
            cases block.text with
            | none => simp [isType, notUse]
            | some value => cases value <;> simp [isType, notUse]
          simp only [normalizeItem, same]
          rfl

theorem mapM_toolUseBlock (calls : List WireCall) :
    (calls.map fun call => ContentItem.block (toolUseBlock call)).mapM normalizeItem =
      .ok (calls.map toolUseBlock) := by
  induction calls with
  | nil => rfl
  | cons first rest ih =>
      rw [List.map_cons, List.mapM_cons, ih]
      rfl

theorem normalizeContent_tool (given : MessageContent × Option (List WireCall)) :
    normalizeContent codec toolRole message given =
      let toolUseId := firstText [message.toolCallId, message.toolUseId, message.id]
      .ok { role := toolRole, content := [toolResultBlock codec toolUseId given.1], toolCalls := given.2
            toolCallId := message.toolCallId, toolUseId := toolUseId } :=
  rfl

theorem normalizeContent_other {role : Text} (notTool : role ≠ toolRole)
    {content : MessageContent} {toolCalls : Option (List WireCall)} {blocks : List ContentBlock}
    (normal : content.toItems.mapM normalizeItem = .ok blocks) :
    normalizeContent codec role message (content, toolCalls) =
      .ok { role := role, content := blocks, toolCalls := toolCalls
            toolCallId := message.toolCallId, toolUseId := message.toolUseId } := by
  simp only [normalizeContent, if_neg notTool, normal]
  rfl

theorem normalizeObject_of_role {role : Text} (isRole : firstText [message.role] = some role)
    (defaultRole : Text) : normalizeObject codec defaultRole message =
      contentOrCalls role message >>= normalizeContent codec role message := by
  simp [normalizeObject, isRole]

theorem mapM_plainContent {content : MessageContent} (plain : content.Plain) (truthy : content.truthy) :
    content.toItems.mapM normalizeItem = .ok content.blocks := by
  cases content with
  | absent => cases truthy
  | text words =>
      have given : words ≠ [] := of_decide_eq_true truthy
      simp only [MessageContent.blocks, if_neg given]
      rfl
  | items entries => exact mapM_normalizeItem plain
  | block own => cases plain
  | other value => cases plain

theorem normalizeObject_openAI (openAI : message.OpenAI codec) (defaultRole : Text) :
    (message.refused ∧ ∃ error, normalizeObject codec defaultRole message = .error error) ∨
      (¬ message.refused ∧ normalizeObject codec defaultRole message = .ok (normalOf codec message)) := by
  obtain ⟨role, isRole, given⟩ := openAI.role
  have roleText : firstText [message.role] = some role := by
    rw [isRole]
    exact firstText_of given []
  rw [normalizeObject_of_role roleText]
  by_cases isTool : role = toolRole
  · subst isTool
    obtain ⟨callId, isCallId, callIdGiven⟩ := openAI.answers isRole
    have noCalls : message.toolCalls = none := by
      by_contra calls
      have caller := openAI.caller calls
      rw [isRole] at caller
      exact absurd caller (by decide)
    have useId : firstText [message.toolCallId, message.toolUseId, message.id] = message.toolCallId := by
      rw [isCallId]
      exact firstText_of callIdGiven _
    have kept : contentOrCalls toolRole message = .ok (message.content, none) := by
      simp [contentOrCalls, noCalls]
    refine .inr ⟨fun refused => refused.1 isRole, ?_⟩
    rw [kept]
    change normalizeContent codec toolRole message (message.content, none) = _
    rw [normalizeContent_tool, useId, normalOf, if_pos isRole]
  · have notTool : message.role ≠ some toolRole := by simpa [isRole] using isTool
    cases truthy : message.content.truthy with
    | true =>
        refine .inr ⟨fun refused => Bool.noConfusion (truthy.symm.trans refused.2.1), ?_⟩
        have kept : contentOrCalls role message = .ok (message.content, message.toolCalls) := by
          simp [contentOrCalls, truthy]
        rw [kept]
        change normalizeContent codec role message (message.content, message.toolCalls) = _
        rw [normalizeContent_other isTool (mapM_plainContent openAI.content truthy), normalOf,
          if_neg notTool, if_pos truthy, isRole]
        rfl
    | false =>
        cases calls : message.toolCalls with
        | none =>
            refine .inl ⟨⟨notTool, truthy, calls⟩, ?_⟩
            simp [contentOrCalls, truthy, calls, isTool, bind, Except.bind]
        | some given =>
            refine .inr ⟨fun refused => by simp [refused.2.2] at calls, ?_⟩
            have made : contentOrCalls role message =
                .ok (.items (given.map fun call => .block (toolUseBlock call)), none) := by
              simp [contentOrCalls, truthy, calls]
            have blocks : (MessageContent.items
                (given.map fun call => .block (toolUseBlock call))).toItems.mapM normalizeItem =
                  .ok (given.map toolUseBlock) := mapM_toolUseBlock given
            rw [made]
            change normalizeContent codec role message
              (.items (given.map fun call => .block (toolUseBlock call)), none) = _
            rw [normalizeContent_other isTool blocks, normalOf, if_neg notTool, truthy, isRole,
              ChatMessage.calls, calls]
            rfl

end Normal

section Splitting

variable {α β : Type} {isEmpty : α → Bool}

theorem leftBy_of_not {first : α} (rest : List α) (notEmpty : ¬ isEmpty first = true) :
    leftBy isEmpty (first :: rest) = first :: leftBy isEmpty rest := by
  cases rest <;> simp [leftBy, notEmpty]

theorem takenBy_of_not {first : α} (rest : List α) (notEmpty : ¬ isEmpty first = true) :
    takenBy isEmpty (first :: rest) = takenBy isEmpty rest := by
  cases rest <;> simp [takenBy, notEmpty]

theorem mem_leftBy_or_takenBy {members : List α} {one : α} (member : one ∈ members) :
    one ∈ leftBy isEmpty members ∨ one ∈ takenBy isEmpty members := by
  fun_induction leftBy isEmpty members with
  | case1 => cases member
  | case2 first empty => simpa [takenBy, empty] using member
  | case3 first empty skipped later ih =>
      rw [takenBy, if_pos empty]
      rcases List.mem_cons.mp member with rfl | rest
      · exact .inr List.mem_cons_self
      · rcases List.mem_cons.mp rest with rfl | behind
        · exact .inl List.mem_cons_self
        · rcases ih behind with left | taken
          · exact .inl (List.mem_cons_of_mem _ left)
          · exact .inr (List.mem_cons_of_mem _ taken)
  | case4 first rest notEmpty ih =>
      rw [takenBy_of_not rest notEmpty]
      rcases List.mem_cons.mp member with rfl | behind
      · exact .inl List.mem_cons_self
      · rcases ih behind with left | taken
        · exact .inl (List.mem_cons_of_mem _ left)
        · exact .inr taken

theorem leftBy_subset (members : List α) : leftBy isEmpty members ⊆ members := by
  fun_induction leftBy isEmpty members with
  | case1 => exact List.Subset.refl _
  | case2 first empty => exact List.nil_subset _
  | case3 first empty skipped later ih =>
      refine List.subset_cons_of_subset _ (List.cons_subset_cons _ ih)
  | case4 first rest notEmpty ih =>
      exact List.cons_subset_cons _ ih

theorem empty_of_takenBy {members : List α} {one : α} (taken : one ∈ takenBy isEmpty members) :
    one ∈ members ∧ isEmpty one := by
  fun_induction takenBy isEmpty members with
  | case1 => cases taken
  | case2 first empty =>
      rw [List.mem_singleton] at taken
      exact ⟨List.mem_singleton.mpr taken, taken ▸ empty⟩
  | case3 first empty skipped later ih =>
      rcases List.mem_cons.mp taken with rfl | behind
      · exact ⟨List.mem_cons_self, empty⟩
      · obtain ⟨member, isEmpty⟩ := ih behind
        exact ⟨List.mem_cons_of_mem _ (List.mem_cons_of_mem _ member), isEmpty⟩
  | case4 first rest notEmpty ih =>
      obtain ⟨member, isEmpty⟩ := ih taken
      exact ⟨List.mem_cons_of_mem _ member, isEmpty⟩

theorem leftBy_map (f : β → α) (members : List β) :
    leftBy isEmpty (members.map f) = (leftBy (fun one => isEmpty (f one)) members).map f := by
  fun_induction leftBy (fun one => isEmpty (f one)) members with
  | case1 => rfl
  | case2 first empty => simp [leftBy, empty]
  | case3 first empty skipped later ih => simp [leftBy, empty, ih]
  | case4 first rest notEmpty ih =>
      rw [List.map_cons, leftBy_of_not _ notEmpty, ih, List.map_cons]

theorem leftBy_congr {isEmpty' : α → Bool} {members : List α}
    (same : ∀ one ∈ members, isEmpty one = isEmpty' one) :
    leftBy isEmpty members = leftBy isEmpty' members := by
  fun_induction leftBy isEmpty members with
  | case1 => rfl
  | case2 first empty => simp [leftBy, ← same first List.mem_cons_self, empty]
  | case3 first empty skipped later ih =>
      rw [ih fun one member =>
        same one (List.mem_cons_of_mem _ (List.mem_cons_of_mem _ member))]
      simp [leftBy, ← same first List.mem_cons_self, empty]
  | case4 first rest notEmpty ih =>
      rw [ih fun one member => same one (List.mem_cons_of_mem _ member),
        leftBy_of_not rest (same first List.mem_cons_self ▸ notEmpty)]

theorem length_flatMap_leftBy (members : List α) (f : α → List β) :
    (members.flatMap f).length =
      ((leftBy isEmpty members).flatMap f).length + ((takenBy isEmpty members).flatMap f).length := by
  fun_induction leftBy isEmpty members with
  | case1 => rfl
  | case2 first empty => simp [takenBy, empty]
  | case3 first empty skipped later ih =>
      rw [takenBy, if_pos empty]
      simp only [List.flatMap_cons, List.length_append, ih]
      omega
  | case4 first rest notEmpty ih =>
      rw [takenBy_of_not rest notEmpty]
      simp only [List.flatMap_cons, List.length_append, ih]
      omega

theorem flatMap_leftBy {members : List α} {f : α → List β}
    (nothing : ∀ one ∈ takenBy isEmpty members, f one = []) :
    (leftBy isEmpty members).flatMap f = members.flatMap f := by
  fun_induction leftBy isEmpty members with
  | case1 => rfl
  | case2 first empty => simpa [takenBy, empty] using (nothing first (by simp [takenBy, empty])).symm
  | case3 first empty skipped later ih =>
      rw [takenBy, if_pos empty] at nothing
      have here := nothing first List.mem_cons_self
      have behind := ih fun one member => nothing one (List.mem_cons_of_mem _ member)
      simp [here, behind]
  | case4 first rest notEmpty ih =>
      rw [takenBy_of_not rest notEmpty] at nothing
      simp [ih nothing]

end Splitting

section Merging

variable {last message : NormalMessage} {rest : List NormalMessage}

theorem hasToolContent_append (content : List ContentBlock) :
    ({ last with content := last.content ++ content } : NormalMessage).hasToolContent =
      (last.hasToolContent || content.any fun block => block.isToolUse || block.isToolResult) := by
  simp [NormalMessage.hasToolContent]

theorem mergeInto_absorb (last : NormalMessage) (sameRole : last.role = message.role)
    (lastPlain : last.hasToolContent = false) {blocks : List ContentBlock}
    (plain : (blocks.any fun block => block.isToolUse || block.isToolResult) = false) :
    mergeInto last (blocks.map (fun block => { message with content := [block] }) ++ rest) =
      mergeInto { last with content := last.content ++ blocks } rest := by
  induction blocks generalizing last with
  | nil => simp
  | cons block blocks ih =>
      simp only [List.any_cons, Bool.or_eq_false_iff] at plain
      obtain ⟨⟨notUse, notResult⟩, others⟩ := plain
      have piecePlain : ({ message with content := [block] } : NormalMessage).hasToolContent = false := by
        simp [NormalMessage.hasToolContent, notUse, notResult]
      have merges : last.canMerge { message with content := [block] } = true := by
        simp [NormalMessage.canMerge, sameRole, lastPlain, piecePlain]
      have stays : ({ last with content := last.content ++ [block] } : NormalMessage).hasToolContent =
          false := by
        rw [hasToolContent_append]
        simp [lastPlain, notUse, notResult]
      rw [List.map_cons, List.cons_append, mergeInto, if_pos merges,
        ih { last with content := last.content ++ [block] } sameRole stays others]
      simp

theorem mergeInto_pieces (plain : message.hasToolContent = false) (given : message.content ≠ []) :
    mergeInto last (message.content.map (fun block => { message with content := [block] }) ++ rest) =
      mergeInto last (message :: rest) := by
  obtain ⟨block, blocks, isContent⟩ := List.exists_cons_of_ne_nil given
  have plainBlocks := plain
  rw [NormalMessage.hasToolContent, isContent, List.any_cons, Bool.or_eq_false_iff] at plainBlocks
  have firstPlain : ({ message with content := [block] } : NormalMessage).hasToolContent = false := by
    simp [NormalMessage.hasToolContent, Bool.or_eq_false_iff.mp plainBlocks.1]
  have joins : last.canMerge { message with content := [block] } = last.canMerge message := by
    simp [NormalMessage.canMerge, plain, firstPlain]
  rw [isContent, List.map_cons, List.cons_append, mergeInto, mergeInto, joins]
  split
  · rename_i merges
    simp only [NormalMessage.canMerge, Bool.and_eq_true, Bool.not_eq_true', decide_eq_true_eq] at merges
    have stays : ({ last with content := last.content ++ [block] } : NormalMessage).hasToolContent =
        false := by
      rw [hasToolContent_append]
      simp [merges.2, Bool.or_eq_false_iff.mp plainBlocks.1]
    rw [mergeInto_absorb { last with content := last.content ++ [block] } merges.1.1 stays
      plainBlocks.2]
    simp [isContent]
  · rw [mergeInto_absorb { message with content := [block] } rfl firstPlain plainBlocks.2]
    simp [← isContent]

def NormalMessage.Shaped (message : NormalMessage) : Prop :=
  message.hasToolUse = true ∨ message.hasToolContent = false ∨ ∃ block, message.content = [block]

theorem mergeInto_cons_congr {tail tail' : List NormalMessage}
    (same : ∀ last, mergeInto last tail = mergeInto last tail') (last message : NormalMessage) :
    mergeInto last (message :: tail) = mergeInto last (message :: tail') := by
  rw [mergeInto, mergeInto, same, same]

theorem mergeInto_splitMessages {messages : List NormalMessage}
    (shaped : ∀ message ∈ messages, message.Shaped) (last : NormalMessage) :
    mergeInto last (splitMessages messages) =
      mergeInto last (leftBy (fun message => message.content.isEmpty) messages) := by
  fun_induction splitMessages messages generalizing last with
  | case1 => rfl
  | case2 message rest usesTool ih =>
      have notEmpty : ¬ message.content.isEmpty = true := by
        intro empty
        rw [List.isEmpty_iff] at empty
        simp [NormalMessage.hasToolUse, empty] at usesTool
      rw [leftBy_of_not rest notEmpty]
      exact mergeInto_cons_congr (ih fun one member =>
        shaped one (List.mem_cons_of_mem _ member)) last message
  | case3 message notUse empty => simp [leftBy, empty]
  | case4 message notUse skipped later empty ih =>
      rw [leftBy, if_pos (by simp [empty])]
      exact mergeInto_cons_congr (ih fun one member =>
        shaped one (List.mem_cons_of_mem _ (List.mem_cons_of_mem _ member))) last skipped
  | case5 message notUse rest notLast notMiddle ih =>
      have given : message.content ≠ [] := by
        intro empty
        cases rest with
        | nil => exact notLast empty rfl
        | cons skipped later => exact notMiddle skipped later empty rfl
      rw [leftBy_of_not rest (by simpa using given)]
      have tail := mergeInto_cons_congr (ih fun one member =>
        shaped one (List.mem_cons_of_mem _ member)) last message
      rw [← tail]
      rcases shaped message List.mem_cons_self with usesTool | plain | ⟨block, single⟩
      · exact absurd usesTool notUse
      · exact mergeInto_pieces plain given
      · have whole : ({ message with content := [block] } : NormalMessage) = message := by rw [← single]
        simp [single, whole]

theorem mergeInto_toolUse {last : NormalMessage} (usesTool : last.hasToolContent = true)
    (messages : List NormalMessage) : mergeInto last messages = last :: mergeMessages messages := by
  cases messages with
  | nil => rfl
  | cons message rest => simp [mergeInto, mergeMessages, NormalMessage.canMerge, usesTool]

theorem mergeMessages_splitMessages {messages : List NormalMessage}
    (shaped : ∀ message ∈ messages, message.Shaped) :
    mergeMessages (splitMessages messages) =
      mergeMessages (leftBy (fun message => message.content.isEmpty) messages) := by
  -- Behind a message with which nothing merges.
  let apart : NormalMessage := { role := [], content := [{ type := some toolUseType }] }
  have usesTool : apart.hasToolContent = true := by decide
  have same := mergeInto_splitMessages shaped apart
  rw [mergeInto_toolUse usesTool, mergeInto_toolUse usesTool] at same
  exact (List.cons.inj same).2

def mergedRun (run : NormalMessage × List NormalMessage) : NormalMessage :=
  { run.1 with content := run.1.content ++ run.2.flatMap (·.content) }

theorem canMerge_append {last message : NormalMessage} (merges : last.canMerge message = true)
    (next : NormalMessage) :
    NormalMessage.canMerge { last with content := last.content ++ message.content } next =
      message.canMerge next := by
  simp only [NormalMessage.canMerge, Bool.and_eq_true, Bool.not_eq_true', decide_eq_true_eq] at merges
  obtain ⟨⟨sameRole, plain⟩, lastPlain⟩ := merges
  have bothPlain : NormalMessage.hasToolContent { last with content := last.content ++ message.content } =
      false := by
    rw [hasToolContent_append, lastPlain]
    exact plain
  unfold NormalMessage.canMerge
  rw [bothPlain, plain, ← sameRole]

theorem mergeInto_runsOf (last : NormalMessage) (messages : List NormalMessage) :
    mergeInto last messages = (runsOf NormalMessage.canMerge (last :: messages)).map mergedRun := by
  induction messages generalizing last with
  | nil => simp [mergeInto, runsOf, mergedRun]
  | cons message rest ih =>
      rw [mergeInto]
      split
      · rename_i merges
        rw [ih, runsOf, runsOf, runsOf]
        cases runs : runsOf NormalMessage.canMerge rest with
        | nil => simp [merges, mergedRun]
        | cons next others =>
            simp only [canMerge_append merges]
            split
            · simp [merges, mergedRun]
            · simp [merges, mergedRun]
      · rename_i apart
        rw [ih]
        conv_rhs => rw [runsOf]
        obtain ⟨others, runs, first⟩ : ∃ others runs,
            runsOf NormalMessage.canMerge (message :: rest) = (message, others) :: runs := by
          rw [runsOf]
          split
          · exact ⟨_, _, rfl⟩
          · split
            · exact ⟨_, _, rfl⟩
            · exact ⟨_, _, rfl⟩
        rw [first]
        simp [apart, mergedRun]

theorem mergeMessages_runsOf (messages : List NormalMessage) :
    mergeMessages messages = (runsOf NormalMessage.canMerge messages).map mergedRun := by
  cases messages with
  | nil => rfl
  | cons message rest => exact mergeInto_runsOf message rest

theorem plain_of_chain {first : NormalMessage} {others : List NormalMessage}
    (chain : List.IsChain (fun one other => one.canMerge other = true) (first :: others)) :
    ∀ other ∈ others, other.role = first.role ∧ other.hasToolContent = false ∧
      first.hasToolContent = false := by
  induction others generalizing first with
  | nil => exact fun _ member => absurd member List.not_mem_nil
  | cons next rest ih =>
      obtain ⟨merges, behind⟩ := List.isChain_cons_cons.mp chain
      simp only [NormalMessage.canMerge, Bool.and_eq_true, Bool.not_eq_true', decide_eq_true_eq] at merges
      obtain ⟨⟨sameRole, plain⟩, firstPlain⟩ := merges
      intro other member
      rcases List.mem_cons.mp member with rfl | later
      · exact ⟨sameRole.symm, plain, firstPlain⟩
      · obtain ⟨role, otherPlain, _⟩ := ih behind other later
        exact ⟨role.trans sameRole.symm, otherPlain, firstPlain⟩

end Merging

end Puter

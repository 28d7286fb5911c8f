/-
Module: Puter.AiChat.NormalizedStructure
Purpose: What the normalisation keeps of a conversation (normalize_messages of drivers/ai-chat/utils/Messages.js): the
  order of blocks and calls, tool results each in a message of its own, merged neighbours, and itself when it is done
  again. A message without blocks lets the next one past the splitting, merging drops the calls of later messages,
  splitting repeats the calls of a message at its tool blocks, and a tool message is written as JSON once more.
Trusted boundary: `JSON.stringify` and `JSON.parse`
Main exports: KeepsStructure, keeps_structure_iff
-/
import Puter.AiChat.MessageParts
import Puter.AiChat.MessageRoundTrip

namespace Puter

open Runs

def NormalMessage.toInput (message : NormalMessage) : MessageInput :=
  .message { role := some message.role
             content := .items (message.content.map .block)
             toolCalls := message.toolCalls
             toolCallId := message.toolCallId
             toolUseId := message.toolUseId }

/-- The structure of a conversation is kept, from its messages as they are normalised one by one: what is carried, in
order; a tool result alone in its message; no neighbours left that could be merged; and no change the next time. -/
structure KeepsStructure (codec : JsonCodec) (defaultRole : Text) (normal result : List NormalMessage) : Prop where
  carried : result.flatMap NormalMessage.items = normal.flatMap NormalMessage.items
  alone : ∀ message ∈ result, ∀ block ∈ message.content, block.isToolResult = true → message.content = [block]
  merged : List.IsChain (fun one other => ¬ (one.role = other.role ∧ one.hasToolContent = false ∧
    other.hasToolContent = false)) result
  stable : normalizeMessages codec defaultRole (result.map NormalMessage.toInput) = .ok result

/-- No message is a tool message; a part with tool blocks is one block, or an assistant's tool use without a tool result;
no run of parts is without blocks; and the calls of a message come through once and where they are. -/
structure Regular (normal : List NormalMessage) : Prop where
  noToolRole : ∀ message ∈ normal, message.role ≠ toolRole
  toolsApart : ∀ part ∈ keptParts (partsOf normal), part.hasToolContent = true → (∃ block, part.content = [block]) ∨
    (part.hasToolUse = true ∧ ∀ block ∈ part.content, block.isToolResult = false)
  filled : ∀ run ∈ runsOf NormalMessage.canMerge (keptParts (partsOf normal)),
    ∃ part ∈ run.1 :: run.2, part.content ≠ []
  calls : ∀ entry ∈ mark none (partsOf normal), entry.1.message.calls ≠ [] → entry.2 = entry.1.initial

def StringifyGrows (codec : JsonCodec) : Prop := ∀ (block : ContentBlock) (words : Text),
  block.content = some (.text words) → words.length < (codec.stringify (.list [block.toJson])).length

/-- What the normalisation makes of one message: blocks that stay as they are, a role, and for a tool message one tool
result with a text. -/
structure NormalForm (defaultRole : Text) (message : NormalMessage) : Prop where
  coerced : ∀ block ∈ message.content, coerceBlock block = block
  roled : message.role = [] → defaultRole = []
  tool : message.role = toolRole → ∃ id words, message.content =
    [{ type := some toolResultType, toolUseId := id, content := some (.text words) }]

section Forms

variable {codec : JsonCodec} {defaultRole : Text} {message : NormalMessage}

def typeBlock (block : ContentBlock) : ContentBlock :=
  match block.text, firstText [block.type] with
  | some (.text _), none => { block with type := some textType }
  | _, _ => block

theorem coerceBlock_eq (block : ContentBlock) : coerceBlock block =
    if (typeBlock block).type = some toolUseType then { typeBlock block with text := none } else typeBlock block := rfl

theorem typeBlock_of {block : ContentBlock}
    (typed : ∀ words, block.text = some (.text words) → firstText [block.type] ≠ none) : typeBlock block = block := by
  rw [typeBlock]
  split
  next words isText untyped => exact absurd untyped (typed _ isText)
  · rfl

theorem typeBlock_typed (block : ContentBlock) : ∀ words, (typeBlock block).text = some (.text words) →
    firstText [(typeBlock block).type] ≠ none := by
  intro words
  rw [typeBlock]
  split
  · intro _ untyped
    cases untyped
  next untyped =>
    intro isText noType
    exact untyped words isText noType

theorem coerceBlock_coerceBlock (block : ContentBlock) : coerceBlock (coerceBlock block) = coerceBlock block := by
  rw [coerceBlock_eq block]
  split
  next isUse =>
    have untexted : typeBlock { typeBlock block with text := none } = { typeBlock block with text := none } :=
      typeBlock_of fun words isText => nomatch isText
    rw [coerceBlock_eq, untexted, if_pos isUse]
  next other =>
    rw [coerceBlock_eq, typeBlock_of (typeBlock_typed block), if_neg other]

theorem coerceBlock_normalizeItem {item : ContentItem} {block : ContentBlock} (normal : normalizeItem item = .ok block) :
    coerceBlock block = block := by
  cases item with
  | text words =>
      cases normal
      rfl
  | block own =>
      cases normal
      exact coerceBlock_coerceBlock own
  | other value => cases normal

theorem coerced_mapM {items : List ContentItem} {blocks : List ContentBlock}
    (normal : items.mapM normalizeItem = .ok blocks) : ∀ block ∈ blocks, coerceBlock block = block := by
  induction items generalizing blocks with
  | nil =>
      cases normal
      exact fun block member => nomatch member
  | cons item items ih =>
      rw [List.mapM_cons] at normal
      cases first : normalizeItem item with
      | error error => simp [first, bind, Except.bind] at normal
      | ok own =>
          cases rest : items.mapM normalizeItem with
          | error error => simp [first, rest, bind, Except.bind] at normal
          | ok others =>
              simp only [first, rest, bind, Except.bind, pure, Except.pure, Except.ok.injEq] at normal
              intro block member
              rw [← normal] at member
              cases List.mem_cons.mp member with
              | inl isFirst => exact isFirst ▸ coerceBlock_normalizeItem first
              | inr isLater => exact ih rest block isLater

theorem mapM_coerced {blocks : List ContentBlock} (coerced : ∀ block ∈ blocks, coerceBlock block = block) :
    (blocks.map ContentItem.block).mapM normalizeItem = .ok blocks := by
  induction blocks with
  | nil => rfl
  | cons block blocks ih =>
      rw [List.map_cons, List.mapM_cons, ih fun other member => coerced other (List.mem_cons_of_mem _ member),
        normalizeItem, coerced block List.mem_cons_self]
      rfl

theorem normalForm_content {given : MessageContent × Option (List WireCall)} {role : Text} {own : ChatMessage}
    (roled : role = [] → defaultRole = []) (normal : normalizeContent codec role own given = .ok message) :
    NormalForm defaultRole message := by
  by_cases isTool : role = toolRole
  · subst isTool
    rw [normalizeContent_tool] at normal
    cases normal
    refine ⟨?_, (fun noRole => nomatch noRole), fun _ => ⟨_, _, rfl⟩⟩
    intro block member
    rw [List.mem_singleton.mp member]
    rfl
  · cases blocks : given.1.toItems.mapM normalizeItem with
    | error error => simp [normalizeContent, if_neg isTool, blocks, bind, Except.bind] at normal
    | ok own =>
        rw [show given = (given.1, given.2) from rfl, normalizeContent_other isTool blocks] at normal
        cases normal
        exact ⟨coerced_mapM blocks, roled, fun same => absurd same isTool⟩

theorem firstText_ne_nil {texts : List (Option Text)} {text : Text} (given : firstText texts = some text) : text ≠ [] := by
  rcases List.exists_of_findSome?_eq_some given with ⟨one, _, found⟩
  rcases Option.filter_eq_some_iff.mp found with ⟨_, nonempty⟩
  exact of_decide_eq_true nonempty

theorem normalForm_object {own : ChatMessage} (normal : normalizeObject codec defaultRole own = .ok message) :
    NormalForm defaultRole message := by
  rw [normalizeObject] at normal
  split at normal
  · cases normal
    refine ⟨?_, fun noRole => ?_, fun isTool => ?_⟩
    · intro block member
      rw [List.mem_singleton.mp member]
      rfl
    · cases noRole
    · have apart : assistantRole ≠ toolRole := by decide
      exact absurd isTool apart
  · have roled : (firstText [own.role]).getD defaultRole = [] → defaultRole = [] := by
      cases given : firstText [own.role] with
      | none => exact id
      | some role =>
          intro noRole
          exact absurd noRole (firstText_ne_nil given)
    cases contents : contentOrCalls ((firstText [own.role]).getD defaultRole) own with
    | error error => simp [contents, bind, Except.bind] at normal
    | ok given =>
        simp only [contents, bind, Except.bind] at normal
        exact normalForm_content roled normal

theorem normalForm_single {input : MessageInput} (normal : normalizeSingleMessage codec defaultRole input = .ok message) :
    NormalForm defaultRole message := by
  cases input with
  | text words => exact normalForm_object normal
  | message own => exact normalForm_object normal
  | other => cases normal

def renormalOf (codec : JsonCodec) (message : NormalMessage) : NormalMessage :=
  if message.role = toolRole then
    { message with
      content := [toolResultBlock codec (firstText [message.toolCallId, message.toolUseId, none])
        (.items (message.content.map .block))]
      toolUseId := firstText [message.toolCallId, message.toolUseId, none] }
  else message

theorem normalize_again (form : NormalForm defaultRole message) :
    normalizeSingleMessage codec defaultRole message.toInput = .ok (renormalOf codec message) := by
  have role : (firstText [some message.role]).getD defaultRole = message.role := by
    by_cases given : message.role = []
    · rw [given, form.roled given]
      rfl
    · rw [firstText_of given]
      rfl
  rw [NormalMessage.toInput, normalizeSingleMessage, normalizeObject, if_neg (by simp [MessageContent.truthy])]
  dsimp only
  rw [role]
  simp only [contentOrCalls, MessageContent.truthy, if_true, bind, Except.bind]
  rw [renormalOf]
  split
  next isTool =>
    rw [isTool]
    exact normalizeContent_tool _
  next other =>
    exact normalizeContent_other other (mapM_coerced form.coerced)

end Forms

section Members

variable {message : NormalMessage} {messages : List NormalMessage}

theorem run_alone {run : NormalMessage × List NormalMessage}
    (member : run ∈ runsOf NormalMessage.canMerge messages) (tools : run.1.hasToolContent = true) : run.2 = [] := by
  cases others : run.2 with
  | nil => rfl
  | cons next rest =>
      have chain := isChain_run member
      rw [others] at chain
      have plain := (plain_of_chain chain next List.mem_cons_self).2.2
      rw [tools] at plain
      cases plain

theorem mergedRun_alone (head : NormalMessage) : mergedRun (head, []) = head := by
  simp [mergedRun]

theorem merged_cases (member : message ∈ mergeMessages messages) :
    (message ∈ messages ∧ message.hasToolContent = true) ∨
      (message.hasToolContent = false ∧ ∃ first ∈ messages, message.role = first.role ∧ first.hasToolContent = false ∧
        ∀ block ∈ message.content, ∃ one ∈ messages, block ∈ one.content) := by
  rw [mergeMessages_runsOf] at member
  rcases List.mem_map.mp member with ⟨run, isRun, shape⟩
  have inside := mem_of_mem_runsOf isRun
  have head := inside run.1 List.mem_cons_self
  cases tools : run.1.hasToolContent with
  | true =>
      left
      have alone : run = (run.1, []) := Prod.ext rfl (run_alone isRun tools)
      rw [alone, mergedRun_alone] at shape
      rw [← shape]
      exact ⟨head, tools⟩
  | false =>
      right
      have plain := plain_of_chain (isChain_run isRun)
      refine ⟨?_, run.1, head, by rw [← shape]; rfl, tools, ?_⟩
      · rw [← shape, mergedRun, hasToolContent_append, tools, Bool.false_or, List.any_eq_false]
        intro block member
        rcases List.mem_flatMap.mp member with ⟨other, isOther, isBlock⟩
        have noTools := (plain other isOther).2.1
        rw [NormalMessage.hasToolContent, List.any_eq_false] at noTools
        exact noTools block isBlock
      · intro block member
        rw [← shape] at member
        cases List.mem_append.mp member with
        | inl own => exact ⟨run.1, head, own⟩
        | inr added =>
            rcases List.mem_flatMap.mp added with ⟨other, isOther, isBlock⟩
            exact ⟨other, inside other (List.mem_cons_of_mem _ isOther), isBlock⟩

theorem merged_of_tools (member : message ∈ messages) (tools : message.hasToolContent = true) :
    message ∈ mergeMessages messages := by
  rw [mergeMessages_runsOf]
  rcases @exists_run_of_mem _ NormalMessage.canMerge _ _ member with ⟨run, isRun, inRun⟩
  have plain := plain_of_chain (isChain_run isRun)
  cases List.mem_cons.mp inRun with
  | inr isOther =>
      have noTools := (plain message isOther).2.1
      rw [tools] at noTools
      cases noTools
  | inl isHead =>
      have alone : run = (message, []) := Prod.ext isHead.symm (run_alone isRun (isHead ▸ tools))
      rw [alone] at isRun
      exact List.mem_map.mpr ⟨_, isRun, mergedRun_alone message⟩

/-- What of a message a part of it has. -/
structure PartOf (part message : NormalMessage) : Prop where
  role : part.role = message.role
  blocks : ∀ block ∈ part.content, block ∈ message.content
  single : ∀ block, message.content = [block] → part.content = [block]

theorem partOf_self (message : NormalMessage) : PartOf message message := ⟨rfl, fun _ member => member, fun _ => id⟩

theorem partOf_parts {part : MessagePart} (given : message.content.isEmpty = false) (member : part ∈ message.parts) :
    PartOf part.message message := by
  rcases parts_cases given with ⟨first, others, shape, whole, filled⟩
  have isCut : ∃ blocks ∈ first :: others, part.message = message.withBlocks blocks := by
    rw [shape] at member
    cases List.mem_cons.mp member with
    | inl isFirst => exact ⟨first, List.mem_cons_self, by rw [isFirst]⟩
    | inr isOther =>
        rcases List.mem_map.mp isOther with ⟨blocks, isBlocks, same⟩
        exact ⟨blocks, List.mem_cons_of_mem _ isBlocks, by rw [← same]⟩
  rcases isCut with ⟨blocks, isBlocks, same⟩
  rw [same]
  refine ⟨rfl, ?_, ?_⟩
  · intro block inPart
    rw [← whole]
    exact List.mem_flatten.mpr ⟨blocks, isBlocks, inPart⟩
  · intro block single
    have long : blocks.length ≤ (first :: others).flatten.length := (List.sublist_flatten_of_mem isBlocks).length_le
    rw [whole, single, List.length_singleton] at long
    rcases List.exists_cons_of_ne_nil (filled blocks isBlocks) with ⟨own, others', isOwn⟩
    have short : others' = [] := by
      rw [isOwn, List.length_cons] at long
      exact List.length_eq_zero_iff.mp (by omega)
    have inMessage : own ∈ message.content := by
      rw [← whole]
      exact List.mem_flatten.mpr ⟨blocks, isBlocks, by rw [isOwn]; exact List.mem_cons_self⟩
    rw [single, List.mem_singleton] at inMessage
    change blocks = [block]
    rw [isOwn, short, inMessage]

theorem partOf_kept {part : NormalMessage} (kept : part ∈ keptParts (partsOf messages)) :
    ∃ message ∈ messages, PartOf part message := by
  rcases List.mem_map.mp kept with ⟨own, isOwn, shape⟩
  have member := (List.mem_filter.mp isOwn).1
  have all : ∀ part ∈ partsOf messages, ∃ message ∈ messages, PartOf part.message message := by
    apply partsOf_members
    · exact fun message isMessage => ⟨message, isMessage, partOf_self message⟩
    · exact fun message isMessage _ => ⟨message, isMessage, partOf_self message⟩
    · exact fun message isMessage given part isPart => ⟨message, isMessage, partOf_parts given isPart⟩
  rw [← shape]
  exact all own member

theorem withBlocks_single {block : ContentBlock} (single : message.content = [block]) :
    message.withBlocks [block] = message := by
  rw [NormalMessage.withBlocks, ← single]

theorem keptParts_single {block : ContentBlock} (single : message.content = [block]) :
    keptParts message.parts = [message] := by
  cases uses : message.hasToolUse with
  | true => simp [NormalMessage.parts, uses, keptParts]
  | false =>
      have chunks : message.chunks = [[block]] := by simp [NormalMessage.chunks, single, runsOf]
      rw [keptParts_parts uses, chunks, List.map_singleton, withBlocks_single single]

theorem kept_of_single {block : ContentBlock} (member : message ∈ messages) (single : message.content = [block]) :
    message ∈ keptParts (partsOf messages) := by
  fun_induction partsOf messages with
  | case1 => cases member
  | case2 first empty =>
      rw [← List.mem_singleton.mp member, single] at empty
      cases empty
  | case3 first empty skipped later ih =>
      have kept : keptParts (⟨first, true, true⟩ :: ⟨skipped, true, false⟩ :: partsOf later) =
          skipped :: keptParts (partsOf later) := by
        simp [keptParts]
      rw [kept]
      cases List.mem_cons.mp member with
      | inl isFirst =>
          rw [← isFirst, single] at empty
          cases empty
      | inr others =>
          cases List.mem_cons.mp others with
          | inl isSkipped => exact isSkipped ▸ List.mem_cons_self
          | inr isLater => exact List.mem_cons_of_mem _ (ih isLater)
  | case4 first rest filled ih =>
      rw [keptParts_append]
      cases List.mem_cons.mp member with
      | inl isFirst =>
          apply List.mem_append_left
          rw [← isFirst, keptParts_single single]
          exact List.mem_cons_self
      | inr isLater => exact List.mem_append_right _ (ih isLater)

theorem shaped_kept (filled : ∀ message ∈ messages, message.content ≠ []) :
    ∀ part ∈ keptParts (partsOf messages), part.Shaped := by
  fun_induction partsOf messages with
  | case1 =>
      intro part member
      cases member
  | case2 first empty => exact absurd (List.isEmpty_iff.mp empty) (filled first List.mem_cons_self)
  | case3 first empty skipped later ih =>
      exact absurd (List.isEmpty_iff.mp empty) (filled first List.mem_cons_self)
  | case4 first rest given ih =>
      intro part member
      rw [keptParts_append] at member
      cases List.mem_append.mp member with
      | inr isLater =>
          exact ih (fun one isOne => filled one (List.mem_cons_of_mem _ isOne)) part isLater
      | inl own =>
          cases uses : first.hasToolUse with
          | true =>
              simp only [NormalMessage.parts, uses, keptParts, if_true, List.filter_cons, Bool.not_false,
                List.filter_nil, List.map_cons, List.map_nil, List.mem_singleton] at own
              exact .inl (own ▸ uses)
          | false =>
              rw [keptParts_parts uses] at own
              rcases List.mem_map.mp own with ⟨chunk, isChunk, shape⟩
              rw [← shape]
              right
              cases (chunk_cases isChunk).2 with
              | inl single => exact .inr single
              | inr plain =>
                  left
                  rw [NormalMessage.hasToolContent, List.any_eq_false]
                  exact fun block isBlock => Bool.eq_false_iff.mp (plain block isBlock)

end Members

section Counting

def emptyCount (messages : List NormalMessage) : ℕ := messages.countP fun message => message.content.isEmpty

theorem emptyCount_cons (message : NormalMessage) (messages : List NormalMessage) : emptyCount (message :: messages) =
    emptyCount messages + if message.content = [] then 1 else 0 := by
  rw [emptyCount, List.countP_cons, ← emptyCount]
  simp

theorem emptyCount_mergeInto (messages : List NormalMessage) (last : NormalMessage) :
    emptyCount (mergeInto last messages) ≤ emptyCount (last :: messages) := by
  induction messages generalizing last with
  | nil => exact Nat.le_refl _
  | cons message messages ih =>
      rw [mergeInto]
      split
      · have behind := ih { last with content := last.content ++ message.content }
        simp only [emptyCount_cons, List.append_eq_nil_iff] at behind ⊢
        split at behind
        next both =>
          rw [if_pos both.1, if_pos both.2]
          omega
        · omega
      · have behind := ih message
        rw [emptyCount_cons last, emptyCount_cons last]
        omega

theorem emptyCount_merged (messages : List NormalMessage) : emptyCount (mergeMessages messages) ≤ emptyCount messages := by
  cases messages with
  | nil => exact Nat.le_refl _
  | cons message rest => exact emptyCount_mergeInto rest message

theorem emptyCount_split (messages : List NormalMessage) : emptyCount (splitMessages messages) ≤ emptyCount messages ∧
    (0 < emptyCount messages → emptyCount (splitMessages messages) < emptyCount messages) := by
  fun_induction splitMessages messages with
  | case1 => exact ⟨Nat.le_refl _, id⟩
  | case2 message rest usesTool ih =>
      have given : message.content.isEmpty = false := by
        cases empty : message.content with
        | nil => simp [NormalMessage.hasToolUse, empty] at usesTool
        | cons block blocks => rfl
      simpa [emptyCount, given] using ih
  | case3 message notUse empty => simp [emptyCount, empty]
  | case4 message notUse skipped later empty ih =>
      have behind := ih.1
      simp only [emptyCount, List.countP_cons, empty, List.isEmpty_nil, if_true] at behind ⊢
      omega
  | case5 message notUse rest notLast notMiddle ih =>
      have given : message.content.isEmpty = false := by
        cases empty : message.content with
        | nil =>
            cases rest with
            | nil => exact (notLast empty rfl).elim
            | cons skipped later => exact (notMiddle skipped later empty rfl).elim
        | cons block blocks => rfl
      have pieces : emptyCount (message.content.map fun block => { message with content := [block] }) = 0 := by
        simp [emptyCount]
      rw [emptyCount] at pieces
      simpa [emptyCount, given, pieces] using ih

end Counting

section Again

variable {messages : List NormalMessage}

theorem shaped_merged (shaped : ∀ part ∈ messages, part.Shaped) : ∀ message ∈ mergeMessages messages, message.Shaped := by
  intro message member
  cases merged_cases member with
  | inl own => exact shaped message own.1
  | inr plain => exact .inr (.inl plain.1)

theorem leftBy_of_filled {isEmpty : NormalMessage → Bool} (filled : ∀ message ∈ messages, isEmpty message = false) :
    leftBy isEmpty messages = messages := by
  induction messages with
  | nil => rfl
  | cons message messages ih =>
      have given := filled message List.mem_cons_self
      rw [leftBy_of_not messages (Bool.eq_false_iff.mp given),
        ih fun other member => filled other (List.mem_cons_of_mem _ member)]

theorem unsplit_iff (chain : List.IsChain (fun one other => ¬ one.canMerge other = true) messages) :
    mergeMessages (splitMessages messages) = messages ↔
      (∀ message ∈ messages, message.content ≠ []) ∧ ∀ message ∈ messages, message.Shaped := by
  constructor
  · intro same
    have filled : ∀ message ∈ messages, message.content ≠ [] := by
      intro message member empty
      have some : 0 < emptyCount messages := List.countP_pos_iff.mpr ⟨message, member, by rw [empty]; rfl⟩
      have fewer := (emptyCount_split messages).2 some
      have merged := emptyCount_merged (splitMessages messages)
      rw [same] at merged
      omega
    refine ⟨filled, ?_⟩
    have shaped := shaped_merged (shaped_kept filled)
    rwa [← mergeMessages_kept, same] at shaped
  · rintro ⟨filled, shaped⟩
    have notEmpty : ∀ message ∈ messages, message.content.isEmpty = false := by
      intro message member
      simpa using filled message member
    rw [mergeMessages_splitMessages shaped, leftBy_of_filled notEmpty, mergeMessages_of_chain chain]

end Again

section Structure

variable {codec : JsonCodec} {defaultRole : Text} {inputs : List MessageInput} {normal : List NormalMessage}
  {message : NormalMessage}

theorem normalForm_each (isNormal : inputs.mapM (normalizeSingleMessage codec defaultRole) = .ok normal) :
    ∀ message ∈ normal, NormalForm defaultRole message := by
  induction inputs generalizing normal with
  | nil =>
      cases isNormal
      exact fun message member => nomatch member
  | cons input inputs ih =>
      rw [List.mapM_cons] at isNormal
      cases first : normalizeSingleMessage codec defaultRole input with
      | error error => simp [first, bind, Except.bind] at isNormal
      | ok own =>
          cases rest : inputs.mapM (normalizeSingleMessage codec defaultRole) with
          | error error => simp [first, rest, bind, Except.bind] at isNormal
          | ok others =>
              simp only [first, rest, bind, Except.bind, pure, Except.pure, Except.ok.injEq] at isNormal
              intro message member
              rw [← isNormal] at member
              cases List.mem_cons.mp member with
              | inl isFirst => exact isFirst ▸ normalForm_single first
              | inr isLater => exact ih rest message isLater

theorem normalForm_part {part : NormalMessage} (form : NormalForm defaultRole message) (isPart : PartOf part message) :
    NormalForm defaultRole part := by
  refine ⟨fun block member => form.coerced block (isPart.blocks block member), ?_, ?_⟩
  · rw [isPart.role]
    exact form.roled
  · rw [isPart.role]
    intro isTool
    rcases form.tool isTool with ⟨id, words, single⟩
    exact ⟨id, words, isPart.single _ single⟩

theorem normalForm_tools (form : NormalForm defaultRole message) (isTool : message.role = toolRole) :
    message.hasToolContent = true := by
  rcases form.tool isTool with ⟨id, words, single⟩
  rw [NormalMessage.hasToolContent, single]
  rfl

theorem normalForm_merged (forms : ∀ message ∈ normal, NormalForm defaultRole message) :
    ∀ message ∈ mergeMessages (splitMessages normal), NormalForm defaultRole message := by
  have kept : ∀ part ∈ keptParts (partsOf normal), NormalForm defaultRole part := by
    intro part member
    rcases partOf_kept member with ⟨own, isOwn, isPart⟩
    exact normalForm_part (forms own isOwn) isPart
  rw [mergeMessages_kept]
  intro message member
  cases merged_cases member with
  | inl own => exact kept message own.1
  | inr plain =>
      rcases plain with ⟨_, first, isFirst, role, noTools, blocks⟩
      refine ⟨?_, ?_, ?_⟩
      · intro block inMessage
        rcases blocks block inMessage with ⟨one, isOne, inOne⟩
        exact (kept one isOne).coerced block inOne
      · rw [role]
        exact (kept first isFirst).roled
      · intro isTool
        have tools := normalForm_tools (kept first isFirst) (role ▸ isTool)
        rw [noTools] at tools
        cases tools

theorem normalizeMessages_again {messages : List NormalMessage}
    (forms : ∀ message ∈ messages, NormalForm defaultRole message) :
    normalizeMessages codec defaultRole (messages.map NormalMessage.toInput) =
      .ok (mergeMessages (splitMessages (messages.map (renormalOf codec)))) := by
  have each : (messages.map NormalMessage.toInput).mapM (normalizeSingleMessage codec defaultRole) =
      .ok (messages.map (renormalOf codec)) := by
    induction messages with
    | nil => rfl
    | cons message messages ih =>
        rw [List.map_cons, List.mapM_cons, normalize_again (forms message List.mem_cons_self),
          ih fun other member => forms other (List.mem_cons_of_mem _ member)]
        rfl
  rw [normalizeMessages, each]
  rfl

theorem renormalOf_tool (grows : StringifyGrows codec) (form : NormalForm defaultRole message)
    (isTool : message.role = toolRole) : message.blockItems ≠ (renormalOf codec message).blockItems := by
  rcases form.tool isTool with ⟨id, words, single⟩
  intro same
  rw [NormalMessage.blockItems, NormalMessage.blockItems, renormalOf, if_pos isTool, single] at same
  have contents := congrArg ContentBlock.content (CarriedItem.block.inj (List.cons.inj same).1).2
  have texts := Document.text.inj (Option.some.inj contents)
  have longer := grows { type := some toolResultType, toolUseId := id, content := some (.text words) } words rfl
  exact absurd (congrArg List.length texts) (Nat.ne_of_lt longer)

theorem renormalOf_other (notTool : message.role ≠ toolRole) : renormalOf codec message = message := if_neg notTool

theorem stable_iff (grows : StringifyGrows codec) (forms : ∀ message ∈ normal, NormalForm defaultRole message) :
    normalizeMessages codec defaultRole ((mergeMessages (splitMessages normal)).map NormalMessage.toInput) =
        .ok (mergeMessages (splitMessages normal)) ↔
      (∀ message ∈ normal, message.role ≠ toolRole) ∧
        (∀ message ∈ mergeMessages (splitMessages normal), message.content ≠ []) ∧
        ∀ message ∈ mergeMessages (splitMessages normal), message.Shaped := by
  have mergedForms := normalForm_merged forms
  have unsplit := unsplit_iff (chain_merged (splitMessages normal))
  rw [normalizeMessages_again mergedForms, Except.ok.injEq]
  constructor
  · intro same
    have noTool : ∀ message ∈ mergeMessages (splitMessages normal), message.role ≠ toolRole := by
      intro message member isTool
      have blocks := blocks_merged ((mergeMessages (splitMessages normal)).map (renormalOf codec))
      rw [same, List.flatMap_map] at blocks
      refine renormalOf_tool grows (mergedForms message member) isTool (eq_of_flatMap_eq ?_ blocks message member)
      intro one isOne
      by_cases oneTool : one.role = toolRole
      · rcases (mergedForms one isOne).tool oneTool with ⟨id, words, single⟩
        simp [NormalMessage.blockItems, renormalOf, oneTool, single]
      · rw [renormalOf_other oneTool]
    have again : (mergeMessages (splitMessages normal)).map (renormalOf codec) = mergeMessages (splitMessages normal) := by
      conv_rhs => rw [← List.map_id (mergeMessages (splitMessages normal))]
      exact List.map_congr_left fun message member => renormalOf_other (noTool message member)
    rw [again] at same
    refine ⟨?_, unsplit.mp same⟩
    intro message member isTool
    rcases (forms message member).tool isTool with ⟨id, words, single⟩
    have kept := kept_of_single member single
    have stays := merged_of_tools kept (normalForm_tools (forms message member) isTool)
    rw [← mergeMessages_kept] at stays
    exact noTool message stays isTool
  · rintro ⟨noTool, filled, shaped⟩
    have mergedNoTool : ∀ message ∈ mergeMessages (splitMessages normal), message.role ≠ toolRole := by
      rw [mergeMessages_kept]
      intro message member isTool
      obtain ⟨first, isFirst, role⟩ : ∃ first ∈ keptParts (partsOf normal), message.role = first.role := by
        cases merged_cases member with
        | inl own => exact ⟨message, own.1, rfl⟩
        | inr plain =>
            rcases plain with ⟨_, first, isFirst, role, _⟩
            exact ⟨first, isFirst, role⟩
      rcases partOf_kept isFirst with ⟨own, isOwn, isPart⟩
      rw [role, isPart.role] at isTool
      exact noTool own isOwn isTool
    have again : (mergeMessages (splitMessages normal)).map (renormalOf codec) = mergeMessages (splitMessages normal) := by
      conv_rhs => rw [← List.map_id (mergeMessages (splitMessages normal))]
      exact List.map_congr_left fun message member => renormalOf_other (mergedNoTool message member)
    rw [again]
    exact unsplit.mpr ⟨filled, shaped⟩

theorem shaped_iff {messages : List NormalMessage} :
    (∀ message ∈ mergeMessages messages, message.Shaped) ↔ ∀ part ∈ messages, part.Shaped := by
  constructor
  · intro shaped part member
    cases tools : part.hasToolContent with
    | true => exact shaped part (merged_of_tools member tools)
    | false => exact .inr (.inl tools)
  · exact shaped_merged

theorem tools_of_result {block : ContentBlock} (member : block ∈ message.content) (isResult : block.isToolResult = true) :
    message.hasToolContent = true := by
  rw [NormalMessage.hasToolContent, List.any_eq_true]
  exact ⟨block, member, by rw [isResult, Bool.or_true]⟩

theorem alone_iff {messages : List NormalMessage} :
    (∀ message ∈ mergeMessages messages, ∀ block ∈ message.content, block.isToolResult = true →
      message.content = [block]) ↔
    ∀ part ∈ messages, ∀ block ∈ part.content, block.isToolResult = true → part.content = [block] := by
  constructor
  · intro alone part member block inPart isResult
    exact alone part (merged_of_tools member (tools_of_result inPart isResult)) block inPart isResult
  · intro alone message member block inMessage isResult
    cases merged_cases member with
    | inl own => exact alone message own.1 block inMessage isResult
    | inr plain =>
        have tools := tools_of_result inMessage isResult
        rw [plain.1] at tools
        cases tools

theorem filled_iff {messages : List NormalMessage} :
    (∀ message ∈ mergeMessages messages, message.content ≠ []) ↔
      ∀ run ∈ runsOf NormalMessage.canMerge messages, ∃ part ∈ run.1 :: run.2, part.content ≠ [] := by
  have empty : ∀ run : NormalMessage × List NormalMessage,
      (mergedRun run).content = (run.1 :: run.2).flatMap NormalMessage.content := fun run => rfl
  rw [mergeMessages_runsOf]
  constructor
  · intro filled run isRun
    have given := filled (mergedRun run) (List.mem_map_of_mem isRun)
    rw [empty, ne_eq, List.flatMap_eq_nil_iff] at given
    push Not at given
    exact given
  · intro filled message member
    rcases List.mem_map.mp member with ⟨run, isRun, shape⟩
    rcases filled run isRun with ⟨part, isPart, given⟩
    rw [← shape, empty, ne_eq, List.flatMap_eq_nil_iff]
    exact fun all => given (all part isPart)

theorem toolsApart_iff {parts : List NormalMessage} :
    (∀ part ∈ parts, part.hasToolContent = true → (∃ block, part.content = [block]) ∨
        (part.hasToolUse = true ∧ ∀ block ∈ part.content, block.isToolResult = false)) ↔
      (∀ part ∈ parts, part.Shaped) ∧
        ∀ part ∈ parts, ∀ block ∈ part.content, block.isToolResult = true → part.content = [block] := by
  constructor
  · intro apart
    constructor
    · intro part member
      cases tools : part.hasToolContent with
      | false => exact .inr (.inl tools)
      | true =>
          cases apart part member tools with
          | inl single => exact .inr (.inr single)
          | inr uses => exact .inl uses.1
    · intro part member block inPart isResult
      cases apart part member (tools_of_result inPart isResult) with
      | inl single =>
          rcases single with ⟨only, isOnly⟩
          rw [isOnly, List.mem_singleton] at inPart
          rw [isOnly, inPart]
      | inr uses =>
          rw [uses.2 block inPart] at isResult
          cases isResult
  · rintro ⟨shaped, alone⟩ part member tools
    by_cases result : ∃ block ∈ part.content, block.isToolResult = true
    · rcases result with ⟨block, inPart, isResult⟩
      exact .inl ⟨block, alone part member block inPart isResult⟩
    · push Not at result
      cases shaped part member with
      | inl uses => exact .inr ⟨uses, fun block inPart => Bool.eq_false_iff.mpr (result block inPart)⟩
      | inr others =>
          cases others with
          | inl plain =>
              rw [tools] at plain
              cases plain
          | inr single => exact .inl single

/-- An accepted conversation keeps its structure exactly if it is regular. -/
theorem keeps_structure_iff (codec : JsonCodec) (grows : StringifyGrows codec) (defaultRole : Text)
    (inputs : List MessageInput) {normal : List NormalMessage}
    (isNormal : inputs.mapM (normalizeSingleMessage codec defaultRole) = .ok normal) :
    ∃ result, normalizeMessages codec defaultRole inputs = .ok result ∧
      (KeepsStructure codec defaultRole normal result ↔ Regular normal) := by
  refine ⟨mergeMessages (splitMessages normal), by rw [normalizeMessages, isNormal]; rfl, ?_⟩
  have stable := stable_iff grows (normalForm_each isNormal)
  have filled := @filled_iff (keptParts (partsOf normal))
  have shaped := @shaped_iff (keptParts (partsOf normal))
  have alone := @alone_iff (keptParts (partsOf normal))
  have apart := @toolsApart_iff (keptParts (partsOf normal))
  rw [← mergeMessages_kept] at filled shaped alone
  constructor
  · intro keeps
    rcases stable.mp keeps.stable with ⟨noTool, notEmpty, areShaped⟩
    exact ⟨noTool, apart.mpr ⟨shaped.mp areShaped, alone.mp keeps.alone⟩, filled.mp notEmpty,
      (carried_iff normal).mp keeps.carried⟩
  · intro regular
    rcases apart.mp regular.toolsApart with ⟨areShaped, areAlone⟩
    refine ⟨(carried_iff normal).mpr regular.calls, alone.mpr areAlone, ?_,
      stable.mpr ⟨regular.noToolRole, filled.mpr regular.filled, shaped.mpr areShaped⟩⟩
    refine (chain_merged _).imp ?_
    rintro one other unmerged ⟨role, onePlain, otherPlain⟩
    exact unmerged (canMerge_iff.mpr ⟨role, otherPlain, onePlain⟩)

end Structure

def fieldTexts : Json → Text
  | .map fields => fields.flatMap fun field => match field.2 with
      | .text words => words
      | _ => []
  | _ => []

def spelledText : JsonCodec where
  stringify
    | .text words => '"' :: words ++ ['"']
    | .list [value] => '[' :: fieldTexts value ++ [']']
    | _ => "{}".toList
  parse := quotedText.parse
  parse_text := quotedText.parse_text
  text_shorter := quotedText.text_shorter

theorem spelledText_grows : StringifyGrows spelledText := by
  intro block words isContent
  have spelled : spelledText.stringify (.list [block.toJson]) = '[' :: fieldTexts block.toJson ++ [']'] := rfl
  have long : words.length ≤ (fieldTexts block.toJson).length := by
    simp only [ContentBlock.toJson, fieldTexts, isContent, List.flatMap_append, List.length_append, Option.map_some,
      Option.toList_some, List.flatMap_cons]
    omega
  rw [spelled, List.cons_append, List.length_cons, List.length_append]
  omega

def toolConversation : List NormalMessage :=
  [{ role := "user".toList, content := [textBlock "time?".toList] },
    { role := assistantRole, content := [{ type := some toolUseType, id := some (.text "c1".toList) }] },
    { role := "user".toList, content := [{ type := some toolResultType, toolUseId := some "c1".toList }] }]

theorem toolConversation_regular : Regular toolConversation := by
  have kept : keptParts (partsOf toolConversation) = toolConversation := rfl
  have runs : runsOf NormalMessage.canMerge toolConversation = toolConversation.map fun message => (message, []) := rfl
  have marked : mark none (partsOf toolConversation) = toolConversation.map fun message => (⟨message, true, false⟩, true) :=
    rfl
  have single : ∀ message ∈ toolConversation, ∃ block, message.content = [block] := by
    intro message member
    simp only [toolConversation, List.mem_cons, List.not_mem_nil, or_false] at member
    rcases member with isFirst | isSecond | isThird
    · exact ⟨_, congrArg NormalMessage.content isFirst⟩
    · exact ⟨_, congrArg NormalMessage.content isSecond⟩
    · exact ⟨_, congrArg NormalMessage.content isThird⟩
  refine ⟨?_, ?_, ?_, ?_⟩
  · intro message member
    simp only [toolConversation, List.mem_cons, List.not_mem_nil, or_false] at member
    rcases member with isFirst | isSecond | isThird
    · rw [isFirst]; decide
    · rw [isSecond]; decide
    · rw [isThird]; decide
  · rw [kept]
    exact fun part member _ => .inl (single part member)
  · rw [kept, runs]
    intro run isRun
    rcases List.mem_map.mp isRun with ⟨message, member, shape⟩
    rcases single message member with ⟨block, only⟩
    rw [← shape]
    exact ⟨message, List.mem_cons_self, by rw [only]; exact List.cons_ne_nil _ _⟩
  · rw [marked]
    intro entry isEntry _
    rcases List.mem_map.mp isEntry with ⟨message, _, shape⟩
    rw [← shape]

/-- A tool use and its result keep their places. -/
theorem toolConversation_kept : ∃ result,
    normalizeMessages spelledText "user".toList (toolConversation.map NormalMessage.toInput) = .ok result ∧
      KeepsStructure spelledText "user".toList toolConversation result := by
  have isNormal : (toolConversation.map NormalMessage.toInput).mapM
      (normalizeSingleMessage spelledText "user".toList) = .ok toolConversation := rfl
  rcases keeps_structure_iff spelledText spelledText_grows "user".toList _ isNormal with ⟨result, accepted, exact⟩
  exact ⟨result, accepted, exact.mpr toolConversation_regular⟩

def unsplitConversation : List MessageInput :=
  [.message { role := some assistantRole, content := .items [] },
    .message { role := some "user".toList
               content := .items [.block { type := some toolResultType, toolUseId := some "c1".toList },
                 .block { type := some toolResultType, toolUseId := some "c2".toList }] }]

/-- Behind a message without blocks, two tool results stay in one message. -/
theorem results_stay_together : ∃ normal result,
    unsplitConversation.mapM (normalizeSingleMessage spelledText "user".toList) = .ok normal ∧
      normalizeMessages spelledText "user".toList unsplitConversation = .ok result ∧
      ¬ KeepsStructure spelledText "user".toList normal result := by
  refine ⟨_, _, rfl, rfl, ?_⟩
  intro keeps
  have together := keeps.alone _ List.mem_cons_self _ List.mem_cons_self rfl
  exact nomatch (List.cons.inj together).2

end Puter

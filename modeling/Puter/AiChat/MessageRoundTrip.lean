/-
Module: Puter.AiChat.MessageRoundTrip
Purpose: What is left of an OpenAI-format conversation that was normalised and processed back. A message keeps
  its calls when it has content of its own and starts a run of messages of its role; calls without content
  come back with their arguments encoded twice; a message with an empty content array is taken out with its
  calls.
Trusted boundary: none
Main exports: comesBack, roundTrips_iff
-/
import Puter.AiChat.MessageMerging

namespace Puter

open Runs

section Carried

variable {codec : JsonCodec} {message : ChatMessage}

def ChatMessage.OnlyCalls (message : ChatMessage) : Prop :=
  message.role ≠ some toolRole ∧ message.content.truthy = false ∧ message.calls ≠ []

def ChatMessage.Ordinary (message : ChatMessage) : Prop :=
  message.role ≠ some toolRole ∧ (message.content.truthy = false → message.calls = [])

theorem plain_textBlock (words : Text) : (textBlock words).Plain :=
  ⟨textType, rfl, by decide, by decide, by decide⟩

theorem plain_blocks {content : MessageContent} (plain : content.Plain) :
    ∀ block ∈ content.blocks, block.Plain := by
  intro block member
  cases content with
  | absent => cases member
  | block own => cases plain
  | other value => cases plain
  | text words =>
      simp only [MessageContent.blocks] at member
      split at member
      · cases member
      · rw [List.mem_singleton.mp member]
        exact plain_textBlock words
  | items entries =>
      obtain ⟨entry, isEntry, isBlock⟩ := List.mem_filterMap.mp member
      have here := plain entry isEntry
      cases entry with
      | text words =>
          cases isBlock
          exact plain_textBlock words
      | block own =>
          cases isBlock
          exact here
      | other value => cases isBlock

theorem ContentBlock.Plain.not_tool {block : ContentBlock} (plain : block.Plain) :
    block.isToolUse = false ∧ block.isToolResult = false := by
  obtain ⟨type, isType, _, notUse, notResult⟩ := plain
  simp [ContentBlock.isToolUse, ContentBlock.isToolResult, isType, notUse, notResult]

theorem ContentBlock.Plain.nameMedia {block : ContentBlock} (plain : block.Plain) :
    nameMedia block = block := by
  obtain ⟨type, isType, given, _⟩ := plain
  simp [Puter.nameMedia, isType, firstText_of given]

theorem blocks_of_not_truthy {content : MessageContent} (plain : content.Plain)
    (falsy : content.truthy = false) : content.blocks = [] := by
  cases content with
  | absent => rfl
  | text words =>
      have nothing : words = [] := by simpa [MessageContent.truthy] using falsy
      simp [MessageContent.blocks, nothing]
  | block own => cases plain
  | items entries => cases falsy
  | other value => cases plain

theorem normalOf_ordinary (openAI : message.OpenAI codec) (ordinary : message.Ordinary) :
    (normalOf codec message).content = message.content.blocks ∧
      (normalOf codec message).toolCalls.getD [] = message.calls ∧
        some (normalOf codec message).role = message.role := by
  obtain ⟨role, isRole, _⟩ := openAI.role
  rw [normalOf, if_neg ordinary.1]
  cases truthy : message.content.truthy with
  | true => simp [isRole, ChatMessage.calls]
  | false =>
      have noCalls := ordinary.2 truthy
      simp [isRole, noCalls, blocks_of_not_truthy openAI.content truthy]

theorem not_tool_of_ordinary (openAI : message.OpenAI codec) (ordinary : message.Ordinary) :
    (normalOf codec message).hasToolContent = false := by
  rw [NormalMessage.hasToolContent, (normalOf_ordinary openAI ordinary).1, List.any_eq_false]
  intro block member
  have notTool := (plain_blocks openAI.content block member).not_tool
  simp [notTool.1, notTool.2]

theorem normalOf_tool (isTool : message.role = some toolRole) :
    normalOf codec message =
      { role := toolRole
        content := [toolResultBlock codec message.toolCallId message.content]
        toolCallId := message.toolCallId
        toolUseId := message.toolCallId } := by
  rw [normalOf, if_pos isTool]

theorem normalOf_onlyCalls (codec : JsonCodec) (onlyCalls : message.OnlyCalls) :
    (normalOf codec message).content = message.calls.map toolUseBlock ∧
      (normalOf codec message).toolCalls = none ∧
        (normalOf codec message).role = message.role.getD [] := by
  rw [normalOf, if_neg onlyCalls.1, onlyCalls.2.1]
  exact ⟨rfl, rfl, rfl⟩

theorem message_cases (message : ChatMessage) :
    message.role = some toolRole ∨ message.OnlyCalls ∨ message.Ordinary := by
  by_cases isTool : message.role = some toolRole
  · exact .inl isTool
  · by_cases onlyCalls : message.content.truthy = false ∧ message.calls ≠ []
    · exact .inr (.inl ⟨isTool, onlyCalls.1, onlyCalls.2⟩)
    · refine .inr (.inr ⟨isTool, fun falsy => ?_⟩)
      by_contra calls
      exact onlyCalls ⟨falsy, calls⟩

theorem hasToolContent_tool (isTool : message.role = some toolRole) :
    (normalOf codec message).hasToolContent = true := by
  rw [normalOf_tool isTool]
  rfl

theorem hasToolContent_onlyCalls (onlyCalls : message.OnlyCalls) :
    (normalOf codec message).hasToolContent = true := by
  obtain ⟨first, rest, isCalls⟩ := List.exists_cons_of_ne_nil onlyCalls.2.2
  rw [NormalMessage.hasToolContent, (normalOf_onlyCalls codec onlyCalls).1, isCalls]
  rfl

theorem ordinary_of_not_tool (plain : (normalOf codec message).hasToolContent = false) :
    message.Ordinary := by
  rcases message_cases message with isTool | onlyCalls | ordinary
  · rw [hasToolContent_tool isTool] at plain
    cases plain
  · rw [hasToolContent_onlyCalls onlyCalls] at plain
    cases plain
  · exact ordinary

theorem role_of_calls (openAI : message.OpenAI codec) (calls : message.calls ≠ []) :
    message.role = some assistantRole := by
  refine openAI.caller fun none => calls ?_
  simp [ChatMessage.calls, none]

theorem normalOf_shaped (openAI : message.OpenAI codec) : (normalOf codec message).Shaped := by
  rcases message_cases message with isTool | onlyCalls | ordinary
  · rw [normalOf_tool isTool]
    exact .inr (.inr ⟨_, rfl⟩)
  · obtain ⟨content, _, role⟩ := normalOf_onlyCalls codec onlyCalls
    obtain ⟨first, rest, isCalls⟩ := List.exists_cons_of_ne_nil onlyCalls.2.2
    refine .inl ?_
    rw [NormalMessage.hasToolUse, content, role, role_of_calls openAI onlyCalls.2.2, isCalls]
    rfl
  · exact .inr (.inl (not_tool_of_ordinary openAI ordinary))

theorem blocks_isEmpty {entries : List ContentItem} (plain : (MessageContent.items entries).Plain) :
    (MessageContent.items entries).blocks.isEmpty = entries.isEmpty := by
  cases entries with
  | nil => rfl
  | cons entry rest =>
      have here := plain entry List.mem_cons_self
      cases entry with
      | text words => rfl
      | block own => rfl
      | other value => cases here

theorem isEmpty_normalOf (openAI : message.OpenAI codec) :
    (normalOf codec message).content.isEmpty = message.isEmpty := by
  rcases message_cases message with isTool | onlyCalls | ordinary
  · rw [normalOf_tool isTool]
    simp [ChatMessage.isEmpty, isTool]
  · obtain ⟨notTool, falsy, calls⟩ := onlyCalls
    rw [(normalOf_onlyCalls codec ⟨notTool, falsy, calls⟩).1, ChatMessage.isEmpty]
    cases content : message.content with
    | items entries =>
        rw [content] at falsy
        cases falsy
    | absent | text words | block own | other value =>
        rw [content] at falsy
        simp [notTool, falsy]
  · rw [(normalOf_ordinary openAI ordinary).1, ChatMessage.isEmpty]
    have plain := openAI.content
    have noCalls := ordinary.2
    cases content : message.content with
    | absent =>
        rw [content] at noCalls
        simp [MessageContent.blocks, MessageContent.truthy, ordinary.1, noCalls rfl]
    | text words =>
        rw [content] at noCalls
        by_cases nothing : words = []
        · subst nothing
          simp [MessageContent.blocks, MessageContent.truthy, ordinary.1, noCalls rfl]
        · simp [MessageContent.blocks, MessageContent.truthy, nothing]
    | items entries =>
        rw [content] at plain
        simp [blocks_isEmpty plain, ordinary.1]
    | block own =>
        rw [content] at plain
        cases plain
    | other value =>
        rw [content] at plain
        cases plain

end Carried

section Processed

variable {codec : JsonCodec} {message first : ChatMessage} {others : List ChatMessage}

def comesBack (codec : JsonCodec) (run : ChatMessage × List ChatMessage) : List ConversationItem :=
  (processInputMessage codec (mergedRun (normalOf codec run.1, run.2.map (normalOf codec)))).carried codec

theorem comesBack_tool (isTool : message.role = some toolRole) :
    comesBack codec (message, []) =
      [.result message.toolCallId (.text (toolResultText codec message.content))] := by
  rw [comesBack, normalOf_tool isTool]
  rfl

theorem map_nameMedia_toolUseBlock (calls : List WireCall) :
    (calls.map toolUseBlock).map nameMedia = calls.map toolUseBlock := by
  rw [List.map_map]
  exact List.map_congr_left fun call _ => rfl

theorem callItem_callOfBlock {call : WireCall} {arguments : Text}
    (given : call.arguments = some (.text arguments)) :
    callItem codec (callOfBlock codec (toolUseBlock call)) = .call call.id call.name call.arguments := by
  simp [callItem, callOfBlock, toolUseBlock, WireCall.parsed, given, codec.parse_text]

theorem processInputMessage_uses {message : NormalMessage} {calls : List WireCall} (given : calls ≠ [])
    (content : message.content = calls.map toolUseBlock) (noCalls : message.toolCalls = none) :
    processInputMessage codec message =
      { role := some message.role
        content := .absent
        toolCalls := some (calls.reverse.map fun call => callOfBlock codec (toolUseBlock call))
        toolCallId := message.toolCallId
        toolUseId := message.toolUseId } := by
  have uses : (calls.map toolUseBlock).filter (·.isToolUse) = calls.map toolUseBlock := by
    rw [List.filter_eq_self]
    intro block member
    obtain ⟨call, _, rfl⟩ := List.mem_map.mp member
    rfl
  have noOthers : (calls.map toolUseBlock).filter (fun block => !block.isToolUse) = [] := by
    rw [List.filter_eq_nil_iff]
    intro block member
    obtain ⟨call, _, rfl⟩ := List.mem_map.mp member
    exact Bool.false_ne_true
  have useGiven : calls.map toolUseBlock ≠ [] := by simpa using given
  simp only [processInputMessage, content, noCalls, map_nameMedia_toolUseBlock, uses, noOthers,
    List.find?_nil, if_neg useGiven]
  rw [if_pos ⟨useGiven, trivial⟩, Option.getD_none, List.nil_append, ← List.map_reverse, List.map_map]
  rfl

theorem comesBack_onlyCalls (openAI : message.OpenAI codec) (onlyCalls : message.OnlyCalls) :
    comesBack codec (message, []) =
      message.calls.reverse.map fun call => .call call.id call.name call.arguments := by
  obtain ⟨content, noCalls, role⟩ := normalOf_onlyCalls codec onlyCalls
  rw [role_of_calls openAI onlyCalls.2.2] at role
  have merged : mergedRun (normalOf codec message, []) = normalOf codec message := by
    simp [mergedRun]
  have notTool : (some assistantRole : Option Text) ≠ some toolRole := by decide
  rw [comesBack, List.map_nil, merged, processInputMessage_uses onlyCalls.2.2 content noCalls,
    ChatMessage.carried]
  simp only [role, Option.getD_some, if_neg notTool, MessageContent.blocks, List.map_nil, List.nil_append,
    ChatMessage.calls, List.map_map]
  refine List.map_congr_left fun call member => ?_
  obtain ⟨arguments, isArguments, _⟩ := openAI.arguments call (List.mem_reverse.mp member)
  exact callItem_callOfBlock isArguments

theorem processInputMessage_plain {message : NormalMessage}
    (plain : ∀ block ∈ message.content, block.Plain) :
    processInputMessage codec message =
      { role := some message.role
        content := .items (message.content.map .block)
        toolCalls := message.toolCalls
        toolCallId := message.toolCallId
        toolUseId := message.toolUseId } := by
  have named : message.content.map nameMedia = message.content := by
    rw [List.map_congr_left fun block member => (plain block member).nameMedia, List.map_id']
  have noUses : message.content.filter (·.isToolUse) = [] := by
    rw [List.filter_eq_nil_iff]
    exact fun block member => Bool.eq_false_iff.mp (plain block member).not_tool.1
  have allOthers : message.content.filter (fun block => !block.isToolUse) = message.content := by
    rw [List.filter_eq_self]
    exact fun block member => by simp [(plain block member).not_tool.1]
  have noResult : message.content.find? (·.isToolResult) = none := by
    rw [List.find?_eq_none]
    exact fun block member => Bool.eq_false_iff.mp (plain block member).not_tool.2
  simp [processInputMessage, named, noUses, allOthers, noResult]

theorem blocks_map_block (blocks : List ContentBlock) :
    (MessageContent.items (blocks.map .block)).blocks = blocks := by
  simp [MessageContent.blocks, List.filterMap_map]

theorem comesBack_ordinary (openAI : ∀ one ∈ first :: others, one.OpenAI codec)
    (ordinary : ∀ one ∈ first :: others, one.Ordinary) :
    comesBack codec (first, others) =
      (first.content.blocks ++ others.flatMap (·.content.blocks)).map (.block first.role) ++
        first.calls.map (callItem codec) := by
  obtain ⟨content, calls, role⟩ := normalOf_ordinary (openAI first List.mem_cons_self)
    (ordinary first List.mem_cons_self)
  have othersContent : (others.map (normalOf codec)).flatMap (·.content) =
      others.flatMap (·.content.blocks) := by
    rw [List.flatMap_map]
    refine List.flatMap_congr fun one member => ?_
    exact (normalOf_ordinary (openAI one (List.mem_cons_of_mem _ member))
      (ordinary one (List.mem_cons_of_mem _ member))).1
  have plain : ∀ block ∈ first.content.blocks ++ others.flatMap (·.content.blocks), block.Plain := by
    intro block member
    rcases List.mem_append.mp member with inFirst | inOthers
    · exact plain_blocks (openAI first List.mem_cons_self).content block inFirst
    · obtain ⟨one, isOne, inOne⟩ := List.mem_flatMap.mp inOthers
      exact plain_blocks (openAI one (List.mem_cons_of_mem _ isOne)).content block inOne
  have merged : mergedRun (normalOf codec first, others.map (normalOf codec)) =
      { normalOf codec first with
        content := first.content.blocks ++ others.flatMap (·.content.blocks) } := by
    rw [mergedRun, content, othersContent]
  have notTool : first.role ≠ some toolRole := (ordinary first List.mem_cons_self).1
  rw [comesBack, merged, processInputMessage_plain plain, ChatMessage.carried]
  simp only [role, if_neg notTool, blocks_map_block]
  rw [ChatMessage.calls, calls]

end Processed

section Runs

variable {codec : JsonCodec} {messages : List ChatMessage} {run : ChatMessage × List ChatMessage}

def joins (codec : JsonCodec) (message next : ChatMessage) : Bool :=
  (normalOf codec message).canMerge (normalOf codec next)

def carriedBefore (codec : JsonCodec) (run : ChatMessage × List ChatMessage) : List ConversationItem :=
  (run.1 :: run.2).flatMap (ChatMessage.carried codec)

theorem run_cases (openAI : ∀ one ∈ run.1 :: run.2, one.OpenAI codec)
    (chain : List.IsChain (fun one other => joins codec one other = true) (run.1 :: run.2)) :
    (run.2 = [] ∧ run.1.role = some toolRole) ∨ (run.2 = [] ∧ run.1.OnlyCalls) ∨
      ((∀ one ∈ run.1 :: run.2, one.Ordinary) ∧ ∀ other ∈ run.2, other.role = run.1.role) := by
  obtain ⟨first, others⟩ := run
  have normalChain : List.IsChain (fun one other => one.canMerge other = true)
      (normalOf codec first :: others.map (normalOf codec)) := by
    rw [← List.map_cons, List.isChain_map]
    exact chain
  have plain := plain_of_chain normalChain
  by_cases alone : others = []
  · subst alone
    rcases message_cases first with isTool | onlyCalls | ordinary
    · exact .inl ⟨rfl, isTool⟩
    · exact .inr (.inl ⟨rfl, onlyCalls⟩)
    · exact .inr (.inr ⟨by simpa using ordinary, fun other member => absurd member List.not_mem_nil⟩)
  · obtain ⟨next, nextIn⟩ := List.exists_mem_of_ne_nil others alone
    have firstPlain := (plain _ (List.mem_map_of_mem nextIn)).2.2
    have ordinary : ∀ one ∈ first :: others, one.Ordinary := by
      intro one member
      rcases List.mem_cons.mp member with rfl | later
      · exact ordinary_of_not_tool firstPlain
      · exact ordinary_of_not_tool (plain _ (List.mem_map_of_mem later)).2.1
    refine .inr (.inr ⟨ordinary, fun other member => ?_⟩)
    have role := (plain _ (List.mem_map_of_mem member)).1
    have otherRole := (normalOf_ordinary (openAI other (List.mem_cons_of_mem _ member))
      (ordinary other (List.mem_cons_of_mem _ member))).2.2
    have firstRole := (normalOf_ordinary (openAI first List.mem_cons_self)
      (ordinary first List.mem_cons_self)).2.2
    rw [← otherRole, ← firstRole, role]

theorem carried_tool {message : ChatMessage} (isTool : message.role = some toolRole) :
    message.carried codec = [.result message.toolCallId message.content] :=
  if_pos isTool

theorem carried_other {message : ChatMessage} (notTool : message.role ≠ some toolRole) :
    message.carried codec =
      message.content.blocks.map (.block message.role) ++ message.calls.map (callItem codec) :=
  if_neg notTool

theorem length_carried (others : List ChatMessage)
    (notTool : ∀ other ∈ others, other.role ≠ some toolRole) :
    (others.flatMap (ChatMessage.carried codec)).length =
      (others.flatMap (·.content.blocks)).length + (others.flatMap ChatMessage.calls).length := by
  induction others with
  | nil => rfl
  | cons other rest ih =>
      simp only [List.flatMap_cons, List.length_append, carried_other (notTool other List.mem_cons_self),
        List.length_map, ih fun one member => notTool one (List.mem_cons_of_mem _ member)]
      omega

theorem length_comesBack (openAI : ∀ one ∈ run.1 :: run.2, one.OpenAI codec)
    (chain : List.IsChain (fun one other => joins codec one other = true) (run.1 :: run.2)) :
    (comesBack codec run).length + (run.2.flatMap ChatMessage.calls).length =
      (carriedBefore codec run).length := by
  have cases := run_cases openAI chain
  obtain ⟨first, others⟩ := run
  rcases cases with ⟨alone, isTool⟩ | ⟨alone, onlyCalls⟩ | ⟨ordinary, _⟩
  · obtain rfl : others = [] := alone
    simp [carriedBefore, comesBack_tool isTool, carried_tool isTool]
  · obtain rfl : others = [] := alone
    have noBlocks := blocks_of_not_truthy (openAI first List.mem_cons_self).content onlyCalls.2.1
    simp [carriedBefore, comesBack_onlyCalls (openAI first List.mem_cons_self) onlyCalls,
      carried_other onlyCalls.1, noBlocks]
  · rw [comesBack_ordinary openAI ordinary, carriedBefore, List.flatMap_cons,
      carried_other (ordinary first List.mem_cons_self).1]
    simp only [List.length_append, List.length_map,
      length_carried others fun other member => (ordinary other (List.mem_cons_of_mem _ member)).1]
    omega

theorem no_descent (codec : JsonCodec) {calls : List WireCall}
    (texts : ∀ call ∈ calls, ∃ arguments, call.arguments = some (.text arguments))
    (closed : ∀ call ∈ calls, ∃ other ∈ calls, other.arguments = call.parsed codec) : calls = [] := by
  have none : ∀ length, ∀ call ∈ calls, ∀ arguments, call.arguments = some (.text arguments) →
      arguments.length ≠ length := by
    intro length
    induction length using Nat.strong_induction_on with
    | _ length ih =>
        intro call member arguments given isLength
        obtain ⟨other, otherIn, parsed⟩ := closed call member
        obtain ⟨inner, otherGiven⟩ := texts other otherIn
        rw [otherGiven, WireCall.parsed, given] at parsed
        have shorter := codec.text_shorter arguments inner parsed.symm
        exact ih inner.length (by omega) other otherIn inner otherGiven rfl
  by_contra given
  obtain ⟨call, member⟩ := List.exists_mem_of_ne_nil calls given
  obtain ⟨arguments, isArguments⟩ := texts call member
  exact none arguments.length call member arguments isArguments rfl

theorem comesBack_onlyCalls_ne {message : ChatMessage} (openAI : message.OpenAI codec)
    (onlyCalls : message.OnlyCalls) :
    comesBack codec (message, []) ≠ carriedBefore codec (message, []) := by
  intro same
  have noBlocks := blocks_of_not_truthy openAI.content onlyCalls.2.1
  rw [comesBack_onlyCalls openAI onlyCalls, carriedBefore] at same
  simp only [List.flatMap_cons, List.flatMap_nil, List.append_nil, carried_other onlyCalls.1, noBlocks,
    List.map_nil, List.nil_append] at same
  refine onlyCalls.2.2 (no_descent codec (fun call member => ?_) fun call member => ?_)
  · obtain ⟨arguments, isArguments, _⟩ := openAI.arguments call member
    exact ⟨arguments, isArguments⟩
  · have listed : callItem codec call ∈
        message.calls.reverse.map fun call => ConversationItem.call call.id call.name call.arguments := by
      rw [same]
      exact List.mem_map_of_mem member
    obtain ⟨other, otherIn, isCall⟩ := List.mem_map.mp listed
    exact ⟨other, List.mem_reverse.mp otherIn, (ConversationItem.call.inj isCall).2.2⟩

theorem comesBack_eq_iff (openAI : ∀ one ∈ run.1 :: run.2, one.OpenAI codec)
    (chain : List.IsChain (fun one other => joins codec one other = true) (run.1 :: run.2))
    (firstOnly : ∀ other ∈ run.2, other.calls = []) :
    comesBack codec run = carriedBefore codec run ↔
      ¬ run.1.OnlyCalls ∧ (run.1.role = some toolRole → ∃ words, run.1.content = .text words) ∧
        (run.1.calls ≠ [] → ∀ other ∈ run.2, other.content.blocks = []) := by
  have cases := run_cases openAI chain
  obtain ⟨first, others⟩ := run
  rcases cases with ⟨alone, isTool⟩ | ⟨alone, onlyCalls⟩ | ⟨ordinary, sameRole⟩
  · obtain rfl : others = [] := alone
    rw [comesBack_tool isTool, carriedBefore]
    simp only [List.flatMap_cons, List.flatMap_nil, List.append_nil, carried_tool isTool]
    constructor
    · intro same
      refine ⟨fun onlyCalls => onlyCalls.1 isTool, fun _ => ?_, fun _ other member => ?_⟩
      · exact ⟨_, (ConversationItem.result.inj (List.cons.inj same).1).2.symm⟩
      · exact absurd member List.not_mem_nil
    · rintro ⟨_, isText, _⟩
      obtain ⟨words, isWords⟩ := isText isTool
      rw [isWords]
      rfl
  · obtain rfl : others = [] := alone
    exact iff_of_false (comesBack_onlyCalls_ne (openAI first List.mem_cons_self) onlyCalls)
      fun survives => survives.1 onlyCalls
  · have notTool := (ordinary first List.mem_cons_self).1
    have notOnly : ¬ first.OnlyCalls := fun onlyCalls =>
      onlyCalls.2.2 ((ordinary first List.mem_cons_self).2 onlyCalls.2.1)
    have behind : others.flatMap (ChatMessage.carried codec) =
        (others.flatMap (·.content.blocks)).map (.block first.role) := by
      rw [List.map_flatMap]
      refine List.flatMap_congr fun other member => ?_
      rw [carried_other (ordinary other (List.mem_cons_of_mem _ member)).1, firstOnly other member,
        sameRole other member]
      simp
    rw [comesBack_ordinary openAI ordinary, carriedBefore, List.flatMap_cons, carried_other notTool, behind,
      List.map_append, List.append_assoc, List.append_assoc, List.append_cancel_left_eq]
    constructor
    · intro same
      refine ⟨notOnly, fun isTool => absurd isTool notTool, fun calls other member => ?_⟩
      by_contra blocks
      obtain ⟨call, rest, isCalls⟩ := List.exists_cons_of_ne_nil calls
      have given : others.flatMap (·.content.blocks) ≠ [] := fun nothing =>
        blocks (List.flatMap_eq_nil_iff.mp nothing other member)
      obtain ⟨block, moreBlocks, isBlocks⟩ := List.exists_cons_of_ne_nil given
      rw [isBlocks, show first.calls = call :: rest from isCalls] at same
      cases (List.cons.inj same).1
    · rintro ⟨_, _, apart⟩
      by_cases calls : first.calls = []
      · simp [calls]
      · have noBlocks : others.flatMap (·.content.blocks) = [] :=
          List.flatMap_eq_nil_iff.mpr (apart calls)
        simp [noBlocks]

end Runs

section Counting

variable {α β : Type} {members : List α} {f g h : α → List β}

theorem length_flatMap_add {γ δ : Type} {f : α → List β} {g : α → List γ} {h : α → List δ}
    (counts : ∀ one ∈ members, (f one).length + (g one).length = (h one).length) :
    (members.flatMap f).length + (members.flatMap g).length = (members.flatMap h).length := by
  induction members with
  | nil => rfl
  | cons first rest ih =>
      have here := counts first List.mem_cons_self
      have behind := ih fun one member => counts one (List.mem_cons_of_mem _ member)
      simp only [List.flatMap_cons, List.length_append]
      omega

theorem eq_of_flatMap_eq (lengths : ∀ one ∈ members, (f one).length = (g one).length)
    (same : members.flatMap f = members.flatMap g) : ∀ one ∈ members, f one = g one := by
  induction members with
  | nil => exact fun one member => absurd member List.not_mem_nil
  | cons first rest ih =>
      rw [List.flatMap_cons, List.flatMap_cons] at same
      obtain ⟨here, behind⟩ := List.append_inj same (lengths first List.mem_cons_self)
      intro one member
      rcases List.mem_cons.mp member with rfl | later
      · exact here
      · exact ih (fun one member => lengths one (List.mem_cons_of_mem _ member)) behind
          one later

end Counting

section Conversation

variable {codec : JsonCodec} {messages : List ChatMessage} {message next : ChatMessage}

def keptRuns (codec : JsonCodec) (messages : List ChatMessage) : List (ChatMessage × List ChatMessage) :=
  runsOf (joins codec) (leftBy ChatMessage.isEmpty messages)

theorem mapM_normalizeSingleMessage (openAI : ∀ message ∈ messages, message.OpenAI codec)
    (defaultRole : Text) :
    ((∃ message ∈ messages, message.refused) ∧ ∃ error,
      (messages.map .message).mapM (normalizeSingleMessage codec defaultRole) = .error error) ∨
    ((∀ message ∈ messages, ¬ message.refused) ∧
      (messages.map .message).mapM (normalizeSingleMessage codec defaultRole) =
        .ok (messages.map (normalOf codec))) := by
  induction messages with
  | nil => exact .inr ⟨fun _ member => absurd member List.not_mem_nil, rfl⟩
  | cons first rest ih =>
      have behind := ih fun message member => openAI message (List.mem_cons_of_mem _ member)
      rw [List.map_cons, List.mapM_cons, normalizeSingleMessage]
      rcases normalizeObject_openAI (openAI first List.mem_cons_self) defaultRole with
        ⟨refused, error, failed⟩ | ⟨notRefused, normal⟩
      · exact .inl ⟨⟨first, List.mem_cons_self, refused⟩, error, by rw [failed]; rfl⟩
      · rcases behind with ⟨⟨message, member, refused⟩, error, failed⟩ | ⟨noneRefused, normalRest⟩
        · exact .inl ⟨⟨message, List.mem_cons_of_mem _ member, refused⟩, error, by
            rw [normal, failed]; rfl⟩
        · refine .inr ⟨List.forall_mem_cons.mpr ⟨notRefused, noneRefused⟩, ?_⟩
          rw [normal, normalRest]
          rfl

theorem conversationItems_processed (openAI : ∀ message ∈ messages, message.OpenAI codec) :
    conversationItems codec (processInputMessages codec
        (mergeMessages (splitMessages (messages.map (normalOf codec))))) =
      (keptRuns codec messages).flatMap (comesBack codec) := by
  have shaped : ∀ message ∈ messages.map (normalOf codec), message.Shaped := by
    intro message member
    obtain ⟨original, isOriginal, rfl⟩ := List.mem_map.mp member
    exact normalOf_shaped (openAI original isOriginal)
  have left : leftBy (fun message => (normalOf codec message).content.isEmpty) messages =
      leftBy ChatMessage.isEmpty messages :=
    leftBy_congr fun message member => isEmpty_normalOf (openAI message member)
  rw [mergeMessages_splitMessages shaped, leftBy_map, left, mergeMessages_runsOf, runsOf_map,
    conversationItems, processInputMessages, List.flatMap_map, List.flatMap_map, List.flatMap_map]
  rfl

theorem roundTrips_iff_runs (openAI : ∀ message ∈ messages, message.OpenAI codec) (defaultRole : Text) :
    RoundTrips codec defaultRole messages ↔
      (∀ message ∈ messages, ¬ message.refused) ∧
        (keptRuns codec messages).flatMap (comesBack codec) =
          messages.flatMap (ChatMessage.carried codec) := by
  rcases mapM_normalizeSingleMessage openAI defaultRole with
    ⟨⟨message, member, refused⟩, error, failed⟩ | ⟨noneRefused, normal⟩
  · refine iff_of_false ?_ fun survives => survives.1 message member refused
    rintro ⟨normal, isNormal, _⟩
    rw [normalizeMessages, failed] at isNormal
    cases isNormal
  · have normalized : normalizeMessages codec defaultRole (messages.map .message) =
        .ok (mergeMessages (splitMessages (messages.map (normalOf codec)))) := by
      rw [normalizeMessages, normal]
      rfl
    rw [← conversationItems_processed openAI]
    constructor
    · rintro ⟨kept, isKept, same⟩
      rw [normalized] at isKept
      cases isKept
      exact ⟨noneRefused, same⟩
    · exact fun survives => ⟨_, normalized, survives.2⟩

theorem carried_of_takenBy (openAI : ∀ message ∈ messages, message.OpenAI codec)
    (taken : message ∈ takenBy ChatMessage.isEmpty messages) :
    message.role ≠ some toolRole ∧ message.carried codec = message.calls.map (callItem codec) := by
  obtain ⟨member, empty⟩ := empty_of_takenBy taken
  have plain := (openAI message member).content
  simp only [ChatMessage.isEmpty, Bool.and_eq_true, decide_eq_true_eq] at empty
  have noBlocks : message.content.blocks = [] := by
    cases content : message.content with
    | items entries =>
        rw [content] at empty plain
        exact List.isEmpty_iff.mp ((blocks_isEmpty plain).trans empty.2)
    | absent | text words | block own | other value =>
        rw [content] at empty plain
        simp only [Bool.and_eq_true, Bool.not_eq_true'] at empty
        exact blocks_of_not_truthy plain empty.2.1
  exact ⟨empty.1, by simp [carried_other empty.1, noBlocks]⟩

theorem openAI_of_run (openAI : ∀ message ∈ messages, message.OpenAI codec)
    {run : ChatMessage × List ChatMessage} (kept : run ∈ keptRuns codec messages) :
    ∀ one ∈ run.1 :: run.2, one.OpenAI codec := fun one member =>
  openAI one (leftBy_subset messages (mem_of_mem_runsOf kept one member))

theorem flatMap_comesBack_eq_iff (openAI : ∀ message ∈ messages, message.OpenAI codec) :
    (keptRuns codec messages).flatMap (comesBack codec) = messages.flatMap (ChatMessage.carried codec) ↔
      (∀ message ∈ takenBy ChatMessage.isEmpty messages, message.calls = []) ∧
        ∀ run ∈ keptRuns codec messages,
          (∀ other ∈ run.2, other.calls = []) ∧ comesBack codec run = carriedBefore codec run := by
  have whole : (keptRuns codec messages).flatMap (carriedBefore codec) =
      (leftBy ChatMessage.isEmpty messages).flatMap (ChatMessage.carried codec) :=
    flatMap_runsOf (joins codec) _ _
  have lengths : ∀ run ∈ keptRuns codec messages,
      (comesBack codec run).length + (run.2.flatMap ChatMessage.calls).length =
        (carriedBefore codec run).length :=
    fun run kept => length_comesBack (openAI_of_run openAI kept) (isChain_run kept)
  constructor
  · intro same
    have counts := length_flatMap_add lengths
    have total := @length_flatMap_leftBy _ _ ChatMessage.isEmpty messages (ChatMessage.carried codec)
    rw [whole] at counts
    rw [← same] at total
    have nothingTaken : (takenBy ChatMessage.isEmpty messages).flatMap (ChatMessage.carried codec) = [] :=
      List.eq_nil_of_length_eq_zero (by omega)
    have nothingInside :
        (keptRuns codec messages).flatMap (fun run => run.2.flatMap ChatMessage.calls) = [] :=
      List.eq_nil_of_length_eq_zero (by omega)
    have noneTaken := List.flatMap_eq_nil_iff.mp nothingTaken
    have noneInside : ∀ run ∈ keptRuns codec messages, run.2.flatMap ChatMessage.calls = [] :=
      List.flatMap_eq_nil_iff.mp nothingInside
    refine ⟨fun message taken => ?_, fun run kept => ⟨fun other member => ?_, ?_⟩⟩
    · have nothing := noneTaken message taken
      rw [(carried_of_takenBy openAI taken).2] at nothing
      exact List.map_eq_nil_iff.mp nothing
    · exact List.flatMap_eq_nil_iff.mp (noneInside run kept) other member
    · refine eq_of_flatMap_eq (fun run kept => ?_) (whole ▸ same.trans ?_) run kept
      · rw [← lengths run kept, noneInside run kept]
        rfl
      · exact (flatMap_leftBy noneTaken).symm
  · rintro ⟨noneTaken, runs⟩
    have nothingTaken : ∀ message ∈ takenBy ChatMessage.isEmpty messages, message.carried codec = [] := by
      intro message taken
      rw [(carried_of_takenBy openAI taken).2, noneTaken message taken]
      rfl
    rw [← flatMap_leftBy nothingTaken, ← whole]
    exact List.flatMap_congr fun run kept => (runs run kept).2

theorem joins_eq_sameRole (openAI : message.OpenAI codec) (nextOpenAI : next.OpenAI codec)
    (notOnly : ¬ message.OnlyCalls) (nextNotOnly : ¬ next.OnlyCalls) :
    joins codec message next = message.sameRole next := by
  rcases message_cases message with isTool | onlyCalls | ordinary
  · simp [joins, NormalMessage.canMerge, hasToolContent_tool isTool, ChatMessage.sameRole, isTool]
  · exact absurd onlyCalls notOnly
  · rcases message_cases next with isTool | onlyCalls | nextOrdinary
    · simp [joins, NormalMessage.canMerge, hasToolContent_tool isTool, ChatMessage.sameRole, isTool]
    · exact absurd onlyCalls nextNotOnly
    · have role := (normalOf_ordinary openAI ordinary).2.2
      have nextRole := (normalOf_ordinary nextOpenAI nextOrdinary).2.2
      have notTool := ordinary.1
      rw [← role] at notTool
      simp only [joins, NormalMessage.canMerge, not_tool_of_ordinary openAI ordinary,
        not_tool_of_ordinary nextOpenAI nextOrdinary, ChatMessage.sameRole, ← role, ← nextRole]
      simpa using fun _ => notTool

theorem filled_of_runs (openAI : ∀ message ∈ messages, message.OpenAI codec)
    (noneTaken : ∀ message ∈ takenBy ChatMessage.isEmpty messages, message.calls = [])
    (returned : ∀ run ∈ keptRuns codec messages,
      (∀ other ∈ run.2, other.calls = []) ∧ comesBack codec run = carriedBefore codec run) :
    ∀ message ∈ messages, ¬ message.OnlyCalls ∧
      (message.role = some toolRole → ∃ words, message.content = .text words) := by
  intro message member
  rcases @mem_leftBy_or_takenBy _ ChatMessage.isEmpty _ _ member with left | taken
  · obtain ⟨run, kept, inRun⟩ := @exists_run_of_mem _ (joins codec) _ _ left
    have runOpenAI := openAI_of_run openAI kept
    have survives := (comesBack_eq_iff runOpenAI (isChain_run kept) (returned run kept).1).mp
      (returned run kept).2
    rcases run_cases runOpenAI (isChain_run kept) with ⟨alone, _⟩ | ⟨_, onlyCalls⟩ | ⟨ordinary, _⟩
    · rw [alone, List.mem_singleton] at inRun
      subst inRun
      exact ⟨survives.1, survives.2.1⟩
    · exact absurd onlyCalls survives.1
    · have here := ordinary message inRun
      exact ⟨fun onlyCalls => onlyCalls.2.2 (here.2 onlyCalls.2.1), fun isTool => absurd isTool here.1⟩
  · exact ⟨fun onlyCalls => onlyCalls.2.2 (noneTaken message taken),
      fun isTool => absurd isTool (carried_of_takenBy openAI taken).1⟩

theorem keptRuns_eq (openAI : ∀ message ∈ messages, message.OpenAI codec)
    (noneOnly : ∀ message ∈ messages, ¬ message.OnlyCalls) :
    keptRuns codec messages = runsOf ChatMessage.sameRole (leftBy ChatMessage.isEmpty messages) := by
  refine runsOf_congr fun message member next nextMember => ?_
  have inMessages := leftBy_subset messages member
  have nextIn := leftBy_subset messages nextMember
  exact joins_eq_sameRole (openAI message inMessages) (openAI next nextIn) (noneOnly message inMessages)
    (noneOnly next nextIn)

/-- A conversation in the OpenAI format comes back as it was exactly when no message makes calls without
    content, tool results are texts, no call is taken out with an empty content, and of the messages of one
    role that are merged the first alone makes calls, or the only one with blocks does. -/
theorem roundTrips_iff (openAI : ∀ message ∈ messages, message.OpenAI codec) (defaultRole : Text) :
    RoundTrips codec defaultRole messages ↔ Survives messages := by
  rw [roundTrips_iff_runs openAI, flatMap_comesBack_eq_iff openAI]
  constructor
  · rintro ⟨noneRefused, noneTaken, returned⟩
    have filled := filled_of_runs openAI noneTaken returned
    have sameRuns := keptRuns_eq openAI fun message member => (filled message member).1
    refine ⟨fun message member notTool falsy => ?_, fun message member => (filled message member).2,
      noneTaken, fun run kept => ?_⟩
    · cases calls : message.toolCalls with
      | none => exact absurd ⟨notTool, falsy, calls⟩ (noneRefused message member)
      | some given =>
          by_contra some
          refine (filled message member).1 ⟨notTool, falsy, fun nothing => some ?_⟩
          rw [ChatMessage.calls, calls] at nothing
          exact congrArg _ nothing
    · rw [← sameRuns] at kept
      have survives := (comesBack_eq_iff (openAI_of_run openAI kept) (isChain_run kept)
        (returned run kept).1).mp (returned run kept).2
      exact ⟨(returned run kept).1, survives.2.2⟩
  · intro survives
    have noneOnly : ∀ message ∈ messages, ¬ message.OnlyCalls := by
      rintro message member ⟨notTool, falsy, calls⟩
      refine calls ?_
      rw [ChatMessage.calls, survives.filled message member notTool falsy]
      rfl
    refine ⟨fun message member refused => ?_, survives.taken, fun run kept => ?_⟩
    · have given := survives.filled message member refused.1 refused.2.1
      rw [refused.2.2] at given
      cases given
    · have runs := survives.runs run (keptRuns_eq openAI noneOnly ▸ kept)
      have firstIn : run.1 ∈ messages :=
        leftBy_subset messages (mem_of_mem_runsOf kept run.1 List.mem_cons_self)
      exact ⟨runs.1, (comesBack_eq_iff (openAI_of_run openAI kept) (isChain_run kept) runs.1).mpr
        ⟨noneOnly run.1 firstIn, survives.results run.1 firstIn, runs.2⟩⟩

def quotedText : JsonCodec where
  stringify
    | .text words => '"' :: words ++ ['"']
    | _ => "{}".toList
  parse
    | '"' :: rest => if rest.getLast? = some '"' then some (.text rest.dropLast) else none
    | text => if text = "{}".toList then some (.map []) else none
  parse_text words := by simp
  text_shorter text inner parsed := by
    split at parsed
    · split at parsed
      · cases parsed
        simp only [List.length_dropLast, List.length_cons]
        omega
      · cases parsed
    · split at parsed
      · cases parsed
      · cases parsed

def timeCall : WireCall where
  id := some (.text "c1".toList)
  name := some (.text "time".toList)
  arguments := some (.text "{}".toList)

def timeConversation (reply : MessageContent) : List ChatMessage :=
  [{ role := some "user".toList, content := .text "time?".toList },
    { role := some assistantRole, content := reply, toolCalls := some [timeCall] },
    { role := some toolRole, content := .text "noon".toList, toolCallId := some "c1".toList }]

theorem timeConversation_openAI {reply : MessageContent} (plain : reply.Plain) :
    ∀ message ∈ timeConversation reply, message.OpenAI quotedText := by
  intro message member
  simp only [timeConversation, List.mem_cons, List.not_mem_nil, or_false] at member
  rcases member with rfl | rfl | rfl
  · exact ⟨⟨_, rfl, by decide⟩, trivial, fun calls => absurd rfl calls, by simp [ChatMessage.calls],
      fun isTool => absurd isTool (by decide), fun absent => absurd absent (by simp)⟩
  · refine ⟨⟨_, rfl, by decide⟩, plain, fun _ => rfl, fun call called => ?_,
      fun isTool => absurd (Option.some.inj isTool) (by decide), fun _ => by simp⟩
    obtain rfl : call = timeCall := by simpa [ChatMessage.calls] using called
    exact ⟨"{}".toList, rfl, rfl⟩
  · exact ⟨⟨_, rfl, by decide⟩, trivial, fun calls => absurd rfl calls, by simp [ChatMessage.calls],
      fun _ => ⟨_, rfl, by decide⟩, fun absent => absurd absent (by simp)⟩

/-- A conversation whose call has a text beside it comes back as it was. -/
theorem spokenCall_comesBack :
    RoundTrips quotedText "user".toList (timeConversation (.text "wait".toList)) := by
  have plain : (MessageContent.text "wait".toList).Plain := trivial
  refine (roundTrips_iff (timeConversation_openAI plain) _).mpr ⟨?_, ?_, ?_, ?_⟩
  · simp [timeConversation, MessageContent.truthy]
  · simp [timeConversation, toolRole, assistantRole]
  · have noneTaken : takenBy ChatMessage.isEmpty (timeConversation (.text "wait".toList)) = [] := rfl
    rw [noneTaken]
    exact fun message taken => absurd taken List.not_mem_nil
  · have alone : runsOf ChatMessage.sameRole
        (leftBy ChatMessage.isEmpty (timeConversation (.text "wait".toList))) =
          (timeConversation (.text "wait".toList)).map fun message => (message, []) := rfl
    rw [alone]
    intro run kept
    obtain ⟨message, _, rfl⟩ := List.mem_map.mp kept
    simp

/-- With a call alone its arguments come back as a text. -/
theorem silentCall_encoded_twice :
    (∀ message ∈ timeConversation .absent, message.OpenAI quotedText) ∧
      ¬ RoundTrips quotedText "user".toList (timeConversation .absent) := by
  have plain : MessageContent.absent.Plain := trivial
  refine ⟨timeConversation_openAI plain, ?_⟩
  rintro ⟨normal, isNormal, same⟩
  cases isNormal
  have arguments : some (Document.text "{}".toList) = some (.map [] : Json) := by
    have items := congrArg (fun items => items[1]?) same
    exact (ConversationItem.call.inj (Option.some.inj items)).2.2
  cases arguments

end Conversation

end Puter

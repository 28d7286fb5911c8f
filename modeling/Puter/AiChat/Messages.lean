/-
Module: Puter.AiChat.Messages
Purpose: The normalisation of chat messages to content blocks (drivers/ai-chat/utils/Messages.js) and the
  way back to the OpenAI format (`process_input_messages` of OpenAIUtil.js): tool calls and tool results
  become blocks and come back, a message with several blocks is split, and messages of one role that follow
  each other are merged.
Trusted boundary: `JSON.stringify` and `JSON.parse`
Main exports: JsonCodec, ConversationItem, RoundTrips
-/
import Puter.Core.Actor
import Puter.Kv.SystemKVStore
import Puter.Library.Runs

namespace Puter

open Runs

/-- `JSON.stringify` and `JSON.parse`: a text that is written is read back, and the JSON of a text is longer
    than the text, by its quotes at least. -/
structure JsonCodec where
  stringify : Json → Text
  parse : Text → Option Json
  parse_text : ∀ words, parse (stringify (.text words)) = some (.text words)
  text_shorter : ∀ text inner, parse text = some (.text inner) → inner.length < text.length

def textType : Text := ['t', 'e', 'x', 't']

def toolUseType : Text := ['t', 'o', 'o', 'l', '_', 'u', 's', 'e']

def toolResultType : Text := ['t', 'o', 'o', 'l', '_', 'r', 'e', 's', 'u', 'l', 't']

def toolRole : Text := ['t', 'o', 'o', 'l']

def assistantRole : Text := ['a', 's', 's', 'i', 's', 't', 'a', 'n', 't']

/-- A content block: the fields that the functions read, and the rest. -/
structure ContentBlock where
  type : Option Text := none
  text : Option Json := none
  imageUrl : Option Json := none
  videoUrl : Option Json := none
  id : Option Json := none
  name : Option Json := none
  input : Option Json := none
  extraContent : Option Json := none
  toolUseId : Option Text := none
  content : Option Json := none
  rest : Attributes := []

/-- `{ type: 'text', text }`. -/
def textBlock (text : Text) : ContentBlock := { type := some textType, text := some (.text text) }

def ContentBlock.toJson (block : ContentBlock) : Json :=
  let optional (name : Text) (value : Option Json) : Attributes := (value.map fun v => (name, v)).toList
  .map (optional "type".toList (block.type.map .text) ++ optional "text".toList block.text ++
    optional "image_url".toList block.imageUrl ++ optional "video_url".toList block.videoUrl ++
    optional "id".toList block.id ++ optional "name".toList block.name ++
    optional "input".toList block.input ++ optional "extra_content".toList block.extraContent ++
    optional "tool_use_id".toList (block.toolUseId.map .text) ++
    optional "content".toList block.content ++ block.rest)

/-- A member of a content array. -/
inductive ContentItem where
  | text (text : Text)
  | block (block : ContentBlock)
  | other (value : Json)

/-- `message.content`: a value of another kind is `other`. -/
inductive MessageContent where
  | absent
  | text (text : Text)
  | block (block : ContentBlock)
  | items (items : List ContentItem)
  | other (value : Json)

def ContentItem.toJson : ContentItem → Json
  | .text words => .text words
  | .block own => own.toJson
  | .other value => value

def MessageContent.truthy : MessageContent → Bool
  | .absent => false
  | .text words => words ≠ []
  | .block _ | .items _ => true
  | .other value => Puter.truthy value

/-- An entry of `tool_calls`; `name` and `arguments` are those of its `function`. -/
structure WireCall where
  id : Option Json
  name : Option Json
  arguments : Option Json
  extraContent : Option Json := none

/-- A message as it is given and as it is sent. -/
structure ChatMessage where
  role : Option Text := none
  content : MessageContent := .absent
  toolCalls : Option (List WireCall) := none
  toolCallId : Option Text := none
  toolUseId : Option Text := none
  id : Option Text := none
  type : Option Text := none
  encryptedContent : Option Json := none

/-- A member of the given array. -/
inductive MessageInput where
  | text (text : Text)
  | message (message : ChatMessage)
  | other

/-- A normalised message. -/
structure NormalMessage where
  role : Text
  content : List ContentBlock
  toolCalls : Option (List WireCall) := none
  toolCallId : Option Text := none
  toolUseId : Option Text := none

def badMessage (message : Text) : HttpError := ⟨400, message, "bad_request".toList⟩

def firstText (texts : List (Option Text)) : Option Text := texts.findSome? (·.filter (· ≠ []))

def toolUseBlock (call : WireCall) : ContentBlock :=
  { type := some toolUseType, id := call.id, name := call.name, input := call.arguments }

def coerceBlock (block : ContentBlock) : ContentBlock :=
  let typed := match block.text, firstText [block.type] with
    | some (.text _), none => { block with type := some textType }
    | _, _ => block
  if typed.type = some toolUseType then { typed with text := none } else typed

def normalizeItem : ContentItem → Except HttpError ContentBlock
  | .text text => .ok (textBlock text)
  | .block block => .ok (coerceBlock block)
  | .other _ => .error (badMessage "each message content item must be a string or object".toList)

def MessageContent.toItems : MessageContent → List ContentItem
  | .absent => [.other .null]
  | .text words => [.text words]
  | .block own => [.block own]
  | .items entries => entries
  | .other value => [.other value]

def toolResultText (codec : JsonCodec) : MessageContent → Text
  | .absent => codec.stringify (.map [])
  | .text text => text
  | .block block => codec.stringify block.toJson
  | .items items => codec.stringify (.list (items.map ContentItem.toJson))
  | .other value => codec.stringify (if value matches .null then .map [] else value)

def compactionMessage (message : ChatMessage) : NormalMessage where
  role := assistantRole
  content := [{ type := some "compaction".toList, id := message.id.map .text,
                rest := (message.encryptedContent.map fun value => ("encrypted_content".toList, value)).toList }]

def contentOrCalls (role : Text) (message : ChatMessage) :
    Except HttpError (MessageContent × Option (List WireCall)) :=
  if message.content.truthy then .ok (message.content, message.toolCalls)
  else
    match message.toolCalls with
    | some calls => .ok (.items (calls.map fun call => .block (toolUseBlock call)), none)
    | none =>
        if role = toolRole then .ok (message.content, none)
        else .error (badMessage "each message must have a 'content' property".toList)

def toolResultBlock (codec : JsonCodec) (toolUseId : Option Text) (content : MessageContent) :
    ContentBlock :=
  { type := some toolResultType, toolUseId := toolUseId
    content := some (.text (toolResultText codec content)) }

/-- `normalize_single_message` from the tool results on. -/
def normalizeContent (codec : JsonCodec) (role : Text) (message : ChatMessage)
    (given : MessageContent × Option (List WireCall)) : Except HttpError NormalMessage := do
  let toolUseId := firstText [message.toolCallId, message.toolUseId, message.id]
  let content :=
    if role = toolRole then .items [.block (toolResultBlock codec toolUseId given.1)] else given.1
  let blocks ← content.toItems.mapM normalizeItem
  .ok { role := role
        content := blocks
        toolCalls := given.2
        toolCallId := message.toolCallId
        toolUseId := if role = toolRole then toolUseId else message.toolUseId }

/-- `normalize_single_message` for an object. -/
def normalizeObject (codec : JsonCodec) (defaultRole : Text) (message : ChatMessage) :
    Except HttpError NormalMessage :=
  if firstText [message.role] = none ∧ !message.content.truthy ∧
      message.type = some "compaction".toList then
    .ok (compactionMessage message)
  else do
    let role := (firstText [message.role]).getD defaultRole
    let given ← contentOrCalls role message
    normalizeContent codec role message given

def normalizeSingleMessage (codec : JsonCodec) (defaultRole : Text) :
    MessageInput → Except HttpError NormalMessage
  | .text text => normalizeObject codec defaultRole { content := .items [.text text] }
  | .message message => normalizeObject codec defaultRole message
  | .other => .error (badMessage "each message must be a string or object".toList)

def ContentBlock.isToolUse (block : ContentBlock) : Bool := block.type = some toolUseType

def ContentBlock.isToolResult (block : ContentBlock) : Bool := block.type = some toolResultType

def NormalMessage.hasToolUse (message : NormalMessage) : Bool :=
  message.role = assistantRole && message.content.any (·.isToolUse)

def NormalMessage.hasToolContent (message : NormalMessage) : Bool :=
  message.content.any fun block => block.isToolUse || block.isToolResult

/-- The loop that splits messages. A message without content is spliced out, and the loop goes on behind the
    message that took its place. -/
def splitMessages : List NormalMessage → List NormalMessage
  | [] => []
  | message :: rest =>
      if message.hasToolUse then message :: splitMessages rest
      else
        match message.content, rest with
        | [], [] => []
        | [], skipped :: later => skipped :: splitMessages later
        | blocks, rest =>
            blocks.map (fun block => { message with content := [block] }) ++ splitMessages rest

/-- `can_merge`, of the message merged last and the next one. -/
def NormalMessage.canMerge (last message : NormalMessage) : Bool :=
  last.role = message.role && !message.hasToolContent && !last.hasToolContent

def mergeInto (last : NormalMessage) : List NormalMessage → List NormalMessage
  | [] => [last]
  | message :: rest =>
      if last.canMerge message then mergeInto { last with content := last.content ++ message.content } rest
      else last :: mergeInto message rest

def mergeMessages : List NormalMessage → List NormalMessage
  | [] => []
  | message :: rest => mergeInto message rest

def normalizeMessages (codec : JsonCodec) (defaultRole : Text) (messages : List MessageInput) :
    Except HttpError (List NormalMessage) := do
  let messages ← messages.mapM (normalizeSingleMessage codec defaultRole)
  .ok (mergeMessages (splitMessages messages))

def nameMedia (block : ContentBlock) : ContentBlock :=
  let given := fun value : Option Json => value.any truthy
  if given block.imageUrl && firstText [block.type] = none then
    { block with type := some "image_url".toList }
  else if given block.videoUrl && firstText [block.type] = none then
    { block with type := some "video_url".toList }
  else block

def callOfBlock (codec : JsonCodec) (block : ContentBlock) : WireCall where
  id := block.id
  name := block.name
  arguments := block.input.map fun input => .text (codec.stringify input)
  extraContent := block.extraContent.filter truthy

def contentOfJson : Option Json → MessageContent
  | none => .absent
  | some (.text text) => .text text
  | some value => .other value

/-- The body of the loop of `process_input_messages`, for content that is an array. -/
def processInputMessage (codec : JsonCodec) (message : NormalMessage) : ChatMessage :=
  let content := message.content.map nameMedia
  let uses := content.filter (·.isToolUse)
  let isToolCall := uses ≠ [] ∧ message.toolCalls = none
  -- The blocks are taken from the end of the content.
  let toolCalls :=
    if uses = [] then message.toolCalls
    else some (message.toolCalls.getD [] ++ uses.reverse.map (callOfBlock codec))
  let others := content.filter fun block => !block.isToolUse
  match others.find? (·.isToolResult) with
  | some block =>
      { role := some toolRole
        content := contentOfJson block.content
        toolCalls := toolCalls
        toolCallId := block.toolUseId
        toolUseId := message.toolUseId }
  | none =>
      { role := some message.role
        content := if isToolCall then .absent else .items (others.map .block)
        toolCalls := toolCalls
        toolCallId := message.toolCallId
        toolUseId := message.toolUseId }

def processInputMessages (codec : JsonCodec) (messages : List NormalMessage) : List ChatMessage :=
  messages.map (processInputMessage codec)

/-- What a conversation carries: blocks of a role, tool calls with their parsed arguments, and tool
    results. -/
inductive ConversationItem where
  | block (role : Option Text) (block : ContentBlock)
  | call (id name : Option Json) (arguments : Option Json)
  | result (callId : Option Text) (content : MessageContent)

def WireCall.parsed (codec : JsonCodec) (call : WireCall) : Option Json :=
  match call.arguments with
  | some (.text arguments) => codec.parse arguments
  | other => other

def MessageContent.blocks : MessageContent → List ContentBlock
  | .absent => []
  | .text words => if words = [] then [] else [textBlock words]
  | .block own => [own]
  | .items entries => entries.filterMap fun
      | .text words => some (textBlock words)
      | .block own => some own
      | .other _ => none
  | .other _ => []

def ChatMessage.calls (message : ChatMessage) : List WireCall := message.toolCalls.getD []

def callItem (codec : JsonCodec) (call : WireCall) : ConversationItem :=
  .call call.id call.name (call.parsed codec)

def ChatMessage.carried (codec : JsonCodec) (message : ChatMessage) : List ConversationItem :=
  if message.role = some toolRole then [.result message.toolCallId message.content]
  else message.content.blocks.map (.block message.role) ++ message.calls.map (callItem codec)

def conversationItems (codec : JsonCodec) (messages : List ChatMessage) : List ConversationItem :=
  messages.flatMap (ChatMessage.carried codec)

def RoundTrips (codec : JsonCodec) (defaultRole : Text) (messages : List ChatMessage) : Prop :=
  ∃ normal, normalizeMessages codec defaultRole (messages.map .message) = .ok normal ∧
    conversationItems codec (processInputMessages codec normal) = conversationItems codec messages

def ContentBlock.Plain (block : ContentBlock) : Prop :=
  ∃ type, block.type = some type ∧ type ≠ [] ∧ type ≠ toolUseType ∧ type ≠ toolResultType

/-- A content of the OpenAI format: a text or an array of blocks, or none. -/
def MessageContent.Plain : MessageContent → Prop
  | .absent | .text _ => True
  | .items entries => ∀ entry ∈ entries, match entry with
      | .text _ => True
      | .block own => own.Plain
      | .other _ => False
  | .block _ | .other _ => False

/-- A message of the OpenAI format: it has a role; only the assistant makes calls, and their arguments are
    JSON; a tool message names its call; and a message without calls has a content. -/
structure ChatMessage.OpenAI (codec : JsonCodec) (message : ChatMessage) : Prop where
  role : ∃ role, message.role = some role ∧ role ≠ []
  content : message.content.Plain
  caller : message.toolCalls ≠ none → message.role = some assistantRole
  arguments : ∀ call ∈ message.calls, ∃ arguments, call.arguments = some (.text arguments) ∧
    (codec.parse arguments).isSome
  answers : message.role = some toolRole → ∃ callId, message.toolCallId = some callId ∧ callId ≠ []
  present : message.content matches .absent → message.toolCalls ≠ none

/-- The normalised message has no block: its content is an empty array, or it has no content and makes no
    call. -/
def ChatMessage.isEmpty (message : ChatMessage) : Bool :=
  message.role ≠ some toolRole &&
    match message.content with
    | .items entries => entries.isEmpty
    | content => !content.truthy && message.calls.isEmpty

/-- What a loop takes out that splices out an empty member and goes on behind the one that took its
    place. -/
def takenBy {α : Type} (isEmpty : α → Bool) : List α → List α
  | [] => []
  | first :: rest =>
      if isEmpty first then
        match rest with
        | [] => [first]
        | _ :: later => first :: takenBy isEmpty later
      else takenBy isEmpty rest

def leftBy {α : Type} (isEmpty : α → Bool) : List α → List α
  | [] => []
  | first :: rest =>
      if isEmpty first then
        match rest with
        | [] => []
        | skipped :: later => skipped :: leftBy isEmpty later
      else first :: leftBy isEmpty rest

def ChatMessage.sameRole (message next : ChatMessage) : Bool :=
  message.role = next.role && message.role ≠ some toolRole

/-- A message without text or blocks makes no call; tool results are texts; what the splitting takes out
    makes no call; and of the messages of one role that follow each other in what it leaves, only the first
    makes calls, and then no other has blocks. -/
structure Survives (messages : List ChatMessage) : Prop where
  filled : ∀ message ∈ messages, message.role ≠ some toolRole → message.content.truthy = false →
    message.toolCalls = some []
  results : ∀ message ∈ messages, message.role = some toolRole → ∃ words, message.content = .text words
  taken : ∀ message ∈ takenBy ChatMessage.isEmpty messages, message.calls = []
  runs : ∀ run ∈ runsOf ChatMessage.sameRole (leftBy ChatMessage.isEmpty messages),
    (∀ other ∈ run.2, other.calls = []) ∧
      (run.1.calls ≠ [] → ∀ other ∈ run.2, other.content.blocks = [])

end Puter

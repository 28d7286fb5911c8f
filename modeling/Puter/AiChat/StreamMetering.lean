/-
Module: Puter.AiChat.StreamMetering
Purpose: What a streamed completion is charged (drivers/ai-chat/ChatCompletionDriver.ts, the streaming branch of
  `complete`; utils/OpenAIUtil.js, both stream handlers; utils/Streaming.js). The provider's calculator records the usage
  that the upstream has sent, and the stream is marked as reported at once; the driver charges an estimate for the output
  of a stream without that mark, and releases the hold. Anything may throw in between.
Trusted boundary: `JSON.parse`, what the upstream sends and where it fails, which calls of the stream throw
Main exports: payloadChars, computeCost, pumpStream
-/
import Puter.AiChat.ChatStream
import Puter.AiChat.ModelRouting
import Puter.Kv.SystemKVStore

namespace Puter

open PosixPath StateRun

/-- A usage object; a value that is no finite number is `none`. -/
abbrev UsageObject := List (Text × Option ℚ)

/-- An amount that is recorded for an account. -/
inductive StreamCharge where
  | recorded (usage : UsageObject)
  | estimated (usage costs : UsageObject)
deriving DecidableEq, Repr

inductive MeteringFault where
  | upstream
  | stream
  | parse
  | noBlock
deriving DecidableEq, Repr

def envelopeKeys : List Text := ["type".toList, "id".toList, "usage".toList]

mutual
def payloadChars : Json → ℕ
  | .text value => utf16Length value
  | .list values => payloadCharsOf values
  | .map fields => payloadCharsIn fields
  | _ => 0

def payloadCharsOf : List Json → ℕ
  | [] => 0
  | value :: values => payloadChars value + payloadCharsOf values

def payloadCharsIn : List (Text × Json) → ℕ
  | [] => 0
  | field :: fields => (if field.1 ∈ envelopeKeys then 0 else payloadChars field.2) + payloadCharsIn fields
end

/-- What a stream runs in: the model it is priced by, the provider's calculator, and what may throw. -/
structure MeteringEnv (U : Type) where
  parse : Text → Option Json
  streamFails : ℕ → Bool
  grounded : Json → Bool
  usageCalculator : U → Option Json → UsageObject
  model : IChatModel
  promptTokenEstimate : ℚ

/-- The stream, the account and the variables of a handler. -/
structure MeteredState (U : Type) where
  outputChars : ℕ := 0
  reportedUsage : Option UsageObject := none
  operations : ℕ := 0
  charges : List StreamCharge := []
  releases : ℕ := 0
  mode : StreamMode := .text
  toolblock : Option ℕ := none
  blocks : ℕ → Option (ToolBlock Json) := fun _ => none
  lastUsage : Option U := none
  lastExtraContent : Option Json := none

abbrev MeteredRun (U : Type) := EStateM MeteringFault (MeteredState U)

/-- What the upstream sends until it ends or throws. -/
structure Upstream (C : Type) where
  chunks : List C
  throws : Bool

/-- A chunk of the Responses API, as far as the handler reads it. -/
inductive ResponsesChunk (U : Type) where
  | outputText (delta : Text)
  | completed (usage : Option U)
  | compaction (id : Option Text) (encryptedContent : Json)
  | functionCall (id callId name : Option Text) (extraContent : Option Json) (arguments : Text)
  | other

/-- A stream of one of the two handlers. -/
inductive OpenAIStream (U : Type) where
  | completions (upstream : Upstream (StreamChunk Json U))
  | responses (upstream : Upstream (ResponsesChunk U))

namespace StreamMetering

variable {U : Type} (env : MeteringEnv U)

def streamCall : MeteredRun U Unit := do
  let s ← get
  set { s with operations := s.operations + 1 }
  runIf (env.streamFails s.operations) (throw .stream)

def countChars (chars : ℕ) : MeteredRun U Unit := modify fun s => { s with outputChars := s.outputChars + chars }

def writeChunk (chunk : Json) (alreadyCounted : Bool) : MeteredRun U Unit := do
  runIf (!alreadyCounted) (countChars (payloadChars chunk))
  streamCall env

def typed (type : String) (fields : List (Text × Json)) : Json := .map (("type".toList, .text type.toList) :: fields)

def addText (text : Text) : MeteredRun U Unit := writeChunk env (typed "text" [("text".toList, .text text)]) false

def addReasoning (reasoning : Text) : MeteredRun U Unit :=
  writeChunk env (typed "reasoning" [("reasoning".toList, .text reasoning)]) false

def addExtraContent (extra : Json) : MeteredRun U Unit :=
  writeChunk env (typed "extra_content" [("extra_content".toList, extra)]) false

def compaction (id : Option Text) (encryptedContent : Json) : MeteredRun U Unit :=
  writeChunk env (typed "compaction" ((id.map fun value => ("id".toList, .text value)).toList ++
    [("encrypted_content".toList, encryptedContent)])) false

def reportUsage (usage : Option UsageObject) : MeteredRun U Unit :=
  modify fun s =>
    match usage with
    | none => s
    | some usage => if usage.any fun entry => entry.2.isSome then { s with reportedUsage := some usage } else s

/-- The `tool_use` chunk of a block. -/
def toolUseChunk (fields : List (Text × Option Text)) (extraContent : Option Json) (input : Json) : Json :=
  typed "tool_use" (fields.filterMap (fun field => field.2.map fun value => (field.1, .text value)) ++
    (extraContent.map fun extra => ("extra_content".toList, extra)).toList ++
    [("input".toList, input), ("text".toList, .text [])])

/-- `end` of a block, from its buffer on. -/
def flushBuffer (fields : List (Text × Option Text)) (extraContent : Option Json) (buffer : Text) : MeteredRun U Unit := do
  let input ← orThrow .parse (env.parse (if trim buffer = [] then ['\x7b', '\x7d'] else buffer))
  writeChunk env (toolUseChunk fields extraContent input) true

/-- `toolblock.end()` -/
def flushToolblock : MeteredRun U Unit := do
  let s ← get
  let block ← orThrow .noBlock (s.toolblock.bind s.blocks)
  flushBuffer env [("id".toList, block.id), ("name".toList, block.name)] block.extraContent block.buffer

/-- `addPartialJSON`, of a block that its first delta opens. -/
def appendToBlock (call : ToolCallDelta Json) (s : MeteredState U) : MeteredState U :=
  let block := (s.blocks call.index).getD ⟨call.id, call.name, call.extraContent, []⟩
  { s with
    toolblock := some call.index
    blocks := Function.update s.blocks call.index (some { block with buffer := block.buffer ++ call.arguments }) }

def touchBlock (call : ToolCallDelta Json) : MeteredRun U Unit := do
  countChars (utf16Length call.arguments)
  modify (appendToBlock call)

/-- An `extra_content` without grounding does not replace one with it. -/
def keepExtraContent (extra : Json) : MeteredRun U Unit :=
  modify fun s =>
    if env.grounded extra || !(s.lastExtraContent.any env.grounded) then { s with lastExtraContent := some extra } else s

def meterReasoning : Option Text → MeteredRun U Unit
  | some reasoning => addReasoning env reasoning
  | none => pure ()

def meterText (text : Text) : MeteredRun U Unit := do
  let s ← get
  runIf (s.mode = .tool) (flushToolblock env)
  modify fun s => { s with mode := .text }
  addText env text

def meterExtraContent : Option Json → MeteredRun U Unit
  | some extra => do
      keepExtraContent env extra
      addExtraContent env extra
  | none => pure ()

def meterToolCalls : Option (List (ToolCallDelta Json)) → MeteredRun U Unit
  | some calls => do
      modify fun s => { s with mode := .tool }
      forEach touchBlock calls
  | none => pure ()

/-- The loop of `create_chat_stream_handler` for the first choice of a chunk: a text hides the calls beside it. -/
def meterDelta (delta : ChoiceDelta Json) : MeteredRun U Unit := do
  meterReasoning env ((nonEmpty delta.reasoningContent).or (nonEmpty delta.reasoning))
  match nonEmpty delta.content with
  | some text => meterText env text
  | none => do
      meterExtraContent env delta.extraContent
      meterToolCalls delta.toolCalls

def meterChunk (chunk : StreamChunk Json U) : MeteredRun U Unit := do
  modify fun s => { s with lastUsage := chunk.usage.or s.lastUsage }
  match chunk.choice with
  | some delta => meterDelta env delta
  | none => pure ()

/-- The body of the loop of `create_chat_stream_handler_responses_api`. -/
def meterResponsesChunk : ResponsesChunk U → MeteredRun U Unit
  | .outputText delta => addText env delta
  | .completed usage => modify fun s => { s with lastUsage := usage }
  | .compaction id encryptedContent => compaction env id encryptedContent
  | .functionCall id callId name extraContent arguments => do
      countChars (utf16Length arguments)
      flushBuffer env [("canonical_id".toList, id), ("id".toList, callId), ("name".toList, name)] extraContent arguments
  | .other => pure ()

def recordCharge (usage : UsageObject) (s : MeteredState U) : MeteredState U :=
  { s with charges := s.charges ++ [.recorded usage] }

def meterUsage (extraContent : Option Json) : MeteredRun U (Option UsageObject) := do
  let s ← get
  match s.lastUsage with
  | none => pure none
  | some usage => do
      let metered := env.usageCalculator usage extraContent
      modify (recordCharge metered)
      pure (some metered)

/-- What a usage costs: the parts of input and output, in micro cents. -/
structure UsageCost where
  inputMicroCents : ℚ
  outputMicroCents : ℚ
deriving DecidableEq, Repr

def isOutputKey (model : IChatModel) (key : Text) : Bool :=
  key = model.costKeys.2 || key = "output_tokens".toList || key = "completion_tokens".toList ||
    key = "thinking_tokens".toList

def usdCentsKey : Text := "usd_cents".toList

def entryCost (model : IChatModel) (entry : Text × Option ℚ) : Option (Bool × ℚ) :=
  if entry.1 = usdCentsKey ∨ entry.1 = "tokens".toList then none
  else do
    let amount ← entry.2
    let rate ← (model.costs.lookup entry.1).or
      (model.costs.lookup (if isOutputKey model entry.1 then model.costKeys.2 else model.costKeys.1))
    some (isOutputKey model entry.1, amount * rate)

/-- `Math.max(0, Math.round(x))` -/
def roundCost (amount : ℚ) : ℚ := max 0 ⌊amount + 1 / 2⌋

def computeCost (usage : UsageObject) (model : IChatModel) : Option UsageCost :=
  let costs := usage.filterMap (entryCost model)
  if costs = [] then none
  else
    let sumOf (output : Bool) : ℚ := ((costs.filter fun cost => cost.1 = output).map Prod.snd).sum
    some ⟨roundCost (sumOf false), roundCost (sumOf true)⟩

/-- `#injectUsdCents`, on a copy. -/
def injectUsdCents (usage : UsageObject) (model : IChatModel) : UsageObject :=
  if ((usage.lookup usdCentsKey).bind id).isSome then usage
  else
    let cents := (computeCost usage model).map fun cost => (cost.inputMicroCents + cost.outputMicroCents) / 1000000
    if usage.any fun entry => entry.1 = usdCentsKey then
      usage.map fun entry => if entry.1 = usdCentsKey then (usdCentsKey, cents) else entry
    else usage ++ [(usdCentsKey, cents)]

/-- `chatStream.end`, as the driver wraps it. -/
def endStream (usage : Option UsageObject) : MeteredRun U Unit := do
  reportUsage (usage.map fun usage => injectUsdCents usage env.model)
  streamCall env
  streamCall env

def finishStream (extraContent : Option Json) : MeteredRun U Unit := do
  let usage ← meterUsage env extraContent
  reportUsage usage
  let s ← get
  runIf (s.mode = .tool) (flushToolblock env)
  endStream env usage

def estimateOutputTokens (chars : ℕ) : ℕ := (chars + 3) / 4

def estimatedCharge (chars : ℕ) : StreamCharge :=
  let inputKey := env.model.costKeys.1
  let outputKey := env.model.costKeys.2
  let outputTokens : ℚ := estimateOutputTokens chars
  let estimated (key : Text) : Text := "estimated_".toList ++ key
  let cost := computeCost [(inputKey, some env.promptTokenEstimate), (outputKey, some outputTokens)] env.model
  .estimated
    [(estimated inputKey, some env.promptTokenEstimate), (estimated outputKey, some outputTokens)]
    [(estimated inputKey, cost.map (·.inputMicroCents)), (estimated outputKey, cost.map (·.outputMicroCents))]

def meterUnreportedStream (s : MeteredState U) : MeteredState U :=
  if estimateOutputTokens s.outputChars = 0 then s
  else { s with charges := s.charges ++ [estimatedCharge env s.outputChars] }

end StreamMetering

open StreamMetering

namespace OpenAIStream

variable {U : Type} (env : MeteringEnv U)

def loop : OpenAIStream U → MeteredRun U Unit
  | .completions upstream => do
      forEach (meterChunk env) upstream.chunks
      runIf upstream.throws (throw .upstream)
  | .responses upstream => do
      forEach (meterResponsesChunk env) upstream.chunks
      runIf upstream.throws (throw .upstream)

/-- `create_chat_stream_handler` and `create_chat_stream_handler_responses_api`. The second one gives no extra content to
the calculator, and its mode stays the one of text. -/
def handler (stream : OpenAIStream U) : MeteredRun U Unit := do
  loop env stream
  let s ← get
  finishStream env s.lastExtraContent

end OpenAIStream

/-- The `finally` of the pump: the charge of a stream that has reported nothing, and the release of the hold. A blocked
request is not charged. -/
def closeBooks {U : Type} (env : MeteringEnv U) (blocked : Bool) (s : MeteredState U) : MeteredState U :=
  let s := if !blocked && s.reportedUsage.isNone then meterUnreportedStream env s else s
  { s with releases := s.releases + 1 }

/-- The pump of the streaming branch of `complete`: the handler, an error line for what it throws, and the books. -/
def pumpStream {U : Type} (env : MeteringEnv U) (blocked : Bool) (stream : OpenAIStream U) : MeteredState U :=
  closeBooks env blocked (finalState (tryCatch (stream.handler env) (fun _ => do
    streamCall env
    streamCall env) {}))

end Puter

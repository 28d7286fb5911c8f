/-
Module: Puter.AiChat.StreamedCalls
Purpose: What the chat stream handler has read and written after each part of a stream: the blocks hold what
  came of their calls outside chunks with text, and each cut of the stream ends the block touched last. The
  answer has the tool calls of the upstream exactly when the cuts end each call once and complete.
Trusted boundary: none
Main exports: Reads, createChatStreamHandler_emits_iff
-/
import Puter.AiChat.ChatStream

namespace Puter

open PosixPath StateRun

variable {E U W V : Type} {env : StreamEnv E U W V}

theorem receivedDeltas_concat (chunks : List (StreamChunk E U)) (chunk : StreamChunk E U) :
    receivedDeltas (chunks ++ [chunk]) = receivedDeltas chunks ++ chunk.received := by
  simp [receivedDeltas]

theorem modeAfter_concat (chunks : List (StreamChunk E U)) (chunk : StreamChunk E U) :
    modeAfter (chunks ++ [chunk]) = chunk.modeAfter (modeAfter chunks) := by
  simp [modeAfter]

theorem switchesFrom_concat (before chunks : List (StreamChunk E U)) (chunk : StreamChunk E U) :
    switchesFrom before (chunks ++ [chunk]) = switchesFrom before chunks ++
      if chunk.text.isSome ∧ modeAfter (before ++ chunks) = .tool then [before ++ chunks] else [] := by
  induction chunks generalizing before with
  | nil => simp [switchesFrom]
  | cons first rest ih =>
      simp only [List.cons_append, switchesFrom, ih, List.append_assoc,
        List.nil_append]

def endedBefore (chunks : List (StreamChunk E U)) : List ℕ :=
  (switchesFrom [] chunks).filterMap lastTouched

/-- The blocks hold what some deltas came to. The buffer of a block that was ended may have been set. -/
structure Reads (deltas : List (ToolCallDelta E)) (ended : List ℕ) (s : StreamState E U W V) : Prop where
  toolblock : s.toolblock = deltas.getLast?.map (·.index)
  opened : ∀ index, (s.blocks index).map (fun block => (block.id, block.name)) =
    (deltas.filter (·.index = index)).head?.map fun delta => (delta.id, delta.name)
  buffered : ∀ index ∉ ended, ∀ block, s.blocks index = some block →
    block.buffer = (callOf deltas index).arguments

theorem Reads.start : Reads [] [] (StreamState.start : StreamState E U W V) where
  toolblock := rfl
  opened _ := rfl
  buffered _ _ _ opened := by cases opened

theorem Reads.touch {deltas : List (ToolCallDelta E)} {ended : List ℕ} {s : StreamState E U W V}
    (reads : Reads deltas ended s) (delta : ToolCallDelta E) :
    Reads (deltas ++ [delta]) ended (s.touch delta) where
  toolblock := by simp [StreamState.touch]
  opened index := by
    have opened := reads.opened index
    by_cases same : delta.index = index
    · subst same
      cases old : s.blocks delta.index with
      | none =>
          rw [old] at opened
          have first : (deltas.filter (·.index = delta.index)).head? = none := by
            simpa using opened.symm
          simp [StreamState.touch, old, List.filter_append, List.head?_append, first]
      | some block =>
          rw [old] at opened
          cases first : (deltas.filter (·.index = delta.index)).head? with
          | none => simp [first] at opened
          | some head =>
              simpa [StreamState.touch, old, List.filter_append, List.head?_append, first] using opened
    · have other : index ≠ delta.index := fun eq => same eq.symm
      simpa [StreamState.touch, List.filter_append, same, other] using opened
  buffered index notEnded block found := by
    by_cases same : delta.index = index
    · subst same
      simp only [StreamState.touch, Function.update_self, Option.some.injEq] at found
      subst found
      cases old : s.blocks delta.index with
      | none =>
          have nothing : deltas.filter (·.index = delta.index) = [] := by
            have opened := reads.opened delta.index
            rw [old] at opened
            exact List.head?_eq_none_iff.mp (by simpa using opened.symm)
          simp [callOf, List.filter_append, nothing]
      | some before =>
          have buffered := reads.buffered _ notEnded before old
          simp only [Option.getD_some, buffered]
          simp [callOf, List.filter_append]
    · have other : index ≠ delta.index := fun eq => same eq.symm
      have before : s.blocks index = some block := by simpa [StreamState.touch, other] using found
      rw [reads.buffered index notEnded block before]
      simp [callOf, List.filter_append, same]

theorem Reads.touches {deltas : List (ToolCallDelta E)} {ended : List ℕ} {s : StreamState E U W V}
    (reads : Reads deltas ended s) (calls : List (ToolCallDelta E)) :
    Reads (deltas ++ calls) ended (calls.foldl StreamState.touch s) := by
  induction calls generalizing deltas s with
  | nil => simpa using reads
  | cons first rest ih =>
      have next := ih (reads.touch first)
      rwa [List.append_assoc, List.singleton_append] at next

/-- What ending the block of a part of the stream writes. -/
structure EndsWith (env : StreamEnv E U W V) (deltas : List (ToolCallDelta E)) (ended : List ℕ)
    (use : ToolUse V) (index : ℕ) : Prop where
  last : deltas.getLast?.map (·.index) = some index
  id : use.id = (callOf deltas index).id
  name : use.name = (callOf deltas index).name
  input : index ∉ ended → use.input = env.parseBuffer (callOf deltas index).arguments
  parsed : use.input.isSome

def StreamState.endBlock (s : StreamState E U W V) (index : ℕ) (block : ToolBlock E) (input : V) :
    StreamState E U W V :=
  let buffer := if trim block.buffer = [] then ['{', '}'] else block.buffer
  StreamState.write
    { s with blocks := Function.update s.blocks index (some { block with buffer := buffer }) }
    (.toolUse block.id block.name block.extraContent input)

theorem endToolblock_ok {s s' : StreamState E U W V} : endToolblock env s = .ok () s' ↔
    ∃ index block input, s.toolblock = some index ∧ s.blocks index = some block ∧
      env.parseBuffer block.buffer = some input ∧ s.endBlock index block input = s' := by
  have parses : ∀ buffer, env.parse (if trim buffer = [] then ['{', '}'] else buffer) =
      env.parseBuffer buffer := fun _ => rfl
  cases touched : s.toolblock with
  | none => simp [endToolblock, bind_ok, get_ok, touched, throw_ok]
  | some index =>
      cases found : s.blocks index with
      | none => simp [endToolblock, bind_ok, get_ok, touched, found, throw_ok]
      | some block =>
          cases parsed : env.parseBuffer block.buffer with
          | none =>
              simp [endToolblock, bind_ok, get_ok, set_ok, touched, found, throw_ok, parses, parsed]
          | some input =>
              simp [endToolblock, bind_ok, get_ok, set_ok, touched, found, parses, parsed,
                StreamState.endBlock]

theorem Reads.end_ok {deltas : List (ToolCallDelta E)} {ended : List ℕ} {s s' : StreamState E U W V}
    (reads : Reads deltas ended s) (ran : endToolblock env s = .ok () s') :
    ∃ index use, EndsWith env deltas ended use index ∧ Reads deltas (index :: ended) s' ∧
      writtenUses s'.written = writtenUses s.written ++ [use] ∧
        writtenText s'.written = writtenText s.written ∧ s'.mode = s.mode := by
  obtain ⟨index, block, input, touched, found, parsed, rfl⟩ := endToolblock_ok.mp ran
  have named := reads.opened index
  rw [found, Option.map_some] at named
  obtain ⟨head, isHead, names⟩ := Option.map_eq_some_iff.mp named.symm
  have ends : EndsWith env deltas ended ⟨block.id, block.name, some input⟩ index := {
    last := reads.toolblock.symm.trans touched
    id := by
      simp only [callOf, isHead, Option.bind_some]
      exact (congrArg Prod.fst names).symm
    name := by
      simp only [callOf, isHead, Option.bind_some]
      exact (congrArg Prod.snd names).symm
    input := by
      intro notEnded
      rw [← reads.buffered index notEnded block found]
      exact parsed.symm
    parsed := rfl }
  refine ⟨index, _, ends, ⟨reads.toolblock, ?_, ?_⟩, ?_, ?_, rfl⟩
  · intro other
    by_cases same : other = index
    · subst same
      simpa [StreamState.endBlock, StreamState.write] using named
    · simpa [StreamState.endBlock, StreamState.write, same] using reads.opened other
  · intro other notEnded held heldHere
    have notSame : other ≠ index := fun eq => notEnded (eq ▸ List.mem_cons_self)
    refine reads.buffered other (fun member => notEnded (List.mem_cons_of_mem _ member)) held ?_
    simpa [StreamState.endBlock, StreamState.write, notSame] using heldHere
  · simp [writtenUses, StreamState.endBlock, StreamState.write]
  · simp [writtenText, StreamState.endBlock, StreamState.write]

theorem Reads.can_end {deltas : List (ToolCallDelta E)} {ended : List ℕ} {s : StreamState E U W V}
    (reads : Reads deltas ended s) {index : ℕ} (last : deltas.getLast?.map (·.index) = some index)
    (notEnded : index ∉ ended) (parses : (env.parseBuffer (callOf deltas index).arguments).isSome) :
    ∃ s', endToolblock env s = .ok () s' := by
  obtain ⟨delta, isLast, rfl⟩ := Option.map_eq_some_iff.mp last
  have own : delta ∈ deltas.filter (·.index = delta.index) :=
    List.mem_filter.mpr ⟨List.mem_of_getLast? isLast, by simp⟩
  obtain ⟨block, found⟩ : ∃ block, s.blocks delta.index = some block := by
    have opened := reads.opened delta.index
    cases found : s.blocks delta.index with
    | some block => exact ⟨block, rfl⟩
    | none =>
        rw [found, Option.map_none] at opened
        rw [List.head?_eq_none_iff.mp (Option.map_eq_none_iff.mp opened.symm)] at own
        cases own
  obtain ⟨input, parsed⟩ := Option.isSome_iff_exists.mp parses
  rw [← reads.buffered _ notEnded block found] at parsed
  exact ⟨_, endToolblock_ok.mpr
    ⟨_, block, input, reads.toolblock.trans last, found, parsed, rfl⟩⟩

/-- What reasoning, extra content and usage leave as it is. -/
structure Silent (s s' : StreamState E U W V) : Prop where
  mode : s'.mode = s.mode
  toolblock : s'.toolblock = s.toolblock
  blocks : s'.blocks = s.blocks
  uses : writtenUses s'.written = writtenUses s.written
  text : writtenText s'.written = writtenText s.written

theorem Silent.trans {s between s' : StreamState E U W V} (first : Silent s between)
    (second : Silent between s') : Silent s s' :=
  ⟨second.mode.trans first.mode, second.toolblock.trans first.toolblock,
    second.blocks.trans first.blocks, second.uses.trans first.uses, second.text.trans first.text⟩

theorem silent_addReasoning (s : StreamState E U W V) (delta : ChoiceDelta E) :
    Silent s (s.addReasoning delta) := by
  unfold StreamState.addReasoning
  split
  · constructor <;> simp [StreamState.write, writtenUses, writtenText]
  · exact ⟨rfl, rfl, rfl, rfl, rfl⟩

theorem silent_addExtraContent (env : StreamEnv E U W V) (s : StreamState E U W V) (delta : ChoiceDelta E) :
    Silent s (s.addExtraContent env delta) := by
  unfold StreamState.addExtraContent
  split
  · exact ⟨rfl, rfl, rfl, rfl, rfl⟩
  · dsimp only
    split <;> constructor <;> simp [StreamState.write, writtenUses, writtenText]

theorem silent_usage (s : StreamState E U W V) (usage : Option U) :
    Silent s { s with lastUsage := usage } :=
  ⟨rfl, rfl, rfl, rfl, rfl⟩

theorem handleChunk_text (env : StreamEnv E U W V) {chunk : StreamChunk E U} {text : Text} (isText : chunk.text = some text)
    (s : StreamState E U W V) : ∃ quiet, Silent s quiet ∧ ∀ s', handleChunk env chunk s = .ok () s' ↔
      ∃ between, runIf (s.mode = .tool) (endToolblock env) quiet = .ok () between ∧
        StreamState.write { between with mode := .text } (.text text) = s' := by
  obtain ⟨delta, isDelta, isContent⟩ := Option.bind_eq_some_iff.mp isText
  have quiet := (silent_usage s (chunk.usage.or s.lastUsage)).trans (silent_addReasoning _ delta)
  refine ⟨_, quiet, fun s' => ?_⟩
  simp [handleChunk, handleDelta, isDelta, isContent, bind_ok, modify_ok, get_ok, quiet.mode]
  exact ⟨fun ⟨_, between, ran⟩ => ⟨between, ran⟩, fun ⟨between, ran⟩ => ⟨(), between, ran⟩⟩

theorem handleChunk_noText (env : StreamEnv E U W V) {chunk : StreamChunk E U} (noText : chunk.text = none)
    (s : StreamState E U W V) : ∃ quiet, Silent s quiet ∧ handleChunk env chunk s = .ok ()
      (match chunk.sent with
        | none => quiet
        | some calls => calls.foldl StreamState.touch { quiet with mode := .tool }) := by
  cases isDelta : chunk.choice with
  | none =>
      refine ⟨_, silent_usage s (chunk.usage.or s.lastUsage), ?_⟩
      simp [handleChunk, isDelta, StreamChunk.sent, modify_ok]
  | some delta =>
      have noContent : nonEmpty delta.content = none := by
        simpa [StreamChunk.text, isDelta] using noText
      have reasoned := (silent_usage s (chunk.usage.or s.lastUsage)).trans (silent_addReasoning _ delta)
      refine ⟨_, reasoned.trans (silent_addExtraContent env _ delta), ?_⟩
      cases calls : delta.toolCalls with
      | none =>
          simp [handleChunk, handleDelta, isDelta, noContent, StreamChunk.sent, calls, modify_ok]
      | some calls' =>
          simp [handleChunk, handleDelta, isDelta, noContent, StreamChunk.sent, calls, modify_ok]

abbrev EndsAt (env : StreamEnv E U W V) (cut : List (StreamChunk E U)) (use : ToolUse V) : Prop :=
  ∃ index, EndsWith env (receivedDeltas cut) (endedBefore cut) use index

/-- What the handler has come to after a part of the stream. -/
structure Describes (env : StreamEnv E U W V) (chunks : List (StreamChunk E U))
    (s : StreamState E U W V) : Prop where
  mode : s.mode = modeAfter chunks
  reads : Reads (receivedDeltas chunks) (endedBefore chunks) s
  text : writtenText s.written = chunks.flatMap fun chunk => chunk.text.getD []
  uses : List.Forall₂ (EndsAt env) (switchesFrom [] chunks) (writtenUses s.written)

theorem Describes.start (env : StreamEnv E U W V) : Describes env [] .start where
  mode := rfl
  reads := .start
  text := rfl
  uses := .nil

theorem Reads.later {deltas : List (ToolCallDelta E)} {ended ended' : List ℕ}
    {s s' : StreamState E U W V} (reads : Reads deltas ended s) (more : ended ⊆ ended')
    (toolblock : s'.toolblock = s.toolblock) (blocks : s'.blocks = s.blocks) :
    Reads deltas ended' s' where
  toolblock := toolblock.trans reads.toolblock
  opened index := by
    rw [blocks]
    exact reads.opened index
  buffered index notEnded block found := by
    rw [blocks] at found
    exact reads.buffered index (fun member => notEnded (more member)) block found

theorem endedBefore_concat (chunks : List (StreamChunk E U)) (chunk : StreamChunk E U) :
    endedBefore (chunks ++ [chunk]) = endedBefore chunks ++
      if chunk.text.isSome ∧ modeAfter chunks = .tool then (lastTouched chunks).toList else [] := by
  rw [endedBefore, switchesFrom_concat, List.filterMap_append, List.nil_append]
  split
  · cases last : lastTouched chunks <;> simp [endedBefore, last]
  · simp [endedBefore]

section Chunk

variable {chunks : List (StreamChunk E U)} {chunk : StreamChunk E U} {s quiet between s' : StreamState E U W V}

theorem Describes.cut (describes : Describes env chunks s) (same : Silent s quiet)
    (ran : runIf (s.mode = .tool) (endToolblock env) quiet = .ok () between) :
    Reads (receivedDeltas chunks)
        (endedBefore chunks ++ if modeAfter chunks = .tool then (lastTouched chunks).toList else [])
        between ∧
      writtenText between.written = writtenText s.written ∧
        List.Forall₂ (EndsAt env) (cuts chunks) (writtenUses between.written) := by
  have reads := describes.reads.later (List.Subset.refl _) same.toolblock same.blocks
  unfold cuts
  rw [← describes.mode]
  rcases runIf_ok.mp ran with ⟨isTool, ended⟩ | ⟨isText, rfl⟩
  · obtain ⟨index, use, ends, reads', uses, text, -⟩ := reads.end_ok ended
    have last : lastTouched chunks = some index := ends.last
    simp only [of_decide_eq_true isTool, if_true, last, Option.toList_some]
    refine ⟨reads'.later (fun other member => ?_) rfl rfl, text.trans same.text, ?_⟩
    · rcases List.mem_cons.mp member with rfl | old
      · exact List.mem_append_right _ (List.mem_singleton.mpr rfl)
      · exact List.mem_append_left _ old
    · rw [uses, same.uses]
      exact List.rel_append describes.uses (.cons ⟨index, ends⟩ .nil)
  · have notTool : ¬ s.mode = .tool := of_decide_eq_false isText
    simp only [notTool, if_false, List.append_nil]
    refine ⟨reads, same.text, ?_⟩
    rw [same.uses]
    exact describes.uses

theorem Describes.can_cut (describes : Describes env chunks s) (same : Silent s quiet)
    (cuttable : modeAfter chunks = .tool → ∃ index, lastTouched chunks = some index ∧
      index ∉ endedBefore chunks ∧
        (env.parseBuffer (callOf (receivedDeltas chunks) index).arguments).isSome) :
    ∃ between, runIf (s.mode = .tool) (endToolblock env) quiet = .ok () between := by
  have reads := describes.reads.later (List.Subset.refl _) same.toolblock same.blocks
  by_cases isTool : s.mode = .tool
  · obtain ⟨index, last, notEnded, parses⟩ := cuttable (describes.mode ▸ isTool)
    obtain ⟨between, ran⟩ := reads.can_end last notEnded parses
    exact ⟨between, runIf_ok.mpr (.inl ⟨decide_eq_true isTool, ran⟩)⟩
  · exact ⟨quiet, runIf_ok.mpr (.inr ⟨decide_eq_false isTool, rfl⟩)⟩

theorem touches_silent (s : StreamState E U W V) (calls : List (ToolCallDelta E)) :
    (calls.foldl StreamState.touch s).mode = s.mode ∧
      (calls.foldl StreamState.touch s).written = s.written := by
  induction calls generalizing s with
  | nil => exact ⟨rfl, rfl⟩
  | cons first rest ih => exact ih (s.touch first)

theorem handleChunk_describes (describes : Describes env chunks s)
    (ran : handleChunk env chunk s = .ok () s') : Describes env (chunks ++ [chunk]) s' := by
  cases isText : chunk.text with
  | none =>
      obtain ⟨quiet, same, stepped⟩ := handleChunk_noText env isText s
      have reads := describes.reads.later (List.Subset.refl _) same.toolblock same.blocks
      have ended : endedBefore (chunks ++ [chunk]) = endedBefore chunks := by
        simp [endedBefore_concat, isText]
      have switches : switchesFrom [] (chunks ++ [chunk]) = switchesFrom [] chunks := by
        simp [switchesFrom_concat, isText]
      cases calls : chunk.sent with
      | none =>
          simp only [stepped, calls, EStateM.Result.ok.injEq, true_and] at ran
          subst ran
          refine ⟨?_, ?_, ?_, ?_⟩
          · simp [modeAfter_concat, StreamChunk.modeAfter, isText, calls, same.mode, describes.mode]
          · simpa [receivedDeltas_concat, StreamChunk.received, isText, calls, ended] using reads
          · simp [same.text, describes.text, isText]
          · rw [switches, same.uses]
            exact describes.uses
      | some given =>
          simp only [stepped, calls, EStateM.Result.ok.injEq, true_and] at ran
          subst ran
          obtain ⟨mode, written⟩ := touches_silent { quiet with mode := .tool } given
          have toolReads : Reads (receivedDeltas chunks) (endedBefore chunks) { quiet with mode := .tool } :=
            reads.later (List.Subset.refl _) rfl rfl
          refine ⟨?_, ?_, ?_, ?_⟩
          · simp [modeAfter_concat, StreamChunk.modeAfter, isText, calls, mode]
          · simpa [receivedDeltas_concat, StreamChunk.received, isText, calls, ended] using
              toolReads.touches given
          · simp [written, same.text, describes.text, isText]
          · rw [switches, written]
            simpa only [same.uses] using describes.uses
  | some text =>
      obtain ⟨quiet, same, stepped⟩ := handleChunk_text env isText s
      obtain ⟨between, ended, rfl⟩ := (stepped s').mp ran
      obtain ⟨reads, written, uses⟩ := describes.cut same ended
      refine ⟨?_, ?_, ?_, ?_⟩
      · simp [modeAfter_concat, StreamChunk.modeAfter, isText, StreamState.write]
      · have here : receivedDeltas (chunks ++ [chunk]) = receivedDeltas chunks := by
          simp [receivedDeltas_concat, StreamChunk.received, isText]
        rw [here, endedBefore_concat]
        simp only [isText, Option.isSome_some, true_and]
        exact reads.later (List.Subset.refl _) rfl rfl
      · simp only [StreamState.write, writtenText, List.flatMap_append]
        rw [← writtenText, written, describes.text]
        simp [isText]
      · rw [switchesFrom_concat]
        simpa [isText, cuts, StreamState.write, writtenUses] using uses

theorem handleChunk_goesOn (describes : Describes env chunks s)
    (cuttable : chunk.text.isSome → modeAfter chunks = .tool → ∃ index, lastTouched chunks = some index ∧
      index ∉ endedBefore chunks ∧
        (env.parseBuffer (callOf (receivedDeltas chunks) index).arguments).isSome) :
    ∃ s', handleChunk env chunk s = .ok () s' := by
  cases isText : chunk.text with
  | none =>
      obtain ⟨quiet, _, stepped⟩ := handleChunk_noText env isText s
      exact ⟨_, stepped⟩
  | some text =>
      obtain ⟨quiet, same, stepped⟩ := handleChunk_text env isText s
      obtain ⟨between, ended⟩ := describes.can_cut same (cuttable (by simp [isText]))
      exact ⟨_, (stepped _).mpr ⟨between, ended, rfl⟩⟩

end Chunk

section Stream

variable {chunks cut : List (StreamChunk E U)} {s : StreamState E U W V}

theorem handleChunks_describes (ran : forEach (handleChunk env) chunks .start = .ok () s) :
    Describes env chunks s := by
  induction chunks using List.reverseRecOn generalizing s with
  | nil =>
      obtain ⟨-, rfl⟩ := pure_ok.mp ran
      exact .start env
  | append_singleton chunks chunk ih =>
      obtain ⟨between, rounds, last⟩ := forEach_concat_ok.mp ran
      exact handleChunk_describes (ih rounds) last

def Cuttable (env : StreamEnv E U W V) (cut : List (StreamChunk E U)) : Prop :=
  ∃ index, lastTouched cut = some index ∧ index ∉ endedBefore cut ∧
    (env.parseBuffer (callOf (receivedDeltas cut) index).arguments).isSome

theorem handleChunks_goesOn (cuttable : ∀ cut ∈ switchesFrom [] chunks, Cuttable env cut) :
    ∃ s, forEach (handleChunk env) chunks .start = .ok () s := by
  induction chunks using List.reverseRecOn with
  | nil => exact ⟨_, rfl⟩
  | append_singleton chunks chunk ih =>
      simp only [switchesFrom_concat, List.nil_append, List.mem_append] at cuttable
      obtain ⟨between, rounds⟩ := ih fun cut member => cuttable cut (.inl member)
      have here : chunk.text.isSome → modeAfter chunks = .tool → Cuttable env chunks := by
        intro isText isTool
        exact cuttable chunks (.inr (by simp [isText, isTool]))
      obtain ⟨s', last⟩ := handleChunk_goesOn (handleChunks_describes rounds) here
      exact ⟨s', forEach_concat_ok.mpr ⟨between, rounds, last⟩⟩

theorem createChatStreamHandler_writes (ran : createChatStreamHandler env chunks .start = .ok () s) :
    s.ended ∧ writtenText s.written = chunks.flatMap (fun chunk => chunk.text.getD []) ∧
      List.Forall₂ (EndsAt env) (cuts chunks) (writtenUses s.written) := by
  obtain ⟨_, looped, rounds, ran⟩ := bind_ok.mp ran
  obtain ⟨_, _, got, ran⟩ := bind_ok.mp ran
  obtain ⟨rfl, rfl⟩ := get_ok.mp got
  obtain ⟨_, between, ended, ran⟩ := bind_ok.mp ran
  obtain rfl := modify_ok.mp ran
  have describes := handleChunks_describes rounds
  obtain ⟨_, text, uses⟩ := describes.cut ⟨rfl, rfl, rfl, rfl, rfl⟩ ended
  refine ⟨rfl, ?_, ?_⟩
  · simp only [StreamState.write, writtenText, List.flatMap_append]
    rw [← writtenText, text, describes.text]
    simp
  · simpa [StreamState.write, writtenUses] using uses

theorem createChatStreamHandler_returns (cuttable : ∀ cut ∈ cuts chunks, Cuttable env cut) :
    ∃ s, createChatStreamHandler env chunks .start = .ok () s := by
  obtain ⟨looped, rounds⟩ := handleChunks_goesOn fun cut member =>
    cuttable cut (List.mem_append_left _ member)
  have describes := handleChunks_describes rounds
  obtain ⟨between, ended⟩ := describes.can_cut ⟨rfl, rfl, rfl, rfl, rfl⟩ fun isTool =>
    cuttable chunks (List.mem_append_right _ (by simp [isTool]))
  exact ⟨_, bind_ok.mpr ⟨_, _, rounds, bind_ok.mpr ⟨_, _, rfl, bind_ok.mpr ⟨_, _, ended, rfl⟩⟩⟩⟩

theorem switches_sublist (member : cut ∈ switchesFrom [] chunks) :
    (switchesFrom [] cut ++ [cut]).Sublist (switchesFrom [] chunks) := by
  induction chunks using List.reverseRecOn with
  | nil => cases member
  | append_singleton chunks chunk ih =>
      rw [switchesFrom_concat] at member ⊢
      rcases List.mem_append.mp member with old | new
      · exact (ih old).trans (List.sublist_append_left _ _)
      · split at new
        · rename_i isCut
          rw [List.nil_append, List.mem_singleton] at new
          subst new
          rw [if_pos isCut, List.nil_append]
        · cases new

theorem cuts_sublist (member : cut ∈ cuts chunks) :
    (switchesFrom [] cut ++ [cut]).Sublist (cuts chunks) := by
  rcases List.mem_append.mp member with switch | last
  · exact (switches_sublist switch).trans (List.sublist_append_left _ _)
  · split at last
    · rename_i isTool
      rw [List.mem_singleton] at last
      subst last
      rw [cuts, if_pos isTool]
    · cases last

theorem prefix_of_switch (member : cut ∈ switchesFrom [] chunks) : cut <+: chunks := by
  induction chunks using List.reverseRecOn with
  | nil => cases member
  | append_singleton chunks chunk ih =>
      rw [switchesFrom_concat] at member
      rcases List.mem_append.mp member with old | new
      · exact (ih old).trans (List.prefix_append _ _)
      · split at new
        · rw [List.nil_append, List.mem_singleton] at new
          subst new
          exact List.prefix_append _ _
        · cases new

theorem prefix_of_cut (member : cut ∈ cuts chunks) : cut <+: chunks := by
  rcases List.mem_append.mp member with switch | last
  · exact prefix_of_switch switch
  · split at last
    · rw [List.mem_singleton] at last
      subst last
      exact List.prefix_refl _
    · cases last

theorem sent_of_received (member : cut ∈ cuts chunks) {delta : ToolCallDelta E}
    (received : delta ∈ receivedDeltas cut) : delta ∈ sentDeltas chunks := by
  obtain ⟨chunk, inCut, isReceived⟩ := List.mem_flatMap.mp received
  refine List.mem_flatMap.mpr ⟨chunk, (prefix_of_cut member).subset inCut, ?_⟩
  unfold StreamChunk.received at isReceived
  split at isReceived
  · cases isReceived
  · exact isReceived

theorem mem_callIndexes_of_touched (member : cut ∈ cuts chunks) {index : ℕ}
    (last : lastTouched cut = some index) : index ∈ callIndexes chunks := by
  obtain ⟨delta, isLast, rfl⟩ := Option.map_eq_some_iff.mp last
  have received := List.mem_of_getLast? isLast
  exact List.mem_dedup.mpr (List.mem_map_of_mem (sent_of_received member received))

theorem not_endedBefore (once : ((cuts chunks).map lastTouched).Nodup) (member : cut ∈ cuts chunks)
    {index : ℕ} (last : lastTouched cut = some index) : index ∉ endedBefore cut := by
  intro ended
  obtain ⟨earlier, isSwitch, alsoLast⟩ := List.mem_filterMap.mp ended
  have apart := once.sublist ((cuts_sublist member).map lastTouched)
  rw [List.map_append] at apart
  exact (List.nodup_append.mp apart).2.2 _ (List.mem_map_of_mem isSwitch) _ List.mem_cons_self
    (alsoLast.trans last.symm)

theorem forall₂_of_members {α β : Type} {R S : α → β → Prop} {as : List α} {bs : List β}
    (pairs : List.Forall₂ R as bs) (imp : ∀ a ∈ as, ∀ b ∈ bs, R a b → S a b) : List.Forall₂ S as bs := by
  induction pairs with
  | nil => exact .nil
  | cons head _ ih =>
      refine .cons (imp _ List.mem_cons_self _ List.mem_cons_self head) (ih ?_)
      exact fun a inAs b inBs => imp a (List.mem_cons_of_mem _ inAs) b (List.mem_cons_of_mem _ inBs)

theorem find_unique {indexes : List ℕ} {passes : ℕ → Bool} {index : ℕ} (member : index ∈ indexes)
    (here : passes index) (alone : ∀ other ∈ indexes, passes other → other = index) :
    indexes.find? passes = some index := by
  cases found : indexes.find? passes with
  | none => exact absurd here (List.find?_eq_none.mp found index member)
  | some other =>
      rw [alone other (List.mem_of_find?_eq_some found) (List.find?_some found)]

def ownerOf (chunks : List (StreamChunk E U)) (use : ToolUse V) : Option ℕ :=
  (callIndexes chunks).find? fun index => (callOf (sentDeltas chunks) index).id = use.id

theorem ownerOf_useOf (protocol : DeltaProtocol env chunks) {index : ℕ} (member : index ∈ callIndexes chunks) :
    ownerOf chunks (env.useOf (callOf (sentDeltas chunks) index)) = some index := by
  refine find_unique member (by simp [StreamEnv.useOf]) fun other place same => ?_
  exact protocol.differ other place index member (of_decide_eq_true same)

theorem EndsWith.id_eq (protocol : DeltaProtocol env chunks) (isCut : cut ∈ cuts chunks) {use : ToolUse V}
    {index : ℕ} (ends : EndsWith env (receivedDeltas cut) (endedBefore cut) use index)
    (hasId : use.id.isSome) : use.id = (callOf (sentDeltas chunks) index).id := by
  rw [ends.id] at hasId ⊢
  simp only [callOf] at hasId ⊢
  cases first : ((receivedDeltas cut).filter (·.index = index)).head? with
  | none => simp [first] at hasId
  | some delta =>
      obtain ⟨received, own⟩ := List.mem_filter.mp (List.mem_of_head? first)
      have isOwn : delta.index = index := of_decide_eq_true own
      rcases protocol.same delta (sent_of_received isCut received) with nothing | same
      · simp [first, nothing] at hasId
      · rw [isOwn] at same
        simpa [first, callOf] using same

theorem EndsWith.eq_useOf (protocol : DeltaProtocol env chunks) (isCut : cut ∈ cuts chunks)
    {use : ToolUse V} {index : ℕ}
    (ends : EndsWith env (receivedDeltas cut) (endedBefore cut) use index)
    (wanted : use ∈ (callIndexes chunks).map fun index => env.useOf (callOf (sentDeltas chunks) index)) :
    use = env.useOf (callOf (sentDeltas chunks) index) := by
  obtain ⟨other, member, rfl⟩ := List.mem_map.mp wanted
  have hasId := protocol.opened other member
  have same := ends.id_eq protocol isCut hasId
  rw [protocol.differ other member index (mem_callIndexes_of_touched isCut ends.last) same]

/-- The handler returns with the text deltas in order and one tool use chunk for each call of the upstream,
    with its identifier, its name and its parsed arguments, exactly when the cuts end each call once and
    complete. -/
theorem createChatStreamHandler_emits_iff (protocol : DeltaProtocol env chunks) :
    Emits env chunks ↔ EndsEachCallOnce env chunks := by
  have someNodup : ((callIndexes chunks).map some).Nodup :=
    (List.nodup_dedup _).map (Option.some_injective ℕ)
  constructor
  · rintro ⟨s, ran, -, -, uses⟩
    obtain ⟨-, -, written⟩ := createChatStreamHandler_writes ran
    have each : ∀ cut ∈ cuts chunks, ∃ use ∈ writtenUses s.written, EndsAt env cut use := by
      intro cut member
      obtain ⟨n, bound, rfl⟩ := List.getElem_of_mem member
      have bound' : n < (writtenUses s.written).length := written.length_eq ▸ bound
      exact ⟨_, List.getElem_mem bound', written.get bound bound'⟩
    -- Each written chunk is the wanted one of the call touched last at its cut.
    have owners : (cuts chunks).map lastTouched = (writtenUses s.written).map (ownerOf chunks) := by
      refine List.forall₂_eq_eq_eq ▸ List.forall₂_map_left_iff.mpr (List.forall₂_map_right_iff.mpr ?_)
      refine forall₂_of_members written fun cut isCut use isWritten endsAt => ?_
      obtain ⟨index, ends⟩ := endsAt
      rw [ends.eq_useOf protocol isCut (uses.mem_iff.mp isWritten),
        ownerOf_useOf protocol (mem_callIndexes_of_touched isCut ends.last)]
      exact ends.last
    have once : ((cuts chunks).map lastTouched).Perm ((callIndexes chunks).map some) := by
      rw [owners]
      refine (uses.map (ownerOf chunks)).trans (List.Perm.of_eq ?_)
      rw [List.map_map]
      exact List.map_congr_left fun index member => ownerOf_useOf protocol member
    refine ⟨once, fun cut isCut index last => ?_⟩
    obtain ⟨use, isWritten, touched, ends⟩ := each cut isCut
    have same : touched = index := Option.some.inj (ends.last.symm.trans last)
    subst same
    have isUse := ends.eq_useOf protocol isCut (uses.mem_iff.mp isWritten)
    have notEnded := not_endedBefore (once.nodup_iff.mpr someNodup) isCut last
    refine ⟨ends.id.symm.trans (congrArg ToolUse.id isUse), ends.name.symm.trans (congrArg ToolUse.name isUse),
      (ends.input notEnded).symm.trans (congrArg ToolUse.input isUse)⟩
  · intro complete
    have touched : ∀ cut ∈ cuts chunks, ∃ index ∈ callIndexes chunks, lastTouched cut = some index := by
      intro cut member
      obtain ⟨index, isCall, last⟩ := List.mem_map.mp (complete.once.mem_iff.mp (List.mem_map_of_mem member))
      exact ⟨index, isCall, last.symm⟩
    have notEnded : ∀ cut ∈ cuts chunks, ∀ index, lastTouched cut = some index → index ∉ endedBefore cut :=
      fun cut member index last => not_endedBefore (complete.once.nodup_iff.mpr someNodup) member last
    obtain ⟨s, ran⟩ := createChatStreamHandler_returns fun cut member => by
      obtain ⟨index, isCall, last⟩ := touched cut member
      refine ⟨index, last, notEnded cut member index last, ?_⟩
      rw [(complete.whole cut member index last).2.2]
      exact protocol.parses index isCall
    obtain ⟨ended, text, written⟩ := createChatStreamHandler_writes ran
    let wanted : Option ℕ → ToolUse V := fun index =>
      env.useOf (callOf (sentDeltas chunks) (index.getD 0))
    have isWanted : (cuts chunks).map (wanted ∘ lastTouched) = writtenUses s.written := by
      refine List.forall₂_eq_eq_eq ▸ List.forall₂_map_left_iff.mpr ?_
      refine forall₂_of_members written fun cut isCut use _ endsAt => ?_
      obtain ⟨index, ends⟩ := endsAt
      have last : lastTouched cut = some index := ends.last
      obtain ⟨sameId, sameName, sameInput⟩ := complete.whole cut isCut index last
      have input := ends.input (notEnded cut isCut index last)
      simp only [Function.comp_apply, wanted, last, Option.getD_some, StreamEnv.useOf, ← sameId,
        ← sameName, ← sameInput, ← ends.id, ← ends.name, ← input]
    refine ⟨s, ran, ended, text, ?_⟩
    rw [← isWanted, ← List.map_map]
    refine (complete.once.map wanted).trans (List.Perm.of_eq ?_)
    rw [List.map_map]
    rfl

end Stream

def emptyObjects : StreamEnv Unit Unit Unit (List (Text × Text)) where
  parse text := if text = ['{', '}'] then some [] else none
  parse_blank text blank := by
    split
    · rename_i isObject
      subst isObject
      exact absurd blank (by decide)
    · rfl
  usageCalculator _ _ := ()
  grounded _ := false

def textChunk (text : Text) : StreamChunk Unit Unit := ⟨none, some ⟨none, none, some text, none, none⟩⟩

def callChunk (index : ℕ) (id name : Option Text) (arguments : Text) : StreamChunk Unit Unit :=
  ⟨none, some ⟨none, none, none, none, some [⟨index, id, name, arguments, none⟩]⟩⟩

def oneCall : List (StreamChunk Unit Unit) :=
  [textChunk ['o'], callChunk 0 (some ['a']) (some ['f']) ['{'], callChunk 0 none none ['}'], textChunk ['k']]

def twoCalls : List (StreamChunk Unit Unit) :=
  [callChunk 0 (some ['a']) (some ['f']) ['{', '}'], callChunk 1 (some ['b']) (some ['g']) ['{', '}']]

theorem oneCall_emits : DeltaProtocol emptyObjects oneCall ∧ Emits emptyObjects oneCall := by
  have protocol : DeltaProtocol emptyObjects oneCall :=
    ⟨by decide, by decide, by decide, by decide⟩
  refine ⟨protocol, (createChatStreamHandler_emits_iff protocol).mpr ⟨by decide, ?_⟩⟩
  intro cut member index last
  have isCut : cut = oneCall.take 3 := List.mem_singleton.mp member
  subst isCut
  have isFirst : index = 0 := (Option.some.inj last).symm
  subst isFirst
  decide

/-- Of two parallel calls only the second is written. -/
theorem twoCalls_loses_first : DeltaProtocol emptyObjects twoCalls ∧ ¬ Emits emptyObjects twoCalls := by
  refine ⟨⟨by decide, by decide, by decide, by decide⟩, ?_⟩
  rintro ⟨s, ran, -, -, uses⟩
  obtain ⟨-, -, written⟩ := createChatStreamHandler_writes ran
  have one : (writtenUses s.written).length = 1 := written.length_eq.symm
  have two := uses.length_eq
  rw [one] at two
  revert two
  decide

end Puter

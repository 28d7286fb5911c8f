/-
Module: Puter.AiChat.ChargedStreams
Purpose: A stream is charged once. Until the calculator is called nothing is recorded and nothing reported; the call and
  the mark are one step apart, with nothing between them that throws; after them the mark stays. So whatever throws, the
  driver charges its estimate for the output of exactly the streams that were not metered, and releases the hold.
Trusted boundary: none
Main exports: BooksSame, stream_charged_once
-/
import Puter.AiChat.StreamMetering

namespace Puter

open PosixPath StateRun StreamMetering

section Counting

variable {U : Type}

/-- What is recorded, what is reported and what was released is the same. -/
structure BooksSame (s s' : MeteredState U) : Prop where
  charges : s'.charges = s.charges
  reported : s'.reportedUsage = s.reportedUsage
  releases : s'.releases = s.releases

theorem BooksSame.refl (s : MeteredState U) : BooksSame s s := ⟨rfl, rfl, rfl⟩

theorem BooksSame.trans {s t u : MeteredState U} (first : BooksSame s t) (second : BooksSame t u) : BooksSame s u :=
  ⟨second.charges.trans first.charges, second.reported.trans first.reported, second.releases.trans first.releases⟩

/-- The books are the same, some characters were counted, and the last usage is what it is made of the one before. -/
structure Counted (after : Option U → Option U) (chars : ℕ) (s s' : MeteredState U) : Prop where
  books : BooksSame s s'
  counted : s'.outputChars = s.outputChars + chars
  usage : s'.lastUsage = after s.lastUsage

/-- The books are the same, and no more than some characters were counted. -/
structure StoppedWithin (chars : ℕ) (s s' : MeteredState U) : Prop where
  books : BooksSame s s'
  more : s.outputChars ≤ s'.outputChars
  less : s'.outputChars ≤ s.outputChars + chars

theorem StoppedWithin.refl (chars : ℕ) (s : MeteredState U) : StoppedWithin chars s s :=
  ⟨.refl s, Nat.le_refl _, Nat.le_add_right _ _⟩

theorem Counted.stopped {after : Option U → Option U} {chars : ℕ} {s s' : MeteredState U}
    (counted : Counted after chars s s') : StoppedWithin chars s s' :=
  ⟨counted.books, counted.counted ▸ Nat.le_add_right _ _, Nat.le_of_eq counted.counted⟩

abbrev Counts {α : Type} (after : Option U → Option U) (chars : ℕ) (body : MeteredRun U α) : Prop :=
  Leaves (Counted after chars) (StoppedWithin chars) body

namespace Counts

variable {α β : Type} {after later : Option U → Option U} {chars more : ℕ}

theorem pure (a : α) : Counts id 0 (pure a : MeteredRun U α) where
  ok s b s' ran := by
    have ⟨_, same⟩ := pure_ok.mp ran
    exact same ▸ ⟨.refl s, rfl, rfl⟩
  error s e s' ran := absurd ran pure_error

theorem throw (fault : MeteringFault) : Counts after chars (throw fault : MeteredRun U α) where
  ok s b s' ran := absurd ran throw_ok
  error s e s' ran := by
    have ⟨_, same⟩ := throw_error.mp ran
    exact same ▸ .refl chars s

theorem get : Counts id 0 (get : MeteredRun U (MeteredState U)) where
  ok s b s' ran := by
    have ⟨_, same⟩ := get_ok.mp ran
    exact same ▸ ⟨.refl s, rfl, rfl⟩
  error s e s' ran := absurd ran get_error

theorem modify {change : MeteredState U → MeteredState U} (counted : ∀ s, Counted after chars s (change s)) :
    Counts after chars (modify change : MeteredRun U Unit) where
  ok s _ _ ran := modify_ok.mp ran ▸ counted s
  error _ _ _ ran := absurd ran modify_error

theorem bind {first : MeteredRun U α} {next : α → MeteredRun U β} (firstCounts : Counts after chars first)
    (nextCounts : ∀ a, Counts later more (next a)) :
    Counts (fun usage => later (after usage)) (chars + more) (first >>= next) := by
  apply firstCounts.andThen nextCounts
  · intro s t u one two
    exact ⟨one.books.trans two.books, by rw [two.counted, one.counted, Nat.add_assoc], by rw [two.usage, one.usage]⟩
  · intro s t one
    exact ⟨one.books, one.more, Nat.le_trans one.less (by omega)⟩
  · intro s t u one two
    have counted := one.counted
    have stopped := two.less
    exact ⟨one.books.trans two.books, Nat.le_trans (one.stopped.more) two.more, by omega⟩

theorem skip {first : MeteredRun U α} {next : α → MeteredRun U β} (firstCounts : Counts id 0 first)
    (nextCounts : ∀ a, Counts after chars (next a)) : Counts after chars (first >>= next) := by
  have both := bind firstCounts nextCounts
  rwa [Nat.zero_add] at both

theorem runIf {wanted : Bool} {body : MeteredRun U Unit} (counts : Counts id 0 body) :
    Counts id 0 (runIf wanted body) := by
  cases wanted with
  | true => exact counts
  | false => exact pure ()

theorem orThrow (fault : MeteringFault) (found : Option α) : Counts id 0 (orThrow fault found : MeteredRun U α) := by
  cases found with
  | some a => exact pure a
  | none => exact throw fault

theorem forEach {C : Type} {step : C → MeteredRun U Unit} {after : C → Option U → Option U} {chars : C → ℕ}
    (counts : ∀ item, Counts (after item) (chars item) (step item)) (items : List C) :
    Counts (fun usage => items.foldl (fun last item => after item last) usage) (items.map chars).sum
      (forEach step items) := by
  induction items with
  | nil => exact pure ()
  | cons item rest ih => exact bind (counts item) fun _ => ih

end Counts

variable (env : MeteringEnv U)

theorem streamCall_counts : Counts id 0 (streamCall env) := by
  have fails (s : MeteredState U) : Counts id 0 (runIf (env.streamFails s.operations) (throw .stream) : MeteredRun U Unit) :=
    .runIf (.throw .stream)
  constructor
  · intro s a s' ran
    have counted := (fails s).ok { s with operations := s.operations + 1 } a s' ran
    exact ⟨⟨counted.books.charges, counted.books.reported, counted.books.releases⟩, counted.counted, counted.usage⟩
  · intro s e s' ran
    have stopped := (fails s).error { s with operations := s.operations + 1 } e s' ran
    exact ⟨⟨stopped.books.charges, stopped.books.reported, stopped.books.releases⟩, stopped.more, stopped.less⟩

theorem countChars_counts (chars : ℕ) : Counts id chars (countChars (U := U) chars) :=
  .modify fun _ => ⟨⟨rfl, rfl, rfl⟩, rfl, rfl⟩

theorem writeChunk_counts (chunk : Json) : Counts id (payloadChars chunk) (writeChunk env chunk false) := by
  have both := Counts.bind (countChars_counts (payloadChars chunk)) fun _ => streamCall_counts env
  exact both

theorem writeChunk_alreadyCounted (chunk : Json) : Counts id 0 (writeChunk env chunk true) :=
  .skip (.pure ()) fun _ => streamCall_counts env

theorem payloadChars_typed (type : String) (fields : List (Text × Json)) :
    payloadChars (typed type fields) = payloadCharsIn fields := by
  simp [typed, payloadChars, payloadCharsIn, envelopeKeys]

theorem addText_counts (text : Text) : Counts id (utf16Length text) (addText env text) := by
  have counts := writeChunk_counts env (typed "text" [("text".toList, .text text)])
  rwa [payloadChars_typed] at counts

theorem addReasoning_counts (reasoning : Text) : Counts id (utf16Length reasoning) (addReasoning env reasoning) := by
  have counts := writeChunk_counts env (typed "reasoning" [("reasoning".toList, .text reasoning)])
  rwa [payloadChars_typed] at counts

theorem addExtraContent_counts (extra : Json) : Counts id (payloadChars extra) (addExtraContent env extra) := by
  have counts := writeChunk_counts env (typed "extra_content" [("extra_content".toList, extra)])
  rwa [payloadChars_typed] at counts

theorem compaction_counts (id' : Option Text) (encryptedContent : Json) :
    Counts id (payloadChars encryptedContent) (compaction env id' encryptedContent) := by
  have counts := writeChunk_counts env (typed "compaction" ((id'.map fun value => ("id".toList, .text value)).toList ++
    [("encrypted_content".toList, encryptedContent)]))
  have chars : payloadCharsIn ((id'.map fun value => ("id".toList, .text value)).toList ++
      [("encrypted_content".toList, encryptedContent)]) = payloadChars encryptedContent := by
    cases id' with
    | none => simp [payloadCharsIn, envelopeKeys]
    | some value => simp [payloadCharsIn, envelopeKeys]
  rwa [payloadChars_typed, chars] at counts

theorem flushBuffer_counts (fields : List (Text × Option Text)) (extraContent : Option Json) (buffer : Text) :
    Counts id 0 (flushBuffer env fields extraContent buffer) :=
  .skip (.orThrow .parse _) fun _ => writeChunk_alreadyCounted env _

theorem flushToolblock_counts : Counts id 0 (flushToolblock env) :=
  .skip .get fun _ => .skip (.orThrow .noBlock _) fun _ => flushBuffer_counts env _ _ _

theorem touchBlock_counts (call : ToolCallDelta Json) :
    Counts id (utf16Length call.arguments) (touchBlock (U := U) call) := by
  have append : Counts id 0 (modify (appendToBlock call) : MeteredRun U Unit) :=
    .modify fun _ => ⟨⟨rfl, rfl, rfl⟩, rfl, rfl⟩
  exact .bind (countChars_counts _) fun _ => append

theorem keepExtraContent_counts (extra : Json) : Counts id 0 (keepExtraContent env extra) := by
  apply Counts.modify
  intro s
  cases env.grounded extra || !(s.lastExtraContent.any env.grounded) with
  | true => exact ⟨⟨rfl, rfl, rfl⟩, rfl, rfl⟩
  | false => exact ⟨.refl s, rfl, rfl⟩

theorem meterReasoning_counts (reasoning : Option Text) :
    Counts id (reasoning.elim 0 utf16Length) (meterReasoning env reasoning) := by
  cases reasoning with
  | some reasoning => exact addReasoning_counts env reasoning
  | none => exact .pure ()

theorem meterText_counts (text : Text) : Counts id (utf16Length text) (meterText env text) :=
  .skip .get fun _ => .skip (.runIf (flushToolblock_counts env)) fun _ =>
    .skip (.modify fun _ => ⟨⟨rfl, rfl, rfl⟩, rfl, rfl⟩) fun _ => addText_counts env text

theorem meterExtraContent_counts (extra : Option Json) :
    Counts id (extra.elim 0 payloadChars) (meterExtraContent env extra) := by
  cases extra with
  | some extra => exact .skip (keepExtraContent_counts env extra) fun _ => addExtraContent_counts env extra
  | none => exact .pure ()

def argumentChars (calls : List (ToolCallDelta Json)) : ℕ := (calls.map fun call => utf16Length call.arguments).sum

theorem foldl_keeps {C : Type} (items : List C) (usage : Option U) : items.foldl (fun last _ => last) usage = usage := by
  induction items with
  | nil => rfl
  | cons item rest ih => exact ih

theorem meterToolCalls_counts (calls : Option (List (ToolCallDelta Json))) :
    Counts id (calls.elim 0 argumentChars) (meterToolCalls (U := U) calls) := by
  cases calls with
  | some calls =>
      have touched := Counts.forEach (touchBlock_counts (U := U)) calls
      have same : (fun usage : Option U => calls.foldl (fun last _ => id last) usage) = id := funext (foldl_keeps calls)
      rw [same] at touched
      exact .skip (.modify fun _ => ⟨⟨rfl, rfl, rfl⟩, rfl, rfl⟩) fun _ => touched
  | none => exact .pure ()

def ChoiceDelta.outputChars (delta : ChoiceDelta Json) : ℕ :=
  ((nonEmpty delta.reasoningContent).or (nonEmpty delta.reasoning)).elim 0 utf16Length +
    match nonEmpty delta.content with
    | some text => utf16Length text
    | none => delta.extraContent.elim 0 payloadChars + delta.toolCalls.elim 0 argumentChars

theorem meterDelta_counts (delta : ChoiceDelta Json) : Counts id delta.outputChars (meterDelta env delta) := by
  have reasoned := meterReasoning_counts env ((nonEmpty delta.reasoningContent).or (nonEmpty delta.reasoning))
  unfold ChoiceDelta.outputChars meterDelta
  apply Counts.bind reasoned
  intro _
  cases nonEmpty delta.content with
  | some text => exact meterText_counts env text
  | none => exact .bind (meterExtraContent_counts env _) fun _ => meterToolCalls_counts _

def StreamChunk.outputChars (chunk : StreamChunk Json U) : ℕ := chunk.choice.elim 0 ChoiceDelta.outputChars

theorem meterChunk_counts (chunk : StreamChunk Json U) :
    Counts (fun last => chunk.usage.or last) chunk.outputChars (meterChunk env chunk) := by
  have kept : Counts (fun last => chunk.usage.or last) 0
      (modify fun s => { s with lastUsage := chunk.usage.or s.lastUsage } : MeteredRun U Unit) :=
    .modify fun _ => ⟨⟨rfl, rfl, rfl⟩, rfl, rfl⟩
  have both : Counts (id ∘ fun last => chunk.usage.or last) (0 + chunk.outputChars) (meterChunk env chunk) := by
    refine kept.bind fun _ => ?_
    unfold StreamChunk.outputChars
    cases chunk.choice with
    | some delta => exact meterDelta_counts env delta
    | none => exact .pure ()
  rwa [Nat.zero_add] at both

namespace ResponsesChunk

def outputChars : ResponsesChunk U → ℕ
  | .outputText delta => utf16Length delta
  | .compaction _ encryptedContent => payloadChars encryptedContent
  | .functionCall _ _ _ _ arguments => utf16Length arguments
  | _ => 0

def usageAfter : ResponsesChunk U → Option U → Option U
  | .completed usage, _ => usage
  | _, last => last

end ResponsesChunk

theorem meterResponsesChunk_counts (chunk : ResponsesChunk U) :
    Counts chunk.usageAfter chunk.outputChars (meterResponsesChunk env chunk) := by
  cases chunk with
  | outputText delta => exact addText_counts env delta
  | completed usage => exact .modify fun _ => ⟨⟨rfl, rfl, rfl⟩, rfl, rfl⟩
  | compaction id' encryptedContent => exact compaction_counts env id' encryptedContent
  | functionCall id' callId name extraContent arguments =>
      exact .bind (countChars_counts _) fun _ => flushBuffer_counts env _ _ _
  | other => exact .pure ()

namespace OpenAIStream

def usageAfter : OpenAIStream U → Option U → Option U
  | .completions upstream, last => upstream.chunks.foldl (fun last chunk => chunk.usage.or last) last
  | .responses upstream, last => upstream.chunks.foldl (fun last chunk => chunk.usageAfter last) last

def sentUsage (stream : OpenAIStream U) : Option U := stream.usageAfter none

def chars : OpenAIStream U → ℕ
  | .completions upstream => (upstream.chunks.map StreamChunk.outputChars).sum
  | .responses upstream => (upstream.chunks.map ResponsesChunk.outputChars).sum

def front (count : ℕ) : OpenAIStream U → OpenAIStream U
  | .completions upstream => .completions ⟨upstream.chunks.take count, false⟩
  | .responses upstream => .responses ⟨upstream.chunks.take count, false⟩

end OpenAIStream

theorem loop_counts (stream : OpenAIStream U) : Counts stream.usageAfter stream.chars (stream.loop env) := by
  have thrown (throws : Bool) : Counts id 0 (runIf throws (throw .upstream) : MeteredRun U Unit) :=
    .runIf (.throw .upstream)
  cases stream with
  | completions upstream => exact .bind (.forEach (meterChunk_counts env) upstream.chunks) fun _ => thrown _
  | responses upstream => exact .bind (.forEach (meterResponsesChunk_counts env) upstream.chunks) fun _ => thrown _

theorem Counts.more {α : Type} {after : Option U → Option U} {chars : ℕ} {body : MeteredRun U α}
    (counts : Counts after chars body) (s : MeteredState U) : StoppedWithin chars s (finalState (body s)) := by
  cases ran : body s with
  | ok a s' => exact (counts.ok s a s' ran).stopped
  | error e s' => exact counts.error s e s' ran

theorem forEach_front {C : Type} {step : C → MeteredRun U Unit} {after : C → Option U → Option U} {chars : C → ℕ}
    (counts : ∀ item, Counts (after item) (chars item) (step item)) {throws : MeteredRun U Unit}
    (throwsCounts : Counts id 0 throws) {items : List C} {count : ℕ} {s front : MeteredState U}
    (ran : forEach step (items.take count) s = .ok () front) :
    front.outputChars ≤ (finalState ((forEach step items >>= fun _ => throws) s)).outputChars := by
  have rest := (Counts.forEach counts (items.drop count)).bind fun _ => throwsCounts
  have joined : forEach step (items.take count ++ items.drop count) s = forEach step (items.drop count) front :=
    forEach_append_of_ok ran
  rw [List.take_append_drop] at joined
  rw [bind_of_same joined]
  exact (rest.more front).more

theorem loop_front (stream : OpenAIStream U) (count : ℕ) {s front : MeteredState U}
    (ran : (stream.front count).loop env s = .ok () front) :
    front.outputChars ≤ (finalState (stream.loop env s)).outputChars := by
  have thrown (throws : Bool) : Counts id 0 (runIf throws (throw .upstream) : MeteredRun U Unit) :=
    .runIf (.throw .upstream)
  cases stream with
  | completions upstream =>
      have ⟨_, between, rounds, ended⟩ := bind_ok.mp ran
      have ⟨_, same⟩ := pure_ok.mp ended
      exact forEach_front (meterChunk_counts env) (thrown _) (same ▸ rounds)
  | responses upstream =>
      have ⟨_, between, rounds, ended⟩ := bind_ok.mp ran
      have ⟨_, same⟩ := pure_ok.mp ended
      exact forEach_front (meterResponsesChunk_counts env) (thrown _) (same ▸ rounds)

/-- What follows the calculator adds nothing to the books, and keeps the mark of a metered stream. -/
structure EndsAs (usage : Option UsageObject) (s s' : MeteredState U) : Prop where
  charges : s'.charges = s.charges
  releases : s'.releases = s.releases
  outputChars : s'.outputChars = s.outputChars
  marked : s.reportedUsage.isSome → s'.reportedUsage.isSome
  unmarked : usage = none → s'.reportedUsage = s.reportedUsage

instance (usage : Option UsageObject) : IsPreorder (MeteredState U) (EndsAs usage) where
  refl _ := ⟨rfl, rfl, rfl, id, fun _ => rfl⟩
  trans _ _ _ first second :=
    ⟨second.charges.trans first.charges, second.releases.trans first.releases,
      second.outputChars.trans first.outputChars, fun marked => second.marked (first.marked marked),
      fun silent => (second.unmarked silent).trans (first.unmarked silent)⟩

theorem StoppedWithin.endsAs {s s' : MeteredState U} (stopped : StoppedWithin 0 s s') (usage : Option UsageObject) :
    EndsAs usage s s' where
  charges := stopped.books.charges
  releases := stopped.books.releases
  outputChars := Nat.le_antisymm stopped.less stopped.more
  marked marked := by rwa [stopped.books.reported]
  unmarked _ := stopped.books.reported

theorem Counts.endsAs {α : Type} {after : Option U → Option U} {body : MeteredRun U α} (counts : Counts after 0 body)
    (usage : Option UsageObject) : Keeps (EndsAs usage) body := by
  intro s
  cases ran : body s with
  | ok a s' => exact (counts.ok s a s' ran).stopped.endsAs usage
  | error e s' => exact (counts.error s e s' ran).endsAs usage

theorem reportUsage_endsAs (usage : Option UsageObject) (reported : Option UsageObject)
    (silent : usage = none → reported = none) : Keeps (EndsAs usage) (reportUsage reported : MeteredRun U Unit) := by
  intro s
  cases reported with
  | none => exact refl_of (EndsAs usage) s
  | some reported =>
      have spoken : usage ≠ none := fun none => nomatch silent none
      change EndsAs usage s (if reported.any fun entry => entry.2.isSome then { s with reportedUsage := some reported } else s)
      cases reported.any fun entry => entry.2.isSome with
      | true => exact ⟨rfl, rfl, rfl, fun _ => rfl, fun silent => absurd silent spoken⟩
      | false => exact refl_of (EndsAs usage) s

def ending (usage : Option UsageObject) : MeteredRun U Unit := do
  let s ← get
  runIf (s.mode = .tool) (flushToolblock env)
  endStream env usage

theorem ending_endsAs (usage : Option UsageObject) : Keeps (EndsAs usage) (ending env usage) := by
  have called := (streamCall_counts env).endsAs usage
  have reported : Keeps (EndsAs usage)
      (reportUsage (usage.map fun usage => injectUsdCents usage env.model) : MeteredRun U Unit) := by
    apply reportUsage_endsAs
    intro silent
    rw [silent, Option.map_none]
  have flushed (s : MeteredState U) : Keeps (EndsAs usage) (runIf (s.mode = .tool) (flushToolblock env)) :=
    .runIf fun _ => (flushToolblock_counts env).endsAs usage
  exact .bind .get fun s => .bind (flushed s) fun _ => .bind reported fun _ => .bind called fun _ => called

def errorLine : MeteredRun U Unit := do
  streamCall env
  streamCall env

theorem errorLine_endsAs (usage : Option UsageObject) : Keeps (EndsAs usage) (errorLine env) :=
  .bind ((streamCall_counts env).endsAs usage) fun _ => (streamCall_counts env).endsAs usage

def pumped (stream : OpenAIStream U) : MeteredState U :=
  finalState (tryCatch (stream.handler env) (fun _ => errorLine env) {})

theorem pumped_of_loop {stream : OpenAIStream U} {last : MeteredState U} (ran : stream.loop env {} = .ok () last) :
    pumped env stream =
      finalState (tryCatch (finishStream env last.lastExtraContent) (fun _ => errorLine env) last) := by
  apply finalState_tryCatch_same
  exact bind_of_ok ran

theorem ended_of_finished {usage : Option UsageObject} {extraContent : Option Json} {last marked : MeteredState U}
    (ran : finishStream env extraContent last = ending env usage marked) :
    EndsAs usage marked (finalState (tryCatch (finishStream env extraContent) (fun _ => errorLine env) last)) := by
  have same : finalState (tryCatch (finishStream env extraContent) (fun _ => errorLine env) last) =
      finalState (tryCatch (ending env usage) (fun _ => errorLine env) marked) := finalState_tryCatch_same ran
  have ended : Keeps (EndsAs usage) (tryCatch (ending env usage) fun _ => errorLine env) :=
    .tryCatch (ending_endsAs env usage) fun _ => errorLine_endsAs env usage
  exact same ▸ ended marked

def markMetered (usage : UsageObject) (s : MeteredState U) : MeteredState U :=
  { recordCharge usage s with reportedUsage := some usage }

theorem finishStream_metered {last : MeteredState U} {usage : U} {extraContent : Option Json}
    (sent : last.lastUsage = some usage)
    (reports : (env.usageCalculator usage extraContent).any (·.2.isSome) = true) :
    EndsAs (some (env.usageCalculator usage extraContent))
      (markMetered (env.usageCalculator usage extraContent) last)
      (finalState (tryCatch (finishStream env extraContent) (fun _ => errorLine env) last)) := by
  have metered : meterUsage env extraContent last = .ok (some (env.usageCalculator usage extraContent))
      (recordCharge (env.usageCalculator usage extraContent) last) := by
    apply (bind_of_ok (get_ok.mpr ⟨rfl, rfl⟩)).trans
    rw [sent]
    rfl
  have reported (s : MeteredState U) : reportUsage (some (env.usageCalculator usage extraContent)) s =
      .ok () { s with reportedUsage := some (env.usageCalculator usage extraContent) } :=
    congrArg (EStateM.Result.ok ()) (if_pos reports)
  have ran : finishStream env extraContent last = ending env (some (env.usageCalculator usage extraContent))
      (markMetered (env.usageCalculator usage extraContent) last) :=
    (bind_of_ok metered).trans (bind_of_ok (reported _))
  exact ended_of_finished env ran

theorem finishStream_unmetered {last : MeteredState U} {extraContent : Option Json} (silent : last.lastUsage = none) :
    EndsAs none last (finalState (tryCatch (finishStream env extraContent) (fun _ => errorLine env) last)) := by
  have metered : meterUsage env extraContent last = .ok none last := by
    apply (bind_of_ok (get_ok.mpr ⟨rfl, rfl⟩)).trans
    rw [silent]
    rfl
  have reported : reportUsage none last = .ok () last := rfl
  have ran : finishStream env extraContent last = ending env none last :=
    (bind_of_ok metered).trans (bind_of_ok reported)
  exact ended_of_finished env ran

def OpenAIStream.Metered (stream : OpenAIStream U) : Prop :=
  (∃ last, stream.loop env {} = .ok () last) ∧ stream.sentUsage.isSome

theorem pumped_unmetered {stream : OpenAIStream U} (unmetered : ¬ stream.Metered env) :
    EndsAs none (finalState (stream.loop env {})) (pumped env stream) := by
  cases ran : stream.loop env {} with
  | ok _ last =>
      have counted := (loop_counts env stream).ok {} () last ran
      rw [pumped_of_loop env ran]
      have silent : stream.sentUsage = none := by
        apply Option.not_isSome_iff_eq_none.mp
        intro sent
        exact unmetered ⟨⟨last, ran⟩, sent⟩
      exact finishStream_unmetered env (counted.usage.trans silent)
  | error fault stopped =>
      have thrown : stream.handler env {} = .error fault stopped := bind_of_error ran
      unfold pumped
      rw [finalState_tryCatch_error thrown]
      exact errorLine_endsAs env none stopped

theorem pumped_metered {stream : OpenAIStream U} {last : MeteredState U} {usage : U}
    (reports : (env.usageCalculator usage last.lastExtraContent).any (·.2.isSome) = true)
    (ran : stream.loop env {} = .ok () last) (sent : stream.sentUsage = some usage) :
    EndsAs (some (env.usageCalculator usage last.lastExtraContent))
      (markMetered (env.usageCalculator usage last.lastExtraContent) last) (pumped env stream) := by
  have counted := (loop_counts env stream).ok {} () last ran
  rw [pumped_of_loop env ran]
  exact finishStream_metered env (counted.usage.trans sent) reports

theorem closeBooks_marked {s : MeteredState U} (marked : s.reportedUsage.isSome = true) :
    closeBooks env false s = { s with releases := s.releases + 1 } := by
  unfold closeBooks
  have skipped : s.reportedUsage.isNone = false := by
    rw [← Option.not_isSome, marked]
    rfl
  rw [skipped]
  rfl

theorem closeBooks_free {s : MeteredState U} (unmarked : s.reportedUsage = none) (free : s.outputChars = 0) :
    closeBooks env false s = { s with releases := s.releases + 1 } := by
  unfold closeBooks meterUnreportedStream
  simp [unmarked, free, estimateOutputTokens]

theorem closeBooks_estimated {s : MeteredState U} (unmarked : s.reportedUsage = none) (produced : 0 < s.outputChars) :
    closeBooks env false s =
      { s with charges := s.charges ++ [estimatedCharge env s.outputChars], releases := s.releases + 1 } := by
  have tokens : estimateOutputTokens s.outputChars ≠ 0 := by
    unfold estimateOutputTokens
    omega
  unfold closeBooks meterUnreportedStream
  simp [unmarked, tokens]

theorem closeBooks_spec (s : MeteredState U) :
    (closeBooks env false s).releases = s.releases + 1 ∧ (closeBooks env false s).outputChars = s.outputChars := by
  cases marked : s.reportedUsage with
  | some usage =>
      rw [closeBooks_marked env (Option.isSome_iff_exists.mpr ⟨usage, marked⟩)]
      exact ⟨rfl, rfl⟩
  | none =>
      cases Nat.eq_zero_or_pos s.outputChars with
      | inl free =>
          rw [closeBooks_free env marked free]
          exact ⟨rfl, rfl⟩
      | inr produced =>
          rw [closeBooks_estimated env marked produced]
          exact ⟨rfl, rfl⟩

theorem pumped_releases (stream : OpenAIStream U)
    (reports : ∀ usage extra, (env.usageCalculator usage extra).any (·.2.isSome) = true) :
    (pumped env stream).releases = 0 ∧ (pumped env stream).outputChars = (finalState (stream.loop env {})).outputChars := by
  have looped := ((loop_counts env stream).more {}).books.releases
  by_cases metered : stream.Metered env
  · have ⟨⟨last, ran⟩, sent⟩ := metered
    have ⟨usage, sent⟩ := Option.isSome_iff_exists.mp sent
    have ended := pumped_metered env (reports _ _) ran sent
    rw [ran] at looped ⊢
    exact ⟨ended.releases.trans looped, ended.outputChars⟩
  · have ended := pumped_unmetered env metered
    exact ⟨ended.releases.trans looped, ended.outputChars⟩

end Counting

/-- The books of a stream that has ended. -/
structure StreamChargedOnce {U : Type} (env : MeteringEnv U) (stream : OpenAIStream U) (s : MeteredState U) : Prop where
  metered : ∀ last usage, stream.loop env {} = .ok () last → stream.sentUsage = some usage →
    s.charges = [.recorded (env.usageCalculator usage last.lastExtraContent)]
  estimated : ¬ stream.Metered env → 0 < s.outputChars → s.charges = [StreamMetering.estimatedCharge env s.outputChars]
  free : ¬ stream.Metered env → s.outputChars = 0 → s.charges = []
  released : s.releases = 1
  counted : s.outputChars ≤ stream.chars
  reached : ∀ last, stream.loop env {} = .ok () last → s.outputChars = stream.chars
  handled : ∀ count front, (stream.front count).loop env {} = .ok () front → (stream.front count).chars ≤ s.outputChars

def plainMetering : MeteringEnv Unit where
  parse _ := none
  streamFails _ := false
  grounded _ := false
  usageCalculator _ _ := [("prompt_tokens".toList, some 1)]
  model := ⟨"m".toList, none, none, none, none, none, [], none, false, none⟩
  promptTokenEstimate := 1

def cutStream : OpenAIStream Unit := .completions ⟨[⟨none, some ⟨none, none, some "hello".toList, none, none⟩⟩], true⟩

end Puter

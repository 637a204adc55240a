import YellowstoneStream.Reasoning.Channel
import YellowstoneStream.Storage.Cursor
import YellowstoneStream.Storage.EventWriter
import YellowstoneStream.Stream.Batcher
import YellowstoneStream.Stream.SlotState

/-!
# The event pipeline

The consumer of `crates/stream/src/pipeline.rs` as a program over the calls it makes: the three
stores, the two callbacks, the clock and the length of the channel.  Durations are nanoseconds.
-/

open YellowstoneStream.Domain YellowstoneStream.Reasoning YellowstoneStream.Storage

namespace YellowstoneStream.Stream

structure PipelineConfig where
  batchSize : Nat
  channelCapacity : Nat
  resumeAfterSlot : Option Nat
  advanceFinalizedWatermark : Bool
  useSlotResume : Bool
  deriving DecidableEq, Repr

def PipelineConfig.default : PipelineConfig := ⟨500, 10000, none, false, true⟩

structure PipelineSummary where
  eventsSeen : Nat
  eventsSkipped : Nat
  batchesWritten : Nat
  writeSummary : WriteSummary
  lastPersistedSlot : Option Nat
  lastContiguousFinalizedSlot : Option Nat
  lastFinalizedSlot : Option Nat
  totalBatchWriteDuration : Nat
  maxBatchWriteDuration : Nat
  lastBatchWriteDuration : Nat
  deriving DecidableEq, Repr

def PipelineSummary.default : PipelineSummary :=
  ⟨0, 0, 0, .default, none, none, none, 0, 0, 0⟩

structure PipelineActivity where
  slot : Nat
  eventsSeen : Nat
  channelDepth : Nat
  channelCapacity : Nat
  eventType : String
  deriving DecidableEq, Repr

inductive PipelineError (W C S : Type) where
  | write (err : W)
  | cursor (err : C)
  | slotState (err : S)
  | producerJoin
  deriving DecidableEq, Repr

inductive PipelineCall where
  | channelLen
  | onActivity (activity : PipelineActivity)
  | onProgress (summary : PipelineSummary)
  | batchElapsed
  | writeBatch (batch : List NormalizedEvent)
  | updateAfterBatch (streamName : String) (slot : Nat)
  | recordSlotStates (streamName : String) (updates : List SlotStateUpdate)
  | advanceContiguousFinalized (streamName : String)

/-- The replies of stores with errors `W`, `C` and `S`. -/
abbrev PipelineCall.Reply (W C S : Type) : PipelineCall → Type
  | .channelLen => Nat
  | .onActivity _ => Unit
  | .onProgress _ => Unit
  | .batchElapsed => Nat
  | .writeBatch _ => Except W WriteSummary
  | .updateAfterBatch .. => Except C Unit
  | .recordSlotStates .. => Except S Unit
  | .advanceContiguousFinalized _ => Except S FinalizedFrontier

def PipelineCall.isStore : PipelineCall → Bool
  | .channelLen | .onActivity _ | .onProgress _ | .batchElapsed => false
  | .writeBatch _ | .updateAfterBatch .. | .recordSlotStates .. |
    .advanceContiguousFinalized _ => true

section Receiver

variable {W C S : Type}

abbrev PipelineProgram (W C S α : Type) :=
  Program PipelineCall (PipelineCall.Reply W C S) (PipelineError W C S) α

def perform (c : PipelineCall) : PipelineProgram W C S (PipelineCall.Reply W C S c) :=
  Program.request c

def shouldSkipEvent (event : NormalizedEvent) (resumeAfterSlot : Option Nat)
    (useSlotResume : Bool) : Bool :=
  useSlotResume && resumeAfterSlot.any fun slot => event.slot ≤ slot

/-- `if let Some(slot) = last_slot { … }` of `write_batch`. -/
def persistCursor (streamName : String) (lastSlot : Option Nat) (summary : PipelineSummary) :
    PipelineProgram W C S PipelineSummary :=
  match lastSlot with
  | none => pure summary
  | some slot => do
      let updated ← perform (.updateAfterBatch streamName slot)
      Program.orThrow .cursor updated
      pure
        { summary with
          lastPersistedSlot := some ((summary.lastPersistedSlot.map (max · slot)).getD slot) }

/-- `if !slot_states.is_empty() { … }` of `write_batch`. -/
def persistSlotStates (streamName : String) (advanceFinalizedWatermark : Bool)
    (slotStates : List SlotStateUpdate) (summary : PipelineSummary) :
    PipelineProgram W C S PipelineSummary :=
  if slotStates.isEmpty then pure summary
  else do
    let recorded ← perform (.recordSlotStates streamName slotStates)
    Program.orThrow .slotState recorded
    -- a batch of dead slots does not advance
    if advanceFinalizedWatermark && slotStates.any SlotStateUpdate.finalized then do
      let advanced ← perform (.advanceContiguousFinalized streamName)
      let frontier ← Program.orThrow .slotState advanced
      pure
        { summary with
          lastContiguousFinalizedSlot := frontier.lastContiguousFinalizedSlot
          lastFinalizedSlot := frontier.lastFinalizedSlot }
    else pure summary

def writeBatch (streamName : String) (advanceFinalizedWatermark : Bool)
    (batch : List NormalizedEvent) (summary : PipelineSummary) :
    PipelineProgram W C S PipelineSummary := do
  -- the greatest slot of the batch, also when the writer skips its event
  let lastSlot := (batch.map NormalizedEvent.slot).max?
  let written ← perform (.writeBatch batch)
  let writeSummary ← Program.orThrow .write written
  let batchDuration ← perform .batchElapsed
  let summary :=
    { summary with
      lastBatchWriteDuration := batchDuration
      totalBatchWriteDuration := summary.totalBatchWriteDuration + batchDuration
      maxBatchWriteDuration :=
        if summary.maxBatchWriteDuration < batchDuration then batchDuration
        else summary.maxBatchWriteDuration
      eventsSkipped := summary.eventsSkipped + writeSummary.skipped }
  let summary ← persistCursor streamName lastSlot summary
  let slotStates := batch.filterMap slotStateFromEvent
  let summary ← persistSlotStates streamName advanceFinalizedWatermark slotStates summary
  pure
    { summary with
      batchesWritten := summary.batchesWritten + 1
      writeSummary := summary.writeSummary.add writeSummary }

/-- The consumer's local variables. -/
structure ReceiverState where
  batcher : Batcher
  summary : PipelineSummary

variable (config : PipelineConfig) (streamName : String)

def startReceiving : PipelineProgram W C S ReceiverState :=
  match Batcher.new config.batchSize with
  -- `assert!(capacity > 0)` of the batcher
  | none => .panic
  | some batcher => do
      let summary := { PipelineSummary.default with lastPersistedSlot := config.resumeAfterSlot }
      perform (.onProgress summary)
      pure ⟨batcher, summary⟩

/-- The body of `while let Some(event) = events.recv().await`. -/
def receiveEvent (state : ReceiverState) (event : NormalizedEvent) :
    PipelineProgram W C S ReceiverState := do
  let summary := { state.summary with eventsSeen := state.summary.eventsSeen + 1 }
  let channelDepth ← perform .channelLen
  perform (.onActivity
    { slot := event.slot
      eventsSeen := summary.eventsSeen
      channelDepth := channelDepth
      channelCapacity := config.channelCapacity
      eventType := event.kind.asStr })
  if shouldSkipEvent event config.resumeAfterSlot config.useSlotResume then
    pure { state with summary := { summary with eventsSkipped := summary.eventsSkipped + 1 } }
  else
    match state.batcher.push event with
    | (some batch, batcher) => do
        let summary ← writeBatch streamName config.advanceFinalizedWatermark batch summary
        perform (.onProgress summary)
        pure ⟨batcher, summary⟩
    -- progress is reported for whole batches only
    | (none, batcher) => pure ⟨batcher, summary⟩

def finishReceiving (state : ReceiverState) : PipelineProgram W C S PipelineSummary := do
  let summary ← match state.batcher.flush.1 with
    | some batch => writeBatch streamName config.advanceFinalizedWatermark batch state.summary
    | none => pure state.summary
  perform (.onProgress summary)
  pure summary

/-- `run_event_receiver_pipeline_with_progress_and_activity`. -/
def eventReceiverPipeline :
    Worker PipelineCall (PipelineCall.Reply W C S) (PipelineError W C S) NormalizedEvent
      ReceiverState PipelineSummary where
  start := startReceiving config
  body := receiveEvent config streamName
  finish := finishReceiving config streamName

end Receiver

end YellowstoneStream.Stream

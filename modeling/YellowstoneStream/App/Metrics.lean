import YellowstoneStream.Reasoning.Triple
import YellowstoneStream.Stream.PipelineTrace

/-!
# Metrics

`crates/app/src/metrics.rs` but for the utilization ratio, and what the callbacks of both modes do
with it.  They observe the last duration of every summary, so a last report that repeats a batch
observes it again.
-/

open YellowstoneStream.Domain YellowstoneStream.Reasoning YellowstoneStream.Storage
open YellowstoneStream.Stream

namespace YellowstoneStream.App

/-- No gauge is ever negative. -/
structure Metrics where
  /-- The observations of the histogram with their writers, in nanoseconds. -/
  batchWriteLatency : List (String × Nat)
  channelDepth : String → Option Nat
  channelCapacity : String → Option Nat
  ingestEventsTotal : String → String → Nat
  lastObservedSlot : Nat
  lastFinalizedSlot : Nat
  lastPersistedSlot : Nat
  slotLag : Nat
  reconnectAttemptsTotal : Nat
  decodeErrorsTotal : Nat

/-- `i64::try_from(value).unwrap_or(i64::MAX)`. -/
def gaugeValue (value : Nat) : Nat := min value i64Max

/-- `inc` of a counter of 64 bits. -/
def counterInc (count : Nat) : Nat := (count + 1) % 2 ^ 64

namespace Metrics

def new : Metrics where
  batchWriteLatency := []
  channelDepth _ := none
  channelCapacity _ := none
  ingestEventsTotal _ _ := 0
  lastObservedSlot := 0
  lastFinalizedSlot := 0
  lastPersistedSlot := 0
  slotLag := 0
  reconnectAttemptsTotal := 0
  decodeErrorsTotal := 0

def observeBatchWrite (metrics : Metrics) (writer : String) (duration : Nat) : Metrics :=
  { metrics with batchWriteLatency := metrics.batchWriteLatency ++ [(writer, duration)] }

def setChannelState (metrics : Metrics) (streamName : String) (depth capacity : Nat) : Metrics :=
  { metrics with
    channelDepth := fun label =>
      if label = streamName then some (gaugeValue depth) else metrics.channelDepth label
    channelCapacity := fun label =>
      if label = streamName then some (gaugeValue capacity) else metrics.channelCapacity label }

def recordIngestEvent (metrics : Metrics) (source eventType : String) : Metrics :=
  { metrics with
    ingestEventsTotal := fun source' eventType' =>
      if source' = source ∧ eventType' = eventType
      then counterInc (metrics.ingestEventsTotal source eventType)
      else metrics.ingestEventsTotal source' eventType' }

def setLastObservedSlot (metrics : Metrics) (slot : Nat) : Metrics :=
  { metrics with lastObservedSlot := gaugeValue slot }

def setLastFinalizedSlot (metrics : Metrics) (slot : Nat) : Metrics :=
  { metrics with lastFinalizedSlot := gaugeValue slot }

def setLastPersistedSlot (metrics : Metrics) (slot : Nat) : Metrics :=
  { metrics with lastPersistedSlot := gaugeValue slot }

def setSlotLag (metrics : Metrics) (lag : Nat) : Metrics :=
  { metrics with slotLag := gaugeValue lag }

def incReconnectAttempts (metrics : Metrics) : Metrics :=
  { metrics with reconnectAttemptsTotal := counterInc metrics.reconnectAttemptsTotal }

-- called in a test only
def incDecodeErrors (metrics : Metrics) : Metrics :=
  { metrics with decodeErrorsTotal := counterInc metrics.decodeErrorsTotal }

/-- The samples without labels that `render` writes out. -/
def samples (metrics : Metrics) : List (String × Nat) :=
  [("solana_stream_decode_errors_total", metrics.decodeErrorsTotal),
    ("solana_stream_last_finalized_slot", metrics.lastFinalizedSlot),
    ("solana_stream_last_observed_slot", metrics.lastObservedSlot),
    ("solana_stream_last_persisted_slot", metrics.lastPersistedSlot),
    ("solana_stream_reconnect_attempts_total", metrics.reconnectAttemptsTotal),
    ("solana_stream_slot_lag", metrics.slotLag)]

/-- `solana_stream_batch_write_latency_seconds_count`. -/
def latencyCount (metrics : Metrics) (writer : String) : Nat :=
  metrics.batchWriteLatency.countP fun observation => observation.1 = writer

/-! ## The callbacks -/

/-- What both progress callbacks begin with. -/
def observeSummary (metrics : Metrics) (summary : PipelineSummary) : Metrics :=
  if 0 < summary.lastBatchWriteDuration then
    metrics.observeBatchWrite "postgres" summary.lastBatchWriteDuration
  else metrics

/-- The progress callback of `run_replay`. -/
def replayProgress (metrics : Metrics) (summary : PipelineSummary) : Metrics :=
  let metrics := metrics.observeSummary summary
  match summary.lastPersistedSlot with
  | some slot => metrics.setLastPersistedSlot slot
  | none => metrics

/-- The progress callback of `run_yellowstone`. -/
def liveProgress (metrics : Metrics) (summary : PipelineSummary) : Metrics :=
  let metrics := metrics.observeSummary summary
  let metrics := match summary.lastPersistedSlot with
    | some slot => metrics.setLastPersistedSlot slot
    | none => metrics
  let metrics := match summary.lastFinalizedSlot with
    | some slot => metrics.setLastFinalizedSlot slot
    | none => metrics
  let observed := metrics.lastObservedSlot
  match summary.lastPersistedSlot with
  | some persisted => metrics.setSlotLag (observed - persisted)
  | none => metrics

/-- The activity callback of either mode. -/
def onActivity (metrics : Metrics) (source streamName : String) (activity : PipelineActivity) :
    Metrics :=
  let metrics := metrics.setChannelState streamName activity.channelDepth activity.channelCapacity
  let metrics := metrics.recordIngestEvent source activity.eventType
  let metrics := metrics.setLastObservedSlot activity.slot
  metrics.setSlotLag (activity.slot - metrics.lastPersistedSlot)

def afterReplayCall (streamName : String) (metrics : Metrics) : PipelineCall → Metrics
  | .onProgress summary => metrics.replayProgress summary
  | .onActivity activity => metrics.onActivity "replay" streamName activity
  | _ => metrics

def afterLiveCall (streamName : String) (metrics : Metrics) : PipelineCall → Metrics
  | .onProgress summary => metrics.liveProgress summary
  | .onActivity activity => metrics.onActivity "yellowstone" streamName activity
  | _ => metrics

end Metrics

end YellowstoneStream.App

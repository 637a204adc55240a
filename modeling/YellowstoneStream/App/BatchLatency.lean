import YellowstoneStream.App.Metrics
import YellowstoneStream.Stream.Reports

/-!
# The batch latency

How often the progress callbacks observe the duration of a batch.
-/

open YellowstoneStream.Domain YellowstoneStream.Reasoning YellowstoneStream.Storage
open YellowstoneStream.Stream

namespace YellowstoneStream.App

variable {W C S : Type}

def durationOf : Answered (PipelineCall.Reply W C S) → List Nat
  | ⟨.batchElapsed, duration⟩ => [duration]
  | _ => []

/-- How long the write of each batch took. -/
def batchDurations (tr : PipelineTrace W C S) : List Nat := tr.flatMap durationOf

def observation (duration : Nat) : List Nat := if 0 < duration then [duration] else []

/-- The durations that the progress callbacks observe. -/
def observations (tr : PipelineTrace W C S) : List Nat :=
  ((Program.calls tr).flatMap reports).flatMap fun summary =>
    observation summary.lastBatchWriteDuration

def replayMetrics (streamName : String) (tr : PipelineTrace W C S) : Metrics :=
  (Program.calls tr).foldl (Metrics.afterReplayCall streamName) .new

def liveMetrics (streamName : String) (tr : PipelineTrace W C S) : Metrics :=
  (Program.calls tr).foldl (Metrics.afterLiveCall streamName) .new

/-- Every batch of the run was observed once, with its own duration. -/
def MeasuredOnce (metrics : Metrics) (tr : PipelineTrace W C S) (summary : PipelineSummary) :
    Prop :=
  metrics.batchWriteLatency = (batchDurations tr).map (Prod.mk "postgres") ∧
    metrics.latencyCount "postgres" = summary.batchesWritten

/-! ## The callbacks observe what is reported -/

section Callbacks

variable (streamName : String) (metrics : Metrics)

theorem latency_observeSummary (summary : PipelineSummary) :
    (metrics.observeSummary summary).batchWriteLatency = metrics.batchWriteLatency ++
      (observation summary.lastBatchWriteDuration).map (Prod.mk "postgres") := by
  rw [Metrics.observeSummary, observation]
  split
  · rfl
  · rw [List.map_nil, List.append_nil]

theorem latency_replayProgress (summary : PipelineSummary) :
    (metrics.replayProgress summary).batchWriteLatency =
      (metrics.observeSummary summary).batchWriteLatency := by
  rw [Metrics.replayProgress]
  cases summary.lastPersistedSlot <;> rfl

theorem latency_liveProgress (summary : PipelineSummary) :
    (metrics.liveProgress summary).batchWriteLatency =
      (metrics.observeSummary summary).batchWriteLatency := by
  rw [Metrics.liveProgress]
  cases summary.lastPersistedSlot <;> cases summary.lastFinalizedSlot <;> rfl

/-- Whatever else the callback of a call does. -/
def ObservesReports (after : Metrics → PipelineCall → Metrics) : Prop :=
  ∀ metrics c, (after metrics c).batchWriteLatency = metrics.batchWriteLatency ++
    ((reports c).flatMap fun summary => observation summary.lastBatchWriteDuration).map
      (Prod.mk "postgres")

theorem observesReports_replay : ObservesReports (Metrics.afterReplayCall streamName) := by
  intro metrics c
  cases c with
  | onProgress summary =>
      rw [Metrics.afterReplayCall, latency_replayProgress, latency_observeSummary, reports,
        List.flatMap_singleton]
  | _ => exact (List.append_nil _).symm

theorem observesReports_live : ObservesReports (Metrics.afterLiveCall streamName) := by
  intro metrics c
  cases c with
  | onProgress summary =>
      rw [Metrics.afterLiveCall, latency_liveProgress, latency_observeSummary, reports,
        List.flatMap_singleton]
  | _ => exact (List.append_nil _).symm

theorem latency_foldl {after : Metrics → PipelineCall → Metrics} (h : ObservesReports after)
    (calls : List PipelineCall) :
    (calls.foldl after metrics).batchWriteLatency = metrics.batchWriteLatency ++
      ((calls.flatMap reports).flatMap fun summary =>
        observation summary.lastBatchWriteDuration).map (Prod.mk "postgres") := by
  induction calls generalizing metrics with
  | nil => exact (List.append_nil _).symm
  | cons c calls ih =>
      rw [List.foldl_cons, ih, h, List.flatMap_cons, List.flatMap_append, List.map_append,
        List.append_assoc]

end Callbacks

/-! ## One call after another -/

/-- Every write takes some time. -/
def TimedReply : (c : PipelineCall) → PipelineCall.Reply W C S c → Prop
  | .batchElapsed, duration => 0 < duration
  | .channelLen, _ | .onActivity _, _ | .onProgress _, _ | .writeBatch _, _
  | .updateAfterBatch .., _ | .recordSlotStates .., _ | .advanceContiguousFinalized _, _ => True

abbrev TimedTriple {α : Type} (post : PipelineTrace W C S → α → Prop)
    (p : PipelineProgram W C S α) (tr : PipelineTrace W C S) : Prop :=
  Program.Triple (Program.Records TimedReply) (fun _ _ => True) post p tr

/-- The batches written and the durations observed so far. -/
def Stands (durations observed : List Nat) (tr : PipelineTrace W C S) : Prop :=
  batchDurations tr = durations ∧ observations tr = observed

section Calls

variable {durations observed : List Nat} {tr tr' : PipelineTrace W C S} {c : PipelineCall}
  {r : PipelineCall.Reply W C S c}

theorem Stands.call (h : Stands durations observed tr)
    (hact : Program.Records TimedReply tr c r tr') :
    Stands (durations ++ durationOf ⟨c, r⟩)
      (observed ++ (reports c).flatMap fun summary => observation summary.lastBatchWriteDuration)
      tr' := by
  obtain ⟨rfl, -⟩ := hact
  obtain ⟨rfl, rfl⟩ := h
  constructor
  · rw [batchDurations, List.flatMap_append, List.flatMap_singleton]
    rfl
  · rw [observations, Program.calls, List.map_append, List.flatMap_append, List.flatMap_append,
      List.map_singleton, List.flatMap_singleton]
    rfl

/-- A call that is neither a report nor a reading of the clock. -/
theorem Stands.silent (h : Stands durations observed tr)
    (hact : Program.Records TimedReply tr c r tr') (hduration : durationOf ⟨c, r⟩ = [])
    (hreports : reports c = []) : Stands durations observed tr' := by
  have hcall := h.call hact
  rw [hduration, hreports, List.flatMap_nil, List.append_nil, List.append_nil] at hcall
  exact hcall

/-- The counter and the duration a summary shows. -/
def Shows (batches duration : Nat) (summary : PipelineSummary) : Prop :=
  summary.batchesWritten = batches ∧ summary.lastBatchWriteDuration = duration

variable {batches duration : Nat} {summary : PipelineSummary} (streamName : String)
include streamName

theorem timed_persistCursor (lastSlot : Option Nat) (hshows : Shows batches duration summary)
    (h : Stands durations observed tr) :
    TimedTriple (fun tr summary => Shows batches duration summary ∧ Stands durations observed tr)
      (persistCursor streamName lastSlot summary) tr := by
  cases lastSlot with
  | none => exact ⟨hshows, h⟩
  | some slot =>
      refine Program.triple_request trivial fun updated tr₁ hupdate => ?_
      exact Program.triple_orThrow fun _ _ => ⟨hshows, h.silent hupdate rfl rfl⟩

theorem timed_persistSlotStates (advance : Bool) (states : List SlotStateUpdate)
    (hshows : Shows batches duration summary) (h : Stands durations observed tr) :
    TimedTriple (fun tr summary => Shows batches duration summary ∧ Stands durations observed tr)
      (persistSlotStates streamName advance states summary) tr := by
  unfold persistSlotStates
  split
  · exact ⟨hshows, h⟩
  refine Program.triple_request trivial fun recorded tr₁ hrecord =>
    Program.triple_orThrow fun _ _ => ?_
  have hrecorded := h.silent hrecord rfl rfl
  split
  · refine Program.triple_request trivial fun advanced tr₂ hadvance => ?_
    exact Program.triple_orThrow fun _ _ => ⟨hshows, hrecorded.silent hadvance rfl rfl⟩
  · exact ⟨hshows, hrecorded⟩

/-- A batch adds its duration, which its summary shows. -/
theorem timed_writeBatch (advance : Bool) (batch : List NormalizedEvent)
    (hbatches : summary.batchesWritten = batches) (h : Stands durations observed tr) :
    TimedTriple (fun tr summary => ∃ duration, 0 < duration ∧
        Shows (batches + 1) duration summary ∧ Stands (durations ++ [duration]) observed tr)
      (writeBatch streamName advance batch summary) tr := by
  refine Program.triple_request trivial fun written tr₁ hwrite =>
    Program.triple_orThrow fun writeSummary _ => ?_
  have hwritten := h.silent hwrite rfl rfl
  refine Program.triple_request trivial fun duration tr₂ helapsed => ?_
  have htimed : Stands (durations ++ [duration]) (observed ++ []) tr₂ := hwritten.call helapsed
  rw [List.append_nil] at htimed
  have hshows : Shows batches duration
      { summary with
        lastBatchWriteDuration := duration
        totalBatchWriteDuration := summary.totalBatchWriteDuration + duration
        maxBatchWriteDuration :=
          if summary.maxBatchWriteDuration < duration then duration
          else summary.maxBatchWriteDuration
        eventsSkipped := summary.eventsSkipped + writeSummary.skipped } := ⟨hbatches, rfl⟩
  refine (timed_persistCursor streamName _ hshows htimed).bind ?_
  rintro tr₃ s₃ ⟨hshows₃, hstands₃⟩
  refine (timed_persistSlotStates streamName advance _ hshows₃ hstands₃).bind ?_
  rintro tr₄ s₄ ⟨hshows₄, hstands₄⟩
  exact ⟨duration, helapsed.2, ⟨congrArg (· + 1) hshows₄.1, hshows₄.2⟩, hstands₄⟩

end Calls

/-! ## The run -/

/-- The events are in the batcher or written, and every batch written so far was observed. -/
structure Timed (config : PipelineConfig) (events : List NormalizedEvent)
    (tr : PipelineTrace W C S) (state : ReceiverState) : Prop where
  batcher : state.batcher.Holds config.batchSize (keptEvents config events)
  stands : Stands (batchDurations tr) (batchDurations tr) tr
  written : (batchDurations tr).length =
    (fullChunks config.batchSize (keptEvents config events)).length
  shows : Shows (batchDurations tr).length ((batchDurations tr).getLastD 0) state.summary

theorem Timed.of_stands {config : PipelineConfig} {events : List NormalizedEvent}
    {tr : PipelineTrace W C S} {state : ReceiverState} {durations : List Nat}
    (hbatcher : state.batcher.Holds config.batchSize (keptEvents config events))
    (hstands : Stands durations durations tr)
    (hwritten : durations.length =
      (fullChunks config.batchSize (keptEvents config events)).length)
    (hshows : Shows durations.length (durations.getLastD 0) state.summary) :
    Timed config events tr state := by
  obtain rfl := hstands.1
  exact ⟨hbatcher, hstands, hwritten, hshows⟩

/-- The last report observes the last batch again where it has no batch of its own. -/
structure TimedRun (config : PipelineConfig) (events : List NormalizedEvent)
    (tr : PipelineTrace W C S) (summary : PipelineSummary) : Prop where
  observed : observations tr = batchDurations tr ++
    if (remainder config.batchSize (keptEvents config events)).isEmpty
    then observation ((batchDurations tr).getLastD 0) else []
  written : (batchDurations tr).length = (batchesOf config events).length
  counted : summary.batchesWritten = (batchDurations tr).length

section Run

variable (config : PipelineConfig) (streamName : String) {events : List NormalizedEvent}
  {tr : PipelineTrace W C S}

/-- A report of a summary that shows the last batch written. -/
theorem Stands.report {durations observed : List Nat} {summary : PipelineSummary} {batches : Nat}
    {duration : Nat} {tr' : PipelineTrace W C S} (h : Stands durations observed tr)
    (hshows : Shows batches duration summary)
    (hact : Program.Records TimedReply tr (.onProgress summary) () tr') :
    Stands durations (observed ++ observation duration) tr' := by
  have hcall := h.call hact
  rw [reports, List.flatMap_singleton, hshows.2] at hcall
  rw [← List.append_nil durations]
  exact hcall

theorem timed_startReceiving :
    TimedTriple (W := W) (C := C) (S := S) (Timed config []) (startReceiving config) [] := by
  unfold startReceiving
  cases hbatcher : Batcher.new config.batchSize with
  | none => exact trivial
  | some batcher =>
      refine Program.triple_request trivial fun _ tr₁ hreport => ?_
      have hstart : Stands [] [] ([] : PipelineTrace W C S) := ⟨rfl, rfl⟩
      have hshows : Shows 0 0 config.startSummary := ⟨rfl, rfl⟩
      exact .of_stands (Batcher.new_holds hbatcher).2 (hstart.report hshows hreport) rfl hshows

theorem timed_receiveEvent {state : ReceiverState} (h : Timed config events tr state)
    (event : NormalizedEvent) :
    TimedTriple (Timed config (events ++ [event])) (receiveEvent config streamName state event)
      tr := by
  obtain ⟨hbatcher, hstands, hwritten, hshows⟩ := h
  refine Program.triple_request trivial fun depth tr₁ hdepth => ?_
  refine Program.triple_request trivial fun _ tr₂ hactivity => ?_
  have hstands₂ := (hstands.silent hdepth rfl rfl).silent hactivity rfl rfl
  by_cases hskip : shouldSkipEvent event config.resumeAfterSlot config.useSlotResume = true
  · -- nothing is pushed for a skipped event
    rw [if_pos hskip]
    have hkept : keptEvents config (events ++ [event]) = keptEvents config events := by
      rw [keptEvents_snoc, if_pos hskip, List.append_nil]
    rw [← hkept] at hbatcher hwritten
    exact .of_stands hbatcher hstands₂ hwritten hshows
  rw [if_neg hskip]
  have hkept : keptEvents config (events ++ [event]) = keptEvents config events ++ [event] := by
    rw [keptEvents_snoc, if_neg hskip]
  obtain ⟨hholds, hcompleted⟩ := Batcher.push_holds hbatcher event
  rw [← hkept] at hholds
  cases hpush : state.batcher.push event with
  | mk full batcher =>
      rw [hpush] at hholds hcompleted
      cases full with
      | none =>
          refine .of_stands hholds hstands₂ ?_ hshows
          rw [hkept, fullChunks_snoc, ← hcompleted, Option.toList_none, List.append_nil]
          exact hwritten
      | some batch =>
          have hseen : Shows (batchDurations tr).length ((batchDurations tr).getLastD 0)
              { state.summary with eventsSeen := state.summary.eventsSeen + 1 } := hshows
          refine (timed_writeBatch streamName _ batch hseen.1 hstands₂).bind ?_
          rintro tr₃ summary ⟨duration, hpositive, hshows₃, hstands₃⟩
          refine Program.triple_request trivial fun _ tr₄ hreport => ?_
          have hstands₄ := hstands₃.report hshows₃ hreport
          rw [observation, if_pos hpositive] at hstands₄
          refine .of_stands hholds hstands₄ ?_ ?_
          · rw [hkept, fullChunks_snoc, ← hcompleted, List.length_append, List.length_append,
              hwritten]
            rfl
          · rw [List.length_append, List.getLastD_concat]
            exact hshows₃

theorem timed_finishReceiving {state : ReceiverState} (h : Timed config events tr state) :
    TimedTriple (TimedRun config events) (finishReceiving config streamName state) tr := by
  obtain ⟨hbatcher, hstands, hwritten, hshows⟩ := h
  have hflush := Batcher.flush_holds hbatcher
  unfold finishReceiving
  cases hpending : state.batcher.flush.1 with
  | none =>
      -- no batch is left, and the last report repeats the summary
      rw [hpending, Option.toList_none] at hflush
      have hempty : (remainder config.batchSize (keptEvents config events)).isEmpty = true := by
        by_contra hne
        rw [if_neg hne] at hflush
        cases hflush
      refine Program.triple_request trivial fun _ tr₁ hreport => ?_
      have hstands₁ := hstands.report hshows hreport
      refine ⟨?_, ?_, ?_⟩
      · rw [hstands₁.1, if_pos hempty]
        exact hstands₁.2
      · rw [hstands₁.1, hwritten, batchesOf, chunks, if_pos hempty, List.append_nil]
      · rw [hstands₁.1]
        exact hshows.1
  | some batch =>
      rw [hpending, Option.toList_some] at hflush
      have hempty : ¬ (remainder config.batchSize (keptEvents config events)).isEmpty = true := by
        intro hempty
        rw [if_pos hempty] at hflush
        cases hflush
      refine (timed_writeBatch streamName _ batch hshows.1 hstands).bind ?_
      rintro tr₁ summary ⟨duration, hpositive, hshows₁, hstands₁⟩
      refine Program.triple_request trivial fun _ tr₂ hreport => ?_
      have hstands₂ := hstands₁.report hshows₁ hreport
      rw [observation, if_pos hpositive] at hstands₂
      refine ⟨?_, ?_, ?_⟩
      · rw [hstands₂.1, if_neg hempty, List.append_nil]
        exact hstands₂.2
      · rw [hstands₂.1, List.length_append, hwritten, batchesOf, chunks, if_neg hempty,
          List.length_append]
        rfl
      · rw [hstands₂.1, List.length_append]
        exact hshows₁.1

theorem timed_pipeline (events : List NormalizedEvent) :
    TimedTriple (W := W) (C := C) (S := S) (TimedRun config events)
      ((eventReceiverPipeline config streamName).whole events) [] := by
  have hconsume : TimedTriple (W := W) (C := C) (S := S) (Timed config events)
      ((eventReceiverPipeline config streamName).consume events) [] := by
    induction events using List.reverseRecOn with
    | nil => exact timed_startReceiving config
    | append_singleton events event ih =>
        rw [Worker.consume_snoc]
        exact ih.bind fun tr state h => timed_receiveEvent config streamName h event
  exact hconsume.bind fun tr state h => timed_finishReceiving config streamName h

end Run

/-! ## The condition -/

section Condition

variable {config : PipelineConfig} {streamName : String} {events : List NormalizedEvent}
  {tr : PipelineTrace W C S} {summary : PipelineSummary}

/-- There is no event to write, or the last batch is not full. -/
def LastBatchPartial (config : PipelineConfig) (events : List NormalizedEvent) : Prop :=
  keptEvents config events = [] ∨ (keptEvents config events).length % config.batchSize ≠ 0

theorem TimedRun.durations_eq_nil_iff (h : TimedRun config events tr summary) :
    batchDurations tr = [] ↔ keptEvents config events = [] := by
  rw [← List.length_eq_zero_iff, h.written, List.length_eq_zero_iff, batchesOf]
  constructor
  · intro hnil
    have hflat := flatten_chunks config.batchSize (keptEvents config events)
    rw [hnil] at hflat
    exact hflat.symm
  · intro hnil
    rw [hnil]
    rfl

/-- The observations are those of the batches just where nothing is observed again. -/
theorem TimedRun.observed_iff (hsize : 0 < config.batchSize)
    (h : TimedRun config events tr summary) (hpositive : ∀ d ∈ batchDurations tr, 0 < d) :
    (observations tr = batchDurations tr ↔ LastBatchPartial config events) ∧
      ((observations tr).length = summary.batchesWritten ↔ LastBatchPartial config events) := by
  have hempty : (remainder config.batchSize (keptEvents config events)).isEmpty = true ↔
      (keptEvents config events).length % config.batchSize = 0 := by
    rw [List.isEmpty_iff, ← List.length_eq_zero_iff, remainder_length hsize]
  rw [h.observed, h.counted, List.length_append, LastBatchPartial, ← h.durations_eq_nil_iff,
    Ne, ← hempty]
  by_cases hfull : (remainder config.batchSize (keptEvents config events)).isEmpty = true
  · rw [if_pos hfull]
    cases hlast : batchDurations tr using List.reverseRecOn with
    | nil => simp [observation]
    | append_singleton durations duration =>
        have hmem : duration ∈ batchDurations tr := by
          rw [hlast]
          exact List.mem_append_right _ (List.mem_singleton_self _)
        simp [observation, hpositive duration hmem, hfull]
  · simp [hfull]

theorem latencyCount_eq {metrics : Metrics} {durations : List Nat}
    (h : metrics.batchWriteLatency = durations.map (Prod.mk "postgres")) :
    metrics.latencyCount "postgres" = durations.length := by
  rw [Metrics.latencyCount, h, List.countP_map, List.countP_eq_length]
  intro duration _
  simp

theorem measuredOnce_iff {metrics : Metrics}
    (hlatency : metrics.batchWriteLatency = (observations tr).map (Prod.mk "postgres"))
    (hsize : 0 < config.batchSize) (h : TimedRun config events tr summary)
    (hpositive : ∀ d ∈ batchDurations tr, 0 < d) :
    MeasuredOnce metrics tr summary ↔ LastBatchPartial config events := by
  obtain ⟨hsame, hcount⟩ := h.observed_iff hsize hpositive
  rw [MeasuredOnce, latencyCount_eq hlatency, hcount, hlatency,
    (List.map_injective_iff.mpr (Prod.mk_right_injective "postgres")).eq_iff, hsame, and_self]

end Condition

/-- Whatever the events, the batch size and the resume slot: in a run that completes, and in which
every write takes some time, the callbacks of both modes observe each batch once exactly if there is
nothing to write or the last batch is not a full one. -/
theorem batches_measured_once_iff {config : PipelineConfig} {streamName : String}
    {events : List NormalizedEvent} {tr : PipelineTrace W C S} {summary : PipelineSummary}
    (hrun : Program.Runs ((eventReceiverPipeline config streamName).whole events) tr
      (.pure summary)) (hpositive : ∀ d ∈ batchDurations tr, 0 < d) :
    (MeasuredOnce (replayMetrics streamName tr) tr summary ↔ LastBatchPartial config events) ∧
      (MeasuredOnce (liveMetrics streamName tr) tr summary ↔ LastBatchPartial config events) := by
  have hsize : 0 < config.batchSize := by
    rcases Nat.eq_zero_or_pos config.batchSize with hzero | hpos
    · cases (runs_of_batchSize_zero hzero hrun).2
    · exact hpos
  have htimed : TimedRun config events tr summary := by
    refine (timed_pipeline config streamName events).post_of_records hrun ?_
    rintro ⟨c, r⟩ ha
    cases c with
    | batchElapsed => exact hpositive r (List.mem_flatMap.mpr ⟨_, ha, List.mem_singleton_self r⟩)
    | _ => exact trivial
  exact ⟨measuredOnce_iff (latency_foldl .new (observesReports_replay streamName) _) hsize htimed
      hpositive,
    measuredOnce_iff (latency_foldl .new (observesReports_live streamName) _) hsize htimed
      hpositive⟩

theorem batches_measured_once_partial :
    MeasuredOnce (liveMetrics "test" oneBatchRun) oneBatchRun oneBatchSummary :=
  (batches_measured_once_iff oneBatchRun_runs (by decide)).2.mpr (.inr (by decide))

/-- The same event with a batch size of one: the last report repeats the batch. -/
theorem full_batch_measured_twice : ¬ ∀ (config : PipelineConfig) (streamName : String)
    (events : List NormalizedEvent) (tr : PipelineTrace Unit Unit Unit)
    (summary : PipelineSummary),
    Program.Runs ((eventReceiverPipeline config streamName).whole events) tr (.pure summary) →
    (∀ d ∈ batchDurations tr, 0 < d) →
    MeasuredOnce (replayMetrics streamName tr) tr summary ∧
      MeasuredOnce (liveMetrics streamName tr) tr summary := by
  intro hall
  have hrun : Program.Runs ((eventReceiverPipeline ⟨1, 1, none, false, true⟩ "test").whole
      [finalizedSlot 7 6]) (oneBatchRun ++ [⟨.onProgress oneBatchSummary, ()⟩])
      (.pure oneBatchSummary) :=
    .step (.step (.step (.step (.step (.step (.step (.step (.step (.refl _)))))))))
  have hcount := (hall _ _ _ _ _ hrun (by decide)).1.2
  exact absurd hcount (by decide)

end YellowstoneStream.App

import YellowstoneStream.Stream.Runtime

/-!
# Events in flight

Whatever the producer is and however slow the stores are, the events that wait in memory are those
in the channel and less than two batches: a full channel holds the producer back.
-/

open YellowstoneStream.Domain YellowstoneStream.Reasoning YellowstoneStream.Storage

namespace YellowstoneStream.Stream

variable {W C S π ρ Ω : Type} {config : PipelineConfig} {streamName : String}

/-- The events that the resume slot excludes. -/
def skippedCount (config : PipelineConfig) (events : List NormalizedEvent) : Nat :=
  events.countP fun event => shouldSkipEvent event config.resumeAfterSlot config.useSlotResume

/-- The events that were handed to the writer. -/
def writtenCount (tr : PipelineTrace W C S) : Nat := (writtenBatches tr).flatten.length

theorem skippedCount_add_kept (events : List NormalizedEvent) :
    skippedCount config events + (keptEvents config events).length = events.length := by
  rw [skippedCount, keptEvents, ← List.countP_eq_length_filter, events.length_eq_countP_add_countP
    (fun event => shouldSkipEvent event config.resumeAfterSlot config.useSlotResume)]
  simp only [Bool.not_eq_true, Bool.decide_eq_false]

theorem writtenCount_append (tr tr' : PipelineTrace W C S) :
    writtenCount (tr ++ tr') = writtenCount tr + writtenCount tr' := by
  rw [writtenCount, writtenBatches, Program.calls, List.map_append, List.filterMap_append,
    List.flatten_append, List.length_append]
  rfl

/-- Between two events, less than a batch is held back. -/
theorem kept_lt_of_consumed (hsize : 0 < config.batchSize) {events : List NormalizedEvent}
    {tr : PipelineTrace W C S} {state : ReceiverState}
    (h : Program.Runs ((eventReceiverPipeline config streamName).consume events) tr
      (.pure state)) :
    (keptEvents config events).length < writtenCount tr + config.batchSize := by
  have hcalls := ((follows_consume hsize streamName events).result h).1
  have hlength := congrArg List.length
    (flatten_fullChunks config.batchSize (keptEvents config events))
  have hrest := remainder_length_lt hsize (keptEvents config events)
  rw [List.length_append] at hlength
  rw [writtenCount, writtenBatches_of_calls hcalls]
  omega

/-- While the pipeline receives, the events that its producer handed over and that were neither
skipped nor handed to the writer are at most those that fill the channel and one batch. -/
theorem in_flight_le {setup : Setup PipelineCall (PipelineCall.Reply W C S) (PipelineError W C S) π
      NormalizedEvent ρ ReceiverState PipelineSummary Ω}
    (hworker : setup.worker = eventReceiverPipeline config streamName)
    (hsize : 0 < config.batchSize) {w : Ω} {s : π}
    {x : System PipelineCall (PipelineCall.Reply W C S) (PipelineError W C S) π NormalizedEvent ρ
      ReceiverState PipelineSummary Ω}
    (hreach : setup.Reaches (setup.init w s) x) (hopen : Setup.receiving x.main = true) :
    x.sent.length ≤ skippedCount config x.received + writtenCount x.trace + config.batchSize +
      setup.capacity := by
  have hflow := (Setup.inv_reaches hreach).flow
  have hsent := congrArg List.length (hflow.order hopen)
  have hroom := hflow.room
  rw [List.length_append] at hsent
  have hreceived : x.received.length ≤
      skippedCount config x.received + writtenCount x.trace + config.batchSize := by
    rw [← @skippedCount_add_kept config]
    have hkept : (keptEvents config x.received).length ≤
        writtenCount x.trace + config.batchSize := by
      cases Setup.position_of_reaches hreach hopen with
      | starting hnone =>
          rw [hnone]
          exact Nat.zero_le _
      | @handling p earlier a s tr tr' hmain hlast htrace hearlier hbody =>
          rw [hworker] at hearlier
          have hlt := kept_lt_of_consumed hsize hearlier
          have hone : (keptEvents config (earlier ++ [a])).length ≤
              (keptEvents config earlier).length + 1 := by
            rw [keptEvents_snoc, List.length_append]
            split
            · exact Nat.le_succ _
            · exact le_rfl
          rw [hlast, htrace, writtenCount_append]
          omega
      | ending hmain htrace hloop hfinish =>
          rw [hworker] at hloop
          have hlt := kept_lt_of_consumed hsize hloop
          rw [htrace, writtenCount_append]
          omega
    omega
  omega

/-- A full channel of one, before anything was received. -/
theorem in_flight_le_channel_full : ∃ x : PipelineSystem Unit Unit Unit (Except Unit Unit) Unit,
    x.sent = [finalizedSlot 7 6] ∧ x.queue.length = capacityOne.capacity ∧
      x.sent.length ≤ 0 + writtenCount x.trace + 2 + capacityOne.capacity := by
  let start : PipelineSystem Unit Unit Unit (Except Unit Unit) Unit :=
    capacityOne.init () (.sending [finalizedSlot 7 6, finalizedSlot 8 7])
  let full : PipelineSystem Unit Unit Unit (Except Unit Unit) Unit :=
    { start with
      task := .running (.sending [finalizedSlot 8 7])
      queue := [finalizedSlot 7 6]
      sent := [finalizedSlot 7 6] }
  have hsend : capacityOne.Step start full := .send rfl (.send _ _) rfl (by decide)
  refine ⟨full, rfl, rfl, ?_⟩
  exact @in_flight_le Unit Unit Unit _ _ _ ⟨2, 1, none, false, true⟩ "test" capacityOne rfl
    (by decide) () _ full (.single hsend) rfl

end YellowstoneStream.Stream

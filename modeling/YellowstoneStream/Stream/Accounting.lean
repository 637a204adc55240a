import YellowstoneStream.Reasoning.Triple
import YellowstoneStream.Storage.Redelivery
import YellowstoneStream.Stream.PostgresStores

/-!
# The counts of events

Every event received is skipped, inserted, deduplicated or still in the batcher.  The summary of a
batch no event of which converts counts its events twice, as attempted and as skipped.
-/

open YellowstoneStream.Domain YellowstoneStream.Reasoning YellowstoneStream.Storage

namespace YellowstoneStream.Stream

/-- What was attempted was inserted or deduplicated, and the rest of the batch skipped. -/
def Balanced (written : WriteSummary) (batch : List NormalizedEvent) : Prop :=
  written.attempted = written.inserted + written.deduplicated ∧
    written.attempted + written.skipped = batch.length

/-- Every event of the batch is counted once. -/
def CountsAll (written : WriteSummary) (batch : List NormalizedEvent) : Prop :=
  written.inserted + written.deduplicated + written.skipped = batch.length

theorem Balanced.countsAll {written : WriteSummary} {batch : List NormalizedEvent}
    (h : Balanced written batch) : CountsAll written batch := by
  unfold CountsAll
  rw [← h.1]
  exact h.2

/-! ## The writer -/

section Writer

variable (hasher : Hasher) (table : EventTable) (batch : List NormalizedEvent)

theorem balanced_of_converts (h : ∃ event ∈ batch, event.slot ≤ i64Max) :
    Balanced (Storage.writeBatch hasher table batch).1 batch := by
  obtain ⟨event, hevent, hfits⟩ := h
  have hbatch : ¬ batch.isEmpty = true := fun hnil =>
    List.ne_nil_of_mem hevent (List.isEmpty_iff.mp hnil)
  have hrows : ¬ (convertEvents hasher batch).1.isEmpty = true := by
    rw [List.isEmpty_iff, convertEvents_rows_eq_nil_iff]
    exact fun hall => absurd (hall event hevent) (Nat.not_lt.mpr hfits)
  have hinserted := KeyedTable.insertAllNew_length_le table (convertEvents hasher batch).1
  have hlength : (convertEvents hasher batch).1.length + (convertEvents hasher batch).2 =
      batch.length := convertEvents_length batch
  unfold Storage.writeBatch insertEvents
  simp only [if_neg hbatch, if_neg hrows]
  refine ⟨?_, hlength⟩
  dsimp only
  omega

/-- No row is attempted, and still all events of the batch count as attempted. -/
theorem writeBatch_of_none_converts (hne : batch ≠ [])
    (h : ∀ event ∈ batch, i64Max < event.slot) :
    (Storage.writeBatch hasher table batch).1 = ⟨batch.length, 0, 0, batch.length⟩ := by
  have hbatch : ¬ batch.isEmpty = true := fun hnil => hne (List.isEmpty_iff.mp hnil)
  have hrows : (convertEvents hasher batch).1 = [] := (convertEvents_rows_eq_nil_iff batch).mpr h
  have hlength : (convertEvents hasher batch).1.length + (convertEvents hasher batch).2 =
      batch.length := convertEvents_length batch
  rw [hrows, List.length_nil, Nat.zero_add] at hlength
  unfold Storage.writeBatch
  simp only [if_neg hbatch, hrows, hlength, List.isEmpty_nil, if_true]

theorem writeBatch_balanced_iff :
    Balanced (Storage.writeBatch hasher table batch).1 batch ↔
      batch = [] ∨ ∃ event ∈ batch, event.slot ≤ i64Max := by
  constructor
  · intro hbalanced
    by_contra hnone
    rw [not_or, not_exists] at hnone
    rw [writeBatch_of_none_converts hasher table batch hnone.1 fun event hevent =>
      Nat.lt_of_not_le fun hfits => hnone.2 event ⟨hevent, hfits⟩] at hbalanced
    exact hnone.1 (List.length_eq_zero_iff.mp hbalanced.1)
  · rintro (rfl | hconverts)
    · exact ⟨rfl, rfl⟩
    · exact balanced_of_converts hasher table batch hconverts

theorem writeBatch_countsAll : CountsAll (Storage.writeBatch hasher table batch).1 batch := by
  by_cases hbatch : batch = []
  · rw [hbatch]
    rfl
  by_cases hconverts : ∃ event ∈ batch, event.slot ≤ i64Max
  · exact (balanced_of_converts hasher table batch hconverts).countsAll
  · rw [writeBatch_of_none_converts hasher table batch hbatch fun event hevent =>
      Nat.lt_of_not_le fun hfits => hconverts ⟨event, hevent, hfits⟩]
    exact Nat.zero_add _

end Writer

/-! ## The pipeline -/

variable {W C S : Type}

/-- A write that returns Ok counts its whole batch. -/
def CountingReply : (c : PipelineCall) → PipelineCall.Reply W C S c → Prop
  | .writeBatch batch, r => ∀ written, r = .ok written → CountsAll written batch
  | .channelLen, _ | .onActivity _, _ | .onProgress _, _ | .batchElapsed, _
  | .updateAfterBatch .., _ | .recordSlotStates .., _ | .advanceContiguousFinalized _, _ => True

/-- All events seen are accounted for, up to those still in the batcher. -/
def Conserved (summary : PipelineSummary) (pending : Nat) : Prop :=
  summary.eventsSeen = summary.eventsSkipped + summary.writeSummary.inserted +
    summary.writeSummary.deduplicated + pending

/-- Nothing is pending when progress is reported. -/
def ReportsConserved : PipelineCall → Prop
  | .onProgress summary => Conserved summary 0
  | _ => True

abbrev CountingTriple {α : Type} (post : α → Prop) (p : PipelineProgram W C S α) : Prop :=
  Program.Triple (fun (_ : Unit) c r _ => CountingReply c r) (fun _ c => ReportsConserved c)
    (fun _ a => post a) p ()

section Counting

variable (config : PipelineConfig) (streamName : String)

/-- Neither the cursor nor the slot states touch the counts. -/
theorem counting_persistCursor (lastSlot : Option Nat) {pending : Nat} {summary : PipelineSummary}
    (h : Conserved summary pending) :
    CountingTriple (W := W) (C := C) (S := S) (fun summary => Conserved summary pending)
      (persistCursor streamName lastSlot summary) := by
  cases lastSlot with
  | none => exact h
  | some slot =>
      refine Program.triple_request trivial fun updated _ _ => ?_
      exact Program.triple_orThrow fun _ _ => h

theorem counting_persistSlotStates (advance : Bool) (states : List SlotStateUpdate)
    {pending : Nat} {summary : PipelineSummary} (h : Conserved summary pending) :
    CountingTriple (W := W) (C := C) (S := S) (fun summary => Conserved summary pending)
      (persistSlotStates streamName advance states summary) := by
  unfold persistSlotStates
  split
  · exact h
  refine Program.triple_request trivial fun recorded _ _ => Program.triple_orThrow fun _ _ => ?_
  split
  · refine Program.triple_request trivial fun advanced _ _ => ?_
    exact Program.triple_orThrow fun frontier _ => h
  · exact h

theorem counting_writeBatch {batch : List NormalizedEvent} {summary : PipelineSummary}
    (h : Conserved summary batch.length) (advance : Bool) :
    CountingTriple (W := W) (C := C) (S := S) (fun summary => Conserved summary 0)
      (writeBatch streamName advance batch summary) := by
  refine Program.triple_request trivial fun written _ hwritten =>
    Program.triple_orThrow fun writeSummary hok => ?_
  have hcounts : CountsAll writeSummary batch := hwritten writeSummary hok
  refine Program.triple_request trivial fun elapsed _ _ => ?_
  -- the skipped events are added at once, the others at the end
  have hskipped : Conserved
      { summary with
        lastBatchWriteDuration := elapsed
        totalBatchWriteDuration := summary.totalBatchWriteDuration + elapsed
        maxBatchWriteDuration :=
          if summary.maxBatchWriteDuration < elapsed then elapsed
          else summary.maxBatchWriteDuration
        eventsSkipped := summary.eventsSkipped + writeSummary.skipped }
      (writeSummary.inserted + writeSummary.deduplicated) := by
    unfold Conserved CountsAll at *
    dsimp only
    omega
  refine (counting_persistCursor streamName _ hskipped).bind fun _ persisted hpersisted => ?_
  refine (counting_persistSlotStates streamName advance _ hpersisted).bind
    fun _ recorded hrecorded => ?_
  show Conserved
    { recorded with
      batchesWritten := recorded.batchesWritten + 1
      writeSummary := recorded.writeSummary.add writeSummary } 0
  unfold Conserved WriteSummary.add at *
  dsimp only
  omega

theorem counting_receiveEvent (state : ReceiverState) (event : NormalizedEvent)
    (h : Conserved state.summary state.batcher.pending.length) :
    CountingTriple (W := W) (C := C) (S := S)
      (fun state => Conserved state.summary state.batcher.pending.length)
      (receiveEvent config streamName state event) := by
  refine Program.triple_request trivial fun depth _ _ => ?_
  refine Program.triple_request trivial fun _ _ _ => ?_
  split
  · -- a skipped event is seen and skipped at once, and nothing joins the batch
    show Conserved
      { state.summary with
        eventsSeen := state.summary.eventsSeen + 1
        eventsSkipped := state.summary.eventsSkipped + 1 } state.batcher.pending.length
    unfold Conserved at *
    dsimp only
    omega
  -- any other one is pending until its batch is written
  have hseen : Conserved { state.summary with eventsSeen := state.summary.eventsSeen + 1 }
      (state.batcher.pending.length + 1) := by
    unfold Conserved at *
    dsimp only
    omega
  have hpush := Batcher.push_length state.batcher event
  cases hbatch : state.batcher.push event with
  | mk full batcher =>
      rw [hbatch] at hpush
      cases full with
      | none =>
          show Conserved _ batcher.pending.length
          rw [hpush]
          exact hseen
      | some batch =>
          obtain ⟨hlength, hempty⟩ := hpush
          rw [← hlength] at hseen
          refine (counting_writeBatch streamName hseen _).bind fun _ summary hsummary => ?_
          refine Program.triple_request hsummary fun _ _ _ => ?_
          show Conserved summary batcher.pending.length
          rw [hempty]
          exact hsummary

theorem counting_finishReceiving (state : ReceiverState)
    (h : Conserved state.summary state.batcher.pending.length) :
    CountingTriple (W := W) (C := C) (S := S) (fun summary => Conserved summary 0)
      (finishReceiving config streamName state) := by
  have hreport : ∀ (w : Unit) (summary : PipelineSummary), Conserved summary 0 →
      CountingTriple (W := W) (C := C) (S := S) (fun summary => Conserved summary 0)
        ((perform (.onProgress summary)).bind fun _ => .pure summary) :=
    fun _ summary hsummary => Program.triple_request hsummary fun _ _ _ => hsummary
  unfold finishReceiving Batcher.flush
  by_cases hpending : state.batcher.pending.isEmpty = true
  · rw [List.isEmpty_iff] at hpending
    rw [hpending] at h
    simp only [hpending, List.isEmpty_nil, if_true]
    exact hreport () _ h
  · simp only [if_neg hpending]
    exact (counting_writeBatch streamName h _).bind hreport

theorem counting_pipeline (events : List NormalizedEvent) :
    CountingTriple (W := W) (C := C) (S := S) (fun summary => Conserved summary 0)
      ((eventReceiverPipeline config streamName).whole events) := by
  have hstart : CountingTriple (W := W) (C := C) (S := S)
      (fun state => Conserved state.summary state.batcher.pending.length)
      (startReceiving config) := by
    unfold startReceiving Batcher.new
    split
    · exact trivial
    · rename_i batcher hbatcher
      split at hbatcher
      · cases hbatcher
        exact ⟨rfl, fun _ _ _ => rfl⟩
      · cases hbatcher
  exact Worker.triple_whole hstart
    (fun _ state event h => counting_receiveEvent config streamName state event h)
    (fun _ state h => counting_finishReceiving config streamName state h) events

variable {config streamName} {events : List NormalizedEvent}

/-- Whatever the stores do, as long as a write that returns Ok counts its whole batch. -/
theorem conserved_of_runs {tr : PipelineTrace W C S} {q : PipelineProgram W C S PipelineSummary}
    (hrun : Program.Runs ((eventReceiverPipeline config streamName).whole events) tr q)
    (hcounts : ∀ batch written, ⟨.writeBatch batch, .ok written⟩ ∈ tr → CountsAll written batch)
    {summary : PipelineSummary} (hreport : ⟨.onProgress summary, ()⟩ ∈ tr) :
    Conserved summary 0 := by
  refine (counting_pipeline config streamName events).allowed_of_mem hrun ?_ hreport
  rintro ⟨c, r⟩ ha
  cases c with
  | writeBatch batch =>
      rintro written rfl
      exact hcounts batch written ha
  | _ => exact trivial

/-- Under the Postgres writer the counts add up, also where a batch's own summary does not. -/
theorem conserved_of_performs {hasher : Hasher} {store : SlotStateStore S} {db db' : Db}
    {tr : PostgresTrace S} {q : PipelineProgram PostgresWriteError PostgresCursorError S
      PipelineSummary}
    (hrun : Program.Runs ((eventReceiverPipeline config streamName).whole events) tr q)
    (hworld : Program.Performs (storeReply hasher store) db tr db') {summary : PipelineSummary}
    (hreport : ⟨.onProgress summary, ()⟩ ∈ tr) : Conserved summary 0 := by
  refine conserved_of_runs hrun (fun batch written hwritten => ?_) hreport
  obtain ⟨_, _, _, _, -, -, ⟨hreply, -⟩, -⟩ := hworld.split hwritten
  cases hreply
  exact writeBatch_countsAll hasher _ batch

end Counting

/-- A summary of the Postgres writer is balanced exactly when its batch is empty or has an event
that converts.  Under a writer whose summaries are all balanced every event is counted once whenever
progress is reported. -/
theorem event_accounting (hasher : Hasher) :
    (∀ table batch, Balanced (Storage.writeBatch hasher table batch).1 batch ↔
      batch = [] ∨ ∃ event ∈ batch, event.slot ≤ i64Max) ∧
    ∀ (config : PipelineConfig) (streamName : String) (events : List NormalizedEvent)
      (tr : PipelineTrace W C S) (q : PipelineProgram W C S PipelineSummary),
      Program.Runs ((eventReceiverPipeline config streamName).whole events) tr q →
      (∀ batch written, ⟨.writeBatch batch, .ok written⟩ ∈ tr → Balanced written batch) →
      ∀ summary, ⟨.onProgress summary, ()⟩ ∈ tr →
        summary.eventsSeen = summary.eventsSkipped + summary.writeSummary.inserted +
          summary.writeSummary.deduplicated :=
  ⟨writeBatch_balanced_iff hasher, fun _ _ _ _ _ hrun hbalanced _ hreport =>
    conserved_of_runs hrun
      (fun batch written hwritten => (hbalanced batch written hwritten).countsAll) hreport⟩

/-- An event, its repetition, and one whose slot does not fit. -/
def mixedBatch : List NormalizedEvent :=
  [finalizedSlot 7 6, finalizedSlot 7 6, finalizedSlot (2 ^ 63) 6]

theorem mixedBatch_written :
    (Storage.writeBatch sampleHasher .empty mixedBatch).1 = ⟨2, 1, 1, 1⟩ := by decide +kernel

def mixedSummary : PipelineSummary :=
  ⟨3, 0 + 1, 1, .add .default ⟨2, 1, 1, 1⟩, some (2 ^ 63), none, none, 12, 12, 12⟩

/-- The run of the batch, with a cursor store that takes any slot. -/
def mixedRun : PipelineTrace Unit Unit Unit :=
  [⟨.onProgress .default, ()⟩, ⟨.channelLen, 2⟩, ⟨.onActivity ⟨7, 1, 2, 3, "slot"⟩, ()⟩,
    ⟨.channelLen, 1⟩, ⟨.onActivity ⟨7, 2, 1, 3, "slot"⟩, ()⟩, ⟨.channelLen, 0⟩,
    ⟨.onActivity ⟨2 ^ 63, 3, 0, 3, "slot"⟩, ()⟩, ⟨.writeBatch mixedBatch, .ok ⟨2, 1, 1, 1⟩⟩,
    ⟨.batchElapsed, 12⟩, ⟨.updateAfterBatch "test" (2 ^ 63), .ok ()⟩,
    ⟨.recordSlotStates "test" (slotStates mixedBatch), .ok ()⟩, ⟨.onProgress mixedSummary, ()⟩]

theorem mixedRun_runs : ∃ q, Program.Runs ((eventReceiverPipeline (W := Unit) (C := Unit)
    (S := Unit) ⟨3, 3, none, false, true⟩ "test").whole mixedBatch) mixedRun q :=
  ⟨_, .step (.step (.step (.step (.step (.step (.step (.step (.step (.step (.step
    (.step (.refl _))))))))))))⟩

/-- One event of each kind is counted: skipped, inserted and deduplicated. -/
theorem event_accounting_mixed : mixedSummary.eventsSeen = mixedSummary.eventsSkipped +
    mixedSummary.writeSummary.inserted + mixedSummary.writeSummary.deduplicated := by
  obtain ⟨hwriter, hpipeline⟩ := event_accounting (W := Unit) (C := Unit) (S := Unit) sampleHasher
  obtain ⟨q, hrun⟩ := mixedRun_runs
  refine hpipeline _ "test" mixedBatch mixedRun q hrun (fun batch written h => ?_) mixedSummary
    (by simp [mixedRun])
  have hwritten : batch = mixedBatch ∧ written = ⟨2, 1, 1, 1⟩ := by simpa [mixedRun] using h
  obtain ⟨rfl, rfl⟩ := hwritten
  rw [← mixedBatch_written]
  exact (hwriter .empty mixedBatch).mpr (.inr ⟨_, List.mem_cons_self, by decide⟩)

/-- One event whose slot does not fit: attempted once and skipped once. -/
theorem skipped_batch_unbalanced : ¬ ∀ (hasher : Hasher) (table : EventTable)
    (batch : List NormalizedEvent), Balanced (Storage.writeBatch hasher table batch).1 batch := by
  intro hall
  have hconverts := (writeBatch_balanced_iff sampleHasher .empty [finalizedSlot (2 ^ 63) 6]).mp
    (hall sampleHasher .empty [finalizedSlot (2 ^ 63) 6])
  rcases hconverts with hnil | ⟨event, hevent, hfits⟩
  · cases hnil
  · rw [List.mem_singleton.mp hevent] at hfits
    exact absurd hfits (by decide)

end YellowstoneStream.Stream

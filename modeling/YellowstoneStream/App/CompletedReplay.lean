import YellowstoneStream.App.LiveStatus
import YellowstoneStream.App.Replay

/-!
# Replaying a completed stream

A run that completes leaves the cursor at the greatest slot of its file, whatever was stored before
and however the events were batched, so the next run over the file skips all of it.
-/

open YellowstoneStream.Domain YellowstoneStream.Reasoning YellowstoneStream.Storage
open YellowstoneStream.Stream

namespace YellowstoneStream.App

/-! ## The counted slot is the stored one -/

section Tally

variable {hasher : Hasher} {streamName : String} {db db' : Db}

theorem matchesCursor_tallyReply {c : PipelineCall} {r : PostgresReply Empty c}
    (hact : storeReply hasher noopSlotStateStore db c r db') (hname : c.OfStream streamName)
    (hok : failureOf c r = none) {summary : PipelineSummary}
    (h : MatchesCursor db streamName summary) :
    MatchesCursor db' streamName (tallyReply summary ⟨c, r⟩) := by
  by_cases hc : ∃ name slot, c = .updateAfterBatch name slot
  · obtain ⟨name, slot, rfl⟩ := hc
    obtain rfl : name = streamName := hname
    cases r with
    | error err => cases hok
    | ok written => exact (matchesCursor_update h hact).1
  · -- any other reply leaves the row and what is counted of it
    have hsame := cursors_of_other (fun name slot hname => hc ⟨name, slot, hname⟩) hact
    have hslot : (tallyReply summary ⟨c, r⟩).lastPersistedSlot = summary.lastPersistedSlot := by
      cases c with
      | updateAfterBatch name slot => exact absurd ⟨name, slot, rfl⟩ hc
      | writeBatch batch => cases r <;> rfl
      | advanceContiguousFinalized name => cases r <;> rfl
      | recordSlotStates | channelLen | onActivity | onProgress | batchElapsed => rfl
    unfold MatchesCursor
    rw [hslot, hsame]
    exact h

theorem matchesCursor_tally {tr : PostgresTrace Empty}
    (hperforms : Program.Performs (storeReply hasher noopSlotStateStore) db tr db')
    (hnames : ∀ c ∈ Program.calls tr, c.OfStream streamName)
    (hok : ∀ a ∈ tr, failureOf a.1 a.2 = none) {summary : PipelineSummary}
    (h : MatchesCursor db streamName summary) :
    MatchesCursor db' streamName (tally summary tr) := by
  induction hperforms generalizing summary with
  | nil => exact h
  | cons hact _ ih =>
      have hfirst := matchesCursor_tallyReply hact (hnames _ List.mem_cons_self)
        (hok _ List.mem_cons_self) h
      exact ih (fun c hc => hnames c (List.mem_cons_of_mem _ hc))
        (fun a ha => hok a (List.mem_cons_of_mem _ ha)) hfirst

end Tally

/-! ## What a completed run leaves -/

section Completed

variable {job : ReplayJob} {db : Db} {cursor : Option StreamCursor} {x : ReplaySystem}
  {summary : PipelineSummary} {j : Joined (Except Empty Unit)}
  (hreach : job.ReachesFrom cursor db x)
include hreach

/-- A batch size of zero panics. -/
theorem batchSize_pos_of_done
    {result : Except (PipelineError PostgresWriteError PostgresCursorError Empty) PipelineSummary}
    (hmain : x.main = .done result j) : 0 < job.batchSize := by
  apply Nat.pos_of_ne_zero
  intro hzero
  have hruns := (Setup.inv_reaches hreach).execution.runs
  rw [hmain] at hruns
  cases result <;> exact nomatch (runs_of_batchSize_zero hzero hruns).2

variable (hmain : x.main = .done (.ok summary) j)
include hmain

theorem completed_matchesCursor (hcursor : getCursor db job.streamName = .ok cursor) :
    MatchesCursor x.world job.streamName summary := by
  have hbatch := batchSize_pos_of_done hreach hmain
  obtain ⟨-, hok, hcounters⟩ := replay_result hbatch hreach hmain
  have hstart : MatchesCursor db job.streamName
      (initialCounters (job.config cursor) job.events) := loaded_cursor hcursor
  have hend := matchesCursor_tally (replay_performs hreach) (replay_ofStream hbatch hreach) hok
    hstart
  rw [← hcounters] at hend
  exact hend

/-- Nothing of the file lies above the cursor. -/
theorem completed_covers (hfits : ∀ event ∈ job.events, event.slot ≤ i64Max)
    (hcursor : getCursor db job.streamName = .ok cursor) :
    ReadableCursor x.world job.streamName ∧
      ∀ event ∈ job.events, Covers x.world job.streamName event.slot := by
  have hbatch := batchSize_pos_of_done hreach hmain
  obtain ⟨hreadable, hcovers⟩ := covers_performs (replay_performs hreach)
    (replay_ofStream hbatch hreach) (replay_fits hbatch hfits hreach)
    (readable_of_getCursor hcursor)
  refine ⟨hreadable, fun event hevent => (hcovers _).mpr ?_⟩
  by_cases hskip : Covers db job.streamName event.slot
  · exact .inl hskip
  · -- the cursor was updated to the greatest slot of the event's batch
    right
    have hkept : event ∈ job.kept cursor := (mem_kept_iff hcursor event).mpr ⟨hevent, hskip⟩
    rw [← flatten_chunks job.batchSize (job.kept cursor)] at hkept
    obtain ⟨slot, ⟨batch, hmem, hmax⟩, hle⟩ :=
      (exists_max_iff _ event.slot).mpr ⟨event, hkept, le_rfl⟩
    refine ⟨slot, ?_, hle⟩
    rw [replay_done hbatch hreach hmain]
    exact List.mem_flatMap.mpr ⟨batch, hmem, mem_batchCalls_update.mpr hmax⟩

end Completed

/-! ## The next run -/

/-- A state of a run that has nothing to do: it made no store call and changed no table, it comes to
its end, and there it reports that all events were skipped. -/
structure ReplayJob.Idle (job : ReplayJob) (cursor : Option StreamCursor) (db : Db)
    (persisted : Option Nat) (y : ReplaySystem) : Prop where
  no_calls : storeTrace y.trace = []
  unchanged : y.world = db
  finite : Acc (fun z y => (job.setup cursor).Step y z) y
  progress : 0 < job.batchSize → 0 < job.channelCapacity →
    (∃ result j, y.main = .done result j) ∨ ∃ z, (job.setup cursor).Step y z
  report : ∀ result j, y.main = .done result j → ∃ summary : PipelineSummary,
    result = .ok summary ∧ summary.eventsSeen = job.events.length ∧
      summary.eventsSkipped = summary.eventsSeen ∧ summary.batchesWritten = 0 ∧
      summary.lastPersistedSlot = persisted

section Covered

variable {job : ReplayJob} {db : Db} {cursor : Option StreamCursor} {y : ReplaySystem}
  (hcursor : getCursor db job.streamName = .ok cursor)
  (hcovered : ∀ event ∈ job.events, Covers db job.streamName event.slot)
include hcursor hcovered

theorem kept_of_covered : job.kept cursor = [] := by
  rw [List.eq_nil_iff_forall_not_mem]
  intro event hkept
  obtain ⟨hevent, hnot⟩ := (mem_kept_iff hcursor event).mp hkept
  exact hnot (hcovered event hevent)

theorem skipped_of_covered :
    (initialCounters (job.config cursor) job.events).eventsSkipped = job.events.length :=
  List.countP_eq_length.mpr fun event hevent =>
    (shouldSkip_iff hcursor event).mpr (hcovered event hevent)

variable (hfits : ∀ event ∈ job.events, event.slot ≤ i64Max)
  (hreach : job.ReachesFrom cursor db y)
include hfits hreach

theorem no_calls_of_covered : storeTrace y.trace = [] := by
  rcases Nat.eq_zero_or_pos job.batchSize with hzero | hbatch
  · have hzero : (job.config cursor).batchSize = 0 := hzero
    rw [(runs_of_batchSize_zero hzero (Setup.inv_reaches hreach).execution.runs).1]
    rfl
  · have hcalls := replay_calls hbatch hfits hreach
    rw [kept_of_covered hcursor hcovered] at hcalls
    exact List.map_eq_nil_iff.mp (List.prefix_nil.mp hcalls)

theorem unchanged_of_covered : y.world = db := by
  have hperforms := replay_performs hreach
  rw [no_calls_of_covered hcursor hcovered hfits hreach] at hperforms
  cases hperforms
  rfl

theorem report_of_covered
    {result : Except (PipelineError PostgresWriteError PostgresCursorError Empty) PipelineSummary}
    {j : Joined (Except Empty Unit)} (hmain : y.main = .done result j) :
    ∃ summary, result = .ok summary ∧
      summary.counters = initialCounters (job.config cursor) job.events := by
  have hcalls := no_calls_of_covered hcursor hcovered hfits hreach
  cases result with
  | ok summary =>
      obtain ⟨-, -, hcounters⟩ :=
        replay_result (batchSize_pos_of_done hreach hmain) hreach hmain
      rw [hcalls] at hcounters
      exact ⟨summary, rfl, hcounters⟩
  | error e =>
      obtain ⟨a, ha, -⟩ := done_error (batchSize_pos_of_done hreach hmain) hreach hmain
      rw [hcalls] at ha
      exact absurd ha List.not_mem_nil

theorem idle_of_covered {persisted : Option Nat}
    (hpersisted : cursor.map StreamCursor.lastPersistedSlot = persisted) :
    job.Idle cursor db persisted y where
  no_calls := no_calls_of_covered hcursor hcovered hfits hreach
  unchanged := unchanged_of_covered hcursor hcovered hfits hreach
  finite := Setup.acc_step (eventProducer_bounded _ _) y
  progress hbatch hcapacity := by
    have hanswers : (job.setup cursor).Answers := replayAct_total job.hasher
    rcases Setup.exists_step hanswers (eventProducer_lively _ _) hcapacity y with
      hdone | hpanic | hstep
    · exact .inl hdone
    · exact absurd hpanic (not_panicked (config_batchSize_pos hbatch cursor) hreach)
    · exact .inr hstep
  report result j hmain := by
    obtain ⟨summary, rfl, hcounters⟩ := report_of_covered hcursor hcovered hfits hreach hmain
    have hseen : summary.eventsSeen = job.events.length :=
      congrArg PipelineSummary.eventsSeen hcounters
    have hskipped : summary.eventsSkipped = job.events.length :=
      (congrArg PipelineSummary.eventsSkipped hcounters).trans (skipped_of_covered hcursor hcovered)
    refine ⟨summary, rfl, hseen, hskipped.trans hseen.symm,
      congrArg PipelineSummary.batchesWritten hcounters, ?_⟩
    exact (congrArg PipelineSummary.lastPersistedSlot hcounters).trans hpersisted

end Covered

/-- Once a run over a file has completed, every further run over it, whatever its batch size, finds
a cursor, makes no store call, leaves the tables as they are, and reports all events as skipped and
the slot that the first run reported. -/
theorem replay_again_does_nothing (job : ReplayJob)
    (hfits : ∀ event ∈ job.events, event.slot ≤ i64Max) (start : Db) (x : ReplaySystem)
    (summary : PipelineSummary) (j : Joined (Except Empty Unit)) (hreach : job.Reaches start x)
    (hmain : x.main = .done (.ok summary) j) (batchSize channelCapacity : Nat) :
    ∃ cursor, getCursor x.world job.streamName = .ok cursor ∧
      ∀ y, { job with batchSize, channelCapacity }.ReachesFrom cursor x.world y →
        { job with batchSize, channelCapacity }.Idle cursor x.world summary.lastPersistedSlot y := by
  obtain ⟨found, hfound, hfrom⟩ := hreach
  obtain ⟨hreadable, hcovered⟩ := completed_covers hfrom hmain hfits hfound
  obtain ⟨cursor, hcursor⟩ := getCursor_of_readable hreadable
  refine ⟨cursor, hcursor, fun y hy => ?_⟩
  have hstored : cursor.map StreamCursor.lastPersistedSlot = summary.lastPersistedSlot := by
    have hmatches := completed_matchesCursor hfrom hmain hfound
    rw [MatchesCursor, ← loaded_cursor hcursor] at hmatches
    exact (Option.map_injective (fun _ _ h => Int.ofNat.inj h) hmatches).symm
  refine idle_of_covered ?_ ?_ ?_ hy hstored
  · exact hcursor
  · exact hcovered
  · exact hfits

/-- Two batches of one slot, and a rerun with one. -/
theorem replay_again_does_nothing_same_slot : ∃ (x : ReplaySystem) (summary : PipelineSummary)
    (j : Joined (Except Empty Unit)), (sameSlotJob 1).Reaches .empty x ∧
      x.main = .done (.ok summary) j ∧ ∃ cursor, getCursor x.world "test" = .ok cursor ∧
        ∀ y, (sameSlotJob 2).ReachesFrom cursor x.world y →
          (sameSlotJob 2).Idle cursor x.world summary.lastPersistedSlot y := by
  obtain ⟨x, summary, j, hfrom, hmain⟩ := @exists_completed (sameSlotJob 1) (by decide) (by decide)
    (sameSlotJob_fits 1) none .empty
  have hreach : (sameSlotJob 1).Reaches .empty x := ⟨none, rfl, hfrom⟩
  exact ⟨x, summary, j, hreach, hmain, replay_again_does_nothing (sameSlotJob 1)
    (sameSlotJob_fits 1) .empty x summary j hreach hmain 2 1⟩

end YellowstoneStream.App

import YellowstoneStream.App.LiveStatus
import YellowstoneStream.App.Startup
import YellowstoneStream.Stream.Reports

/-!
# Where a connection replays from

Every attempt asks for the watermark that was stored at the latest progress report.  Without one it
asks for no slot, however many batches are persisted.
-/

open Relation YellowstoneStream.Domain YellowstoneStream.Reasoning YellowstoneStream.Storage
open YellowstoneStream.Stream

namespace YellowstoneStream.App

namespace LiveWorld

/-- `configure_attempt` when the load reads what was stored last. -/
def ConfiguresLatest (w : LiveWorld) (fromSlot : Option Nat) : Prop :=
  ∃ encoded, w.published.head? = some encoded ∧ fromSlot = decodeSlot encoded

/-- What was published last stands for the stored watermark. -/
def Knows (w : LiveWorld) (streamName : String) : Prop :=
  ∃ known, w.published.head? = some (encodeSlot known) ∧
    known.map Int.ofNat = w.db.watermark streamName

end LiveWorld

/-- The live mode whose attempts read what was stored last. -/
def LiveStream.latestSetup (stream : LiveStream) (settings : LiveSettings)
    (cursor : Option StreamCursor) :
    Setup PipelineCall (PostgresReply PostgresSlotStateError)
      (PipelineError PostgresWriteError PostgresCursorError PostgresSlotStateError) LiveTask
      NormalizedEvent (Except YellowstoneGrpcError Unit) ReceiverState PipelineSummary LiveWorld :=
  { stream.setup settings cursor with
    producer := liveProducer stream.log settings.reconnect LiveWorld.ConfiguresLatest }

/-! ## What is published -/

/-- The callback knows of all batches counted.  The summary has the stored watermark, or none, and
then what was published before is right. -/
def Tracks (streamName : String) (w : LiveWorld) (s : PipelineSummary) : Prop :=
  w.lastBatchesWritten = s.batchesWritten ∧
    ((s.lastContiguousFinalizedSlot = none ∧ w.Knows streamName) ∨
      ∃ slot : Nat, s.lastContiguousFinalizedSlot = some slot ∧
        w.db.watermark streamName = some (slot : Int))

section Rule

variable {hasher : Hasher} {streamName : String} {capacity : Nat} {w w' : LiveWorld}
  {s : PipelineSummary}

theorem afterCall_silent {c : PipelineCall} (hc : reports c = []) : w.afterCall c = w := by
  cases c <;> first | rfl | cases hc

/-- A call that returned Ok and is not a report. -/
theorem store_of_act {c : PipelineCall} {r : PostgresReply PostgresSlotStateError c}
    (h : ∃ n ≤ capacity, liveAct hasher n w c r w') (hc : reports c = [])
    (hok : failureOf c r = none) :
    ∃ db, storeReply hasher postgresSlotStateStore w.db c r db ∧ w' = { w with db := db } := by
  obtain ⟨n, -, -, db, hact, rfl⟩ := h
  exact ⟨db, faultyReply_of_ok hact hok, afterCall_silent hc⟩

theorem report_of_act (h : ∃ n ≤ capacity, liveAct hasher n w (.onProgress s) () w') :
    w' = w.onProgress s := by
  obtain ⟨n, -, -, db, hact, rfl⟩ := h
  have hdb : db = w.db := faultyReply_of_ok hact rfl
  rw [hdb]
  rfl

theorem Tracks.same {s' : PipelineSummary} (h : Tracks streamName w s) (hsame : s.SameBatches s') :
    Tracks streamName w s' := by
  obtain ⟨hbatches, -, hcontiguous, -⟩ := hsame
  unfold Tracks at *
  rw [← hbatches, ← hcontiguous]
  exact h

theorem knows_of_watermark {db : Db} (h : w.Knows streamName)
    (hwatermark : db.watermark streamName = w.db.watermark streamName) :
    ({ w with db := db } : LiveWorld).Knows streamName := by
  obtain ⟨known, hhead, hknown⟩ := h
  exact ⟨known, hhead, hknown.trans hwatermark.symm⟩

theorem Tracks.of_watermark {db : Db} (h : Tracks streamName w s)
    (hwatermark : db.watermark streamName = w.db.watermark streamName) :
    Tracks streamName { w with db := db } s := by
  obtain ⟨hbatches, ⟨hnone, hknows⟩ | ⟨slot, hslot, hstored⟩⟩ := h
  · exact ⟨hbatches, .inl ⟨hnone, knows_of_watermark hknows hwatermark⟩⟩
  · exact ⟨hbatches, .inr ⟨slot, hslot, hwatermark.trans hstored⟩⟩

/-- The callback publishes nothing when there is no batch it does not know of. -/
theorem onProgress_of_tracks (h : Tracks streamName w s) : w.onProgress s = w := by
  rw [LiveWorld.onProgress, if_neg (Nat.not_lt.mpr (Nat.le_of_eq h.1.symm))]

theorem Tracks.report_batch (h : Tracks streamName w s) (written : WriteSummary) :
    (w.onProgress (s.countBatch written)).Knows streamName ∧
      Tracks streamName (w.onProgress (s.countBatch written)) (s.countBatch written) := by
  obtain ⟨hbatches, hslots⟩ := h
  have hnew : w.lastBatchesWritten < (s.countBatch written).batchesWritten := by
    rw [hbatches]
    exact Nat.lt_succ_self _
  rw [LiveWorld.onProgress, if_pos hnew]
  rcases hslots with ⟨hnone, hknows⟩ | ⟨slot, hslot, hstored⟩
  · have hnone' : (s.countBatch written).lastContiguousFinalizedSlot = none := hnone
    rw [hnone']
    exact ⟨hknows, rfl, .inl ⟨hnone, hknows⟩⟩
  · have hslot' : (s.countBatch written).lastContiguousFinalizedSlot = some slot := hslot
    rw [hslot']
    exact ⟨⟨some slot, rfl, hstored.symm⟩, rfl, .inr ⟨slot, hslot, hstored⟩⟩

theorem Tracks.advance (h : Tracks streamName w s) {frontier : FinalizedFrontier} {db : Db}
    {fuel : Nat}
    (hadvance : advanceContiguousFinalized fuel w.db streamName = some (.ok frontier, db)) :
    Tracks streamName { w with db := db } (s.setFrontier frontier) := by
  obtain ⟨hbatches, hslots⟩ := h
  obtain ⟨⟨hstored, -⟩, hwatermark, -⟩ := advance_stored hadvance
  refine ⟨hbatches, ?_⟩
  cases hfrontier : frontier.lastContiguousFinalizedSlot with
  | some slot =>
      rw [hfrontier] at hstored
      exact .inr ⟨slot, hfrontier, hstored.symm⟩
  | none =>
      -- then there was no watermark before the advance either
      rw [hfrontier] at hstored
      have hnone : w.db.watermark streamName = none := by
        rw [Option.eq_none_iff_forall_not_mem]
        intro x hx
        obtain ⟨y, hy, -⟩ := hwatermark x hx
        rw [← hstored] at hy
        cases hy
      rcases hslots with ⟨-, hknows⟩ | ⟨slot, -, hslot⟩
      · exact .inl ⟨hfrontier, knows_of_watermark hknows (hstored.symm.trans hnone.symm)⟩
      · rw [hnone] at hslot
        cases hslot

variable (hasher streamName capacity)

def replayRule : ReportRule (fun w c r w' => ∃ n ≤ capacity, liveAct hasher n w c r w')
    (fun w s => (w.onProgress s).Knows streamName) streamName where
  idle w s := Tracks streamName w s ∧ w.Knows streamName
  busy := Tracks streamName
  stored := Tracks streamName
  idle_same _ _ _ h hsame := ⟨h.1.same hsame, h.2⟩
  idle_depth _ _ _ _ h hact := by
    obtain ⟨db, hstore, rfl⟩ := store_of_act hact rfl rfl
    obtain rfl : db = _ := hstore
    exact h
  idle_activity _ _ _ _ h hact := by
    obtain ⟨db, hstore, rfl⟩ := store_of_act hact rfl rfl
    obtain rfl : db = _ := hstore
    exact h
  report w s h := by
    rw [onProgress_of_tracks h.1]
    refine ⟨h.2, fun w' hact => ?_⟩
    rw [report_of_act hact, onProgress_of_tracks h.1]
    exact h
  busy_of_idle _ _ h := h.1
  busy_same _ _ _ h hsame := h.same hsame
  write _ _ _ _ _ h hact := by
    obtain ⟨db, ⟨-, rfl⟩, rfl⟩ := store_of_act hact rfl rfl
    exact h.of_watermark rfl
  elapsed _ _ _ _ h hact := by
    obtain ⟨db, hstore, rfl⟩ := store_of_act hact rfl rfl
    obtain rfl : db = _ := hstore
    exact h
  cursor w s slot _ h hact := by
    obtain ⟨db, hstore, rfl⟩ := store_of_act hact rfl rfl
    have hwatermark := updateAfterBatch_watermark w.db streamName slot
    rw [show updateAfterBatch w.db streamName slot = (.ok (), db) from hstore] at hwatermark
    exact h.of_watermark hwatermark
  record w s updates _ h hact := by
    obtain ⟨db, ⟨order, hrecord⟩, rfl⟩ := store_of_act hact rfl rfl
    have hcursors := recordSlotStates_cursors order w.db streamName updates
    rw [hrecord] at hcursors
    refine h.of_watermark ?_
    unfold Db.watermark
    rw [hcursors]
  advance _ _ _ _ h hact := by
    obtain ⟨db, ⟨fuel, hadvance⟩, rfl⟩ := store_of_act hact rfl rfl
    exact h.advance hadvance
  busy_of_stored _ _ h := h
  report_batch w s written h := by
    obtain ⟨hknows, htracks⟩ := h.report_batch written
    refine ⟨hknows, fun w' hact => ?_⟩
    rw [report_of_act hact]
    exact ⟨htracks, hknows⟩

end Rule

/-! ## Where the attempts start -/

/-- A progress report was the last call, or none was made yet. -/
def JustReported (x : LiveSystem) : Prop :=
  x.trace = [] ∨ ∃ earlier summary, x.trace = earlier ++ [⟨.onProgress summary, ()⟩]

/-- The state a run has come to, and an earlier one after which it made no more reports. -/
structure LatestReport (setup : Setup PipelineCall (PostgresReply PostgresSlotStateError)
      (PipelineError PostgresWriteError PostgresCursorError PostgresSlotStateError) LiveTask
      NormalizedEvent (Except YellowstoneGrpcError Unit) ReceiverState PipelineSummary LiveWorld)
    (start reported x : LiveSystem) : Prop where
  reached : setup.Reaches start reported
  justReported : JustReported reported
  continued : setup.Reaches reported x
  silent : ∃ later, x.trace = reported.trace ++ later ∧ ∀ a ∈ later, reports a.1 = []

section Run

variable {stream : LiveStream} {settings : LiveSettings} {db : Db} {cursor : Option StreamCursor}
  {frontier : FinalizedFrontier} {x y reported : LiveSystem}

/-- `run_yellowstone` as it starts, with the frontier it loaded. -/
def LiveStream.start (stream : LiveStream) (settings : LiveSettings) (db : Db)
    (cursor : Option StreamCursor) (frontier : FinalizedFrontier) : LiveSystem :=
  (stream.latestSetup settings cursor).init
    ⟨db, [encodeSlot frontier.lastContiguousFinalizedSlot], 0⟩
    (.configuring (.initial settings.reconnect))

/-- A step that reports nothing leaves the latest report where it is. -/
theorem LatestReport.tail {start : LiveSystem}
    (h : LatestReport (stream.latestSetup settings cursor) start reported x)
    (hstep : (stream.latestSetup settings cursor).Step x y)
    {more : PostgresTrace PostgresSlotStateError} (htrace : y.trace = x.trace ++ more)
    (hmore : ∀ a ∈ more, reports a.1 = []) :
    LatestReport (stream.latestSetup settings cursor) start reported y := by
  obtain ⟨hreached, hjust, hcontinued, later, hlater, hsilent⟩ := h
  refine ⟨hreached, hjust, hcontinued.tail hstep, later ++ more, ?_, fun a ha => ?_⟩
  · rw [htrace, hlater, List.append_assoc]
  · rcases List.mem_append.mp ha with ha | ha
    · exact hsilent a ha
    · exact hmore a ha

/-- A report that is about to be made leaves the published value right. -/
theorem knows_of_report (hfrontier : getFinalizedFrontier db stream.streamName = .ok frontier)
    (hreach : (stream.latestSetup settings cursor).Reaches
      (stream.start settings db cursor frontier) x) {summary : PipelineSummary}
    {next : PostgresReply PostgresSlotStateError (.onProgress summary) → PostgresProgram}
    (hmain : (stream.latestSetup settings cursor).residual x.main =
      .call (.onProgress summary) next) :
    (x.world.onProgress summary).Knows stream.streamName := by
  have hinv := Setup.inv_reaches hreach
  have hruns := hinv.execution.runs
  rw [hmain] at hruns
  have hstart : Tracks stream.streamName
      ⟨db, [encodeSlot frontier.lastContiguousFinalizedSlot], 0⟩
        (settings.config cursor).startSummary ∧
      LiveWorld.Knows ⟨db, [encodeSlot frontier.lastContiguousFinalizedSlot], 0⟩
        stream.streamName := by
    have hknows : LiveWorld.Knows ⟨db, [encodeSlot frontier.lastContiguousFinalizedSlot], 0⟩
        stream.streamName := ⟨_, rfl, (loaded_frontier hfrontier).1⟩
    exact ⟨⟨rfl, .inl ⟨rfl, hknows⟩⟩, hknows⟩
  have htriple := (replayRule stream.hasher stream.streamName
    settings.channelCapacity).triple_pipeline (settings.config cursor) x.received hstart
  exact (htriple.runs hruns hinv.execution.world).1

theorem knows_latest (hfrontier : getFinalizedFrontier db stream.streamName = .ok frontier)
    (hreach : (stream.latestSetup settings cursor).Reaches
      (stream.start settings db cursor frontier) x) :
    ∃ reported, LatestReport (stream.latestSetup settings cursor)
        (stream.start settings db cursor frontier) reported x ∧
      reported.world.Knows stream.streamName ∧
      x.world.published = reported.world.published := by
  induction hreach with
  | refl =>
      exact ⟨_, ⟨.refl, .inl rfl, .refl, [], rfl, nofun⟩,
        ⟨_, rfl, (loaded_frontier hfrontier).1⟩, rfl⟩
  | @tail x y hreach hstep ih =>
      obtain ⟨reported, hlatest, hknows, hpublished⟩ := ih
      rcases hstep.world_cases with ⟨hworld, hsame⟩ | ⟨c, next, r, hmain, hact, hmore⟩
      · refine ⟨reported, hlatest.tail hstep (hsame.trans (List.append_nil _).symm) nofun,
          hknows, ?_⟩
        rw [hworld, hpublished]
      by_cases hc : reports c = []
      · refine ⟨reported, hlatest.tail hstep hmore fun a ha => ?_, hknows, ?_⟩
        · rw [List.mem_singleton.mp ha]
          exact hc
        · obtain ⟨-, db', -, hw⟩ := hact
          rw [hw, afterCall_silent hc, ← hpublished]
      · -- a report takes the place of the one before
        obtain ⟨summary, rfl⟩ : ∃ summary, c = .onProgress summary := by
          cases c <;> first | exact ⟨_, rfl⟩ | exact absurd rfl hc
        have hknows' := knows_of_report hfrontier hreach hmain
        have hw : y.world = x.world.onProgress summary :=
          report_of_act ⟨x.queue.length, le_rfl, hact⟩
        rw [← hw] at hknows'
        exact ⟨y, ⟨hreach.tail hstep, .inr ⟨x.trace, summary, hmore⟩, .refl, [],
          (List.append_nil _).symm, nofun⟩, hknows', rfl⟩

/-- Only `configure_attempt` gives an attempt its slot. -/
theorem configured_of_step (hstep : (stream.latestSetup settings cursor).Step x y)
    {backoff backoff' : Backoff} {fromSlot : Option Nat}
    (hx : x.task = .running (.configuring backoff))
    (hy : y.task = .running (.connecting backoff' fromSlot)) :
    x.world.ConfiguresLatest fromSlot := by
  cases hstep with
  | send htask hlive | refused htask hlive =>
      rw [hx] at htask
      cases htask
      cases hlive
  | quiet htask hlive =>
      rw [hx] at htask
      cases htask
      cases hlive with
      | configure _ h =>
          cases hy
          exact h
  | returned | cancelled => cases hy
  | _ =>
      rw [hx] at hy
      cases hy

end Run

theorem decodeSlot_encodeSlot (slot : Option Nat) :
    decodeSlot (encodeSlot slot) = slot.map fun slot => min slot (u64Max - 1) := by
  cases slot with
  | none => rfl
  | some slot =>
      rw [decodeSlot, if_pos (Nat.pos_of_ne_zero (encodeSlot_some_ne_zero slot))]
      show some (min (slot + 1) u64Max - 1) = some (min slot (u64Max - 1))
      congr 1
      unfold u64Max
      omega

/-- Every subscribe request of a live run asks for the watermark stored at the latest progress
report, or loaded when there was none yet, and for no slot exactly when there was no watermark.  (No
stored watermark is so large that its encoding saturates.) -/
theorem replay_point_known {source : ConfigSource} {args : CliArgs} {config final : Config}
    (hsource : Config.fromSource source = .ok config)
    (hargs : config.applyOverrides args = .ok final) (hmode : final.runMode = .yellowstone)
    {stream : LiveStream} {db : Db} {cursor : Option StreamCursor} {frontier : FinalizedFrontier}
    (hfrontier : getFinalizedFrontier db stream.streamName = .ok frontier) {x : LiveSystem}
    (hreach : (stream.latestSetup final.liveSettings cursor).Reaches
      (stream.start final.liveSettings db cursor frontier) x) :
    ∃ (reported : LiveSystem) (known : Option Nat),
      LatestReport (stream.latestSetup final.liveSettings cursor)
        (stream.start final.liveSettings db cursor frontier) reported x ∧
      known.map Int.ofNat = reported.world.db.watermark stream.streamName ∧
      ∀ y backoff backoff' fromSlot, (stream.latestSetup final.liveSettings cursor).Step x y →
        x.task = .running (.configuring backoff) →
        y.task = .running (.connecting backoff' fromSlot) →
        fromSlot = known.map (fun slot => min slot (u64Max - 1)) ∧
        ∃ grpc request, final.yellowstoneGrpcConfig frontier = some grpc ∧
          { grpc with fromSlot := fromSlot }.subscribeRequest = .ok request ∧
          request.fromSlot = fromSlot := by
  obtain ⟨haccepted, -, hendpoint⟩ :=
    (Config.ensures_fromSource source config hsource).applyOverrides args final hargs
  obtain ⟨grpc, hgrpc⟩ := Config.exists_grpcConfig (hendpoint hmode) frontier
  obtain ⟨reported, hlatest, ⟨known, hhead, hknown⟩, hpublished⟩ := knows_latest hfrontier hreach
  refine ⟨reported, known, hlatest, hknown, fun y backoff backoff' fromSlot hstep hx hy => ?_⟩
  obtain ⟨encoded, hencoded, hfrom⟩ := configured_of_step hstep hx hy
  rw [hpublished, hhead] at hencoded
  cases hencoded
  obtain ⟨request, hrequest, hslot, -⟩ :=
    YellowstoneGrpcConfig.subscribeRequest_of_valid (haccepted.valid hgrpc fromSlot)
  exact ⟨hfrom.trans (decodeSlot_encodeSlot known), grpc, request, hgrpc, hrequest, hslot⟩

/-- The first attempt on a stream whose watermark is slot 6. -/
theorem replay_point_known_after_slot_six :
    ∃ known : Option Nat, some 6 = known.map (fun slot => min slot (u64Max - 1)) ∧
      ∃ grpc request, sampleFinal.yellowstoneGrpcConfig ⟨some 6, some 6⟩ = some grpc ∧
        { grpc with fromSlot := some 6 }.subscribeRequest = .ok request ∧
        request.fromSlot = some 6 := by
  have hreach : (recoveringStream.latestSetup sampleFinal.liveSettings (some ⟨"test", 6⟩)).Reaches
      (recoveringStream.start sampleFinal.liveSettings afterSlotSix (some ⟨"test", 6⟩)
        ⟨some 6, some 6⟩) _ := .refl
  obtain ⟨reported, known, -, -, hrequests⟩ :=
    replay_point_known sampleConfig_loaded sampleFinal_loaded rfl rfl hreach
  exact ⟨known, hrequests _ _ _ (some 6) (.quiet rfl (.configure _ ⟨7, rfl, rfl⟩)) rfl rfl⟩

/-- A stream of which slot 6 is persisted and no slot finalized: the policy falls back to slot 6,
the first attempt asks for none. -/
theorem replay_point_missing :
    ¬ ∀ (stream : LiveStream) (settings : LiveSettings) (db : Db) (cursor : Option StreamCursor)
      (frontier : FinalizedFrontier) (x y : LiveSystem) (backoff backoff' : Backoff)
      (fromSlot : Option Nat),
      getCursor db stream.streamName = .ok cursor →
      getFinalizedFrontier db stream.streamName = .ok frontier →
      (stream.latestSetup settings cursor).Reaches (stream.start settings db cursor frontier) x →
      (stream.latestSetup settings cursor).Step x y →
      x.task = .running (.configuring backoff) →
      y.task = .running (.connecting backoff' fromSlot) →
      cursor ≠ none → fromSlot ≠ none := by
  intro hall
  exact hall recoveringStream ⟨1, 1, .default⟩ (resumed none none) (some ⟨"test", 6⟩) .default _ _ _
    _ none rfl rfl .refl (.quiet rfl (.configure _ ⟨0, rfl, rfl⟩)) rfl rfl nofun rfl

end YellowstoneStream.App

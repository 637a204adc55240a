import YellowstoneStream.App.Status
import YellowstoneStream.Storage.ChainRecords
import YellowstoneStream.Stream.Ingestion
import YellowstoneStream.Stream.LiveProducer

/-!
# The live mode

`run_yellowstone` takes up the stored watermark, and every connection replays the log from a
watermark the run has published.  Whatever breaks, fails or crashes, a slot is marked as finalized
only after all of its data.
-/

open Relation YellowstoneStream.Domain YellowstoneStream.Reasoning YellowstoneStream.Storage
open YellowstoneStream.Stream

namespace YellowstoneStream.App

-- 0 stands for no slot, so slots are stored one higher, with `saturating_add`
def encodeSlot (slot : Option Nat) : Nat := slot.elim 0 fun slot => min (slot + 1) u64Max

-- the source computes `encoded - 1` also at 0, where it wraps unless overflow is checked
def decodeSlot (encoded : Nat) : Option Nat := if 0 < encoded then some (encoded - 1) else none

/-- The database, and what the callback of the consumer shares with the producer. -/
structure LiveWorld where
  db : Db
  /-- The values stored in `last_contiguous_finalized_slot`, the latest first. -/
  published : List Nat
  lastBatchesWritten : Nat

namespace LiveWorld

/-- The progress callback of `run_yellowstone`. -/
def onProgress (w : LiveWorld) (summary : PipelineSummary) : LiveWorld :=
  -- the last report of a run may repeat the batch before
  if w.lastBatchesWritten < summary.batchesWritten then
    { w with
      published :=
        match summary.lastContiguousFinalizedSlot with
        | some slot => encodeSlot (some slot) :: w.published
        | none => w.published
      lastBatchesWritten := summary.batchesWritten }
  else w

def afterCall (w : LiveWorld) : PipelineCall → LiveWorld
  | .onProgress summary => w.onProgress summary
  | _ => w

/-- `configure_attempt`: a relaxed load may read any value that was stored. -/
def Configures (w : LiveWorld) (fromSlot : Option Nat) : Prop :=
  ∃ encoded ∈ w.published, fromSlot = decodeSlot encoded

end LiveWorld

/-- How calls are answered when statements may fail. -/
def liveAct (hasher : Hasher) :
    Answering PostgresWriteError PostgresCursorError PostgresSlotStateError LiveWorld :=
  fun depth w c r w' => ReadsDepth depth c r ∧
    ∃ db, faultyReply hasher postgresSlotStateStore w.db c r db ∧
      w' = ({ w with db := db } : LiveWorld).afterCall c

theorem liveAct_of_storeReply {hasher : Hasher} {depth : Nat} {w : LiveWorld} {c : PipelineCall}
    {r : PostgresReply PostgresSlotStateError c} {db : Db} (hdepth : ReadsDepth depth c r)
    (h : storeReply hasher postgresSlotStateStore w.db c r db) :
    liveAct hasher depth w c r (({ w with db := db } : LiveWorld).afterCall c) :=
  ⟨hdepth, db, .inl h, rfl⟩

abbrev LiveSystem :=
  System PipelineCall (PostgresReply PostgresSlotStateError)
    (PipelineError PostgresWriteError PostgresCursorError PostgresSlotStateError) LiveTask
    NormalizedEvent (Except YellowstoneGrpcError Unit) ReceiverState PipelineSummary LiveWorld

structure LiveSettings where
  batchSize : Nat
  channelCapacity : Nat
  reconnect : YellowstoneReconnectConfig

/-- The settings of the pipeline, with the cursor `run_yellowstone` loaded. -/
def LiveSettings.config (settings : LiveSettings) (cursor : Option StreamCursor) : PipelineConfig :=
  liveConfig settings.batchSize settings.channelCapacity (cursor.map StreamCursor.lastPersistedSlot)

/-- A stream and its provider. -/
structure LiveStream where
  hasher : Hasher
  streamName : String
  log : ProviderLog

namespace LiveStream

variable (stream : LiveStream)

def setup (settings : LiveSettings) (cursor : Option StreamCursor) :
    Setup PipelineCall (PostgresReply PostgresSlotStateError)
      (PipelineError PostgresWriteError PostgresCursorError PostgresSlotStateError) LiveTask
      NormalizedEvent (Except YellowstoneGrpcError Unit) ReceiverState PipelineSummary
      LiveWorld where
  worker := eventReceiverPipeline (settings.config cursor) stream.streamName
  producer := liveProducer stream.log settings.reconnect LiveWorld.Configures
  capacity := settings.channelCapacity
  act := liveAct stream.hasher
  abortsOnError := true

/-- The states `run_yellowstone` can reach once it has loaded cursor and frontier. -/
def Reaches (settings : LiveSettings) (db : Db) (x : LiveSystem) : Prop :=
  ∃ cursor frontier, getCursor db stream.streamName = .ok cursor ∧
    getFinalizedFrontier db stream.streamName = .ok frontier ∧
    (stream.setup settings cursor).Reaches
      ((stream.setup settings cursor).init
        ⟨db, [encodeSlot frontier.lastContiguousFinalizedSlot], 0⟩
        (.configuring (.initial settings.reconnect))) x

/-- The durable states that runs reach, each of which was cut off somewhere by a crash or an error
and followed by the next. -/
inductive Recovered (start : Db) : Db → Prop
  | start : Recovered start start
  | rerun {db : Db} {settings : LiveSettings} {x : LiveSystem} (h : Recovered start db)
      (hreach : stream.Reaches settings db x) : Recovered start x.world.db

/-- All data the log holds for the slot has rows. -/
def Complete (db : Db) (slot : Int) : Prop :=
  ∀ i data, stream.log.entry i = some data → DataEvent data → (data.slot : Int) = slot →
    Persisted stream.hasher db data

/-- Finalized slots are complete, and the watermark is one or stands where it stood. -/
structure Sound (base : Nat) (db : Db) : Prop where
  complete : ∀ slot, Finalized (db.streamSlots stream.streamName) slot → stream.Complete db slot
  watermark : ∃ w : Nat, db.watermark stream.streamName = some (w : Int) ∧
    (w = base ∨ Finalized (db.streamSlots stream.streamName) w)

end LiveStream

theorem afterCall_db (w : LiveWorld) (c : PipelineCall) : (w.afterCall c).db = w.db := by
  cases c with
  | onProgress summary =>
      show (w.onProgress summary).db = w.db
      unfold LiveWorld.onProgress
      split <;> rfl
  | _ => rfl

theorem encodeSlot_some_ne_zero (slot : Nat) : encodeSlot (some slot) ≠ 0 := by
  show min (slot + 1) u64Max ≠ 0
  unfold u64Max
  omega

theorem decodeSlot_ne_none {encoded : Nat} (h : encoded ≠ 0) : decodeSlot encoded ≠ none := by
  unfold decodeSlot
  rw [if_pos (Nat.pos_of_ne_zero h)]
  exact Option.some_ne_none _

theorem afterCall_published {w : LiveWorld} (h : ∀ v ∈ w.published, v ≠ 0) (c : PipelineCall) :
    ∀ v ∈ (w.afterCall c).published, v ≠ 0 := by
  cases c with
  | onProgress summary =>
      show ∀ v ∈ (w.onProgress summary).published, v ≠ 0
      unfold LiveWorld.onProgress
      split
      · cases hslot : summary.lastContiguousFinalizedSlot with
        | none => exact h
        | some slot =>
            intro v hv
            rcases List.mem_cons.mp hv with rfl | hv
            · exact encodeSlot_some_ne_zero slot
            · exact h v hv
      · exact h
  | _ => exact h

/-! ## One answered call -/

section Call

variable {stream : LiveStream} {base : Nat} {db db' : Db}

theorem complete_mono {slot : Int} (h : stream.Complete db slot)
    (hkeep : ∀ event, Persisted stream.hasher db event → Persisted stream.hasher db' event) :
    stream.Complete db' slot :=
  fun i data hentry hdata hslot => hkeep data (h i data hentry hdata hslot)

/-- No event has a negative slot. -/
theorem complete_of_neg {slot : Int} (h : slot < 0) : stream.Complete db slot := by
  intro i data _ _ hslot
  omega

/-- A slot is finalized now because it was before or because one of the updates says so. -/
theorem sound_record {updates : List SlotStateUpdate}
    {r : PostgresReply PostgresSlotStateError (.recordSlotStates stream.streamName updates)}
    (h : stream.Sound base db)
    (hrecorded : ∀ update ∈ updates, update.finalized = true → stream.Complete db update.slot)
    (hact : storeReply stream.hasher postgresSlotStateStore db
      (.recordSlotStates stream.streamName updates) r db') : stream.Sound base db' := by
  have hkeep : ∀ event, Persisted stream.hasher db event → Persisted stream.hasher db' event :=
    fun event => persisted_step hact
  obtain ⟨w, hw, hstands⟩ := h.watermark
  have hother : ∀ other, PipelineCall.recordSlotStates stream.streamName updates ≠
      .advanceContiguousFinalized other := nofun
  have hwatermark := (storeReply_frontier hother rfl hact).1
  obtain ⟨order, hact⟩ := hact
  have hfinalized := finalized_record_iff order db stream.streamName updates
  rw [hact] at hfinalized
  refine ⟨fun slot hslot => ?_, w, hwatermark.trans hw, hstands.imp_right fun hw => ?_⟩
  · rcases lt_or_ge slot 0 with hneg | hnonneg
    · exact complete_of_neg hneg
    · obtain ⟨n, rfl⟩ := Int.eq_ofNat_of_zero_le hnonneg
      rcases (hfinalized n).mp hslot with hold | ⟨-, update, hupdate, rfl, hflag⟩
      · exact complete_mono (h.complete n hold) hkeep
      · exact complete_mono (hrecorded update hupdate hflag) hkeep
  · exact (hfinalized w).mpr (.inl hw)

/-- An advance leaves the watermark or moves it to a finalized slot. -/
theorem stands_advance {w : Nat} (hw : db.watermark stream.streamName = some (w : Int))
    (hstands : w = base ∨ Finalized (db.streamSlots stream.streamName) w) {fuel : Nat}
    {result : Except PostgresSlotStateError FinalizedFrontier}
    (hadvance : advanceContiguousFinalized fuel db stream.streamName = some (result, db')) :
    ∃ n : Nat, db'.watermark stream.streamName = some (n : Int) ∧
      (n = base ∨ Finalized (db.streamSlots stream.streamName) n) := by
  obtain ⟨watermark, head, hwatermark, -, -, -, -, hnew, -⟩ := advance_effect hadvance
  obtain ⟨next, rfl, hle⟩ := hwatermark.stored_le w hw
  obtain ⟨n, rfl⟩ := Int.eq_ofNat_of_zero_le ((Int.natCast_nonneg w).trans hle)
  refine ⟨n, hnew, ?_⟩
  obtain ⟨anchor, hanchor, hreach, -⟩ := hwatermark
  rcases hreach.cases_tail with hsame | ⟨_, -, hlink⟩
  · -- the advance did not get past the stored watermark
    unfold IsAnchor at hanchor
    rw [hw] at hanchor
    have hanchor : anchor = (w : Int) := hanchor
    obtain rfl : n = w := Int.ofNat.inj (hsame.trans hanchor)
    exact hstands
  · exact .inr hlink.finalized

/-- A recording finalizes slots that are complete; an advance moves the watermark to one. -/
theorem sound_storeReply {c : PipelineCall} {r : PostgresReply PostgresSlotStateError c}
    (h : stream.Sound base db) (hname : c.OfStream stream.streamName)
    (hrecorded : ∀ name updates, c = .recordSlotStates name updates → ∀ update ∈ updates,
      update.finalized = true → stream.Complete db update.slot)
    (hact : storeReply stream.hasher postgresSlotStateStore db c r db') :
    stream.Sound base db' := by
  by_cases hrecord : ∃ name updates, c = .recordSlotStates name updates
  · obtain ⟨name, updates, rfl⟩ := hrecord
    obtain rfl : name = stream.streamName := hname
    exact sound_record h (hrecorded _ updates rfl) hact
  have hkeep : ∀ event, Persisted stream.hasher db event → Persisted stream.hasher db' event :=
    fun event => persisted_step hact
  obtain ⟨w, hw, hstands⟩ := h.watermark
  -- every other call leaves the table of slots
  have hslots := storeReply_slots (fun name updates hc => hrecord ⟨name, updates, hc⟩) hact
  have hcomplete : ∀ slot, Finalized (db'.streamSlots stream.streamName) slot →
      stream.Complete db' slot := by
    rw [hslots]
    exact fun slot hslot => complete_mono (h.complete slot hslot) hkeep
  by_cases hadvance : ∃ name, c = .advanceContiguousFinalized name
  · obtain ⟨name, rfl⟩ := hadvance
    obtain rfl : name = stream.streamName := hname
    obtain ⟨fuel, hadvance⟩ := hact
    obtain ⟨n, hnew, hstandsNew⟩ := stands_advance hw hstands hadvance
    refine ⟨hcomplete, n, hnew, ?_⟩
    rw [hslots]
    exact hstandsNew
  · have hwatermark :=
      (storeReply_frontier (fun name hc => hadvance ⟨name, hc⟩) hname hact).1
    refine ⟨hcomplete, w, hwatermark.trans hw, ?_⟩
    rw [hslots]
    exact hstands

theorem sound_faultyReply {c : PipelineCall} {r : PostgresReply PostgresSlotStateError c}
    (h : stream.Sound base db) (hname : c.OfStream stream.streamName)
    (hrecorded : ∀ name updates, c = .recordSlotStates name updates → ∀ update ∈ updates,
      update.finalized = true → stream.Complete db update.slot)
    (hact : faultyReply stream.hasher postgresSlotStateStore db c r db') :
    stream.Sound base db' := by
  rcases faultyReply_effect hact with rfl | ⟨r', hact⟩
  · exact h
  · exact sound_storeReply h hname hrecorded hact

end Call

/-! ## The calls of a run -/

section Run

variable {stream : LiveStream} {settings : LiveSettings} {cursor : Option StreamCursor}
  {w w' : LiveWorld} {tr : PostgresTrace PostgresSlotStateError}
  {received : List NormalizedEvent}

theorem live_keeps {depth : Nat} {c : PipelineCall} {r : PostgresReply PostgresSlotStateError c}
    (hact : liveAct stream.hasher depth w c r w') {event : NormalizedEvent}
    (h : Persisted stream.hasher w.db event) : Persisted stream.hasher w'.db event := by
  obtain ⟨-, db, hact, rfl⟩ := hact
  rw [afterCall_db]
  rcases faultyReply_effect hact with hsame | ⟨r', hact⟩
  · rw [hsame]
    exact h
  · exact persisted_step hact h

/-- A write that returned Ok is there for good. -/
theorem live_written
    (h : Program.Performs (fun w c r w' =>
      ∃ n ≤ settings.channelCapacity, liveAct stream.hasher n w c r w') w tr w')
    (hok : ∀ a ∈ storeTrace tr, failureOf a.1 a.2 = none) {batch : List NormalizedEvent}
    (hbatch : .writeBatch batch ∈ Program.calls (storeTrace tr)) {event : NormalizedEvent}
    (hevent : event ∈ batch) (hfits : event.slot ≤ i64Max) :
    Persisted stream.hasher w'.db event := by
  obtain ⟨⟨c, r⟩, ha, hc⟩ := List.mem_map.mp hbatch
  dsimp only at hc
  subst hc
  obtain ⟨before, after, w₁, w₂, -, -, ⟨n, -, -, db, hact, rfl⟩, hafter⟩ :=
    h.split (List.mem_of_mem_filter ha)
  apply hafter.induction (P := fun w => Persisted stream.hasher w.db event)
  · rintro w c r w' hrow ⟨n, -, hact⟩
    exact live_keeps hact hrow
  · rw [afterCall_db]
    exact persisted_of_written (faultyReply_of_ok hact (hok _ ha)) hevent hfits

variable {c : PipelineCall}
  {next : PostgresReply PostgresSlotStateError c → PostgresProgram}
  (hrun : Program.Runs ((stream.setup settings cursor).worker.whole received) tr (.call c next))
include hrun

theorem batchSize_pos_of_call : 0 < settings.batchSize := by
  rcases Nat.eq_zero_or_pos settings.batchSize with hzero | hpos
  · exact absurd (runs_of_batchSize_zero hzero hrun).2 nofun
  · exact hpos

theorem live_ofStream : c.OfStream stream.streamName := by
  cases hc : c.isStore with
  | true =>
      obtain ⟨done, batch, rest, earlier, later, -, hbatch, -⟩ :=
        issued_in_batch (batchSize_pos_of_call hrun) hrun hc
      apply ofStream_of_mem_batchCalls
      rw [hbatch]
      exact List.mem_append_right _ List.mem_cons_self
  | false => cases c <;> first | exact trivial | cases hc

/-- When slot states are recorded, all data in front of their finalized slot events is written. -/
theorem recorded_complete
    (hworld : Program.Performs (fun w c r w' =>
      ∃ n ≤ settings.channelCapacity, liveAct stream.hasher n w c r w') w tr w')
    (hreceived : DataBefore stream.log received)
    (name : String) (updates : List SlotStateUpdate) (hc : c = .recordSlotStates name updates) :
    ∀ update ∈ updates, update.finalized = true → stream.Complete w'.db update.slot := by
  subst hc
  intro update hupdate hflag i data hentry hdata hslot
  obtain ⟨done, batch, rest, earlier, later, hbatches, hbatch, -, hok, hwrites, -⟩ :=
    issued_in_batch (batchSize_pos_of_call hrun) hrun rfl
  have hrecord : PipelineCall.recordSlotStates name updates ∈
      batchCalls stream.streamName (settings.config cursor).advanceFinalizedWatermark batch := by
    rw [hbatch]
    exact List.mem_append_right _ List.mem_cons_self
  rw [(mem_batchCalls_record hrecord).2.1] at hupdate
  obtain ⟨final, hfinal, hfrom⟩ := List.mem_filterMap.mp hupdate
  have hfinalSlot := (slotStateFromEvent_slot hfrom).1
  obtain ⟨front, back, hsplit⟩ := List.append_of_mem hfinal
  -- the live mode skips nothing, so the batches are the events received
  have hflat : (batchesOf (settings.config cursor) received).flatten = received := by
    unfold batchesOf
    rw [flatten_chunks]
    exact keptEvents_of_no_resume rfl received
  have hreceivedSplit : received = (done.flatten ++ front) ++ final :: (back ++ rest.flatten) := by
    rw [← hflat, hbatches, List.flatten_append, List.flatten_cons, hsplit, List.append_assoc,
      List.append_assoc, List.cons_append]
  -- the data was received before the event that finalizes its slot, and so is written by now
  have hbefore : data ∈ done.flatten ++ front :=
    hreceived _ final _ hreceivedSplit (finalizedSlotEvent_of_update hfrom hflag) i data hentry
      hdata (by omega)
  have hmem : data ∈ (done ++ [batch]).flatten := by
    rw [List.flatten_append, List.flatten_singleton, hsplit, ← List.append_assoc]
    exact List.mem_append_left _ hbefore
  obtain ⟨b, hb, hin⟩ := List.mem_flatten.mp hmem
  exact live_written hworld hok (hwrites nofun b hb) hin (stream.log.fits i data hentry)

end Run

/-! ## Every step of a run -/

/-- Every start slot is a watermark, every finalized slot event sent has its data in front of it,
and what is durable is sound. -/
structure LiveInv (stream : LiveStream) (base : Nat) (x : LiveSystem) : Prop where
  published : ∀ v ∈ x.world.published, v ≠ 0
  replays : ∀ task, x.task = .running task → task.Replays stream.log x.sent
  sent : DataBefore stream.log x.sent
  sound : stream.Sound base x.world.db

section Steps

variable {stream : LiveStream} {base : Nat} {settings : LiveSettings}
  {cursor : Option StreamCursor} {w₀ : LiveWorld} {x y : LiveSystem}

theorem liveInv_call (hinv : (stream.setup settings cursor).Inv w₀ x) (h : LiveInv stream base x)
    {c : PipelineCall} {next : PostgresReply PostgresSlotStateError c → PostgresProgram}
    (hrun : Program.Runs ((stream.setup settings cursor).worker.whole x.received) x.trace
      (.call c next))
    {r : PostgresReply PostgresSlotStateError c} {w' : LiveWorld}
    (hact : liveAct stream.hasher x.queue.length x.world c r w') :
    (∀ v ∈ w'.published, v ≠ 0) ∧ stream.Sound base w'.db := by
  obtain ⟨-, db, hact, rfl⟩ := hact
  rw [afterCall_db]
  constructor
  · have hpublished : ∀ v ∈ ({ x.world with db := db } : LiveWorld).published, v ≠ 0 := h.published
    exact afterCall_published hpublished c
  · exact sound_faultyReply h.sound (live_ofStream hrun)
      (recorded_complete hrun hinv.execution.world (h.sent.mono hinv.flow.received_of_sent))
      hact

theorem liveInv_step (hinv : (stream.setup settings cursor).Inv w₀ x) (h : LiveInv stream base x)
    (hstep : (stream.setup settings cursor).Step x y) : LiveInv stream base y := by
  obtain ⟨hpublished, hreplays, hsent, hsound⟩ := h
  have hconfigures : ∀ fromSlot, x.world.Configures fromSlot → fromSlot ≠ none := by
    rintro fromSlot ⟨encoded, hmem, rfl⟩
    exact decodeSlot_ne_none (hpublished encoded hmem)
  cases hstep with
  | @send s s' event htask hsend hopen hroom =>
      -- what was queued before stays in front, whichever connection sent it
      obtain ⟨hsent', hreplays'⟩ := replays_send hsent (hreplays s htask) hsend
      refine ⟨hpublished, ?_, hsent', hsound⟩
      rintro task ⟨⟩
      exact hreplays'
  | @refused s s' htask hrefused hclosed =>
      refine ⟨hpublished, ?_, hsent, hsound⟩
      rintro task ⟨⟩
      have hother : ∀ event : NormalizedEvent, Move.refused ≠ .send event := fun _ => nofun
      exact replays_other hother hconfigures (hreplays s htask) hrefused
  | @quiet s s' htask hquiet =>
      refine ⟨hpublished, ?_, hsent, hsound⟩
      rintro task ⟨⟩
      have hother : ∀ event : NormalizedEvent, Move.quiet ≠ .send event := fun _ => nofun
      exact replays_other hother hconfigures (hreplays s htask) hquiet
  | returned | cancelled => exact ⟨hpublished, fun task htask => (nomatch htask), hsent, hsound⟩
  | callLooping hmain hact | callClosing hmain hact =>
      have hrun := hinv.execution.runs
      rw [hmain] at hrun
      obtain ⟨hpublished', hsound'⟩ :=
        liveInv_call hinv ⟨hpublished, hreplays, hsent, hsound⟩ hrun hact
      exact ⟨hpublished', hreplays, hsent, hsound'⟩
  | receive | close | failLooping | failClosing | panicLooping | panicClosing | finish | join =>
      exact ⟨hpublished, hreplays, hsent, hsound⟩

/-- The frontier that a run loads has the stored watermark. -/
theorem loaded_watermark {db : Db} {frontier : FinalizedFrontier} {w : Nat}
    (hfrontier : getFinalizedFrontier db stream.streamName = .ok frontier)
    (hw : db.watermark stream.streamName = some (w : Int)) :
    frontier.lastContiguousFinalizedSlot = some w := by
  have hloaded := (loaded_frontier hfrontier).1
  rw [hw, Option.map_eq_some_iff] at hloaded
  obtain ⟨n, hn, heq⟩ := hloaded
  rw [hn, Int.ofNat.inj heq]

theorem sound_reaches {db : Db} (h : stream.Sound base db) (hreach : stream.Reaches settings db x) :
    stream.Sound base x.world.db := by
  obtain ⟨cursor, frontier, -, hfrontier, hreach⟩ := hreach
  obtain ⟨w, hw, -⟩ := h.watermark
  have hloaded := loaded_watermark hfrontier hw
  have hinv : LiveInv stream base x := by
    induction hreach with
    | refl =>
        refine ⟨?_, ?_, dataBefore_nil _, h⟩
        · -- the run starts with the stored watermark as the only published value
          intro v hv
          rw [List.mem_singleton.mp hv, hloaded]
          exact encodeSlot_some_ne_zero w
        · rintro task ⟨⟩
          exact trivial
    | tail hreach hstep ih => exact liveInv_step (Setup.inv_reaches hreach) ih hstep
  exact hinv.sound

theorem sound_recovered {start db : Db} (hstart : stream.Sound base start)
    (h : stream.Recovered start db) : stream.Sound base db := by
  induction h with
  | start => exact hstart
  | rerun _ hreach ih => exact sound_reaches ih hreach

end Steps

/-- Live recovery never marks an incomplete slot as finalized.  From a durable state with a
watermark in which all finalized slots are complete, across connections that break, stores that fail
and crashes at any point, every durable state has only complete finalized slots: the slot the
watermark stands at, unless it never moved, and all that an advance would walk through. -/
theorem live_recovery_sound (stream : LiveStream) (base : Nat) (start : Db)
    (hwatermark : start.watermark stream.streamName = some (base : Int))
    (hstart : ∀ slot, Finalized (start.streamSlots stream.streamName) slot →
      stream.Complete start slot) :
    ∀ db, stream.Recovered start db →
      (∀ slot, Finalized (db.streamSlots stream.streamName) slot → stream.Complete db slot) ∧
      ∃ w : Nat, db.watermark stream.streamName = some (w : Int) ∧
        (w = base ∨ stream.Complete db w) ∧
        ∀ slot, TransGen (ChainLink (db.streamSlots stream.streamName)) w slot →
          stream.Complete db slot := by
  intro db h
  have hsound := sound_recovered ⟨hstart, base, hwatermark, .inl rfl⟩ h
  obtain ⟨w, hw, hstands⟩ := hsound.watermark
  refine ⟨hsound.complete, w, hw, hstands.imp_right (hsound.complete w), fun slot hwalk => ?_⟩
  obtain ⟨_, -, hlink⟩ := TransGen.tail'_iff.mp hwalk
  exact hsound.complete slot hlink.finalized

def shortLog : List NormalizedEvent := [transfer 6, transfer 7, finalizedSlot 7 6]

theorem shortLog_data {i : Nat} {data : NormalizedEvent} (h : shortLog[i]? = some data)
    (hdata : DataEvent data) : i < 2 := by
  match i with
  | 0 | 1 => omega
  | 2 =>
      cases h
      exact absurd rfl hdata
  | _ + 3 => cases h

theorem shortLog_final {i : Nat} {final : NormalizedEvent} (h : shortLog[i]? = some final)
    (hfinal : FinalizedSlotEvent final) : 2 ≤ i := by
  obtain ⟨cluster, slot, hslot⟩ := hfinal
  match i with
  | 0 | 1 =>
      cases h
      cases hslot
  | _ + 2 => omega

def transferHasher : Hasher :=
  pairHasher (transfer 6).identity (transfer 7).identity
    [139, 61, 46, 225, 213, 46, 118, 236, 24, 132, 248, 23, 36, 73, 111, 42, 134, 43, 91, 114, 79,
      126, 26, 38, 34, 136, 162, 143, 95, 88, 170, 19]
    [127, 66, 70, 128, 54, 206, 243, 72, 233, 129, 89, 38, 119, 44, 61, 137, 131, 157, 248, 147,
      176, 82, 244, 217, 11, 114, 241, 134, 100, 150, 144, 168]

/-- Slot 6 is finalized and complete, slot 7 is still to come. -/
def recoveringStream : LiveStream where
  hasher := transferHasher
  streamName := "test"
  log :=
    { entry := fun i => shortLog[i]?
      data_first := fun _ _ _ _ hi hj hdata hfinal _ =>
        Nat.lt_of_lt_of_le (shortLog_data hi hdata) (shortLog_final hj hfinal)
      fits := fun _ event hi =>
        (by decide : ∀ event ∈ shortLog, event.slot ≤ i64Max) event (List.mem_of_getElem? hi) }

def afterSlotSix : Db where
  events := (writeBatch transferHasher .empty [transfer 6]).2
  streamCursors _ := some ⟨6, some 6, some 6⟩
  streamSlots _ := ⟨[⟨6, some 5, true, false⟩], by simp⟩

def restartedSetup := recoveringStream.setup ⟨3, 3, .default⟩ (some ⟨"test", 6⟩)

def restarted : LiveSystem :=
  restartedSetup.init ⟨afterSlotSix, [7], 0⟩ (.configuring (.initial .default))

/-- The first connection of the restarted process has sent the log, the data of slot 6 once more. -/
def replaying : LiveSystem :=
  { restarted with
    task := .running (.streaming (.initial .default) (some 6) 3)
    queue := shortLog
    sent := shortLog }

theorem shortLog_delivered {position : Nat} {event : NormalizedEvent}
    (h : shortLog[position]? = some event) :
    Delivers recoveringStream.log (some 6) position event := by
  refine ⟨h, ?_⟩
  rintro _ ⟨⟩
  exact (by decide : ∀ event ∈ shortLog, 6 ≤ event.slot) event (List.mem_of_getElem? h)

theorem replaying_reached : restartedSetup.Reaches restarted replaying := by
  let connecting : LiveSystem :=
    { restarted with task := .running (.connecting (.initial .default) (some 6)) }
  let sending (position : Nat) : LiveSystem :=
    { restarted with
      task := .running (.streaming (.initial .default) (some 6) position)
      queue := shortLog.take position
      sent := shortLog.take position }
  have hconfigure : restartedSetup.Step restarted connecting :=
    .quiet rfl (.configure _ ⟨7, List.mem_singleton_self _, rfl⟩)
  have hconnect : restartedSetup.Step connecting (sending 0) := .quiet rfl (.replaying _ 6)
  have hfirst : restartedSetup.Step (sending 0) (sending 1) :=
    .send rfl (.deliver _ (shortLog_delivered rfl)) rfl (by decide)
  have hsecond : restartedSetup.Step (sending 1) (sending 2) :=
    .send rfl (.deliver _ (shortLog_delivered rfl)) rfl (by decide)
  have hthird : restartedSetup.Step (sending 2) (sending 3) :=
    .send rfl (.deliver _ (shortLog_delivered rfl)) rfl (by decide)
  exact ((((ReflTransGen.single hconfigure).tail hconnect).tail hfirst).tail hsecond).tail hthird

def rowsOfSeven : Db :=
  (recordSlotStates insertionOrder
    (updateAfterBatch { afterSlotSix with
      events := (writeBatch transferHasher afterSlotSix.events shortLog).2 } "test" 7).2
    "test" [⟨7, some 6, true, false⟩]).2

def recoveredSeven : Db := rowsOfSeven.setCursor "test" ⟨7, some 7, some 7⟩

theorem recoveredSeven_advance :
    advanceContiguousFinalized 3 rowsOfSeven "test" = some (.ok ⟨some 7, some 7⟩, recoveredSeven) :=
  rfl

def announcedSix : PostgresTrace PostgresSlotStateError :=
  [⟨.channelLen, (2 : Nat)⟩, ⟨.onActivity ⟨6, 1, 2, 3, "transaction"⟩, ()⟩]

def announcedSeven : PostgresTrace PostgresSlotStateError :=
  [⟨.channelLen, (1 : Nat)⟩, ⟨.onActivity ⟨7, 2, 1, 3, "transaction"⟩, ()⟩]

/-- The last event fills the batch. -/
def storedSeven : PostgresTrace PostgresSlotStateError :=
  [⟨.channelLen, (0 : Nat)⟩, ⟨.onActivity ⟨7, 3, 0, 3, "slot"⟩, ()⟩,
    ⟨.writeBatch shortLog, .ok (writeBatch transferHasher afterSlotSix.events shortLog).1⟩,
    ⟨.batchElapsed, (12 : Nat)⟩, ⟨.updateAfterBatch "test" 7, .ok ()⟩,
    ⟨.recordSlotStates "test" [⟨7, some 6, true, false⟩], .ok ()⟩,
    ⟨.advanceContiguousFinalized "test", .ok ⟨some 7, some 7⟩⟩]

theorem recoveredSeven_reached : ∃ x : LiveSystem,
    restartedSetup.Reaches replaying x ∧ x.world.db = recoveredSeven := by
  have hstarted : restartedSetup.Reaches replaying _ :=
    .single (.callLooping (r := ()) rfl (liveAct_of_storeReply trivial rfl))
  have hfirst : restartedSetup.Reaches replaying _ := (hstarted.tail (.receive rfl rfl)).trans <|
    Setup.reaches_of_runs announcedSix rfl (.step (.step (.refl _)))
      (.cons (liveAct_of_storeReply rfl rfl) <|
        .cons (liveAct_of_storeReply trivial rfl) (.nil _))
  have hsecond : restartedSetup.Reaches replaying _ := (hfirst.tail (.receive rfl rfl)).trans <|
    Setup.reaches_of_runs announcedSeven rfl (.step (.step (.refl _)))
      (.cons (liveAct_of_storeReply rfl rfl) <|
        .cons (liveAct_of_storeReply trivial rfl) (.nil _))
  have hthird : restartedSetup.Reaches replaying _ := (hsecond.tail (.receive rfl rfl)).trans <|
    Setup.reaches_of_runs storedSeven rfl
      (.step (.step (.step (.step (.step (.step (.step (.refl _))))))))
      (.cons (liveAct_of_storeReply rfl rfl) <|
        .cons (liveAct_of_storeReply trivial rfl) <|
        .cons (liveAct_of_storeReply trivial ⟨rfl, rfl⟩) <|
        .cons (liveAct_of_storeReply trivial rfl) <|
        .cons (liveAct_of_storeReply trivial rfl) <|
        .cons (liveAct_of_storeReply trivial ⟨insertionOrder, rfl⟩) <|
        .cons (liveAct_of_storeReply trivial ⟨3, recoveredSeven_advance⟩) (.nil _))
  exact ⟨_, hthird, rfl⟩

/-- The restarted process finds slot 6 once more, and slot 7 complete before it is finalized. -/
theorem live_recovery_sound_after_slot_six : ∃ x : LiveSystem,
    recoveringStream.Reaches ⟨3, 3, .default⟩ afterSlotSix x ∧
      x.world.db.watermark "test" = some 7 ∧
      Finalized (x.world.db.streamSlots "test") 7 ∧ recoveringStream.Complete x.world.db 7 := by
  have hstart : ∀ slot, Finalized (afterSlotSix.streamSlots "test") slot →
      recoveringStream.Complete afterSlotSix slot := by
    rintro slot ⟨row, hrow, -⟩ i data hentry hdata hslot
    obtain ⟨hmem, hkey⟩ := (KeyedTable.find_eq_some_iff _ _ _).mp hrow
    rw [List.mem_singleton.mp hmem] at hkey
    have hi := shortLog_data hentry hdata
    have hdata : data = transfer 6 := by
      match i with
      | 0 => exact (Option.some.inj hentry).symm
      | 1 =>
          cases hentry
          rw [← hkey] at hslot
          exact absurd hslot (by decide)
    rw [hdata]
    exact mem_keys_of_written _ (List.mem_singleton_self _) (by decide)
  obtain ⟨x, hreach, hdb⟩ := recoveredSeven_reached
  have hx : recoveringStream.Reaches ⟨3, 3, .default⟩ afterSlotSix x :=
    ⟨some ⟨"test", 6⟩, ⟨some 6, some 6⟩, rfl, rfl, replaying_reached.trans hreach⟩
  have hfinalized : Finalized (x.world.db.streamSlots "test") 7 := by
    rw [hdb]
    exact ⟨⟨7, some 6, true, false⟩, rfl, rfl⟩
  refine ⟨x, hx, ?_, hfinalized, ?_⟩
  · rw [hdb]
    rfl
  · exact (live_recovery_sound recoveringStream 6 afterSlotSix rfl hstart _
      (.rerun .start hx)).1 7 hfinalized

end YellowstoneStream.App

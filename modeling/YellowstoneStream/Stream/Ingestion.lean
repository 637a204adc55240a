import YellowstoneStream.Storage.Redelivery
import YellowstoneStream.Stream.PostgresStores
import YellowstoneStream.Stream.Runtime

/-!
# When ingestion goes on

The event writer skips an event that does not fit into BIGINT columns.  The cursor store and the
slot-state store do not: they fail the call, and with it the pipeline.  Statements succeed here; how
many parameters one may have limits the batch size, in `App.Runnable`.
-/

open YellowstoneStream.Domain YellowstoneStream.Reasoning YellowstoneStream.Storage

namespace YellowstoneStream.Stream

/-- The pipeline settings of `run_yellowstone`. -/
def liveConfig (batchSize channelCapacity : Nat) (resumeAfterSlot : Option Nat) : PipelineConfig :=
  ⟨batchSize, channelCapacity, resumeAfterSlot, true, false⟩

abbrev PostgresProgram :=
  PipelineProgram PostgresWriteError PostgresCursorError PostgresSlotStateError PipelineSummary

/-- Given the events, the consumer has made the calls of `tr` and become `q`, while the stores went
from `db` to `db'`, every statement succeeding. -/
structure PostgresRun (hasher : Hasher) (config : PipelineConfig) (streamName : String)
    (events : List NormalizedEvent) (db : Db) (tr : PostgresTrace PostgresSlotStateError)
    (q : PostgresProgram) (db' : Db) : Prop where
  runs : Program.Runs ((eventReceiverPipeline config streamName).whole events) tr q
  performs : Program.Performs (storeReply hasher postgresSlotStateStore) db tr db'

/-- Every recursive query that is issued comes to an end. -/
def QueriesReturn (hasher : Hasher) (config : PipelineConfig) (streamName : String)
    (events : List NormalizedEvent) (db : Db) : Prop :=
  ∀ tr next db', PostgresRun hasher config streamName events db tr
      (.call (.advanceContiguousFinalized streamName) next) db' →
    ∃ fuel out, advanceContiguousFinalized fuel db' streamName = some out

def Convertible (event : NormalizedEvent) : Prop := event.slot ≤ i64Max

instance (event : NormalizedEvent) : Decidable (Convertible event) :=
  inferInstanceAs (Decidable (event.slot ≤ i64Max))

/-- The pipeline returns, and whenever it does it returns Ok, having seen every event, persisted the
convertible ones and counted the others as skipped. -/
structure Ingests (hasher : Hasher) (config : PipelineConfig) (streamName : String)
    (events : List NormalizedEvent) (db : Db) : Prop where
  returns : ∃ tr q db', PostgresRun hasher config streamName events db tr q db' ∧ q.Ended
  ok : ∀ tr q db', PostgresRun hasher config streamName events db tr q db' → q.Ended →
    ∃ summary, q = .pure summary ∧ summary.eventsSeen = events.length ∧
      (∀ event ∈ events, Convertible event → Persisted hasher db' event) ∧
      summary.eventsSkipped = events.countP fun event => i64Max < event.slot

/-- Every event converts, and so does the last parent each batch gives for a slot. -/
structure EventsFit (batchSize : Nat) (events : List NormalizedEvent) : Prop where
  batchSize_pos : 0 < batchSize
  slots : ∀ event ∈ events, Convertible event
  parents : ∀ batch ∈ chunks batchSize events, ∀ state ∈ slotStates batch,
    ∀ parent ∈ lastParent (slotStates batch) state.slot, parent ≤ i64Max

/-! ## The counters of a run -/

section Counters

variable {W C S : Type}

theorem tally_storeTrace (summary : PipelineSummary) (tr : PipelineTrace W C S) :
    tally summary (storeTrace tr) = tally summary tr := by
  induction tr generalizing summary with
  | nil => rfl
  | cons a tr ih =>
      unfold storeTrace at ih ⊢
      cases ha : a.1.isStore with
      | true =>
          rw [Program.issued_cons_of_planned ha]
          exact ih _
      | false =>
          have hkeep : tallyReply summary a = summary := by
            obtain ⟨c, r⟩ := a
            cases c <;> first | rfl | cases ha
          rw [Program.issued_cons_of_other ha, ih]
          show tally summary tr = tally (tallyReply summary a) tr
          rw [hkeep]

theorem tally_eventsSeen (summary : PipelineSummary) (tr : PipelineTrace W C S) :
    (tally summary tr).eventsSeen = summary.eventsSeen := by
  induction tr generalizing summary with
  | nil => rfl
  | cons a tr ih =>
      show (tally (tallyReply summary a) tr).eventsSeen = _
      rw [ih]
      unfold tallyReply
      split <;> rfl

/-- The writer counts as skipped what does not convert. -/
theorem tally_eventsSkipped {hasher : Hasher} {store : SlotStateStore S} {db db' : Db}
    {tr : PostgresTrace S} (h : Program.Performs (storeReply hasher store) db tr db')
    (summary : PipelineSummary) :
    (tally summary tr).eventsSkipped = summary.eventsSkipped +
      (writtenBatches tr).flatten.countP fun event => i64Max < event.slot := by
  induction h generalizing summary with
  | nil => rfl
  | @cons db db₁ db₂ c r tr hact _ ih =>
      show (tally (tallyReply summary ⟨c, r⟩) tr).eventsSkipped = _
      rw [ih]
      cases c with
      | writeBatch batch =>
          obtain ⟨rfl, -⟩ := hact
          show summary.eventsSkipped + (Storage.writeBatch hasher db.events batch).1.skipped + _ =
            summary.eventsSkipped + (batch :: writtenBatches tr).flatten.countP _
          rw [List.flatten_cons, List.countP_append, writeBatch_skipped]
          omega
      | updateAfterBatch name slot => cases r <;> rfl
      | advanceContiguousFinalized name => cases r <;> rfl
      | _ => rfl

theorem keptEvents_of_no_resume {config : PipelineConfig} (h : config.useSlotResume = false)
    (events : List NormalizedEvent) : keptEvents config events = events := by
  unfold keptEvents shouldSkipEvent
  rw [h]
  exact List.filter_eq_self.mpr fun _ _ => rfl

theorem initialCounters_of_no_resume {config : PipelineConfig} (h : config.useSlotResume = false)
    (events : List NormalizedEvent) : (initialCounters config events).eventsSkipped = 0 := by
  show events.countP _ = 0
  unfold shouldSkipEvent
  rw [h]
  exact List.countP_eq_zero.mpr fun _ _ => nofun

end Counters

/-! ## Runs -/

section Runs

variable {hasher : Hasher} {config : PipelineConfig} {streamName : String}
  {events : List NormalizedEvent} {db db' : Db} {tr : PostgresTrace PostgresSlotStateError}
  {q : PostgresProgram}

/-- Where a call was answered, the stored columns still hold slots. -/
theorem PostgresRun.answered (hsize : 0 < config.batchSize) (hstored : StoredSlots db streamName)
    (h : PostgresRun hasher config streamName events db tr q db')
    {a : Answered (PostgresReply PostgresSlotStateError)} (ha : a ∈ tr) :
    ∃ db₁ db₂, StoredSlots db₁ streamName ∧
      storeReply hasher postgresSlotStateStore db₁ a.1 a.2 db₂ := by
  obtain ⟨before, after, db₁, db₂, rfl, hbefore, hact, -⟩ := h.performs.split ha
  refine ⟨db₁, db₂, ?_, hact⟩
  apply hbefore.induction_mem (P := fun db => StoredSlots db streamName) ?_ hstored
  intro db c r db' hmem hdb hstep
  exact storedSlots_step hdb (ofStream_of_runs hsize h.runs (List.mem_append_left _ hmem)) hstep

theorem PostgresRun.failureOf_iff (hsize : 0 < config.batchSize)
    (hstored : StoredSlots db streamName)
    (h : PostgresRun hasher config streamName events db tr q db')
    {a : Answered (PostgresReply PostgresSlotStateError)} (ha : a ∈ tr) :
    failureOf a.1 a.2 = none ↔ a.1.Fits := by
  obtain ⟨db₁, db₂, hdb, hact⟩ := h.answered hsize hstored ha
  exact failureOf_eq_none_iff hdb (ofStream_of_runs hsize h.runs ha) hact

/-- A run that returned Ok accounts for every event. -/
theorem PostgresRun.accounts (hsize : 0 < config.batchSize) (hresume : config.useSlotResume = false)
    {summary : PipelineSummary}
    (h : PostgresRun hasher config streamName events db tr (.pure summary) db') :
    summary.eventsSeen = events.length ∧
      (∀ event ∈ events, Convertible event → Persisted hasher db' event) ∧
      summary.eventsSkipped = events.countP fun event => i64Max < event.slot := by
  obtain ⟨hplan, -, hcounters⟩ := (follows_pipeline hsize streamName events).result h.runs
  have hbatches : writtenBatches tr = batchesOf config events := writtenBatches_of_plan hplan
  have hflatten : (writtenBatches tr).flatten = events := by
    rw [hbatches, batchesOf, flatten_chunks, keptEvents_of_no_resume hresume]
  rw [← storeTrace, tally_storeTrace] at hcounters
  refine ⟨?_, ?_, ?_⟩
  · show summary.counters.eventsSeen = _
    rw [hcounters, tally_eventsSeen]
    rfl
  · intro event hevent hfits
    rw [← hflatten] at hevent
    obtain ⟨batch, hbatch, hmem⟩ := List.mem_flatten.mp hevent
    apply persisted_of_performs h.performs ?_ hmem hfits
    obtain ⟨c, hc, hwrite⟩ := List.mem_filterMap.mp hbatch
    cases c <;> cases hwrite
    exact hc
  · show summary.counters.eventsSkipped = _
    rw [hcounters, tally_eventsSkipped h.performs, hflatten, initialCounters_of_no_resume hresume]
    omega

/-- When all calls fit, a run can only end with Ok. -/
theorem PostgresRun.ok_of_fits (hsize : 0 < config.batchSize)
    (hstored : StoredSlots db streamName)
    (hfits : ∀ batch ∈ batchesOf config events,
      ∀ c ∈ batchCalls streamName config.advanceFinalizedWatermark batch, c.Fits)
    (h : PostgresRun hasher config streamName events db tr q db') (hended : q.Ended) :
    ∃ summary, q = .pure summary := by
  have hok : ∀ a ∈ storeTrace tr, failureOf a.1 a.2 = none := by
    intro a ha
    -- what is called was planned, and a planned call fits
    obtain ⟨hmem, hstore⟩ := List.mem_filter.mp ha
    obtain ⟨batch, hbatch, hcall⟩ := planned_of_runs hsize h.runs hmem hstore
    exact (h.failureOf_iff hsize hstored hmem).mpr (hfits batch hbatch a.1 hcall)
  obtain ⟨rest, -, hrest⟩ := (follows_pipeline hsize streamName events).runs_of_ok h.runs hok
  cases q with
  | pure summary => exact ⟨summary, rfl⟩
  | throw e => exact absurd hrest Program.not_follows_throw
  | panic => exact absurd hrest Program.not_follows_panic
  | call c next => exact hended.elim

/-- A run that returned Ok made only calls that fit. -/
theorem PostgresRun.fits_of_ok (hsize : 0 < config.batchSize) (hstored : StoredSlots db streamName)
    {summary : PipelineSummary}
    (h : PostgresRun hasher config streamName events db tr (.pure summary) db') :
    ∀ batch ∈ batchesOf config events,
      ∀ c ∈ batchCalls streamName config.advanceFinalizedWatermark batch, c.Fits := by
  obtain ⟨hplan, hok, -⟩ := (follows_pipeline hsize streamName events).result h.runs
  intro batch hbatch c hc
  have hcall := List.mem_flatMap.mpr ⟨batch, hbatch, hc⟩
  rw [hplan] at hcall
  obtain ⟨a, ha, rfl⟩ := List.mem_map.mp hcall
  exact (h.failureOf_iff hsize hstored (List.mem_of_mem_filter ha)).mp (hok a ha)

/-- The pipeline comes to an end when its recursive queries do. -/
theorem exists_ended_postgresRun (hsize : 0 < config.batchSize)
    (hreturn : QueriesReturn hasher config streamName events db) :
    ∃ tr q db', PostgresRun hasher config streamName events db tr q db' ∧ q.Ended := by
  have hanswer : ∀ tr c next db',
      Program.Runs ((eventReceiverPipeline config streamName).whole events) tr (.call c next) →
      Program.Performs (storeReply hasher postgresSlotStateStore) db tr db' →
      ∃ r db'', storeReply hasher postgresSlotStateStore db' c r db'' := by
    intro tr c next db' hruns hperforms
    by_cases hc : ∃ name, c = .advanceContiguousFinalized name
    · -- an advance is planned for this stream only, and there its query returns
      obtain ⟨name, rfl⟩ := hc
      obtain ⟨⟨rest, hplan⟩, -⟩ :=
        (follows_pipeline hsize streamName events).issued_call hruns rfl
      obtain ⟨batch, -, hcall⟩ := List.mem_flatMap.mp
        (hplan ▸ List.mem_append_right _ List.mem_cons_self)
      obtain rfl : name = streamName := ofStream_of_mem_batchCalls hcall
      obtain ⟨fuel, ⟨r, db''⟩, hout⟩ := hreturn tr next db' ⟨hruns, hperforms⟩
      exact ⟨r, db'', fuel, hout⟩
    · exact storeReply_total fun name hname => hc ⟨name, hname⟩
  obtain ⟨tr, q, db', hruns, hperforms, hended⟩ := Program.exists_ended_run hanswer
  exact ⟨tr, q, db', ⟨hruns, hperforms⟩, hended⟩

end Runs

/-- Without slot states nothing is advanced. -/
theorem queriesReturn_of_no_slotStates (hsize : 0 < config.batchSize)
    (h : ∀ event ∈ events, slotStateFromEvent event = none) :
    QueriesReturn hasher config streamName events db := by
  intro tr next db' hrun
  obtain ⟨⟨rest, hplan⟩, -⟩ := (follows_pipeline hsize streamName events).issued_call hrun.runs rfl
  obtain ⟨batch, hbatch, hcall⟩ := List.mem_flatMap.mp
    (hplan ▸ List.mem_append_right _ List.mem_cons_self)
  -- an advance was planned for some batch, so that batch has slot states
  obtain ⟨state, hstate⟩ := List.exists_mem_of_ne_nil _ (mem_batchCalls_advance hcall).2.1
  obtain ⟨event, hevent, hfrom⟩ := List.mem_filterMap.mp hstate
  have hkept : event ∈ keptEvents config events := mem_of_mem_chunks _ hbatch hevent
  rw [h event (List.mem_of_mem_filter hkept)] at hfrom
  cases hfrom

/-! ## What has to fit -/

theorem batchCalls_fit_iff (streamName : String) (advance : Bool) (batch : List NormalizedEvent) :
    (∀ c ∈ batchCalls streamName advance batch, c.Fits) ↔
      (∀ event ∈ batch, Convertible event) ∧ UpdatesFit (slotStates batch) := by
  constructor
  · intro h
    constructor
    · -- the cursor gets the greatest slot of the batch
      intro event hevent
      have hslot := List.mem_map_of_mem (f := NormalizedEvent.slot) hevent
      cases hmax : (batch.map NormalizedEvent.slot).max? with
      | none =>
          rw [List.max?_eq_none_iff.mp hmax] at hslot
          exact absurd hslot List.not_mem_nil
      | some last =>
          have hlast : last ≤ i64Max := h (.updateAfterBatch streamName last) (by
            unfold batchCalls
            simp [hmax])
          have hle := (List.max?_eq_some_iff.mp hmax).2 _ hslot
          exact hle.trans hlast
    · by_cases hnil : (slotStates batch).isEmpty
      · rw [List.isEmpty_iff.mp hnil]
        exact fun update hupdate => absurd hupdate List.not_mem_nil
      · apply h (.recordSlotStates streamName (slotStates batch))
        unfold batchCalls slotCalls
        simp [hnil]
  · intro h c hc
    rcases mem_batchCalls hc with rfl | ⟨last, hlast, rfl⟩ | hc
    · trivial
    · obtain ⟨event, hevent, rfl⟩ := List.mem_map.mp (List.max?_eq_some_iff.mp hlast).1
      exact h.1 event hevent
    · rcases (mem_slotCalls hc).2 with rfl | ⟨rfl, -⟩
      · exact h.2
      · trivial

theorem eventsFit_iff {batchSize : Nat} (hsize : 0 < batchSize) (streamName : String)
    (advance : Bool) (events : List NormalizedEvent) :
    EventsFit batchSize events ↔ ∀ batch ∈ chunks batchSize events,
      ∀ c ∈ batchCalls streamName advance batch, c.Fits := by
  simp only [batchCalls_fit_iff]
  constructor
  · intro h batch hbatch
    have hslots : ∀ event ∈ batch, Convertible event := fun event hevent =>
      h.slots event (mem_of_mem_chunks batchSize hbatch hevent)
    refine ⟨hslots, fun state hstate => ⟨?_, h.parents batch hbatch state hstate⟩⟩
    obtain ⟨event, hevent, hfrom⟩ := List.mem_filterMap.mp hstate
    rw [(slotStateFromEvent_slot hfrom).1]
    exact hslots event hevent
  · intro h
    refine ⟨hsize, fun event hevent => ?_, fun batch hbatch state hstate =>
      ((h batch hbatch).2 state hstate).2⟩
    obtain ⟨batch, hbatch, hmem⟩ := exists_mem_chunks batchSize hevent
    exact (h batch hbatch).1 event hmem

theorem ingests_of_fits (hasher : Hasher) {batchSize channelCapacity : Nat}
    {resumeAfterSlot : Option Nat} {streamName : String} {events : List NormalizedEvent} {db : Db}
    (hsize : 0 < batchSize) (hstored : StoredSlots db streamName)
    (hreturn : QueriesReturn hasher (liveConfig batchSize channelCapacity resumeAfterSlot)
      streamName events db)
    (hfits : EventsFit batchSize events) :
    Ingests hasher (liveConfig batchSize channelCapacity resumeAfterSlot) streamName events
      db where
  returns := exists_ended_postgresRun hsize hreturn
  ok tr q db' hrun hended := by
    have hkept : batchesOf (liveConfig batchSize channelCapacity resumeAfterSlot) events =
        chunks batchSize events := congrArg _ (keptEvents_of_no_resume rfl events)
    have hcalls := (eventsFit_iff hsize streamName true events).mp hfits
    rw [← hkept] at hcalls
    obtain ⟨summary, rfl⟩ := hrun.ok_of_fits hsize hstored hcalls hended
    exact ⟨summary, rfl, hrun.accounts hsize rfl⟩

theorem fits_of_ingests {hasher : Hasher} {batchSize channelCapacity : Nat}
    {resumeAfterSlot : Option Nat} {streamName : String} {events : List NormalizedEvent} {db : Db}
    (hstored : StoredSlots db streamName)
    (h : Ingests hasher (liveConfig batchSize channelCapacity resumeAfterSlot) streamName events
      db) : EventsFit batchSize events := by
  obtain ⟨tr, q, db', hrun, hended⟩ := h.returns
  obtain ⟨summary, rfl, -⟩ := h.ok tr q db' hrun hended
  rcases Nat.eq_zero_or_pos batchSize with rfl | hsize
  · -- the batcher's assertion fails before the first event
    exact absurd (runs_of_batchSize_zero rfl hrun.runs).2 nofun
  · have hcalls := hrun.fits_of_ok hsize hstored
    have hkept : batchesOf (liveConfig batchSize channelCapacity resumeAfterSlot) events =
        chunks batchSize events := congrArg _ (keptEvents_of_no_resume rfl events)
    rw [hkept] at hcalls
    exact (eventsFit_iff hsize streamName true events).mpr hcalls

/-- Ingestion goes on exactly as long as everything fits: the range checks of the cursor and of the
slot states end the pipeline for one event, where the writer only skips it. -/
theorem ingests_iff (hasher : Hasher) (batchSize channelCapacity : Nat)
    (resumeAfterSlot : Option Nat) (streamName : String) (events : List NormalizedEvent) (db : Db)
    (hstored : StoredSlots db streamName)
    (hreturn : QueriesReturn hasher (liveConfig batchSize channelCapacity resumeAfterSlot)
      streamName events db) :
    Ingests hasher (liveConfig batchSize channelCapacity resumeAfterSlot) streamName events db ↔
      EventsFit batchSize events := by
  constructor
  · exact fits_of_ingests hstored
  · exact fun h => ingests_of_fits hasher h.batchSize_pos hstored hreturn h

theorem storedSlots_empty (streamName : String) : StoredSlots .empty streamName where
  slots := by simp [Db.empty, KeyedTable.empty, KeyedTable.keys]
  watermark := by simp [Db.watermark, Db.empty]
  head := by simp [Db.head, Db.empty]

def transfer (slot : Nat) : NormalizedEvent := ⟨.transaction "localnet" slot "5VERv8NM" 0, .null⟩

theorem queriesReturn_transfer (slot : Nat) :
    QueriesReturn sampleHasher (liveConfig 1 1 none) "test" [transfer slot] .empty :=
  queriesReturn_of_no_slotStates Nat.one_pos (by simp [transfer, slotStateFromEvent])

theorem ingests_iff_one_transfer :
    Ingests sampleHasher (liveConfig 1 1 none) "test" [transfer 7] .empty := by
  apply (ingests_iff sampleHasher 1 1 none "test" [transfer 7] .empty (storedSlots_empty "test")
    (queriesReturn_transfer 7)).mpr
  refine ⟨Nat.one_pos, ?_, ?_⟩
  · intro event hevent
    rw [List.mem_singleton.mp hevent]
    show 7 ≤ i64Max
    decide
  · intro batch hbatch state hstate
    rw [show batch = [transfer 7] from List.mem_singleton.mp hbatch] at hstate
    exact absurd hstate List.not_mem_nil

/-- A transaction of slot 2^63 ends the pipeline: the writer skips it, and then the cursor update
for its slot fails. -/
theorem ingestion_stops_at_large_slot :
    ¬ ∀ (hasher : Hasher) (batchSize channelCapacity : Nat) (resumeAfterSlot : Option Nat)
      (streamName : String) (events : List NormalizedEvent) (db : Db), 0 < batchSize →
      StoredSlots db streamName →
      QueriesReturn hasher (liveConfig batchSize channelCapacity resumeAfterSlot) streamName events
        db →
      Ingests hasher (liveConfig batchSize channelCapacity resumeAfterSlot) streamName events
        db := by
  intro hall
  have h := hall sampleHasher 1 1 none "test" [transfer (2 ^ 63)] .empty Nat.one_pos
    (storedSlots_empty "test") (queriesReturn_transfer _)
  have hfits := fits_of_ingests (storedSlots_empty "test") h
  have hslot : 2 ^ 63 ≤ i64Max := hfits.slots _ (List.mem_singleton_self _)
  exact absurd hslot (by decide)

end YellowstoneStream.Stream

import YellowstoneStream.Reasoning.Processes
import YellowstoneStream.Storage.Api
import YellowstoneStream.Stream.PostgresStores

/-!
# Pipelines on one database

Any number of processes run their pipelines on one database, live ones and replays, and their calls
are answered in any order.  A call may fail, and any process may stop between two calls.  An advance
is two statements: what the second stores was found by the first at some earlier time, when the
table was another one.
-/

open YellowstoneStream.Domain YellowstoneStream.Reasoning YellowstoneStream.Storage

namespace YellowstoneStream.Stream

/-- `run_yellowstone` has the slot-state store of Postgres, and `run_replay` the one that does
nothing. -/
inductive SlotStateStoreKind where
  | postgres
  | noop
  deriving DecidableEq, Repr

/-- What a process is started with, and the events it receives. -/
structure PipelineProcess where
  config : PipelineConfig
  streamName : String
  slotStateStore : SlotStateStoreKind
  events : List NormalizedEvent

/-- An advance stores whatever its first statement found. -/
def sharedSlotStateStore : SlotStateStore PostgresSlotStateError where
  recordSlotStates := postgresSlotStateStore.recordSlotStates
  advanceContiguousFinalized db name r db' :=
    ∃ watermark head row, row = upsertFrontier (db.streamCursors name) watermark head ∧
      r = decodeFrontier row.lastContiguousFinalizedSlot row.lastFinalizedSlot ∧
        db' = db.setCursor name row
  record_events := postgresSlotStateStore.record_events
  advance_events := by
    rintro db name r db' ⟨watermark, head, row, -, -, rfl⟩
    rfl

/-- `NoopSlotStateStore` beside stores that may fail. -/
def idleSlotStateStore : SlotStateStore PostgresSlotStateError where
  recordSlotStates db _ _ r db' := r = .ok () ∧ db' = db
  advanceContiguousFinalized db _ r db' := r = .ok .default ∧ db' = db
  record_events := by
    rintro db name updates r db' ⟨-, rfl⟩
    rfl
  advance_events := by
    rintro db name r db' ⟨-, rfl⟩
    rfl

def SlotStateStoreKind.store : SlotStateStoreKind → SlotStateStore PostgresSlotStateError
  | .postgres => sharedSlotStateStore
  | .noop => idleSlotStateStore

/-- How the calls of a process are answered. -/
def processReply (hasher : Hasher) (process : PipelineProcess) (db : Db) (c : PipelineCall)
    (r : PostgresReply PostgresSlotStateError c) (db' : Db) : Prop :=
  faultyReply hasher process.slotStateStore.store db c r db' ∧
    (process.slotStateStore = .noop → ∀ err, failureOf c r ≠ some (.slotState err))

/-- A statement that succeeds, and returns no error. -/
theorem processReply.ok {hasher : Hasher} {process : PipelineProcess} {db db' : Db}
    {c : PipelineCall} {r : PostgresReply PostgresSlotStateError c}
    (h : storeReply hasher process.slotStateStore.store db c r db') (hok : failureOf c r = none) :
    processReply hasher process db c r db' := by
  refine ⟨.inl h, fun _ err => ?_⟩
  rw [hok]
  exact nofun

/-- With no other process in between it is the advance of a single process. -/
theorem shared_of_postgres {hasher : Hasher} {db db' : Db} {c : PipelineCall}
    {r : PostgresReply PostgresSlotStateError c}
    (h : storeReply hasher postgresSlotStateStore db c r db') :
    storeReply hasher sharedSlotStateStore db c r db' := by
  cases c with
  | advanceContiguousFinalized name =>
      obtain ⟨fuel, hadvance⟩ := h
      obtain ⟨⟨watermark, head⟩, -, heq⟩ := Option.map_eq_some_iff.mp hadvance
      cases heq
      exact ⟨watermark, head, _, rfl, rfl, rfl⟩
  | writeBatch | updateAfterBatch | recordSlotStates | channelLen | onActivity | onProgress
  | batchElapsed => exact h

abbrev SharedPipelines (ι : Type) :=
  Processes ι PipelineCall (PostgresReply PostgresSlotStateError)
    (PipelineError PostgresWriteError PostgresCursorError PostgresSlotStateError) PipelineSummary Db

def startPipelines {ι : Type} (processes : ι → PipelineProcess) (db : Db) : SharedPipelines ι :=
  Processes.start
    (fun i => (eventReceiverPipeline (processes i).config (processes i).streamName).whole
      (processes i).events) db

/-- The states that the processes can lead to. -/
def SharedPipelines.Reaches {ι : Type} [DecidableEq ι] (hasher : Hasher)
    (processes : ι → PipelineProcess) (db : Db) (x : SharedPipelines ι) : Prop :=
  Processes.Reaches (fun i => processReply hasher (processes i)) (startPipelines processes db) x

/-- One process makes its calls while the others make none. -/
theorem SharedPipelines.Reaches.process {ι : Type} [DecidableEq ι] {hasher : Hasher}
    {processes : ι → PipelineProcess} {db world : Db} {x : SharedPipelines ι}
    (h : SharedPipelines.Reaches hasher processes db x) {i : ι}
    {p q : PipelineProgram PostgresWriteError PostgresCursorError PostgresSlotStateError
      PipelineSummary} {tr : PostgresTrace PostgresSlotStateError} (hruns : Program.Runs p tr q)
    (hperforms : Program.Performs (processReply hasher (processes i)) x.world tr world)
    (hp : x.programs i = p) :
    ∃ y, SharedPipelines.Reaches hasher processes db y ∧ y.programs i = q ∧
      y.traces i = x.traces i ++ tr ∧ y.world = world ∧
      ∀ j, j ≠ i → y.programs j = x.programs j ∧ y.traces j = x.traces j := by
  obtain ⟨y, hy, hrest⟩ := Processes.reaches_of_runs (fun i => processReply hasher (processes i))
    hruns hperforms hp
  exact ⟨y, h.trans hy, hrest⟩

/-! ## What an answered call leaves -/

section Answers

variable {S : Type} {hasher : Hasher} {store : SlotStateStore S} {db db' : Db} {c : PipelineCall}

/-- Rows of the events are never changed or removed. -/
theorem faultyReply_rows {r : PostgresReply S c} (h : faultyReply hasher store db c r db') :
    ∃ added, db'.events.rows = db.events.rows ++ added := by
  rcases faultyReply_effect h with rfl | ⟨r', h⟩
  · exact ⟨[], (List.append_nil _).symm⟩
  · by_cases hc : ∃ batch, c = .writeBatch batch
    · obtain ⟨batch, rfl⟩ := hc
      obtain ⟨-, rfl⟩ := h
      show ∃ added, (Storage.writeBatch hasher db.events batch).2.rows = _
      rw [writeBatch_table]
      exact KeyedTable.insertAllNew_rows _ _
    · rw [storeReply_events h fun batch hbatch => hc ⟨batch, hbatch⟩]
      exact ⟨[], (List.append_nil _).symm⟩

/-- A row that was not there before is that of an event being written. -/
theorem faultyReply_row_origin {r : PostgresReply S c} (h : faultyReply hasher store db c r db')
    {row : EventRow} (hrow : row ∈ db'.events.rows) : row ∈ db.events.rows ∨
      ∃ batch, c = .writeBatch batch ∧ ∃ event ∈ batch, rowOf hasher event = some row := by
  rcases faultyReply_effect h with rfl | ⟨r', h⟩
  · exact .inl hrow
  · by_cases hc : ∃ batch, c = .writeBatch batch
    · obtain ⟨batch, rfl⟩ := hc
      obtain ⟨-, rfl⟩ := h
      rw [writeBatch_table] at hrow
      refine (KeyedTable.mem_of_mem_insertAllNew hrow).imp_right fun hnew => ⟨batch, rfl, ?_⟩
      exact List.mem_filterMap.mp hnew
    · rw [storeReply_events h fun batch hbatch => hc ⟨batch, hbatch⟩] at hrow
      exact .inl hrow

/-- The rows after a history are those before it and the ones that were inserted. -/
theorem performs_rows {tr : PostgresTrace S}
    (h : Program.Performs (faultyReply hasher store) db tr db') :
    ∃ added, db'.events.rows = db.events.rows ++ added := by
  induction h with
  | nil => exact ⟨[], (List.append_nil _).symm⟩
  | cons hact _ ih =>
      obtain ⟨first, hfirst⟩ := faultyReply_rows hact
      obtain ⟨rest, hrest⟩ := ih
      exact ⟨first ++ rest, by rw [hrest, hfirst, List.append_assoc]⟩

theorem performs_row_origin {tr : PostgresTrace S}
    (h : Program.Performs (faultyReply hasher store) db tr db') {row : EventRow}
    (hrow : row ∈ db'.events.rows) : row ∈ db.events.rows ∨
      ∃ batch, .writeBatch batch ∈ Program.calls tr ∧
        ∃ event ∈ batch, rowOf hasher event = some row := by
  induction h with
  | nil => exact .inl hrow
  | cons hact _ ih =>
      rcases ih hrow with hold | ⟨batch, hbatch, hevent⟩
      · rcases faultyReply_row_origin hact hold with hold | ⟨batch, rfl, hevent⟩
        · exact .inl hold
        · exact .inr ⟨batch, List.mem_cons_self, hevent⟩
      · exact .inr ⟨batch, List.mem_cons_of_mem _ hbatch, hevent⟩

theorem persisted_faulty {r : PostgresReply S c} (h : faultyReply hasher store db c r db')
    {event : NormalizedEvent} (hevent : Persisted hasher db event) :
    Persisted hasher db' event := by
  rcases faultyReply_effect h with rfl | ⟨r', h⟩
  · exact hevent
  · exact persisted_step h hevent

theorem lastPersistedSlot_setCursor {name other : String} {row row' : StreamCursorRow}
    (h : (db.setCursor name row).streamCursors other = some row') :
    other = name ∧ row' = row ∨ db.streamCursors other = some row' := by
  by_cases hname : other = name
  · subst hname
    rw [Db.setCursor_cursor] at h
    exact .inl ⟨rfl, (Option.some.inj h).symm⟩
  · exact .inr ((if_neg hname).symm.trans h)

/-- An advance changes nothing, or the frontier of its stream. -/
theorem advance_of_kind {kind : SlotStateStoreKind} {name : String}
    {r : Except PostgresSlotStateError FinalizedFrontier}
    (h : kind.store.advanceContiguousFinalized db name r db') : db' = db ∨ ∃ watermark head,
      db' = db.setCursor name (upsertFrontier (db.streamCursors name) watermark head) := by
  cases kind with
  | postgres =>
      obtain ⟨watermark, head, _, rfl, -, rfl⟩ := h
      exact .inr ⟨watermark, head, rfl⟩
  | noop => exact .inl h.2

theorem record_of_kind {kind : SlotStateStoreKind} {name : String} {updates : List SlotStateUpdate}
    {r : Except PostgresSlotStateError Unit}
    (h : kind.store.recordSlotStates db name updates r db') : db' = db ∨ kind = .postgres ∧
      ∃ order, Storage.recordSlotStates order db name updates = (r, db') := by
  cases kind with
  | postgres => exact .inr ⟨rfl, h⟩
  | noop => exact .inl h.2

/-- A persisted slot that is not 0 and was not there before is that of the cursor update. -/
theorem faultyReply_lastPersisted {kind : SlotStateStoreKind}
    {r : PostgresReply PostgresSlotStateError c} (h : faultyReply hasher kind.store db c r db')
    {name : String}
    {row : StreamCursorRow} (hrow : db'.streamCursors name = some row)
    (hpos : 0 < row.lastPersistedSlot) :
    (∃ old, db.streamCursors name = some old ∧
      old.lastPersistedSlot = row.lastPersistedSlot) ∨
    ∃ slot : Nat, c = .updateAfterBatch name slot ∧ slot ≤ i64Max ∧
      row.lastPersistedSlot = slot := by
  rcases faultyReply_effect h with rfl | ⟨r', h⟩
  · exact .inl ⟨row, hrow, rfl⟩
  · cases c with
    | updateAfterBatch stream slot =>
        by_cases hfits : slot ≤ i64Max
        · have hupdate := updateAfterBatch_of_le db stream hfits
          rw [show Storage.updateAfterBatch db stream slot = (r', db') from h] at hupdate
          obtain ⟨-, rfl⟩ := Prod.mk.inj hupdate
          rcases lastPersistedSlot_setCursor hrow with ⟨rfl, rfl⟩ | hold
          · cases hstored : db.streamCursors name with
            | none => exact .inr ⟨slot, rfl, hfits, rfl⟩
            | some old =>
                rw [upsertCursor]
                rcases max_choice old.lastPersistedSlot (slot : Int) with hmax | hmax
                · exact .inl ⟨old, rfl, hmax.symm⟩
                · exact .inr ⟨slot, rfl, hfits, hmax⟩
          · exact .inl ⟨row, hold, rfl⟩
        · have hupdate := updateAfterBatch_of_gt db stream (Nat.lt_of_not_le hfits)
          rw [show Storage.updateAfterBatch db stream slot = (r', db') from h] at hupdate
          obtain ⟨-, rfl⟩ := Prod.mk.inj hupdate
          exact .inl ⟨row, hrow, rfl⟩
    | advanceContiguousFinalized stream =>
        rcases advance_of_kind h with rfl | ⟨watermark, head, rfl⟩
        · exact .inl ⟨row, hrow, rfl⟩
        · rcases lastPersistedSlot_setCursor hrow with ⟨rfl, rfl⟩ | hold
          · cases hstored : db.streamCursors name with
            | none =>
                rw [hstored] at hpos
                exact absurd hpos (lt_irrefl _)
            | some old => exact .inl ⟨old, rfl, rfl⟩
          · exact .inl ⟨row, hold, rfl⟩
    | recordSlotStates stream updates =>
        rcases record_of_kind h with rfl | ⟨-, order, hrecord⟩
        · exact .inl ⟨row, hrow, rfl⟩
        · have hcursors := recordSlotStates_cursors order db stream updates
          rw [hrecord] at hcursors
          exact .inl ⟨row, hcursors ▸ hrow, rfl⟩
    | writeBatch batch =>
        obtain ⟨-, rfl⟩ := h
        exact .inl ⟨row, hrow, rfl⟩
    | channelLen | onActivity | onProgress | batchElapsed =>
        rw [show db' = db from h] at hrow
        exact .inl ⟨row, hrow, rfl⟩

end Answers

/-! ## What is stored stands for events -/

section Backed

variable {ι : Type} (hasher : Hasher) (processes : ι → PipelineProcess)

/-- An event that some process receives. -/
def Received (event : NormalizedEvent) : Prop := ∃ i, event ∈ (processes i).events

/-- The rows are those of received events; a write that returned Ok has left its rows; and a slot
that a cursor names is the slot of a row. -/
structure Backed (x : SharedPipelines ι) : Prop where
  origin : ∀ row ∈ x.world.events.rows,
    ∃ event, Received processes event ∧ rowOf hasher event = some row
  written : ∀ i batch summary, ⟨.writeBatch batch, .ok summary⟩ ∈ x.traces i →
    ∀ event ∈ batch, event.slot ≤ i64Max → Persisted hasher x.world event
  cursor : ∀ name row, x.world.streamCursors name = some row → 0 < row.lastPersistedSlot →
    ∃ stored ∈ x.world.events.rows, row.lastPersistedSlot = stored.slot

variable {hasher processes} {x y : SharedPipelines ι}

theorem received_of_kept {i : ι} {event : NormalizedEvent}
    (h : event ∈ keptEvents (processes i).config (processes i).events) :
    Received processes event := ⟨i, (List.mem_filter.mp h).1⟩

theorem backed_start : Backed hasher processes (startPipelines processes .empty) where
  origin _ hrow := absurd hrow List.not_mem_nil
  written _ _ _ hmem := absurd hmem List.not_mem_nil
  cursor _ _ hrow := absurd hrow nofun

/-- Without collisions a persisted event has a row with its slot. -/
theorem Backed.slot_stored (hback : Backed hasher processes x)
    (hhash : hasher.CollisionFree {identity | ∃ event, Received processes event ∧
      event.identity = identity}) {event : NormalizedEvent} (hevent : Received processes event)
    (hpersisted : Persisted hasher x.world event) :
    ∃ stored ∈ x.world.events.rows, stored.slot = event.slot := by
  obtain ⟨row, hrow, hid⟩ := List.mem_map.mp hpersisted
  obtain ⟨source, hsource, hconv⟩ := hback.origin row hrow
  refine ⟨row, hrow, ?_⟩
  have hids : source.eventId hasher = event.eventId hasher :=
    (eventId_of_rowOf hconv).1.symm.trans hid
  have hidentity : source.identity = event.identity :=
    hhash.eventId_injOn ⟨source, hsource, rfl⟩ ⟨event, hevent, rfl⟩ hids
  rw [slot_of_rowOf hconv, NormalizedEvent.slot, NormalizedEvent.slot, hidentity]

variable [DecidableEq ι]

/-- A store call of a process is one for a batch of the events it keeps. -/
theorem issued_by {db : Db} (h : SharedPipelines.Reaches hasher processes db x)
    {i : ι} {c : PipelineCall}
    {next : PostgresReply PostgresSlotStateError c → PipelineProgram PostgresWriteError
      PostgresCursorError PostgresSlotStateError PipelineSummary}
    (hnext : x.programs i = .call c next) (hc : c.isStore = true) :
    ∃ batch, (∀ event ∈ batch, event ∈ keptEvents (processes i).config (processes i).events) ∧
      c ∈ batchCalls (processes i).streamName (processes i).config.advanceFinalizedWatermark batch ∧
      (c ≠ .writeBatch batch → ∃ summary, ⟨.writeBatch batch, .ok summary⟩ ∈ x.traces i) := by
  have hruns := Processes.runs_of_reaches h i
  rw [hnext] at hruns
  rcases Nat.eq_zero_or_pos (processes i).config.batchSize with hzero | hsize
  · exact absurd (runs_of_batchSize_zero hzero hruns).2 nofun
  · obtain ⟨done, batch, rest, earlier, later, hbatches, hbatch, -, hok, hwrites, -⟩ :=
      issued_in_batch hsize hruns hc
    refine ⟨batch, fun event hevent => ?_, by rw [hbatch]; simp, fun hne => ?_⟩
    · have hmem : batch ∈ batchesOf (processes i).config (processes i).events := by
        rw [hbatches]
        exact List.mem_append_right _ List.mem_cons_self
      rw [← flatten_chunks (processes i).config.batchSize (keptEvents _ _)]
      exact List.mem_flatten_of_mem hmem hevent
    · obtain ⟨summary, hmem⟩ := written_of_mem hok
        (hwrites hne batch (List.mem_append_right _ List.mem_cons_self))
      exact ⟨summary, (List.mem_filter.mp hmem).1⟩

theorem backed_step
    (hhash : hasher.CollisionFree {identity | ∃ event, Received processes event ∧
      event.identity = identity})
    (hreach : SharedPipelines.Reaches hasher processes .empty x)
    (hback : Backed hasher processes x)
    (hstep : Processes.Step (fun i => processReply hasher (processes i)) x y) :
    Backed hasher processes y := by
  cases hstep with
  | @call i c next r db' hnext hact =>
      have hact := hact.1
      obtain ⟨added, hadded⟩ := faultyReply_rows hact
      refine ⟨fun row hrow => ?_, fun j batch summary hmem event hevent hfits => ?_,
        fun name row hrow hpos => ?_⟩
      · rcases faultyReply_row_origin hact hrow with hold | ⟨batch, rfl, event, hevent, hconv⟩
        · exact hback.origin row hold
        · obtain ⟨issued, hkept, hcalls, -⟩ := issued_by hreach hnext rfl
          obtain rfl := mem_batchCalls_write hcalls
          exact ⟨event, received_of_kept (hkept event hevent), hconv⟩
      · rcases (Processes.mem_after_traces i ⟨c, r⟩ (next r) db').mp hmem with hold | ⟨rfl, hnew⟩
        · exact persisted_faulty hact (hback.written j batch summary hold event hevent hfits)
        · cases hnew
          exact persisted_of_written (faultyReply_of_ok hact rfl) hevent hfits
      · rcases faultyReply_lastPersisted hact hrow hpos with
          ⟨old, hold, hsame⟩ | ⟨slot, rfl, hfits, hslot⟩
        · obtain ⟨stored, hstored, hle⟩ := hback.cursor name old hold (hsame ▸ hpos)
          refine ⟨stored, ?_, hsame ▸ hle⟩
          show stored ∈ db'.events.rows
          rw [hadded]
          exact List.mem_append_left _ hstored
        · -- the batch of the update was written before, so its greatest slot is stored
          obtain ⟨batch, hkept, hcalls, hwritten⟩ := issued_by hreach hnext rfl
          rcases mem_batchCalls hcalls with hc | ⟨last, hmax, hc⟩ | hc
          · cases hc
          · cases hc
            obtain ⟨event, hevent, rfl⟩ := List.mem_map.mp (List.max?_eq_some_iff.mp hmax).1
            obtain ⟨summary, hmem⟩ := hwritten nofun
            obtain ⟨stored, hstored, heq⟩ := hback.slot_stored hhash
              (received_of_kept (hkept event hevent))
              (hback.written i batch summary hmem event hevent hfits)
            refine ⟨stored, ?_, hslot.trans heq.symm⟩
            show stored ∈ db'.events.rows
            rw [hadded]
            exact List.mem_append_left _ hstored
          · rcases (mem_slotCalls hc).2 with hc | ⟨hc, -⟩ <;> cases hc

theorem backed_of_reaches
    (hhash : hasher.CollisionFree {identity | ∃ event, Received processes event ∧
      event.identity = identity})
    (h : SharedPipelines.Reaches hasher processes .empty x) :
    Backed hasher processes x := by
  induction h with
  | refl => exact backed_start
  | tail hreach hstep ih => exact backed_step hhash hreach ih hstep

end Backed

end YellowstoneStream.Stream

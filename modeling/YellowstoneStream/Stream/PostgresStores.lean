import YellowstoneStream.Storage.ChainTermination
import YellowstoneStream.Stream.PipelineTrace

/-!
# The Postgres stores under the pipeline

How the event writer, the cursor store and a slot-state store answer the calls of the consumer, and
which of these answers are errors.
-/

open YellowstoneStream.Domain YellowstoneStream.Reasoning YellowstoneStream.Storage

namespace YellowstoneStream.Stream

variable {S : Type}

/-- A slot-state store, by what its calls may return and leave; it keeps out of the events. -/
structure SlotStateStore (S : Type) where
  recordSlotStates : Db → String → List SlotStateUpdate → Except S Unit → Db → Prop
  advanceContiguousFinalized : Db → String → Except S FinalizedFrontier → Db → Prop
  record_events : ∀ db name updates r db', recordSlotStates db name updates r db' →
    db'.events = db.events
  advance_events : ∀ db name r db', advanceContiguousFinalized db name r db' →
    db'.events = db.events

/-- `NoopSlotStateStore`; its errors are `Infallible`. -/
def noopSlotStateStore : SlotStateStore Empty where
  recordSlotStates db _ _ r db' := r = .ok () ∧ db' = db
  advanceContiguousFinalized db _ r db' := r = .ok .default ∧ db' = db
  record_events := by
    rintro db name updates r db' ⟨-, rfl⟩
    rfl
  advance_events := by
    rintro db name r db' ⟨-, rfl⟩
    rfl

/-- A hash map is iterated in some order, and the recursive query takes some number of rounds. -/
def postgresSlotStateStore : SlotStateStore PostgresSlotStateError where
  recordSlotStates db name updates r db' :=
    ∃ order, Storage.recordSlotStates order db name updates = (r, db')
  advanceContiguousFinalized db name r db' :=
    ∃ fuel, Storage.advanceContiguousFinalized fuel db name = some (r, db')
  record_events := by
    rintro db name updates r db' ⟨order, h⟩
    by_cases hfit : UpdatesFit updates
    · obtain ⟨slots, hrecord, -⟩ := recordSlotStates_of_fits order db name hfit
      rw [hrecord] at h
      cases h
      rfl
    · obtain ⟨slot, hrecord⟩ := recordSlotStates_of_not_fits order db name hfit
      rw [hrecord] at h
      cases h
      rfl
  advance_events := by
    rintro db name r db' ⟨fuel, h⟩
    obtain ⟨_, _, -, -, -, hevents, -⟩ := advance_effect h
    exact hevents

abbrev PostgresReply (S : Type) := PipelineCall.Reply PostgresWriteError PostgresCursorError S

abbrev PostgresTrace (S : Type) := PipelineTrace PostgresWriteError PostgresCursorError S

/-- The answers when every statement that is issued succeeds. -/
def storeReply (hasher : Hasher) (store : SlotStateStore S) (db : Db) :
    (c : PipelineCall) → PostgresReply S c → Db → Prop
  | .writeBatch batch, r, db' =>
      r = .ok (Storage.writeBatch hasher db.events batch).1 ∧
        db' = { db with events := (Storage.writeBatch hasher db.events batch).2 }
  | .updateAfterBatch name slot, r, db' => Storage.updateAfterBatch db name slot = (r, db')
  | .recordSlotStates name updates, r, db' => store.recordSlotStates db name updates r db'
  | .advanceContiguousFinalized name, r, db' => store.advanceContiguousFinalized db name r db'
  | .channelLen, _, db' | .onActivity _, _, db' | .onProgress _, _, db' | .batchElapsed, _, db' =>
      db' = db

/-- The answers when statements may also fail: the call returns an error, whether or not the
statement had been committed. -/
def faultyReply (hasher : Hasher) (store : SlotStateStore S) (db : Db) (c : PipelineCall)
    (r : PostgresReply S c) (db' : Db) : Prop :=
  storeReply hasher store db c r db' ∨
    (∃ err, failureOf c r = some err) ∧ (db' = db ∨ ∃ r', storeReply hasher store db c r' db')

/-- The length of the channel is read off the channel. -/
def ReadsDepth {W C S : Type} (depth : Nat) : (c : PipelineCall) → PipelineCall.Reply W C S c → Prop
  | .channelLen, n => n = depth
  | .onActivity _, _ | .onProgress _, _ | .batchElapsed, _ | .writeBatch _, _
  | .updateAfterBatch .., _ | .recordSlotStates .., _ | .advanceContiguousFinalized _, _ => True

def Persisted (hasher : Hasher) (db : Db) (event : NormalizedEvent) : Prop :=
  event.eventId hasher ∈ db.events.keys

/-! ## What an answered call does to the events -/

section Events

variable {hasher : Hasher} {store : SlotStateStore S}

theorem storeReply_events {db db' : Db} {c : PipelineCall} {r : PostgresReply S c}
    (h : storeReply hasher store db c r db') (hc : ∀ batch, c ≠ .writeBatch batch) :
    db'.events = db.events := by
  cases c with
  | writeBatch batch => exact absurd rfl (hc batch)
  | updateAfterBatch name slot =>
      have hevents := updateAfterBatch_events db name slot
      rw [show Storage.updateAfterBatch db name slot = (r, db') from h] at hevents
      exact hevents
  | recordSlotStates name updates => exact store.record_events _ _ _ _ _ h
  | advanceContiguousFinalized name => exact store.advance_events _ _ _ _ h
  | channelLen | onActivity | onProgress | batchElapsed =>
      rw [show db' = db from h]

/-- No call removes a row. -/
theorem persisted_step {db db' : Db} {c : PipelineCall} {r : PostgresReply S c}
    (h : storeReply hasher store db c r db') {event : NormalizedEvent}
    (hevent : Persisted hasher db event) : Persisted hasher db' event := by
  by_cases hc : ∃ batch, c = .writeBatch batch
  · obtain ⟨batch, rfl⟩ := hc
    obtain ⟨-, rfl⟩ := h
    show event.eventId hasher ∈ (Storage.writeBatch hasher db.events batch).2.keys
    rw [writeBatch_table, KeyedTable.mem_keys_insertAllNew]
    exact .inl hevent
  · unfold Persisted
    rw [storeReply_events h fun batch hbatch => hc ⟨batch, hbatch⟩]
    exact hevent

/-- A write that returns Ok leaves a row for every event of its batch that converts. -/
theorem persisted_of_written {db db' : Db} {batch : List NormalizedEvent}
    {r : PostgresReply S (.writeBatch batch)}
    (h : storeReply hasher store db (.writeBatch batch) r db') {event : NormalizedEvent}
    (hevent : event ∈ batch) (hfits : event.slot ≤ i64Max) : Persisted hasher db' event := by
  obtain ⟨-, rfl⟩ := h
  show event.eventId hasher ∈ (Storage.writeBatch hasher db.events batch).2.keys
  rw [writeBatch_table]
  exact mem_keys_of_written _ hevent hfits

/-- Where a row of the table comes from. -/
theorem persisted_origin {db db' : Db} {tr : PostgresTrace S}
    (h : Program.Performs (storeReply hasher store) db tr db') {id : String}
    (hid : id ∈ db'.events.keys) :
    id ∈ db.events.keys ∨ ∃ batch, .writeBatch batch ∈ Program.calls tr ∧
      ∃ event ∈ batch, event.eventId hasher = id := by
  induction h with
  | nil => exact .inl hid
  | @cons db db₁ db₂ c r tr hact _ ih =>
      rcases ih hid with hold | ⟨batch, hbatch, hevent⟩
      · by_cases hc : ∃ batch, c = .writeBatch batch
        · -- the row is older than the trace, or this first write inserted it
          obtain ⟨batch, rfl⟩ := hc
          obtain ⟨-, rfl⟩ := hact
          rw [writeBatch_table, KeyedTable.mem_keys_insertAllNew] at hold
          refine hold.imp_right fun hnew => ⟨batch, List.mem_cons_self, ?_⟩
          obtain ⟨row, hrow, rfl⟩ := List.mem_map.mp hnew
          obtain ⟨event, hevent, hconv⟩ := List.mem_filterMap.mp hrow
          exact ⟨event, hevent, (eventId_of_rowOf hconv).1.symm⟩
        · rw [storeReply_events hact fun batch hbatch => hc ⟨batch, hbatch⟩] at hold
          exact .inl hold
      · exact .inr ⟨batch, List.mem_cons_of_mem _ hbatch, hevent⟩

theorem faultyReply_effect {db db' : Db} {c : PipelineCall} {r : PostgresReply S c}
    (h : faultyReply hasher store db c r db') :
    db' = db ∨ ∃ r', storeReply hasher store db c r' db' := by
  rcases h with h | ⟨-, h⟩
  · exact .inr ⟨r, h⟩
  · exact h

/-- An answer that is no failure is an answer of a statement that succeeded. -/
theorem faultyReply_of_ok {db db' : Db} {c : PipelineCall} {r : PostgresReply S c}
    (h : faultyReply hasher store db c r db') (hok : failureOf c r = none) :
    storeReply hasher store db c r db' := by
  rcases h with h | ⟨⟨err, herr⟩, -⟩
  · exact h
  · rw [hok] at herr
    cases herr

/-- The rows of every batch written along a trace are there at its end. -/
theorem persisted_of_performs {db db' : Db} {tr : PostgresTrace S}
    (h : Program.Performs (storeReply hasher store) db tr db') {batch : List NormalizedEvent}
    (hbatch : .writeBatch batch ∈ Program.calls tr) {event : NormalizedEvent}
    (hevent : event ∈ batch) (hfits : event.slot ≤ i64Max) : Persisted hasher db' event := by
  obtain ⟨⟨c, r⟩, ha, hc⟩ := List.mem_map.mp hbatch
  obtain ⟨before, after, db₁, db₂, -, -, hact, hafter⟩ := h.split ha
  dsimp only at hc hact
  subst hc
  apply hafter.induction (P := fun db => Persisted hasher db event)
  · exact fun _ _ _ _ hrow hact => persisted_step hact hrow
  · exact persisted_of_written hact hevent hfits

end Events

/-- The calls that are no store calls leave everything as it is. -/
theorem performs_storeTrace {hasher : Hasher} {store : SlotStateStore S} {db db' : Db}
    {tr : PostgresTrace S} (h : Program.Performs (storeReply hasher store) db tr db') :
    Program.Performs (storeReply hasher store) db (storeTrace tr) db' := by
  induction h with
  | nil => exact .nil _
  | @cons db db₁ db₂ c r tr hact _ ih =>
      unfold storeTrace at ih ⊢
      cases hc : c.isStore with
      | true =>
          rw [Program.issued_cons_of_planned hc]
          exact .cons hact ih
      | false =>
          have hsame : db₁ = db := by cases c <;> first | exact hact | cases hc
          rw [Program.issued_cons_of_other hc, ← hsame]
          exact ih

/-! ## Which answers are errors -/

/-- The stored columns hold slots, as they do when only the stores write them. -/
structure StoredSlots (db : Db) (streamName : String) : Prop where
  slots : ∀ slot ∈ (db.streamSlots streamName).keys, 0 ≤ slot
  watermark : ∀ w ∈ db.watermark streamName, 0 ≤ w
  head : ∀ h ∈ db.head streamName, 0 ≤ h

def PipelineCall.OfStream (streamName : String) : PipelineCall → Prop
  | .updateAfterBatch name _ | .recordSlotStates name _ | .advanceContiguousFinalized name =>
      name = streamName
  | _ => True

/-- What the call sends to Postgres fits into BIGINT columns. -/
def PipelineCall.Fits : PipelineCall → Prop
  | .updateAfterBatch _ slot => slot ≤ i64Max
  | .recordSlotStates _ updates => UpdatesFit updates
  | _ => True

theorem watermark_nonneg {db : Db} {streamName : String} (h : StoredSlots db streamName)
    {w : Int} (hw : IsWatermark db streamName (some w)) : 0 ≤ w := by
  obtain ⟨anchor, hanchor, hreach, -⟩ := hw
  rcases hreach.cases_tail with rfl | ⟨_, -, hlink⟩
  · -- the anchor is a stored watermark or the slot of a stored row
    unfold IsAnchor at hanchor
    cases hstored : db.watermark streamName with
    | some watermark =>
        rw [hstored] at hanchor
        exact hanchor ▸ h.watermark watermark hstored
    | none =>
        rw [hstored] at hanchor
        exact h.slots _ hanchor.1.mem_keys
  · exact h.slots _ hlink.finalized.mem_keys

theorem nonneg_of_greatest {a b : Option Int} (ha : ∀ x ∈ a, 0 ≤ x) (hb : ∀ x ∈ b, 0 ≤ x) :
    ∀ x ∈ greatest a b, 0 ≤ x := by
  cases a with
  | none => rwa [greatest_none_left]
  | some a =>
      have hapos := ha a rfl
      cases b with
      | none => rwa [greatest_none_right]
      | some b =>
          intro x hx
          cases hx
          omega

section Errors

variable {hasher : Hasher} {streamName : String} {db db' : Db}

theorem advance_nonneg (h : StoredSlots db streamName) {fuel : Nat}
    {r : Except PostgresSlotStateError FinalizedFrontier}
    (hadvance : Storage.advanceContiguousFinalized fuel db streamName = some (r, db')) :
    StoredSlots db' streamName ∧ ∃ frontier, r = .ok frontier := by
  obtain ⟨watermark, head, hwatermark, hhead, rfl, -, hslots, hw, hh⟩ := advance_effect hadvance
  have hwpos : ∀ w ∈ watermark, 0 ≤ w := by
    rintro w rfl
    exact watermark_nonneg h hwatermark
  have hhpos : ∀ x ∈ greatest (db.head streamName) head, 0 ≤ x := by
    apply nonneg_of_greatest h.head
    rintro x rfl
    exact h.slots x hhead.1.mem_keys
  refine ⟨⟨?_, ?_, ?_⟩,
    ⟨watermark.map Int.toNat, (greatest (db.head streamName) head).map Int.toNat⟩, ?_⟩
  · rw [hslots]
    exact h.slots
  · rwa [hw]
  · rwa [hh]
  · rw [decodeFrontier, decodeSlot_of_nonneg hwpos, decodeSlot_of_nonneg hhpos]
    rfl

theorem record_nonneg (h : StoredSlots db streamName) (order : IterationOrder)
    (updates : List SlotStateUpdate) :
    StoredSlots (recordSlotStates order db streamName updates).2 streamName := by
  refine ⟨?_, ?_, ?_⟩
  · by_cases hfit : UpdatesFit updates
    · obtain ⟨slots, hrecord, -, hkeys⟩ := recordSlotStates_of_fits order db streamName hfit
      rw [hrecord, Db.setSlots_slots]
      exact fun slot hslot => (hkeys slot hslot).elim (h.slots slot) id
    · obtain ⟨slot, hrecord⟩ := recordSlotStates_of_not_fits order db streamName hfit
      rw [hrecord]
      exact h.slots
  · unfold Db.watermark
    rw [recordSlotStates_cursors]
    exact h.watermark
  · unfold Db.head
    rw [recordSlotStates_cursors]
    exact h.head

/-- Only a recording changes the slot states. -/
theorem storeReply_slots {c : PipelineCall} {r : PostgresReply PostgresSlotStateError c}
    (hc : ∀ name updates, c ≠ .recordSlotStates name updates)
    (hact : storeReply hasher postgresSlotStateStore db c r db') :
    db'.streamSlots = db.streamSlots := by
  cases c with
  | recordSlotStates name updates => exact absurd rfl (hc name updates)
  | writeBatch batch =>
      obtain ⟨-, rfl⟩ := hact
      rfl
  | updateAfterBatch name slot =>
      have hslots := updateAfterBatch_slots db name slot
      rw [show Storage.updateAfterBatch db name slot = (r, db') from hact] at hslots
      exact hslots
  | advanceContiguousFinalized name =>
      obtain ⟨fuel, hadvance⟩ := hact
      obtain ⟨_, _, -, -, -, -, hslots, -⟩ := advance_effect hadvance
      exact hslots
  | channelLen | onActivity | onProgress | batchElapsed =>
      rw [show db' = db from hact]

/-- The table after a recording that fits. -/
theorem storeReply_record {updates : List SlotStateUpdate} (hfits : UpdatesFit updates)
    {r : PostgresReply PostgresSlotStateError (.recordSlotStates streamName updates)}
    (hact : storeReply hasher postgresSlotStateStore db (.recordSlotStates streamName updates) r
      db') :
    (∀ slot : Nat, (db'.streamSlots streamName).find slot =
      recordedRow (db.streamSlots streamName) updates slot) ∧
    ∀ slot ∈ (db'.streamSlots streamName).keys,
      slot ∈ (db.streamSlots streamName).keys ∨ 0 ≤ slot := by
  obtain ⟨order, hrecord⟩ := hact
  obtain ⟨table, hok, hfind, hkeys⟩ := recordSlotStates_of_fits order db streamName hfits
  rw [hok] at hrecord
  cases hrecord
  rw [Db.setSlots_slots]
  exact ⟨hfind, hkeys⟩

/-- Only an advance changes the frontier. -/
theorem storeReply_frontier {c : PipelineCall} {r : PostgresReply PostgresSlotStateError c}
    (hc : ∀ name, c ≠ .advanceContiguousFinalized name) (hname : c.OfStream streamName)
    (hact : storeReply hasher postgresSlotStateStore db c r db') :
    db'.watermark streamName = db.watermark streamName ∧
      db'.head streamName = db.head streamName := by
  cases c with
  | advanceContiguousFinalized name => exact absurd rfl (hc name)
  | writeBatch batch =>
      obtain ⟨-, rfl⟩ := hact
      exact ⟨rfl, rfl⟩
  | updateAfterBatch name slot =>
      obtain rfl : name = streamName := hname
      have hdb : db' = (Storage.updateAfterBatch db name slot).2 := by
        rw [show Storage.updateAfterBatch db name slot = (r, db') from hact]
      rw [hdb]
      exact ⟨updateAfterBatch_watermark db name slot, updateAfterBatch_head db name slot⟩
  | recordSlotStates name updates =>
      obtain ⟨order, hrecord⟩ := hact
      have hcursors := recordSlotStates_cursors order db name updates
      rw [hrecord] at hcursors
      unfold Db.watermark Db.head
      rw [show db'.streamCursors = db.streamCursors from hcursors]
      exact ⟨rfl, rfl⟩
  | channelLen | onActivity | onProgress | batchElapsed =>
      rw [show db' = db from hact]
      exact ⟨rfl, rfl⟩

/-- The stores keep to slots. -/
theorem storedSlots_step (h : StoredSlots db streamName) {c : PipelineCall}
    {r : PostgresReply PostgresSlotStateError c} (hc : c.OfStream streamName)
    (hact : storeReply hasher postgresSlotStateStore db c r db') : StoredSlots db' streamName := by
  by_cases hrecord : ∃ name updates, c = .recordSlotStates name updates
  · obtain ⟨name, updates, rfl⟩ := hrecord
    obtain rfl : name = streamName := hc
    obtain ⟨order, hrecord⟩ := hact
    have hkeep := record_nonneg h order updates
    rw [hrecord] at hkeep
    exact hkeep
  by_cases hadvance : ∃ name, c = .advanceContiguousFinalized name
  · obtain ⟨name, rfl⟩ := hadvance
    obtain rfl : name = streamName := hc
    obtain ⟨fuel, hadvance⟩ := hact
    exact (advance_nonneg h hadvance).1
  have hslots := storeReply_slots (fun name updates hname => hrecord ⟨name, updates, hname⟩) hact
  obtain ⟨hwatermark, hhead⟩ := storeReply_frontier (fun name hname => hadvance ⟨name, hname⟩) hc
    hact
  refine ⟨?_, ?_, ?_⟩
  · rw [hslots]
    exact h.slots
  · rw [hwatermark]
    exact h.watermark
  · rw [hhead]
    exact h.head

/-- The three range checks are all that can fail when every statement succeeds. -/
theorem failureOf_eq_none_iff (h : StoredSlots db streamName) {c : PipelineCall}
    {r : PostgresReply PostgresSlotStateError c} (hc : c.OfStream streamName)
    (hact : storeReply hasher postgresSlotStateStore db c r db') :
    failureOf c r = none ↔ c.Fits := by
  cases c with
  | writeBatch batch =>
      obtain ⟨rfl, -⟩ := hact
      exact iff_of_true rfl trivial
  | updateAfterBatch name slot =>
      show _ ↔ slot ≤ i64Max
      rw [← updateAfterBatch_ok_iff db name slot,
        show Storage.updateAfterBatch db name slot = (r, db') from hact]
      cases r with
      | ok u => exact iff_of_true rfl rfl
      | error err => exact iff_of_false nofun nofun
  | recordSlotStates name updates =>
      obtain ⟨order, hrecord⟩ := hact
      show _ ↔ UpdatesFit updates
      by_cases hfit : UpdatesFit updates
      · obtain ⟨slots, hok, -⟩ := recordSlotStates_of_fits order db name hfit
        rw [hok] at hrecord
        cases hrecord
        exact iff_of_true rfl hfit
      · obtain ⟨slot, herr⟩ := recordSlotStates_of_not_fits order db name hfit
        rw [herr] at hrecord
        cases hrecord
        exact iff_of_false nofun hfit
  | advanceContiguousFinalized name =>
      obtain rfl : name = streamName := hc
      obtain ⟨fuel, hadvance⟩ := hact
      obtain ⟨frontier, rfl⟩ := (advance_nonneg h hadvance).2
      exact iff_of_true rfl trivial
  | channelLen | onActivity | onProgress | batchElapsed => exact iff_of_true rfl trivial

/-- Every call but an advance is answered. -/
theorem storeReply_total {c : PipelineCall} (hc : ∀ name, c ≠ .advanceContiguousFinalized name) :
    ∃ r db', storeReply hasher postgresSlotStateStore db c r db' := by
  cases c with
  | advanceContiguousFinalized name => exact absurd rfl (hc name)
  | writeBatch batch => exact ⟨_, _, rfl, rfl⟩
  | updateAfterBatch name slot => exact ⟨_, _, rfl⟩
  | recordSlotStates name updates => exact ⟨_, _, insertionOrder, rfl⟩
  | channelLen => exact ⟨(0 : Nat), db, rfl⟩
  | onActivity | onProgress => exact ⟨(), db, rfl⟩
  | batchElapsed => exact ⟨(0 : Nat), db, rfl⟩

end Errors

/-! ## The calls of a run -/

section Calls

variable {W C : Type} {config : PipelineConfig} {streamName : String}
  {events : List NormalizedEvent}

theorem ofStream_of_mem_batchCalls {advance : Bool} {batch : List NormalizedEvent}
    {c : PipelineCall} (h : c ∈ batchCalls streamName advance batch) : c.OfStream streamName := by
  rcases mem_batchCalls h with rfl | ⟨slot, -, rfl⟩ | h
  · trivial
  · rfl
  · rcases (mem_slotCalls h).2 with rfl | ⟨rfl, -⟩ <;> rfl

/-- A run makes no store call that its plan does not have. -/
theorem planned_of_runs (hsize : 0 < config.batchSize) {tr : PipelineTrace W C S}
    {q : PipelineProgram W C S PipelineSummary}
    (h : Program.Runs ((eventReceiverPipeline config streamName).whole events) tr q)
    {a : Answered (PipelineCall.Reply W C S)} (ha : a ∈ tr) (hstore : a.1.isStore = true) :
    ∃ batch ∈ batchesOf config events,
      a.1 ∈ batchCalls streamName config.advanceFinalizedWatermark batch := by
  have hmem : a.1 ∈ Program.calls (storeTrace tr) :=
    List.mem_map_of_mem (List.mem_filter.mpr ⟨ha, hstore⟩)
  rw [← List.mem_flatMap]
  -- whether or not the last call failed, all calls made are in the plan
  rcases (follows_pipeline hsize streamName events).runs h with
    ⟨rest, hplan, -⟩ | ⟨done, c, r, e, rest, htr, hc, hplan, -⟩
  · rw [hplan]
    exact List.mem_append_left _ hmem
  · rw [hplan]
    rw [htr, storeTrace, Program.issued_append, Program.issued_cons_of_planned hc,
      Program.issued_nil, Program.calls, List.map_append] at hmem
    rcases List.mem_append.mp hmem with hmem | hmem
    · exact List.mem_append_left _ hmem
    · rw [List.mem_singleton.mp hmem]
      exact List.mem_append_right _ List.mem_cons_self

theorem ofStream_of_runs (hsize : 0 < config.batchSize) {tr : PipelineTrace W C S}
    {q : PipelineProgram W C S PipelineSummary}
    (h : Program.Runs ((eventReceiverPipeline config streamName).whole events) tr q)
    {a : Answered (PipelineCall.Reply W C S)} (ha : a ∈ tr) : a.1.OfStream streamName := by
  cases hstore : a.1.isStore with
  | true =>
      obtain ⟨batch, -, hmem⟩ := planned_of_runs hsize h ha hstore
      exact ofStream_of_mem_batchCalls hmem
  | false =>
      obtain ⟨c, r⟩ := a
      cases c <;> first | exact trivial | cases hstore

end Calls

end YellowstoneStream.Stream

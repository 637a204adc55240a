import YellowstoneStream.Domain.EventKey
import YellowstoneStream.Storage.Tables

/-! The Postgres event writer: row conversion and the deduplicating batch insert. -/

open YellowstoneStream.Domain YellowstoneStream.Reasoning

namespace YellowstoneStream.Storage

structure WriteSummary where
  attempted : Nat
  inserted : Nat
  deduplicated : Nat
  skipped : Nat
  deriving DecidableEq, Repr

def WriteSummary.default : WriteSummary := ⟨0, 0, 0, 0⟩

/-- `AddAssign`. -/
def WriteSummary.add (a b : WriteSummary) : WriteSummary :=
  { attempted := a.attempted + b.attempted
    inserted := a.inserted + b.inserted
    deduplicated := a.deduplicated + b.deduplicated
    skipped := a.skipped + b.skipped }

/-- `serializeIdentity` never arises: an identity has string keys only. -/
inductive PostgresWriteError where
  | slotOutOfRange (slot : Nat)
  | identityVersionOutOfRange (version : Nat)
  | serializeIdentity
  | sqlx
  deriving DecidableEq, Repr

variable (hasher : Hasher)

def EventRow.tryFrom (event : NormalizedEvent) : Except PostgresWriteError EventRow :=
  match i64TryFrom event.slot with
  | none => .error (.slotOutOfRange event.slot)
  | some slot =>
      match i16TryFrom event.identityVersion with
      | none => .error (.identityVersionOutOfRange event.identityVersion)
      | some identityVersion =>
          .ok { eventId := event.eventId hasher
                identityVersion := identityVersion
                identity := event.identity.toValue
                slot := slot
                signature := event.signature
                programId := event.programId
                account := event.account
                eventType := event.kind.asStr
                payload := event.payload }

/-- The conversion loop: the rows in order and the number of events skipped. -/
def convertEvents : List NormalizedEvent → List EventRow × Nat
  | [] => ([], 0)
  | event :: events =>
      let (rows, skipped) := convertEvents events
      match EventRow.tryFrom hasher event with
      | .ok row => (row :: rows, skipped)
      | .error _ => (rows, skipped + 1)

/-- `INSERT INTO events … ON CONFLICT (event_id) DO NOTHING` with its `rows_affected`. -/
def insertEvents (table : EventTable) (rows : List EventRow) : Nat × EventTable :=
  let table' := table.insertAllNew rows
  (table'.rows.length - table.rows.length, table')

/-- `PostgresEventWriter::write_batch` when the statement succeeds. -/
def writeBatch (table : EventTable) (events : List NormalizedEvent) : WriteSummary × EventTable :=
  if events.isEmpty then (WriteSummary.default, table)
  else
    let (rows, skipped) := convertEvents hasher events
    if rows.isEmpty then
      -- no statement; the events count as attempted all the same
      ({ attempted := events.length, inserted := 0, deduplicated := 0, skipped := skipped }, table)
    else
      -- here only the rows do
      let (inserted, table') := insertEvents table rows
      ({ attempted := rows.length
         inserted := inserted
         deduplicated := rows.length - inserted
         skipped := skipped }, table')

/-! ## Conversion -/

/-- The row an event is stored as, when it converts. -/
def rowOf (event : NormalizedEvent) : Option EventRow := (EventRow.tryFrom hasher event).toOption

variable {hasher}

theorem tryFrom_of_le {event : NormalizedEvent} (h : event.slot ≤ i64Max) :
    ∃ row, EventRow.tryFrom hasher event = .ok row ∧ row.eventId = event.eventId hasher ∧
      row.identity = event.identity.toValue ∧ row.slot = event.slot := by
  rw [EventRow.tryFrom, i64TryFrom_of_le h]
  exact ⟨_, rfl, rfl, rfl, rfl⟩

theorem tryFrom_of_gt {event : NormalizedEvent} (h : i64Max < event.slot) :
    EventRow.tryFrom hasher event = .error (.slotOutOfRange event.slot) := by
  rw [EventRow.tryFrom, i64TryFrom_of_gt h]

theorem rowOf_isSome_iff (event : NormalizedEvent) :
    (rowOf hasher event).isSome ↔ event.slot ≤ i64Max := by
  by_cases h : event.slot ≤ i64Max
  · obtain ⟨row, hrow, -⟩ := @tryFrom_of_le hasher _ h
    simp [rowOf, hrow, h, Except.toOption]
  · simp [rowOf, tryFrom_of_gt (Nat.lt_of_not_le h), h, Except.toOption]

theorem eventId_of_rowOf {event : NormalizedEvent} {row : EventRow}
    (h : rowOf hasher event = some row) :
    row.eventId = event.eventId hasher ∧ row.identity = event.identity.toValue := by
  have hle : event.slot ≤ i64Max := (rowOf_isSome_iff event).mp (by rw [h]; rfl)
  obtain ⟨row', hrow, hid, hident, -⟩ := @tryFrom_of_le hasher _ hle
  rw [rowOf, hrow] at h
  cases h
  exact ⟨hid, hident⟩

theorem slot_of_rowOf {event : NormalizedEvent} {row : EventRow}
    (h : rowOf hasher event = some row) : row.slot = event.slot := by
  have hle : event.slot ≤ i64Max := (rowOf_isSome_iff event).mp (by rw [h]; rfl)
  obtain ⟨row', hrow, -, -, hslot⟩ := @tryFrom_of_le hasher _ hle
  rw [rowOf, hrow] at h
  cases h
  exact hslot

theorem convertEvents_rows (events : List NormalizedEvent) :
    (convertEvents hasher events).1 = events.filterMap (rowOf hasher) := by
  induction events with
  | nil => rfl
  | cons event events ih =>
      rw [convertEvents, List.filterMap_cons, rowOf]
      cases EventRow.tryFrom hasher event <;> simp [Except.toOption, ih]

theorem convertEvents_skipped (events : List NormalizedEvent) :
    (convertEvents hasher events).2 = events.countP fun event => i64Max < event.slot := by
  induction events with
  | nil => rfl
  | cons event events ih =>
      rw [convertEvents, List.countP_cons]
      by_cases h : event.slot ≤ i64Max
      · obtain ⟨row, hrow, -⟩ := @tryFrom_of_le hasher _ h
        simp [hrow, ih, Nat.not_lt.mpr h]
      · simp [tryFrom_of_gt (Nat.lt_of_not_le h), ih, Nat.lt_of_not_le h]

/-- Every event is converted or skipped. -/
theorem convertEvents_length (events : List NormalizedEvent) :
    (convertEvents hasher events).1.length + (convertEvents hasher events).2 = events.length := by
  induction events with
  | nil => rfl
  | cons event events ih =>
      rw [convertEvents, List.length_cons]
      cases EventRow.tryFrom hasher event with
      | ok row =>
          show (convertEvents hasher events).1.length + 1 + (convertEvents hasher events).2 = _
          omega
      | error err =>
          show (convertEvents hasher events).1.length + ((convertEvents hasher events).2 + 1) = _
          omega

theorem convertEvents_rows_eq_nil_iff (events : List NormalizedEvent) :
    (convertEvents hasher events).1 = [] ↔ ∀ event ∈ events, i64Max < event.slot := by
  rw [convertEvents_rows, List.filterMap_eq_nil_iff]
  refine forall_congr' fun event => forall_congr' fun _ => ?_
  rw [← Option.not_isSome_iff_eq_none, rowOf_isSome_iff, Nat.not_le]

/-! ## Batches -/

/-- Whatever path the writer takes, the table afterwards is the insert of the convertible rows. -/
theorem writeBatch_table (table : EventTable) (events : List NormalizedEvent) :
    (writeBatch hasher table events).2 = table.insertAllNew (events.filterMap (rowOf hasher)) := by
  rw [← convertEvents_rows, writeBatch]
  split
  · rename_i h
    rw [List.isEmpty_iff.mp h]
    rfl
  · dsimp only
    split
    · -- no row converted, and no statement is issued
      rename_i h
      rw [List.isEmpty_iff.mp h]
      rfl
    · rfl

theorem writeBatch_inserted (table : EventTable) (events : List NormalizedEvent) :
    (writeBatch hasher table events).1.inserted =
      (writeBatch hasher table events).2.rows.length - table.rows.length := by
  rw [writeBatch]
  split
  · exact (Nat.sub_self _).symm
  · dsimp only
    split
    · exact (Nat.sub_self _).symm
    · rfl

theorem writeBatch_skipped (table : EventTable) (events : List NormalizedEvent) :
    (writeBatch hasher table events).1.skipped =
      events.countP fun event => i64Max < event.slot := by
  rw [← @convertEvents_skipped hasher, writeBatch]
  split
  · rename_i h
    rw [List.isEmpty_iff.mp h]
    rfl
  · dsimp only
    split <;> rfl

/-- A convertible event has a row with its id once it was written. -/
theorem mem_keys_of_written (table : EventTable) {events : List NormalizedEvent}
    {event : NormalizedEvent} (hevent : event ∈ events) (hfits : event.slot ≤ i64Max) :
    event.eventId hasher ∈ (table.insertAllNew (events.filterMap (rowOf hasher))).keys := by
  obtain ⟨row, hrow⟩ :=
    Option.isSome_iff_exists.mp ((@rowOf_isSome_iff hasher event).mpr hfits)
  rw [KeyedTable.mem_keys_insertAllNew]
  exact .inr (List.mem_map.mpr ⟨row, List.mem_filterMap.mpr ⟨event, hevent, hrow⟩,
    (eventId_of_rowOf hrow).1⟩)

end YellowstoneStream.Storage

import YellowstoneStream.Storage.Tables

/-! The Postgres cursor store: the resume slot of a stream, which only grows. -/

namespace YellowstoneStream.Storage

structure StreamCursor where
  streamName : String
  lastPersistedSlot : Nat
  deriving DecidableEq, Repr

inductive PostgresCursorError where
  | slotOutOfRange (slot : Nat)
  | persistedSlotOutOfRange (slot : Int)
  | sqlx
  deriving DecidableEq, Repr

def getCursor (db : Db) (streamName : String) :
    Except PostgresCursorError (Option StreamCursor) :=
  match db.streamCursors streamName with
  | none => .ok none
  | some row =>
      match u64TryFrom row.lastPersistedSlot with
      | none => .error (.persistedSlotOutOfRange row.lastPersistedSlot)
      | some slot => .ok (some ⟨streamName, slot⟩)

/-- The row after `INSERT … ON CONFLICT DO UPDATE SET last_persisted_slot = GREATEST(…)`. -/
def upsertCursor (stored : Option StreamCursorRow) (slot : Int) : StreamCursorRow :=
  match stored with
  | none => ⟨slot, none, none⟩
  | some row => { row with lastPersistedSlot := max row.lastPersistedSlot slot }

/-- `update_after_batch` when the statement succeeds. -/
def updateAfterBatch (db : Db) (streamName : String) (lastPersistedSlot : Nat) :
    Except PostgresCursorError Unit × Db :=
  match i64TryFrom lastPersistedSlot with
  | none => (.error (.slotOutOfRange lastPersistedSlot), db)
  | some slot =>
      (.ok (), db.setCursor streamName (upsertCursor (db.streamCursors streamName) slot))

theorem loaded_cursor {db : Db} {streamName : String} {cursor : Option StreamCursor}
    (h : getCursor db streamName = .ok cursor) :
    (cursor.map StreamCursor.lastPersistedSlot).map Int.ofNat =
      (db.streamCursors streamName).map StreamCursorRow.lastPersistedSlot := by
  unfold getCursor at h
  cases hrow : db.streamCursors streamName with
  | none =>
      rw [hrow] at h
      cases h
      rfl
  | some row =>
      rw [hrow] at h
      dsimp only at h
      cases hn : u64TryFrom row.lastPersistedSlot with
      | none =>
          rw [hn] at h
          cases h
      | some n =>
          rw [hn] at h
          cases h
          exact congrArg some (eq_of_u64TryFrom hn)

/-! ## What an update does -/

section Update

variable (db : Db) (streamName : String)

theorem updateAfterBatch_of_le {slot : Nat} (h : slot ≤ i64Max) :
    updateAfterBatch db streamName slot =
      (.ok (), db.setCursor streamName (upsertCursor (db.streamCursors streamName) slot)) := by
  rw [updateAfterBatch, i64TryFrom_of_le h]

theorem updateAfterBatch_of_gt {slot : Nat} (h : i64Max < slot) :
    updateAfterBatch db streamName slot = (.error (.slotOutOfRange slot), db) := by
  rw [updateAfterBatch, i64TryFrom_of_gt h]

theorem updateAfterBatch_ok_iff (slot : Nat) :
    (updateAfterBatch db streamName slot).1 = .ok () ↔ slot ≤ i64Max := by
  by_cases h : slot ≤ i64Max
  · simp [updateAfterBatch_of_le db streamName h, h]
  · simp [updateAfterBatch_of_gt db streamName (Nat.lt_of_not_le h), h]

@[simp] theorem updateAfterBatch_events (slot : Nat) :
    (updateAfterBatch db streamName slot).2.events = db.events := by
  rw [updateAfterBatch]
  cases i64TryFrom slot <;> rfl

@[simp] theorem updateAfterBatch_slots (slot : Nat) :
    (updateAfterBatch db streamName slot).2.streamSlots = db.streamSlots := by
  rw [updateAfterBatch]
  cases i64TryFrom slot <;> rfl

end Update

@[simp] theorem upsertCursor_watermark (stored : Option StreamCursorRow) (slot : Int) :
    (upsertCursor stored slot).lastContiguousFinalizedSlot =
      stored.bind StreamCursorRow.lastContiguousFinalizedSlot := by
  cases stored <;> rfl

@[simp] theorem upsertCursor_head (stored : Option StreamCursorRow) (slot : Int) :
    (upsertCursor stored slot).lastFinalizedSlot =
      stored.bind StreamCursorRow.lastFinalizedSlot := by
  cases stored <;> rfl

end YellowstoneStream.Storage

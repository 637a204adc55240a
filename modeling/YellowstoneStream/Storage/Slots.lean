import YellowstoneStream.Reasoning.RecursiveQuery
import YellowstoneStream.Storage.Tables

/-!
# Slot states

The Postgres slot-state store: slot states merged into `stream_slots`, and the finalized frontier
advanced along parent links by a recursive query.
-/

open YellowstoneStream.Reasoning

namespace YellowstoneStream.Storage

structure SlotStateUpdate where
  slot : Nat
  parentSlot : Option Nat
  finalized : Bool
  dead : Bool
  deriving DecidableEq, Repr

structure FinalizedFrontier where
  lastContiguousFinalizedSlot : Option Nat
  lastFinalizedSlot : Option Nat
  deriving DecidableEq, Repr

def FinalizedFrontier.default : FinalizedFrontier := ⟨none, none⟩

inductive PostgresSlotStateError where
  | slotOutOfRange (slot : Nat)
  | persistedSlotOutOfRange (slot : Int)
  | sqlx
  deriving DecidableEq, Repr

/-! ## Recording -/

/-- The `and_modify` branch of the hash map `merged`. -/
def mergeUpdate : MergeRule SlotStateUpdate.slot where
  merge existing update :=
    { existing with
      finalized := existing.finalized || update.finalized
      dead := existing.dead || update.dead
      -- a later parent replaces an earlier one, an absent one does not
      parentSlot := if update.parentSlot.isSome then update.parentSlot else existing.parentSlot }
  key_merge _ _ := rfl

/-- The order in which a hash map yields its values: any, and another one for each map. -/
structure IterationOrder where
  permute : List SlotStateUpdate → List SlotStateUpdate
  perm : ∀ values, (permute values).Perm values

def mergeUpdates (updates : List SlotStateUpdate) : KeyedTable SlotStateUpdate.slot :=
  KeyedTable.empty.upsertAll mergeUpdate updates

def SlotStateRow.tryFrom (update : SlotStateUpdate) : Except PostgresSlotStateError SlotStateRow :=
  match i64TryFrom update.slot with
  | none => .error (.slotOutOfRange update.slot)
  | some slot =>
      match update.parentSlot with
      | none => .ok ⟨slot, none, update.finalized, update.dead⟩
      | some parent =>
          match i64TryFrom parent with
          | none => .error (.slotOutOfRange parent)
          | some parent => .ok ⟨slot, some parent, update.finalized, update.dead⟩

/-- `ON CONFLICT (stream_name, slot) DO UPDATE` of the insert. -/
def mergeRow : MergeRule SlotStateRow.slot where
  merge stored excluded :=
    { stored with
      -- `COALESCE(EXCLUDED.parent_slot, stream_slots.parent_slot)`
      parentSlot := excluded.parentSlot.or stored.parentSlot
      finalized := stored.finalized || excluded.finalized
      dead := stored.dead || excluded.dead }
  key_merge _ _ := rfl

/-- The statement fails when it would touch one row twice. -/
def insertSlots (slots : SlotTable) (rows : List SlotStateRow) : Option SlotTable :=
  if (rows.map SlotStateRow.slot).Nodup then some (slots.upsertAll mergeRow rows) else none

def recordSlotStates (order : IterationOrder) (db : Db) (streamName : String)
    (updates : List SlotStateUpdate) : Except PostgresSlotStateError Unit × Db :=
  if updates.isEmpty then (.ok (), db)
  else
    -- one slot out of range fails the call before its statement is issued
    match (order.permute (mergeUpdates updates).rows).mapM SlotStateRow.tryFrom with
    | .error err => (.error err, db)
    | .ok rows =>
        match insertSlots (db.streamSlots streamName) rows with
        | none => (.error .sqlx, db)
        | some slots => (.ok (), db.setSlots streamName slots)

/-! ## The frontier -/

def decodeSlot : Option Int → Except PostgresSlotStateError (Option Nat)
  | none => .ok none
  | some slot =>
      match u64TryFrom slot with
      | none => .error (.persistedSlotOutOfRange slot)
      | some n => .ok (some n)

def decodeFrontier (contiguous head : Option Int) :
    Except PostgresSlotStateError FinalizedFrontier := do
  let contiguous ← decodeSlot contiguous
  let head ← decodeSlot head
  return ⟨contiguous, head⟩

def getFinalizedFrontier (db : Db) (streamName : String) :
    Except PostgresSlotStateError FinalizedFrontier :=
  match db.streamCursors streamName with
  | none => .ok .default
  | some row => decodeFrontier row.lastContiguousFinalizedSlot row.lastFinalizedSlot

def Db.watermark (db : Db) (streamName : String) : Option Int :=
  (db.streamCursors streamName).bind StreamCursorRow.lastContiguousFinalizedSlot

def Db.head (db : Db) (streamName : String) : Option Int :=
  (db.streamCursors streamName).bind StreamCursorRow.lastFinalizedSlot

/-- `SELECT slot FROM stream_slots WHERE finalized`. -/
def finalizedSlots (slots : SlotTable) : List Int :=
  (slots.rows.filter SlotStateRow.finalized).map SlotStateRow.slot

/-- The common table expression `seed`. -/
def chainSeed (db : Db) (streamName : String) : Option Int :=
  -- the lowest finalized slot counts only where no watermark is stored
  (db.watermark streamName).or (finalizedSlots (db.streamSlots streamName)).min?

/-- The recursive term of `chain`: `stream_slots s JOIN chain c ON s.parent_slot = c.slot`. -/
def chainStep (slots : SlotTable) (chain : List Int) : List Int :=
  chain.flatMap fun c =>
    (slots.rows.filter fun s => s.finalized && s.parentSlot == some c).map SlotStateRow.slot

/-- The first statement; it has no result when the recursive query does not stop in `fuel`
rounds. -/
def selectWatermark (fuel : Nat) (db : Db) (streamName : String) :
    Option (Option Int × Option Int) :=
  let slots := db.streamSlots streamName
  (unionAll (chainStep slots) fuel (chainSeed db streamName).toList).map fun chain =>
    (chain.max?, (finalizedSlots slots).max?)

/-- The row after the second statement. -/
def upsertFrontier (stored : Option StreamCursorRow) (watermark head : Option Int) :
    StreamCursorRow :=
  match stored with
  -- a stream without a cursor gets one at slot 0
  | none => ⟨0, watermark, head⟩
  | some row =>
      { row with
        lastContiguousFinalizedSlot := greatest row.lastContiguousFinalizedSlot watermark
        lastFinalizedSlot := greatest row.lastFinalizedSlot head }

def advanceContiguousFinalized (fuel : Nat) (db : Db) (streamName : String) :
    Option (Except PostgresSlotStateError FinalizedFrontier × Db) :=
  (selectWatermark fuel db streamName).map fun (watermark, head) =>
    let row := upsertFrontier (db.streamCursors streamName) watermark head
    (decodeFrontier row.lastContiguousFinalizedSlot row.lastFinalizedSlot,
      db.setCursor streamName row)

/-! ## What is loaded -/

theorem map_of_decodeSlot {stored : Option Int} {slot : Option Nat}
    (h : decodeSlot stored = .ok slot) : slot.map Int.ofNat = stored := by
  cases stored with
  | none =>
      cases h
      rfl
  | some i =>
      rw [decodeSlot] at h
      cases hn : u64TryFrom i with
      | none =>
          rw [hn] at h
          cases h
      | some n =>
          rw [hn] at h
          cases h
          exact congrArg some (eq_of_u64TryFrom hn)

theorem map_of_decodeFrontier {contiguous head : Option Int} {frontier : FinalizedFrontier}
    (h : decodeFrontier contiguous head = .ok frontier) :
    frontier.lastContiguousFinalizedSlot.map Int.ofNat = contiguous ∧
      frontier.lastFinalizedSlot.map Int.ofNat = head := by
  unfold decodeFrontier at h
  cases hcontiguous : decodeSlot contiguous with
  | error err =>
      rw [hcontiguous] at h
      cases h
  | ok c =>
      cases hhead : decodeSlot head with
      | error err =>
          rw [hcontiguous, hhead] at h
          cases h
      | ok x =>
          rw [hcontiguous, hhead] at h
          cases h
          exact ⟨map_of_decodeSlot hcontiguous, map_of_decodeSlot hhead⟩

/-- A frontier that is loaded is the stored one. -/
theorem loaded_frontier {db : Db} {streamName : String} {frontier : FinalizedFrontier}
    (h : getFinalizedFrontier db streamName = .ok frontier) :
    frontier.lastContiguousFinalizedSlot.map Int.ofNat = db.watermark streamName ∧
      frontier.lastFinalizedSlot.map Int.ofNat = db.head streamName := by
  unfold getFinalizedFrontier at h
  unfold Db.watermark Db.head
  cases hrow : db.streamCursors streamName with
  | none =>
      rw [hrow] at h
      cases h
      exact ⟨rfl, rfl⟩
  | some row =>
      rw [hrow] at h
      exact map_of_decodeFrontier h

end YellowstoneStream.Storage

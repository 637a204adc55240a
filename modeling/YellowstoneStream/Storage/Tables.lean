import YellowstoneStream.Domain.Event
import YellowstoneStream.Reasoning.KeyedTable

/-!
# Tables

The tables of `migrations/0001_init.sql` with the columns the program reads back, and the integer
conversions at their border.  Surrogate ids, timestamps and the cursor's `metadata` are left out.
-/

open YellowstoneStream.Domain YellowstoneStream.Reasoning

namespace YellowstoneStream.Storage

def i64Max : Nat := 2 ^ 63 - 1
def i16Max : Nat := 2 ^ 15 - 1

def i64TryFrom (n : Nat) : Option Int := if n ≤ i64Max then some n else none
def i16TryFrom (n : Nat) : Option Int := if n ≤ i16Max then some n else none
def u64TryFrom (i : Int) : Option Nat := if 0 ≤ i then some i.toNat else none

theorem eq_of_u64TryFrom {i : Int} {n : Nat} (h : u64TryFrom i = some n) : (n : Int) = i := by
  unfold u64TryFrom at h
  split at h
  · cases h
    omega
  · cases h

theorem i64TryFrom_of_le {n : Nat} (h : n ≤ i64Max) : i64TryFrom n = some (n : Int) := if_pos h
theorem i64TryFrom_of_gt {n : Nat} (h : i64Max < n) : i64TryFrom n = none :=
  if_neg (Nat.not_le.mpr h)

/-- `GREATEST`, which ignores nulls. -/
def greatest : Option Int → Option Int → Option Int
  | some a, some b => some (max a b)
  | some a, none => some a
  | none, b => b

@[simp] theorem greatest_none_left (b : Option Int) : greatest none b = b := by cases b <;> rfl
@[simp] theorem greatest_none_right (a : Option Int) : greatest a none = a := by cases a <;> rfl
@[simp] theorem greatest_some_some (a b : Int) : greatest (some a) (some b) = some (max a b) := rfl

theorem greatest_eq_right {a b : Option Int} (h : ∀ x, a = some x → ∃ y, b = some y ∧ x ≤ y) :
    greatest a b = b := by
  cases a with
  | none => exact greatest_none_left b
  | some x =>
      obtain ⟨y, rfl, hxy⟩ := h x rfl
      rw [greatest_some_some, Int.max_eq_right hxy]

theorem le_greatest_left (a b : Option Int) : ∀ x ∈ a, ∃ y ∈ greatest a b, x ≤ y := by
  rintro x rfl
  cases b with
  | none => exact ⟨x, rfl, Int.le_refl x⟩
  | some y => exact ⟨max x y, rfl, Int.le_max_left x y⟩

structure EventRow where
  eventId : String
  identityVersion : Int
  identity : Value
  slot : Int
  signature : Option String
  programId : Option String
  account : Option String
  eventType : String
  payload : Value

structure StreamCursorRow where
  lastPersistedSlot : Int
  lastContiguousFinalizedSlot : Option Int
  lastFinalizedSlot : Option Int
  deriving DecidableEq, Repr

structure SlotStateRow where
  slot : Int
  parentSlot : Option Int
  finalized : Bool
  dead : Bool
  deriving DecidableEq, Repr

abbrev EventTable := KeyedTable EventRow.eventId
abbrev SlotTable := KeyedTable SlotStateRow.slot

/-- The durable state.  Cursors and slot states belong to a stream, events to all streams. -/
structure Db where
  events : EventTable
  streamCursors : String → Option StreamCursorRow
  streamSlots : String → SlotTable

def Db.empty : Db := ⟨.empty, fun _ => none, fun _ => .empty⟩

def Db.setCursor (db : Db) (streamName : String) (row : StreamCursorRow) : Db :=
  { db with streamCursors := fun name => if name = streamName then some row
      else db.streamCursors name }

def Db.setSlots (db : Db) (streamName : String) (slots : SlotTable) : Db :=
  { db with streamSlots := fun name => if name = streamName then slots else db.streamSlots name }

section Columns

variable (db : Db) (streamName name : String) (row : StreamCursorRow) (slots : SlotTable)

@[simp] theorem Db.setCursor_events : (db.setCursor streamName row).events = db.events := rfl
@[simp] theorem Db.setCursor_slots :
    (db.setCursor streamName row).streamSlots = db.streamSlots := rfl
@[simp] theorem Db.setCursor_cursor :
    (db.setCursor streamName row).streamCursors streamName = some row := if_pos rfl
@[simp] theorem Db.setSlots_events : (db.setSlots streamName slots).events = db.events := rfl
@[simp] theorem Db.setSlots_cursors :
    (db.setSlots streamName slots).streamCursors = db.streamCursors := rfl
@[simp] theorem Db.setSlots_slots :
    (db.setSlots streamName slots).streamSlots streamName = slots := if_pos rfl

@[simp] theorem Db.setSlots_self : db.setSlots streamName (db.streamSlots streamName) = db := by
  have h : (fun other => if other = streamName then db.streamSlots streamName
      else db.streamSlots other) = db.streamSlots := by
    funext other
    by_cases hname : other = streamName <;> simp [hname]
  rw [Db.setSlots, h]

end Columns

end YellowstoneStream.Storage

import YellowstoneStream.Domain.Event
import YellowstoneStream.Reasoning.Chunks

/-! The batcher: it hands over its pending events as soon as they fill its capacity. -/

open YellowstoneStream.Domain YellowstoneStream.Reasoning

namespace YellowstoneStream.Stream

structure Batcher where
  capacity : Nat
  pending : List NormalizedEvent
  pending_lt : pending.length < capacity

namespace Batcher

theorem capacity_pos (batcher : Batcher) : 0 < batcher.capacity :=
  Nat.zero_lt_of_lt batcher.pending_lt

/-- None is the failed assertion `capacity > 0`.  `Vec::with_capacity` panics too, above the limit
in `App.Runnable`. -/
def new (capacity : Nat) : Option Batcher :=
  if h : 0 < capacity then some ⟨capacity, [], h⟩ else none

def push (batcher : Batcher) (event : NormalizedEvent) : Option (List NormalizedEvent) × Batcher :=
  let pending := batcher.pending ++ [event]
  if h : pending.length < batcher.capacity then (none, { batcher with pending, pending_lt := h })
  else (some pending, { batcher with pending := [], pending_lt := batcher.capacity_pos })

def flush (batcher : Batcher) : Option (List NormalizedEvent) × Batcher :=
  if batcher.pending.isEmpty then (none, batcher)
  else (some batcher.pending, { batcher with pending := [], pending_lt := batcher.capacity_pos })

/-- The batcher after the given events. -/
def Holds (batcher : Batcher) (size : Nat) (events : List NormalizedEvent) : Prop :=
  batcher.capacity = size ∧ batcher.pending = remainder size events

theorem new_holds {size : Nat} {batcher : Batcher} (h : new size = some batcher) :
    0 < size ∧ batcher.Holds size [] := by
  rw [new] at h
  split at h
  · rename_i hpos
    cases h
    exact ⟨hpos, rfl, rfl⟩
  · cases h

theorem new_of_pos {size : Nat} (h : 0 < size) : ∃ batcher, new size = some batcher :=
  ⟨_, dif_pos h⟩

theorem new_zero : new 0 = none := rfl

theorem push_holds {batcher : Batcher} {size : Nat} {events : List NormalizedEvent}
    (h : batcher.Holds size events) (event : NormalizedEvent) :
    (batcher.push event).2.Holds size (events ++ [event]) ∧
      (batcher.push event).1.toList = completed size events event := by
  obtain ⟨rfl, hpending⟩ := h
  have hlength : (batcher.pending ++ [event]).length =
      (remainder batcher.capacity events).length + 1 := by
    rw [List.length_append, List.length_singleton, hpending]
  rw [completed, Holds, remainder_snoc, ← hlength, ← hpending]
  by_cases hlt : (batcher.pending ++ [event]).length < batcher.capacity
  · have hpush : batcher.push event =
        (none, { batcher with pending := batcher.pending ++ [event], pending_lt := hlt }) :=
      dif_pos hlt
    rw [if_neg (Nat.not_le.mpr hlt), if_neg (Nat.not_le.mpr hlt), hpush]
    exact ⟨⟨rfl, rfl⟩, rfl⟩
  · have hpush : batcher.push event = (some (batcher.pending ++ [event]),
        { batcher with pending := [], pending_lt := batcher.capacity_pos }) := dif_neg hlt
    rw [if_pos (Nat.le_of_not_lt hlt), if_pos (Nat.le_of_not_lt hlt), hpush]
    exact ⟨⟨rfl, rfl⟩, rfl⟩

/-- A push hands over everything, or keeps everything. -/
theorem push_length (batcher : Batcher) (event : NormalizedEvent) :
    match batcher.push event with
    | (some batch, batcher') =>
        batch.length = batcher.pending.length + 1 ∧ batcher'.pending = []
    | (none, batcher') => batcher'.pending.length = batcher.pending.length + 1 := by
  by_cases h : (batcher.pending ++ [event]).length < batcher.capacity
  · have hpush : batcher.push event =
        (none, { batcher with pending := batcher.pending ++ [event], pending_lt := h }) :=
      dif_pos h
    rw [hpush]
    exact List.length_append
  · have hpush : batcher.push event = (some (batcher.pending ++ [event]),
        { batcher with pending := [], pending_lt := batcher.capacity_pos }) := dif_neg h
    rw [hpush]
    exact ⟨List.length_append, rfl⟩

theorem flush_holds {batcher : Batcher} {size : Nat} {events : List NormalizedEvent}
    (h : batcher.Holds size events) :
    batcher.flush.1.toList =
      if (remainder size events).isEmpty then [] else [remainder size events] := by
  rw [flush, h.2]
  split <;> rfl

end Batcher

end YellowstoneStream.Stream

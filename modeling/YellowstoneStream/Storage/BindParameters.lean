import Mathlib.Data.List.Dedup
import YellowstoneStream.Storage.EventWriter
import YellowstoneStream.Storage.SlotRecording

/-!
# The bind parameters of the inserts

Both inserts bind every column of every row, so a statement grows with its batch.
-/

open YellowstoneStream.Domain YellowstoneStream.Reasoning

namespace YellowstoneStream.Storage

-- a Bind message counts its parameters in 16 bits
def maxBindParameters : Nat := 2 ^ 16 - 1

/-- The parameters of the insert that `write_batch` builds, nine for each row; none without an
insert. -/
def writeBatchBinds (hasher : Hasher) (events : List NormalizedEvent) : Option Nat :=
  if events.isEmpty then none
  else
    let (rows, _) := convertEvents hasher events
    if rows.isEmpty then none else some (9 * rows.length)

/-- The parameters of the insert that `record_slot_states` builds, five for each row. -/
def recordSlotStatesBinds (order : IterationOrder) (updates : List SlotStateUpdate) : Option Nat :=
  if updates.isEmpty then none
  else
    match (order.permute (mergeUpdates updates).rows).mapM SlotStateRow.tryFrom with
    | .error _ => none
    | .ok rows => some (5 * rows.length)

theorem writeBatchBinds_le {hasher : Hasher} {events : List NormalizedEvent} {n : Nat}
    (h : writeBatchBinds hasher events = some n) : n ≤ 9 * events.length := by
  have hlength := @convertEvents_length hasher events
  unfold writeBatchBinds at h
  split at h
  · cases h
  · dsimp only at h
    split at h
    · cases h
    · cases h
      omega

/-- When all events convert, every one of them is a row. -/
theorem writeBatchBinds_of_convertible (hasher : Hasher) {events : List NormalizedEvent}
    (hne : events ≠ []) (hfits : ∀ event ∈ events, event.slot ≤ i64Max) :
    writeBatchBinds hasher events = some (9 * events.length) := by
  have hskipped : (convertEvents hasher events).2 = 0 := by
    rw [convertEvents_skipped, List.countP_eq_zero]
    intro event hevent
    simpa using hfits event hevent
  have hlength := @convertEvents_length hasher events
  have hpos := List.length_pos_iff.mpr hne
  have hrows : (convertEvents hasher events).1 ≠ [] := by
    apply List.length_pos_iff.mp
    omega
  unfold writeBatchBinds
  rw [if_neg (mt List.isEmpty_iff.mp hne)]
  dsimp only
  rw [if_neg (mt List.isEmpty_iff.mp hrows)]
  congr 2
  omega

/-- The merged rows are one for each distinct slot. -/
theorem length_mergeUpdates (updates : List SlotStateUpdate) :
    (mergeUpdates updates).rows.length = (updates.map SlotStateUpdate.slot).dedup.length := by
  have hperm : ((mergeUpdates updates).rows.map SlotStateUpdate.slot).Perm
      (updates.map SlotStateUpdate.slot).dedup := by
    refine (List.perm_ext_iff_of_nodup (mergeUpdates updates).unique (List.nodup_dedup _)).mpr ?_
    intro slot
    show slot ∈ (mergeUpdates updates).keys ↔ _
    rw [KeyedTable.mem_keys_iff, find_mergeUpdates, List.mem_dedup, List.mem_map]
    constructor
    · rintro ⟨combined, hcombined⟩
      exact (combinedUpdate_slot hcombined).2.2
    · rintro ⟨update, hupdate, rfl⟩
      obtain ⟨combined, hcombined, -⟩ := combinedUpdate_of_mem hupdate
      exact ⟨combined, hcombined⟩
  rw [← hperm.length_eq, List.length_map]

theorem recordSlotStatesBinds_eq {order : IterationOrder} {updates : List SlotStateUpdate} {n : Nat}
    (h : recordSlotStatesBinds order updates = some n) :
    n = 5 * (updates.map SlotStateUpdate.slot).dedup.length := by
  unfold recordSlotStatesBinds at h
  split at h
  · cases h
  by_cases hfits : ∀ update ∈ order.permute (mergeUpdates updates).rows, update.Fits
  · rw [rowsTryFrom_of_fits hfits] at h
    cases h
    rw [List.length_map, (order.perm _).length_eq, length_mergeUpdates]
  · obtain ⟨slot, herror⟩ := rowsTryFrom_of_not_fits (by simpa using hfits)
    rw [herror] at h
    cases h

end YellowstoneStream.Storage

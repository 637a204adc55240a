import Mathlib.Data.List.Induction
import YellowstoneStream.Storage.Slots

/-!
# What recording slot states does

A call merges its updates slot by slot before it inserts them, so the rows it writes depend on the
updates of each slot alone, and neither on the hash map's order nor on how often a slot appears.
-/

open YellowstoneStream.Reasoning

namespace YellowstoneStream.Storage

/-- The updates of one slot, in order. -/
def ownUpdates (updates : List SlotStateUpdate) (slot : Nat) : List SlotStateUpdate :=
  updates.filter fun update => update.slot = slot

/-- The parent a call records for a slot: the last one given. -/
def lastParent (updates : List SlotStateUpdate) (slot : Nat) : Option Nat :=
  ((ownUpdates updates slot).filterMap SlotStateUpdate.parentSlot).getLast?

def combinedUpdate (updates : List SlotStateUpdate) (slot : Nat) : Option SlotStateUpdate :=
  if (ownUpdates updates slot).isEmpty then none
  else
    some
      { slot := slot
        parentSlot := lastParent updates slot
        finalized := (ownUpdates updates slot).any SlotStateUpdate.finalized
        dead := (ownUpdates updates slot).any SlotStateUpdate.dead }

/-- Every row the call would write fits into BIGINT columns. -/
def UpdatesFit (updates : List SlotStateUpdate) : Prop :=
  ∀ update ∈ updates, update.slot ≤ i64Max ∧
    ∀ parent ∈ lastParent updates update.slot, parent ≤ i64Max

instance (updates : List SlotStateUpdate) : Decidable (UpdatesFit updates) :=
  inferInstanceAs (Decidable (∀ update ∈ updates, update.slot ≤ i64Max ∧
    ∀ parent ∈ lastParent updates update.slot, parent ≤ i64Max))

def SlotStateUpdate.toRow (update : SlotStateUpdate) : SlotStateRow :=
  ⟨update.slot, update.parentSlot.map Int.ofNat, update.finalized, update.dead⟩

def SlotStateUpdate.Fits (update : SlotStateUpdate) : Prop :=
  update.slot ≤ i64Max ∧ ∀ parent ∈ update.parentSlot, parent ≤ i64Max

instance (update : SlotStateUpdate) : Decidable update.Fits :=
  inferInstanceAs (Decidable (_ ∧ ∀ parent ∈ update.parentSlot, parent ≤ i64Max))

/-- The row a slot has after a successful call. -/
def recordedRow (slots : SlotTable) (updates : List SlotStateUpdate) (slot : Nat) :
    Option SlotStateRow :=
  match combinedUpdate updates slot with
  | none => slots.find slot
  | some update => some (KeyedTable.merged mergeRow (slots.find slot) update.toRow)

/-! ## The hash map -/

theorem ownUpdates_append (updates : List SlotStateUpdate) (update : SlotStateUpdate)
    (slot : Nat) :
    ownUpdates (updates ++ [update]) slot =
      ownUpdates updates slot ++ if update.slot = slot then [update] else [] := by
  rw [ownUpdates, List.filter_append, ← ownUpdates]
  by_cases h : update.slot = slot <;> simp [h]

theorem find_mergeUpdates (updates : List SlotStateUpdate) (slot : Nat) :
    (mergeUpdates updates).find slot = combinedUpdate updates slot := by
  induction updates using List.reverseRecOn with
  | nil => rfl
  | append_singleton updates update ih =>
      rw [mergeUpdates, KeyedTable.upsertAll_append, ← mergeUpdates, KeyedTable.upsertAll_cons,
        KeyedTable.upsertAll_nil, KeyedTable.find_upsert, ih]
      by_cases hslot : update.slot = slot
      · -- the new update is the last of its slot's, and merges into what they gave before
        rw [if_pos hslot, combinedUpdate, combinedUpdate, lastParent, lastParent,
          ownUpdates_append, if_pos hslot]
        cases hown : ownUpdates updates slot with
        | nil =>
            obtain ⟨s, parent, finalized, dead⟩ := update
            cases parent <;> simp_all [KeyedTable.merged]
        | cons first rest =>
            obtain ⟨s, parent, finalized, dead⟩ := update
            cases parent <;>
              simp_all [KeyedTable.merged, mergeUpdate, Bool.or_assoc]
      · rw [if_neg hslot, combinedUpdate, combinedUpdate, lastParent, lastParent,
          ownUpdates_append, if_neg hslot, List.append_nil]

theorem mem_mergeUpdates (updates : List SlotStateUpdate) (update : SlotStateUpdate) :
    update ∈ (mergeUpdates updates).rows ↔ combinedUpdate updates update.slot = some update := by
  rw [← find_mergeUpdates, KeyedTable.find_eq_some_iff]
  exact (and_iff_left rfl).symm

theorem combinedUpdate_of_mem {updates : List SlotStateUpdate} {update : SlotStateUpdate}
    (h : update ∈ updates) : ∃ combined, combinedUpdate updates update.slot = some combined ∧
      combined.slot = update.slot ∧ combined.parentSlot = lastParent updates update.slot := by
  have hown : update ∈ ownUpdates updates update.slot := by simp [ownUpdates, h]
  rw [combinedUpdate, if_neg fun hnil => List.ne_nil_of_mem hown (List.isEmpty_iff.mp hnil)]
  exact ⟨_, rfl, rfl, rfl⟩

theorem combinedUpdate_slot {updates : List SlotStateUpdate} {slot : Nat}
    {combined : SlotStateUpdate} (h : combinedUpdate updates slot = some combined) :
    combined.slot = slot ∧ combined.parentSlot = lastParent updates slot ∧
      ∃ update ∈ updates, update.slot = slot := by
  rw [combinedUpdate] at h
  split at h
  · cases h
  · rename_i hown
    cases h
    rw [List.isEmpty_iff] at hown
    obtain ⟨update, hupdate⟩ := List.exists_mem_of_ne_nil _ hown
    simp only [ownUpdates, List.mem_filter, decide_eq_true_eq] at hupdate
    exact ⟨rfl, rfl, update, hupdate⟩

theorem updatesFit_iff (updates : List SlotStateUpdate) :
    UpdatesFit updates ↔ ∀ update ∈ (mergeUpdates updates).rows, update.Fits := by
  constructor
  · intro h update hupdate
    rw [mem_mergeUpdates] at hupdate
    obtain ⟨hslot, hparent, given, hgiven, heq⟩ := combinedUpdate_slot hupdate
    have hfit := h given hgiven
    rw [heq, ← hparent] at hfit
    exact hfit
  · intro h update hupdate
    obtain ⟨combined, hcombined, hslot, hparent⟩ := combinedUpdate_of_mem hupdate
    have hfit := h combined ((mem_mergeUpdates _ _).mpr (hslot ▸ hcombined))
    rw [SlotStateUpdate.Fits, hslot, hparent] at hfit
    exact hfit

/-! ## The rows -/

theorem rowTryFrom_of_fits {update : SlotStateUpdate} (h : update.Fits) :
    SlotStateRow.tryFrom update = .ok update.toRow := by
  obtain ⟨slot, parent, finalized, dead⟩ := update
  rw [SlotStateRow.tryFrom, i64TryFrom_of_le h.1]
  cases parent with
  | none => rfl
  | some parent =>
      have hparent : parent ≤ i64Max := h.2 parent rfl
      simp only [i64TryFrom_of_le hparent]
      rfl

theorem rowTryFrom_of_not_fits {update : SlotStateUpdate} (h : ¬ update.Fits) :
    ∃ slot, SlotStateRow.tryFrom update = .error (.slotOutOfRange slot) := by
  obtain ⟨slot, parent, finalized, dead⟩ := update
  rw [SlotStateRow.tryFrom]
  by_cases hslot : slot ≤ i64Max
  · -- the slot fits, so the error names the parent
    cases parent with
    | none => exact absurd ⟨hslot, fun _ hnone => nomatch hnone⟩ h
    | some parent =>
        have hparent : i64Max < parent := by
          by_contra hle
          refine h ⟨hslot, fun p hp => ?_⟩
          cases hp
          exact Nat.le_of_not_lt hle
        simp only [i64TryFrom_of_le hslot, i64TryFrom_of_gt hparent]
        exact ⟨parent, rfl⟩
  · simp only [i64TryFrom_of_gt (Nat.lt_of_not_le hslot)]
    exact ⟨slot, rfl⟩

theorem rowsTryFrom_of_fits {updates : List SlotStateUpdate} (h : ∀ update ∈ updates, update.Fits) :
    updates.mapM SlotStateRow.tryFrom = .ok (updates.map SlotStateUpdate.toRow) := by
  induction updates with
  | nil => rfl
  | cons update updates ih =>
      rw [List.mapM_cons, rowTryFrom_of_fits (h update List.mem_cons_self),
        ih fun u hu => h u (List.mem_cons_of_mem _ hu)]
      rfl

/-- The conversion stops at the first row that does not fit. -/
theorem rowsTryFrom_of_not_fits {updates : List SlotStateUpdate}
    (h : ∃ update ∈ updates, ¬ update.Fits) :
    ∃ slot, updates.mapM SlotStateRow.tryFrom = .error (.slotOutOfRange slot) := by
  induction updates with
  | nil => simp at h
  | cons update updates ih =>
      rw [List.mapM_cons]
      by_cases hfits : update.Fits
      · obtain ⟨bad, hbad, hnot⟩ := h
        have hrest : bad ∈ updates := (List.mem_cons.mp hbad).resolve_left fun heq =>
          hnot (heq ▸ hfits)
        obtain ⟨slot, hslot⟩ := ih ⟨bad, hrest, hnot⟩
        rw [rowTryFrom_of_fits hfits, hslot]
        exact ⟨slot, rfl⟩
      · obtain ⟨slot, hslot⟩ := rowTryFrom_of_not_fits hfits
        rw [hslot]
        exact ⟨slot, rfl⟩

theorem toRow_slot_nodup (order : IterationOrder) (updates : List SlotStateUpdate) :
    (((order.permute (mergeUpdates updates).rows).map SlotStateUpdate.toRow).map
      SlotStateRow.slot).Nodup := by
  have hkeys := ((order.perm (mergeUpdates updates).rows).map SlotStateUpdate.slot).nodup_iff.mpr
    (mergeUpdates updates).unique
  have hcast := hkeys.map (f := fun n : Nat => (n : Int)) (fun _ _ h => Int.ofNat.inj h)
  rw [List.map_map] at hcast ⊢
  exact hcast

/-- The table after the statement of a call. -/
def slotsAfter (order : IterationOrder) (slots : SlotTable) (updates : List SlotStateUpdate) :
    SlotTable :=
  slots.upsertAll mergeRow ((order.permute (mergeUpdates updates).rows).map SlotStateUpdate.toRow)

section After

variable (order : IterationOrder) (slots : SlotTable) (updates : List SlotStateUpdate)

theorem find_slotsAfter (slot : Nat) :
    (slotsAfter order slots updates).find slot = recordedRow slots updates slot := by
  have hperm := order.perm (mergeUpdates updates).rows
  rw [slotsAfter, recordedRow]
  cases hcombined : combinedUpdate updates slot with
  | none =>
      apply KeyedTable.find_upsertAll_of_not_mem
      intro hmem
      simp only [List.mem_map] at hmem
      obtain ⟨_, ⟨update, hupdate, rfl⟩, heq⟩ := hmem
      have hslot : update.slot = slot := Int.ofNat.inj heq
      rw [hperm.mem_iff, mem_mergeUpdates, hslot, hcombined] at hupdate
      cases hupdate
  | some update =>
      have hslot := (combinedUpdate_slot hcombined).1
      have hmem : update ∈ order.permute (mergeUpdates updates).rows := by
        rw [hperm.mem_iff, mem_mergeUpdates, hslot, hcombined]
      -- the hash map has each slot once, so the statement does not touch a row twice
      have hfind := KeyedTable.find_upsertAll_of_mem mergeRow slots
        (toRow_slot_nodup order updates) (List.mem_map_of_mem hmem)
      have hkey : update.toRow.slot = slot := congrArg Nat.cast hslot
      rwa [hkey] at hfind

theorem find_slotsAfter_of_neg {key : Int} (h : key < 0) :
    (slotsAfter order slots updates).find key = slots.find key := by
  apply KeyedTable.find_upsertAll_of_not_mem
  intro hmem
  simp only [List.mem_map] at hmem
  obtain ⟨_, ⟨update, -, rfl⟩, rfl⟩ := hmem
  exact absurd h (Int.not_lt.mpr (Int.natCast_nonneg update.slot))

theorem keys_slotsAfter {key : Int} (h : key ∈ (slotsAfter order slots updates).keys) :
    key ∈ slots.keys ∨ 0 ≤ key := by
  rw [slotsAfter, KeyedTable.mem_keys_upsertAll] at h
  refine h.imp_right fun hmem => ?_
  simp only [List.mem_map] at hmem
  obtain ⟨_, ⟨update, -, rfl⟩, rfl⟩ := hmem
  exact Int.natCast_nonneg update.slot

end After

theorem recordSlotStates_eq (order : IterationOrder) (db : Db) (streamName : String)
    {updates : List SlotStateUpdate} (h : UpdatesFit updates) :
    recordSlotStates order db streamName updates =
      (.ok (), db.setSlots streamName (slotsAfter order (db.streamSlots streamName) updates)) := by
  have hperm := order.perm (mergeUpdates updates).rows
  rw [recordSlotStates]
  split
  · rename_i hnil
    rw [List.isEmpty_iff.mp hnil] at hperm ⊢
    rw [slotsAfter, List.Perm.eq_nil hperm, List.map_nil, KeyedTable.upsertAll_nil,
      Db.setSlots_self]
  · have hfits := (updatesFit_iff updates).mp h
    rw [rowsTryFrom_of_fits fun u hu => hfits u (hperm.mem_iff.mp hu)]
    simp only [insertSlots, if_pos (toRow_slot_nodup order updates)]
    rfl

/-- Recording succeeds when every merged row fits. -/
theorem recordSlotStates_of_fits (order : IterationOrder) (db : Db) (streamName : String)
    {updates : List SlotStateUpdate} (h : UpdatesFit updates) :
    ∃ slots, recordSlotStates order db streamName updates =
        (.ok (), db.setSlots streamName slots) ∧
      (∀ slot : Nat, slots.find slot = recordedRow (db.streamSlots streamName) updates slot) ∧
      ∀ k ∈ slots.keys, k ∈ (db.streamSlots streamName).keys ∨ 0 ≤ k :=
  ⟨_, recordSlotStates_eq order db streamName h, find_slotsAfter order _ updates,
    fun _ => keys_slotsAfter order _ updates⟩

theorem recordSlotStates_of_not_fits (order : IterationOrder) (db : Db) (streamName : String)
    {updates : List SlotStateUpdate} (h : ¬ UpdatesFit updates) :
    ∃ slot, recordSlotStates order db streamName updates = (.error (.slotOutOfRange slot), db) := by
  rw [updatesFit_iff] at h
  push Not at h
  obtain ⟨update, hupdate, hnot⟩ := h
  rw [recordSlotStates]
  split
  · rename_i hnil
    rw [List.isEmpty_iff.mp hnil] at hupdate
    exact absurd hupdate List.not_mem_nil
  · have hmem := (order.perm (mergeUpdates updates).rows).mem_iff.mpr hupdate
    obtain ⟨slot, hslot⟩ := rowsTryFrom_of_not_fits ⟨update, hmem, hnot⟩
    rw [hslot]
    exact ⟨slot, rfl⟩

end YellowstoneStream.Storage

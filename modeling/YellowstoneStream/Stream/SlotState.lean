import YellowstoneStream.Domain.Event
import YellowstoneStream.Storage.Slots

/-! Slot states derived from slot events: only finalized and dead slots have one. -/

open YellowstoneStream.Domain YellowstoneStream.Storage

namespace YellowstoneStream.Stream

def slotStateFromEvent (event : NormalizedEvent) : Option SlotStateUpdate :=
  match event.identity with
  | .slot _ slotNo status =>
      -- nothing compares the parent with the slot
      let update (finalized dead : Bool) : SlotStateUpdate :=
        { slot := slotNo
          parentSlot := (event.payload.get "parent").bind Value.asU64
          finalized := finalized
          dead := dead }
      match status with
      | .finalized => some (update true false)
      | .dead => some (update false true)
      | .processed | .confirmed => none
  | _ => none

theorem slotStateFromEvent_slot {event : NormalizedEvent} {update : SlotStateUpdate}
    (h : slotStateFromEvent event = some update) :
    update.slot = event.slot ∧ event.kind = .slot := by
  obtain ⟨identity, payload⟩ := event
  cases identity with
  | slot cluster slotNo status => cases status <;> cases h <;> exact ⟨rfl, rfl⟩
  | _ => cases h

def FinalizedSlotEvent (event : NormalizedEvent) : Prop :=
  ∃ cluster slot, event.identity = .slot cluster slot .finalized

theorem finalizedSlotEvent_of_update {event : NormalizedEvent} {update : SlotStateUpdate}
    (h : slotStateFromEvent event = some update) (hfinalized : update.finalized = true) :
    FinalizedSlotEvent event := by
  obtain ⟨identity, payload⟩ := event
  cases identity with
  | slot cluster slotNo status =>
      cases status with
      | finalized => exact ⟨cluster, slotNo, rfl⟩
      | dead =>
          cases h
          cases hfinalized
      | processed | confirmed => cases h
  | _ => cases h

end YellowstoneStream.Stream

import YellowstoneStream.Storage.ChainRecords

/-!
# Recording in one call or in many

A call merges its updates in a hash map and then into the stored rows; the two merges compose, so
only the list of updates matters, and not how it was cut into calls.
-/

open YellowstoneStream.Reasoning

namespace YellowstoneStream.Storage

/-- The same row for every slot of every stream, and the same of everything else. -/
structure SameState (a b : Db) : Prop where
  events : a.events = b.events
  cursors : a.streamCursors = b.streamCursors
  rows : ∀ name key, (a.streamSlots name).find key = (b.streamSlots name).find key

theorem SameState.refl (db : Db) : SameState db db := ⟨rfl, rfl, fun _ _ => rfl⟩

theorem SameState.symm {a b : Db} (h : SameState a b) : SameState b a :=
  ⟨h.events.symm, h.cursors.symm, fun name key => (h.rows name key).symm⟩

theorem SameState.trans {a b c : Db} (h : SameState a b) (h' : SameState b c) : SameState a c :=
  ⟨h.events.trans h'.events, h.cursors.trans h'.cursors,
    fun name key => (h.rows name key).trans (h'.rows name key)⟩

/-! ## The two merges compose -/

section Merges

variable (slots : SlotTable) (a b : List SlotStateUpdate) (slot : Nat)

theorem lastParent_append :
    lastParent (a ++ b) slot = (lastParent b slot).or (lastParent a slot) := by
  rw [lastParent, ownUpdates, List.filter_append, List.filterMap_append, List.getLast?_append]
  rfl

theorem combinedUpdate_append :
    combinedUpdate (a ++ b) slot =
      match combinedUpdate b slot with
      | none => combinedUpdate a slot
      | some later => some (KeyedTable.merged mergeUpdate (combinedUpdate a slot) later) := by
  have hown : ownUpdates (a ++ b) slot = ownUpdates a slot ++ ownUpdates b slot :=
    List.filter_append a b
  unfold combinedUpdate
  rw [hown, lastParent_append]
  cases hb : ownUpdates b slot with
  | nil =>
      have hparent : lastParent b slot = none := by rw [lastParent, hb]; rfl
      rw [List.append_nil, hparent, Option.none_or]
      rfl
  | cons later rest =>
      cases ha : ownUpdates a slot with
      | nil =>
          have hparent : lastParent a slot = none := by rw [lastParent, ha]; rfl
          rw [List.nil_append, hparent, Option.or_none]
          rfl
      | cons earlier others =>
          -- both lists name the slot, so the later one is merged into the earlier one
          rw [List.any_append, List.any_append]
          cases hparent : lastParent b slot <;> rfl

theorem mergeRow_toRow (stored : Option SlotStateRow) (earlier later : SlotStateUpdate) :
    KeyedTable.merged mergeRow stored (mergeUpdate.merge earlier later).toRow =
      mergeRow.merge (KeyedTable.merged mergeRow stored earlier.toRow) later.toRow := by
  cases stored with
  | none =>
      cases hparent : later.parentSlot <;>
        simp [KeyedTable.merged, mergeRow, mergeUpdate, SlotStateUpdate.toRow, hparent]
  | some row =>
      cases hparent : later.parentSlot <;>
        simp [KeyedTable.merged, mergeRow, mergeUpdate, SlotStateUpdate.toRow, hparent,
          Bool.or_assoc]

/-- Recording more updates in a table that already has some. -/
theorem recordedRow_append {slots' : SlotTable} (h : slots'.find slot = recordedRow slots a slot) :
    recordedRow slots' b slot = recordedRow slots (a ++ b) slot := by
  rw [recordedRow, h, recordedRow, recordedRow, combinedUpdate_append]
  cases hb : combinedUpdate b slot with
  | none => rfl
  | some later =>
      cases ha : combinedUpdate a slot with
      | none => rfl
      | some earlier => exact congrArg some (mergeRow_toRow (slots.find slot) earlier later).symm

end Merges

section Calls

variable {slots slots' : SlotTable} {updates : List SlotStateUpdate} {streamName : String}

theorem slotsAfter_append (first second once : IterationOrder) (slots : SlotTable)
    (a b : List SlotStateUpdate) (key : Int) :
    (slotsAfter second (slotsAfter first slots a) b).find key =
      (slotsAfter once slots (a ++ b)).find key := by
  by_cases hneg : key < 0
  · rw [find_slotsAfter_of_neg _ _ _ hneg, find_slotsAfter_of_neg _ _ _ hneg,
      find_slotsAfter_of_neg _ _ _ hneg]
  · obtain ⟨slot, rfl⟩ := Int.eq_ofNat_of_zero_le (Int.not_lt.mp hneg)
    rw [find_slotsAfter, find_slotsAfter]
    exact recordedRow_append slots a b slot (find_slotsAfter first slots a slot)

theorem recordAll_cons (streamName : String) (db : Db) (call : Recording)
    (calls : List Recording) :
    recordAll streamName db (call :: calls) =
      recordAll streamName (recordSlotStates call.1 db streamName call.2).2 calls := rfl

/-- Whatever the cutting and the iteration orders, the calls leave what one call would. -/
theorem recordAll_sameState (order : IterationOrder) (calls : List Recording) (db : Db)
    (fits : ∀ call ∈ calls, ∀ update ∈ call.2, update.Fits) :
    SameState (recordAll streamName db calls)
      (db.setSlots streamName
        (slotsAfter order (db.streamSlots streamName) (calls.map Prod.snd).flatten)) := by
  induction calls generalizing db with
  | nil =>
      have hnone : slotsAfter order (db.streamSlots streamName) [] = db.streamSlots streamName := by
        rw [slotsAfter, List.Perm.eq_nil (order.perm (mergeUpdates []).rows)]
        rfl
      rw [List.map_nil, List.flatten_nil, hnone, Db.setSlots_self]
      exact .refl db
  | cons call calls ih =>
      have hcall := updatesFit_of_fits (fits call List.mem_cons_self)
      have hrest := ih (db.setSlots streamName
        (slotsAfter call.1 (db.streamSlots streamName) call.2))
        fun c hc => fits c (List.mem_cons_of_mem _ hc)
      rw [recordAll_cons, recordSlotStates_eq call.1 db streamName hcall]
      refine hrest.trans ⟨rfl, rfl, fun name key => ?_⟩
      rw [List.map_cons, List.flatten_cons]
      by_cases hname : name = streamName
      · rw [hname, Db.setSlots_slots, Db.setSlots_slots, Db.setSlots_slots]
        exact slotsAfter_append call.1 order order (db.streamSlots streamName) call.2 _ key
      · simp only [Db.setSlots, if_neg hname]

theorem rows_nodup_of_ok {order : IterationOrder} {rows : List SlotStateRow}
    (h : (order.permute (mergeUpdates updates).rows).mapM SlotStateRow.tryFrom = .ok rows) :
    (rows.map SlotStateRow.slot).Nodup := by
  by_cases hfits : ∀ update ∈ order.permute (mergeUpdates updates).rows, update.Fits
  · rw [rowsTryFrom_of_fits hfits] at h
    cases h
    exact toRow_slot_nodup order updates
  · obtain ⟨slot, herror⟩ := rowsTryFrom_of_not_fits (by simpa using hfits)
    rw [herror] at h
    cases h

/-- Updates that fit are recorded by one call as by one call for each of them, or by any other
cutting; the statement names no slot twice; and a merged row out of range fails the call. -/
theorem one_call_records_as_many (order : IterationOrder) (db : Db) (streamName : String)
    (updates : List SlotStateUpdate) :
    ((∀ update ∈ updates, update.Fits) →
      (∀ (order' : IterationOrder) (db' : Db) (part : List SlotStateUpdate), part ⊆ updates →
        (recordSlotStates order' db' streamName part).1 = .ok ()) ∧
      (∀ calls : List Recording, calls.map Prod.snd = updates.map (fun update => [update]) →
        SameState (recordSlotStates order db streamName updates).2
          (recordAll streamName db calls)) ∧
      ∀ calls : List Recording, (calls.map Prod.snd).flatten = updates →
        SameState (recordSlotStates order db streamName updates).2
          (recordAll streamName db calls)) ∧
    (∀ rows, (order.permute (mergeUpdates updates).rows).mapM SlotStateRow.tryFrom = .ok rows →
      (rows.map SlotStateRow.slot).Nodup) ∧
    ((∃ merged ∈ (mergeUpdates updates).rows, ¬ merged.Fits) →
      ∃ slot, recordSlotStates order db streamName updates =
        (.error (.slotOutOfRange slot), db)) := by
  refine ⟨fun fits => ?_, fun rows => rows_nodup_of_ok, ?_⟩
  · have anyCutting : ∀ calls : List Recording, (calls.map Prod.snd).flatten = updates →
        SameState (recordSlotStates order db streamName updates).2
          (recordAll streamName db calls) := by
      intro calls hcalls
      have hfits : ∀ call ∈ calls, ∀ update ∈ call.2, update.Fits := by
        intro call hcall update hupdate
        apply fits
        rw [← hcalls]
        exact List.mem_flatten.mpr ⟨call.2, List.mem_map_of_mem hcall, hupdate⟩
      have hsame : SameState (recordAll streamName db calls) _ :=
        recordAll_sameState order calls db hfits
      rw [hcalls] at hsame
      rw [recordSlotStates_eq order db streamName (updatesFit_of_fits fits)]
      exact hsame.symm
    refine ⟨?_, ?_, anyCutting⟩
    · intro order' db' part hpart
      have hpartFits := updatesFit_of_fits fun update hupdate => fits update (hpart hupdate)
      rw [recordSlotStates_eq order' db' streamName hpartFits]
    · intro calls hcalls
      apply anyCutting calls
      rw [hcalls, ← List.flatMap_def, List.flatMap_singleton']
  · rintro ⟨merged, hmerged, hnot⟩
    apply recordSlotStates_of_not_fits order db streamName
    rw [updatesFit_iff]
    exact fun hall => hnot (hall merged hmerged)

end Calls

/-- A hash map that yields the last slot first. -/
def reverseOrder : IterationOrder := ⟨List.reverse, List.reverse_perm⟩

theorem one_call_records_three :
    SameState
      (recordSlotStates reverseOrder .empty "test"
        [⟨5, some 4, false, false⟩, ⟨6, some 5, true, true⟩, ⟨5, none, true, false⟩]).2
      (recordAll "test" .empty
        [(insertionOrder, [⟨5, some 4, false, false⟩]), (insertionOrder, [⟨6, some 5, true, true⟩]),
          (insertionOrder, [⟨5, none, true, false⟩])]) := by
  exact ((one_call_records_as_many reverseOrder .empty "test" _).1 (by decide)).2.1 _ rfl

end YellowstoneStream.Storage

import YellowstoneStream.App.Replay

/-!
# Replaying after crashes

What is left when crashed runs over a file were followed by one that completed, compared with a
single run that nothing disturbed.
-/

open YellowstoneStream.Domain YellowstoneStream.Reasoning YellowstoneStream.Storage
open YellowstoneStream.Stream

namespace YellowstoneStream.App

/-! ## What a replay leaves -/

/-- The cursor row after batches with these events. -/
def movedCursor (stored : Option StreamCursorRow) (events : List NormalizedEvent) :
    Option StreamCursorRow :=
  match (events.map NormalizedEvent.slot).max? with
  | some slot => some (upsertCursor stored slot)
  | none => stored

/-- The tables after a replay that wrote some events and moved the cursor for some. -/
def replayed (hasher : Hasher) (streamName : String) (db : Db)
    (written moved : List NormalizedEvent) : Db :=
  { db with
    events := db.events.insertAllNew (written.filterMap (rowOf hasher))
    streamCursors := fun name =>
      if name = streamName then movedCursor (db.streamCursors streamName) moved
      else db.streamCursors name }

/-- What a call of a replay leaves; its slot-state store does nothing. -/
def applyCall (hasher : Hasher) (db : Db) : PipelineCall → Db
  | .writeBatch batch => { db with events := (writeBatch hasher db.events batch).2 }
  | .updateAfterBatch name slot => (updateAfterBatch db name slot).2
  | _ => db

theorem eq_of_tables {a b : Db} (hevents : a.events = b.events)
    (hcursors : a.streamCursors = b.streamCursors) (hslots : a.streamSlots = b.streamSlots) :
    a = b :=
  Db.mk.injEq .. |>.mpr ⟨hevents, hcursors, hslots⟩

section Replayed

variable {hasher : Hasher} {streamName : String} {db : Db}

theorem upsertCursor_upsertCursor (stored : Option StreamCursorRow) (a b : Nat) :
    upsertCursor (some (upsertCursor stored a)) b = upsertCursor stored (max a b : Nat) := by
  have hmax : ((max a b : Nat) : Int) = max (a : Int) b := by omega
  rw [hmax]
  cases stored with
  | none => rfl
  | some row =>
      show ({ row with lastPersistedSlot := max (max row.lastPersistedSlot a) b } :
        StreamCursorRow) = { row with lastPersistedSlot := max row.lastPersistedSlot (max a b) }
      rw [max_assoc]

theorem max_slot_eq_some_iff {events : List NormalizedEvent} {slot : Nat} :
    (events.map NormalizedEvent.slot).max? = some slot ↔
      ∀ n, (∃ event ∈ events, n ≤ event.slot) ↔ n ≤ slot := by
  rw [List.max?_eq_some_iff]
  constructor
  · rintro ⟨hmem, hle⟩ n
    constructor
    · rintro ⟨event, hevent, hn⟩
      exact hn.trans (hle _ (List.mem_map_of_mem hevent))
    · intro hn
      obtain ⟨event, hevent, rfl⟩ := List.mem_map.mp hmem
      exact ⟨event, hevent, hn⟩
  · intro h
    have hle : ∀ event ∈ events, event.slot ≤ slot := fun event hevent =>
      (h event.slot).mp ⟨event, hevent, le_rfl⟩
    obtain ⟨event, hevent, hge⟩ := (h slot).mpr le_rfl
    refine ⟨List.mem_map.mpr ⟨event, hevent, (hle event hevent).antisymm hge⟩, ?_⟩
    rintro _ hmem
    obtain ⟨other, hother, rfl⟩ := List.mem_map.mp hmem
    exact hle other hother

theorem max_slot_eq_none_iff {events : List NormalizedEvent} :
    (events.map NormalizedEvent.slot).max? = none ↔ events = [] := by
  rw [List.max?_eq_none_iff, List.map_eq_nil_iff]

/-- Only the greatest slot counts. -/
theorem movedCursor_congr (stored : Option StreamCursorRow) {a b : List NormalizedEvent}
    (h : ∀ n, (∃ event ∈ a, n ≤ event.slot) ↔ ∃ event ∈ b, n ≤ event.slot) :
    movedCursor stored a = movedCursor stored b := by
  have hsame : (a.map NormalizedEvent.slot).max? = (b.map NormalizedEvent.slot).max? := by
    apply Option.ext
    intro slot
    rw [max_slot_eq_some_iff, max_slot_eq_some_iff]
    simp only [h]
  rw [movedCursor, hsame]
  rfl

theorem movedCursor_append (stored : Option StreamCursorRow) (a b : List NormalizedEvent) :
    movedCursor (movedCursor stored a) b = movedCursor stored (a ++ b) := by
  cases ha : (a.map NormalizedEvent.slot).max? with
  | none =>
      rw [max_slot_eq_none_iff.mp ha]
      rfl
  | some s =>
      cases hb : (b.map NormalizedEvent.slot).max? with
      | none =>
          rw [max_slot_eq_none_iff.mp hb, List.append_nil]
          rfl
      | some t =>
          have hboth : ((a ++ b).map NormalizedEvent.slot).max? = some (max s t) := by
            rw [max_slot_eq_some_iff] at ha hb ⊢
            intro n
            rw [le_max_iff, ← ha, ← hb]
            simp only [List.mem_append, or_and_right, exists_or]
          rw [movedCursor, movedCursor, movedCursor, ha, hb, hboth]
          exact congrArg some (upsertCursor_upsertCursor stored s t)

theorem replayed_nil : replayed hasher streamName db [] [] = db := by
  have hcursors : (fun name =>
      if name = streamName then movedCursor (db.streamCursors streamName) []
      else db.streamCursors name) = db.streamCursors := by
    funext name
    split
    · rename_i hname
      rw [hname]
      rfl
    · rfl
  rw [replayed, hcursors]
  rfl

theorem replayed_append (w m w' m' : List NormalizedEvent) :
    replayed hasher streamName (replayed hasher streamName db w m) w' m' =
      replayed hasher streamName db (w ++ w') (m ++ m') := by
  have hcursors : (replayed hasher streamName (replayed hasher streamName db w m) w'
      m').streamCursors = (replayed hasher streamName db (w ++ w') (m ++ m')).streamCursors := by
    funext name
    simp only [replayed, if_true]
    split
    · rw [movedCursor_append]
    · rfl
  have hevents : (replayed hasher streamName (replayed hasher streamName db w m) w' m').events =
      (replayed hasher streamName db (w ++ w') (m ++ m')).events := by
    simp only [replayed, List.filterMap_append, KeyedTable.insertAllNew_append]
  exact eq_of_tables hevents hcursors rfl

/-- Which slots the next run skips. -/
theorem covers_replayed (written moved : List NormalizedEvent) (n : Nat) :
    Covers (replayed hasher streamName db written moved) streamName n ↔
      Covers db streamName n ∨ ∃ event ∈ moved, n ≤ event.slot := by
  have hrow : (replayed hasher streamName db written moved).streamCursors streamName =
      movedCursor (db.streamCursors streamName) moved := if_pos rfl
  rw [Covers, hrow, movedCursor]
  cases hmax : (moved.map NormalizedEvent.slot).max? with
  | none =>
      rw [max_slot_eq_none_iff.mp hmax]
      simp [Covers]
  | some slot =>
      rw [max_slot_eq_some_iff] at hmax
      rw [hmax, Covers]
      cases db.streamCursors streamName with
      | none => simp [upsertCursor]
      | some row => simp [upsertCursor]

theorem readable_replayed (h : ReadableCursor db streamName)
    (written moved : List NormalizedEvent) :
    ReadableCursor (replayed hasher streamName db written moved) streamName := by
  have hrow : (replayed hasher streamName db written moved).streamCursors streamName =
      movedCursor (db.streamCursors streamName) moved := if_pos rfl
  rw [ReadableCursor, hrow, movedCursor]
  split
  · rintro row ⟨⟩
    cases hstored : db.streamCursors streamName with
    | none => exact Int.natCast_nonneg _
    | some row =>
        have hpos := h row hstored
        show 0 ≤ max row.lastPersistedSlot _
        omega
  · exact h

/-! ## Calls -/

theorem applyCall_of_reply {c : PipelineCall} {r : PostgresReply Empty c} {db' : Db}
    (h : storeReply hasher noopSlotStateStore db c r db') : db' = applyCall hasher db c := by
  cases c with
  | writeBatch batch => exact h.2
  | updateAfterBatch name slot =>
      rw [applyCall, show Storage.updateAfterBatch db name slot = (r, db') from h]
  | recordSlotStates name updates => exact h.2
  | advanceContiguousFinalized name => exact h.2
  | channelLen | onActivity | onProgress | batchElapsed => exact h

theorem foldl_of_performs {tr : PostgresTrace Empty} {db' : Db}
    (h : Program.Performs (storeReply hasher noopSlotStateStore) db tr db') :
    db' = (Program.calls tr).foldl (applyCall hasher) db := by
  induction h with
  | nil => rfl
  | cons hact _ ih =>
      rw [ih, applyCall_of_reply hact]
      rfl

theorem foldl_slotCalls {advanceFinalizedWatermark : Bool} {states : List SlotStateUpdate}
    {made : List PipelineCall}
    (h : made <+: slotCalls streamName advanceFinalizedWatermark states) :
    made.foldl (applyCall hasher) db = db := by
  have hnone : ∀ c ∈ made, applyCall hasher db c = db := by
    intro c hc
    rcases (mem_slotCalls (h.subset hc)).2 with rfl | ⟨rfl, -⟩ <;> rfl
  clear h
  induction made with
  | nil => rfl
  | cons c made ih =>
      rw [List.foldl_cons, hnone c List.mem_cons_self]
      exact ih fun c hc => hnone c (List.mem_cons_of_mem _ hc)

theorem applyCall_writeBatch (batch : List NormalizedEvent) :
    applyCall hasher db (.writeBatch batch) = replayed hasher streamName db batch [] := by
  have hevents : (applyCall hasher db (.writeBatch batch)).events =
      (replayed hasher streamName db batch []).events := writeBatch_table _ _
  have hsame := congrArg Db.streamCursors (@replayed_nil hasher streamName db)
  exact eq_of_tables hevents hsame.symm rfl

theorem applyCall_updateAfterBatch {batch : List NormalizedEvent} {slot : Nat}
    (hslot : slot ≤ i64Max) (hmax : (batch.map NormalizedEvent.slot).max? = some slot) :
    applyCall hasher db (.updateAfterBatch streamName slot) =
      replayed hasher streamName db [] batch := by
  rw [applyCall, updateAfterBatch_of_le db streamName hslot]
  have hcursors : (db.setCursor streamName (upsertCursor (db.streamCursors streamName)
      slot)).streamCursors = (replayed hasher streamName db [] batch).streamCursors := by
    funext name
    simp only [Db.setCursor, replayed, movedCursor, hmax]
  exact eq_of_tables rfl hcursors rfl

/-- The calls for a batch may be cut off before its rows, before its cursor update or behind
both. -/
theorem foldl_prefix_batchCalls {advanceFinalizedWatermark : Bool} {batch : List NormalizedEvent}
    {made : List PipelineCall}
    (hfits : ∀ slot, .updateAfterBatch streamName slot ∈ made → slot ≤ i64Max)
    (h : made <+: batchCalls streamName advanceFinalizedWatermark batch) :
    made.foldl (applyCall hasher) db = db ∨
      made.foldl (applyCall hasher) db = replayed hasher streamName db batch [] ∨
        made.foldl (applyCall hasher) db = replayed hasher streamName db batch batch := by
  cases made with
  | nil => exact .inl rfl
  | cons first made =>
      rw [batchCalls, List.cons_prefix_cons] at h
      obtain ⟨rfl, h⟩ := h
      right
      rw [List.foldl_cons, @applyCall_writeBatch hasher streamName]
      cases hmax : (batch.map NormalizedEvent.slot).max? with
      | none =>
          rw [hmax] at h
          exact .inl (foldl_slotCalls h)
      | some slot =>
          rw [hmax] at h
          cases made with
          | nil => exact .inl rfl
          | cons second made =>
              obtain ⟨rfl, hrest⟩ := List.cons_prefix_cons.mp h
              have hslot := hfits slot (List.mem_cons_of_mem _ List.mem_cons_self)
              right
              rw [List.foldl_cons, applyCall_updateAfterBatch hslot hmax, foldl_slotCalls hrest,
                replayed_append, List.append_nil, List.nil_append]

theorem foldl_batchCalls {advanceFinalizedWatermark : Bool} {batch : List NormalizedEvent}
    (hfits : ∀ slot, (batch.map NormalizedEvent.slot).max? = some slot → slot ≤ i64Max) :
    (batchCalls streamName advanceFinalizedWatermark batch).foldl (applyCall hasher) db =
      replayed hasher streamName db batch batch := by
  rw [batchCalls, List.foldl_cons, @applyCall_writeBatch hasher streamName, List.foldl_append,
    foldl_slotCalls (List.prefix_refl _)]
  cases hmax : (batch.map NormalizedEvent.slot).max? with
  | none =>
      rw [max_slot_eq_none_iff.mp hmax]
      rfl
  | some slot =>
      show applyCall hasher _ (.updateAfterBatch streamName slot) = _
      rw [applyCall_updateAfterBatch (hfits slot hmax) hmax, replayed_append, List.append_nil,
        List.nil_append]

theorem foldl_batches {batches : List (List NormalizedEvent)}
    (hfits : ∀ batch ∈ batches, ∀ slot, (batch.map NormalizedEvent.slot).max? = some slot →
      slot ≤ i64Max) :
    (batches.flatMap (batchCalls streamName false)).foldl (applyCall hasher) db =
      replayed hasher streamName db batches.flatten batches.flatten := by
  induction batches generalizing db with
  | nil => exact replayed_nil.symm
  | cons batch batches ih =>
      obtain ⟨hfirst, hrest⟩ := List.forall_mem_cons.mp hfits
      rw [List.flatMap_cons, List.foldl_append, foldl_batchCalls hfirst, ih hrest, replayed_append]
      rfl

/-- A run that stops somewhere has written some batches, and has moved the cursor for all of these
or for all but the last. -/
theorem foldl_prefix_batches {batches : List (List NormalizedEvent)} {made : List PipelineCall}
    (hfits : ∀ slot, .updateAfterBatch streamName slot ∈ made → slot ≤ i64Max)
    (h : made <+: batches.flatMap (batchCalls streamName false)) :
    ∃ moved written, moved ≤ written ∧ written ≤ moved + 1 ∧ made.foldl (applyCall hasher) db =
      replayed hasher streamName db (batches.take written).flatten
        (batches.take moved).flatten := by
  induction batches generalizing made db with
  | nil =>
      rw [List.flatMap_nil, List.prefix_nil] at h
      exact ⟨0, 0, le_rfl, Nat.zero_le 1, by rw [h]; exact replayed_nil.symm⟩
  | cons batch batches ih =>
      rw [List.flatMap_cons] at h
      rcases Nat.le_total made.length (batchCalls streamName false batch).length with hle | hle
      · -- cut off within the first batch
        have hcut := List.prefix_of_prefix_length_le h (List.prefix_append _ _) hle
        have hbatch : ((batch :: batches).take 1).flatten = batch := by simp
        rcases foldl_prefix_batchCalls hfits hcut with heq | heq | heq
        · exact ⟨0, 0, le_rfl, Nat.zero_le 1, by rw [heq]; exact replayed_nil.symm⟩
        · exact ⟨0, 1, Nat.zero_le 1, le_rfl, by rw [heq, hbatch]; rfl⟩
        · exact ⟨1, 1, le_rfl, Nat.le_succ 1, by rw [heq, hbatch]⟩
      · obtain ⟨more, rfl⟩ := List.prefix_of_prefix_length_le (List.prefix_append _ _) h hle
        have hfirst : ∀ slot, (batch.map NormalizedEvent.slot).max? = some slot →
            slot ≤ i64Max := fun slot hmax =>
          hfits slot (List.mem_append_left _ (mem_batchCalls_update.mpr hmax))
        obtain ⟨moved, written, hmoved, hone, heq⟩ :=
          ih (fun slot hslot => hfits slot (List.mem_append_right _ hslot))
            ((List.prefix_append_right_inj _).mp h)
        refine ⟨moved + 1, written + 1, Nat.succ_le_succ hmoved, Nat.succ_le_succ hone, ?_⟩
        rw [List.foldl_append, foldl_batchCalls hfirst, heq, replayed_append]
        rfl

end Replayed

/-! ## Runs -/

section Run

variable {job : ReplayJob} {db : Db} {cursor : Option StreamCursor} {x : ReplaySystem}
  (hfits : ∀ event ∈ job.events, event.slot ≤ i64Max)
include hfits

theorem fits_of_mem_chunks : ∀ batch ∈ chunks job.batchSize (job.kept cursor), ∀ slot,
    (batch.map NormalizedEvent.slot).max? = some slot → slot ≤ i64Max := by
  intro batch hmem slot hmax
  obtain ⟨event, hevent, hle⟩ := (max_slot_eq_some_iff.mp hmax slot).mpr le_rfl
  exact hle.trans (hfits event (mem_of_mem_kept (mem_of_mem_chunks _ hmem hevent)))

variable (hbatch : 0 < job.batchSize) (hreach : job.ReachesFrom cursor db x)
include hbatch hreach

theorem stopped_world : ∃ moved written, moved ≤ written ∧
    x.world = replayed job.hasher job.streamName db
      ((job.kept cursor).take (written * job.batchSize))
      ((job.kept cursor).take (moved * job.batchSize)) := by
  obtain ⟨moved, written, hle, -, heq⟩ := @foldl_prefix_batches job.hasher _ db _ _
    (replay_fits hbatch hfits hreach job.streamName) (replay_calls hbatch hfits hreach)
  refine ⟨moved, written, hle, ?_⟩
  rw [foldl_of_performs (replay_performs hreach), heq, flatten_take_chunks hbatch,
    flatten_take_chunks hbatch]

theorem completed_world {summary : PipelineSummary} {j : Joined (Except Empty Unit)}
    (hmain : x.main = .done (.ok summary) j) :
    x.world = replayed job.hasher job.streamName db (job.kept cursor) (job.kept cursor) := by
  rw [foldl_of_performs (replay_performs hreach), replay_done hbatch hreach hmain,
    foldl_batches (fits_of_mem_chunks hfits), flatten_chunks]

end Run

/-! ## Skipping -/

/-- Rows whose ids are stored may be left out of an insert. -/
theorem insertAllNew_filter {hasher : Hasher} {table : EventTable} {events : List NormalizedEvent}
    {p : NormalizedEvent → Bool}
    (h : ∀ event ∈ events, p event = false → event.eventId hasher ∈ table.keys) :
    table.insertAllNew ((events.filter p).filterMap (rowOf hasher)) =
      table.insertAllNew (events.filterMap (rowOf hasher)) := by
  induction events generalizing table with
  | nil => rfl
  | cons event events ih =>
      obtain ⟨hfirst, hrest⟩ := List.forall_mem_cons.mp h
      rw [List.filterMap_cons]
      cases hp : p event with
      | true =>
          rw [List.filter_cons_of_pos hp, List.filterMap_cons]
          cases rowOf hasher event with
          | none => exact ih hrest
          | some row =>
              refine ih fun e he hpe => ?_
              have hkeys := KeyedTable.mem_keys_insertAllNew table [row] (e.eventId hasher)
              exact hkeys.mpr (.inl (hrest e he hpe))
      | false =>
          rw [List.filter_cons_of_neg (by rw [hp]; decide), ih hrest]
          cases hrow : rowOf hasher event with
          | none => rfl
          | some row =>
              have hstored : row.eventId ∈ table.keys := by
                rw [(eventId_of_rowOf hrow).1]
                exact hfirst hp
              show _ = (table.insertNew row).insertAllNew _
              rw [KeyedTable.insertNew_of_mem hstored]

theorem mem_of_mem_remaining {batchSize : Nat} {events rest : List NormalizedEvent}
    (h : Remaining batchSize events rest) : ∀ event ∈ rest, event ∈ events := by
  induction h with
  | whole => exact fun _ h => h
  | cut _ batches ih => exact fun event h => ih event (List.mem_of_mem_filter h)

section Rest

variable {job : ReplayJob} (hfits : ∀ event ∈ job.events, event.slot ≤ i64Max)
  (hsafe : CutSafe job.batchSize job.events) {rest : List NormalizedEvent}
  (hremaining : Remaining job.batchSize job.events rest)
include hfits hsafe hremaining

/-- What a rerun skips is stored. -/
theorem stored_of_not_beyond {moved written : Nat} (hle : moved ≤ written) (table : EventTable)
    {event : NormalizedEvent} (hevent : event ∈ rest)
    (h : event ∉ beyond (rest.take (moved * job.batchSize)) rest) :
    event.eventId job.hasher ∈ (table.insertAllNew
      ((rest.take (written * job.batchSize)).filterMap (rowOf job.hasher))).keys := by
  have hsubset : rest.take (moved * job.batchSize) ⊆ rest.take (written * job.batchSize) :=
    (List.take_prefix_take_left (Nat.mul_le_mul_right _ hle)).subset
  have hwritten : ∀ e ∈ rest.take (moved * job.batchSize), e.eventId job.hasher ∈
      (table.insertAllNew
        ((rest.take (written * job.batchSize)).filterMap (rowOf job.hasher))).keys := by
    intro e he
    refine mem_keys_of_written table (hsubset he) (hfits e ?_)
    exact mem_of_mem_remaining hremaining e (List.mem_of_mem_take he)
  obtain ⟨earlier, hearlier, hslot⟩ := exists_le_of_not_mem_beyond hevent h
  rw [← List.take_append_drop (moved * job.batchSize) rest, List.mem_append] at hevent
  rcases hevent with hdone | hlater
  · exact hwritten event hdone
  · obtain ⟨same, hsame, hidentity⟩ :=
      hsafe rest hremaining moved event hlater earlier hearlier hslot
    have hid := hwritten same hsame
    unfold NormalizedEvent.eventId at hid ⊢
    rwa [← hidentity]

/-- A rerun behind some batches completes what one run over all of them would have left. -/
theorem replayed_beyond (db : Db) {moved written : Nat} (hle : moved ≤ written) :
    replayed job.hasher job.streamName
      (replayed job.hasher job.streamName db (rest.take (written * job.batchSize))
        (rest.take (moved * job.batchSize)))
      (beyond (rest.take (moved * job.batchSize)) rest)
      (beyond (rest.take (moved * job.batchSize)) rest) =
    replayed job.hasher job.streamName db rest rest := by
  rw [replayed_append]
  have hevents : db.events.insertAllNew ((rest.take (written * job.batchSize) ++
      beyond (rest.take (moved * job.batchSize)) rest).filterMap (rowOf job.hasher)) =
        db.events.insertAllNew (rest.filterMap (rowOf job.hasher)) := by
    rw [List.filterMap_append, KeyedTable.insertAllNew_append, beyond, insertAllNew_filter]
    · have hrows : rest.filterMap (rowOf job.hasher) =
          (rest.take (written * job.batchSize)).filterMap (rowOf job.hasher) ++
            (rest.drop (written * job.batchSize)).filterMap (rowOf job.hasher) := by
        rw [← List.filterMap_append, List.take_append_drop]
      rw [hrows, KeyedTable.insertAllNew_again]
    · intro event hevent hskip
      refine stored_of_not_beyond hfits hsafe hremaining hle db.events hevent fun hbeyond => ?_
      rw [(List.mem_filter.mp hbeyond).2] at hskip
      cases hskip
  have hcursor : movedCursor (db.streamCursors job.streamName)
      (rest.take (moved * job.batchSize) ++ beyond (rest.take (moved * job.batchSize)) rest) =
        movedCursor (db.streamCursors job.streamName) rest := by
    apply movedCursor_congr
    intro n
    constructor
    · rintro ⟨event, hevent, hn⟩
      rcases List.mem_append.mp hevent with hdone | hbeyond
      · exact ⟨event, List.mem_of_mem_take hdone, hn⟩
      · exact ⟨event, List.mem_of_mem_filter hbeyond, hn⟩
    · rintro ⟨event, hevent, hn⟩
      by_cases hbeyond : event ∈ beyond (rest.take (moved * job.batchSize)) rest
      · exact ⟨event, List.mem_append_right _ hbeyond, hn⟩
      · obtain ⟨earlier, hearlier, hslot⟩ := exists_le_of_not_mem_beyond hevent hbeyond
        exact ⟨earlier, List.mem_append_left _ hearlier, hn.trans hslot⟩
  rw [replayed, replayed, hevents, hcursor]

end Rest

section Crashed

variable {job : ReplayJob} (hfits : ∀ event ∈ job.events, event.slot ≤ i64Max)
  (hsafe : CutSafe job.batchSize job.events) (hbatch : 0 < job.batchSize) {start : Db}
  (hfresh : start.streamCursors job.streamName = none) {db : Db} (h : job.Crashed start db)
include hfits hsafe hbatch hfresh h

/-- A run stopped anywhere leaves a state from which what is left leads to the same tables. -/
theorem replayed_of_crashed : ∃ cursor, getCursor db job.streamName = .ok cursor ∧
      Remaining job.batchSize job.events (job.kept cursor) ∧
      replayed job.hasher job.streamName db (job.kept cursor) (job.kept cursor) =
        replayed job.hasher job.streamName start job.events job.events := by
  induction h with
  | start =>
      obtain ⟨hcursor, hkept⟩ := kept_of_fresh hfresh
      rw [← hkept]
      exact ⟨none, hcursor, by rw [hkept]; exact .whole, rfl⟩
  | rerun _ hreach ih =>
      rename_i db x _
      obtain ⟨cursor, hcursor, hrest, hsame⟩ := ih
      obtain ⟨cursor', hcursor', hfrom⟩ := hreach
      obtain rfl : cursor = cursor' := Except.ok.inj (hcursor.symm.trans hcursor')
      obtain ⟨moved, written, hle, hworld⟩ := stopped_world hfits hbatch hfrom
      rw [hworld]
      obtain ⟨next, hnext⟩ := getCursor_of_readable
        (@readable_replayed job.hasher _ _ (readable_of_getCursor hcursor)
          ((job.kept cursor).take (written * job.batchSize))
          ((job.kept cursor).take (moved * job.batchSize)))
      have hkept := kept_beyond hcursor hnext (covers_replayed _ _)
      refine ⟨next, hnext, ?_, ?_⟩
      · rw [hkept]
        exact .cut hrest moved
      · rw [hkept, replayed_beyond hfits hsafe hrest db hle, hsame]

/-- A run that completes after crashes leaves what the events lead to from the start. -/
theorem world_of_completed {x : ReplaySystem} {summary : PipelineSummary}
    {j : Joined (Except Empty Unit)} (hreach : job.Reaches db x)
    (hmain : x.main = .done (.ok summary) j) :
    x.world = replayed job.hasher job.streamName start job.events job.events := by
  obtain ⟨cursor, hcursor, -, hsame⟩ := replayed_of_crashed hfits hsafe hbatch hfresh h
  obtain ⟨cursor', hcursor', hfrom⟩ := hreach
  obtain rfl : cursor = cursor' := Except.ok.inj (hcursor.symm.trans hcursor')
  rw [completed_world hfits hbatch hfrom hmain, hsame]

end Crashed

/-- However often runs on a fresh stream crashed, one that then completes leaves the tables that one
undisturbed run leaves. -/
def ReplayJob.CrashesLeaveNoTrace (job : ReplayJob) : Prop :=
  ∀ start, start.streamCursors job.streamName = none → ∀ db, job.Crashed start db →
    ∀ x summary j, job.Reaches db x → x.main = .done (.ok summary) j →
      ∀ y summary' j', job.Reaches start y → y.main = .done (.ok summary') j' → x.world = y.world

/-- Crashes leave no trace in any table exactly where every batch boundary is a safe one. -/
theorem crashes_leave_no_trace_iff (job : ReplayJob) (hbatch : 0 < job.batchSize)
    (hcapacity : 0 < job.channelCapacity) (hfits : ∀ event ∈ job.events, event.slot ≤ i64Max)
    (hhash : job.hasher.CollisionFree
      {identity | ∃ event ∈ job.events, event.identity = identity}) :
    job.CrashesLeaveNoTrace ↔ CutSafe job.batchSize job.events := by
  constructor
  · intro h
    apply cutSafe_of_losesNoEvent hhash hbatch hcapacity hfits
    intro start hfresh db hcrashed x summary j hreach hmain event hevent
    -- an undisturbed run from the start has written the event
    obtain ⟨hcursor, hkept⟩ := kept_of_fresh hfresh
    obtain ⟨y, summary', j', hfrom, hdone⟩ :=
      exists_completed hbatch hcapacity hfits none start
    rw [h start hfresh db hcrashed x summary j hreach hmain y summary' j' ⟨none, hcursor, hfrom⟩
      hdone]
    rw [← hkept] at hevent
    exact replay_done_persisted hbatch hfits hfrom hdone hevent
  · intro hsafe start hfresh db hcrashed x summary j hreach hmain y summary' j' hreach' hmain'
    rw [world_of_completed hfits hsafe hbatch hfresh hcrashed hreach hmain,
      world_of_completed hfits hsafe hbatch hfresh .start hreach' hmain']

theorem crashes_leave_no_trace_iff_one_batch : (sameSlotJob 2).CrashesLeaveNoTrace :=
  (crashes_leave_no_trace_iff (sameSlotJob 2) (by decide) (by decide) (sameSlotJob_fits 2)
    (sameSlotJob_collisionFree 2)).mpr (cutSafe_of_length_le (by decide))

end YellowstoneStream.App

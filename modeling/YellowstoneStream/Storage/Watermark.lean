import Mathlib.Order.Bounds.Basic
import YellowstoneStream.Storage.Cursor
import YellowstoneStream.Storage.SlotRecording

/-!
# The finalized watermark

`advance_contiguous_finalized` stores the greatest slot reachable from the stored watermark along
parent links between finalized slots.
-/

open Relation YellowstoneStream.Reasoning

namespace YellowstoneStream.Storage

def Finalized (slots : SlotTable) (slot : Int) : Prop :=
  ∃ row, slots.find slot = some row ∧ row.finalized = true

/-- The finalized slot `child` has `parent` as its recorded parent. -/
def ChainLink (slots : SlotTable) (parent child : Int) : Prop :=
  ∃ row, slots.find child = some row ∧ row.finalized = true ∧ row.parentSlot = some parent

/-- Where the chain of an advance starts. -/
def IsAnchor (db : Db) (streamName : String) (anchor : Int) : Prop :=
  match db.watermark streamName with
  | some watermark => anchor = watermark
  | none => IsLeast {slot | Finalized (db.streamSlots streamName) slot} anchor

/-- The greatest slot reachable from the anchor; none when there is no anchor. -/
def IsWatermark (db : Db) (streamName : String) : Option Int → Prop
  | some slot => ∃ anchor, IsAnchor db streamName anchor ∧
      IsGreatest {s | ReflTransGen (ChainLink (db.streamSlots streamName)) anchor s} slot
  | none => ∀ anchor, ¬ IsAnchor db streamName anchor

def IsHead (slots : SlotTable) : Option Int → Prop
  | some slot => IsGreatest {s | Finalized slots s} slot
  | none => ∀ slot, ¬ Finalized slots slot

theorem ChainLink.finalized {slots : SlotTable} {parent child : Int}
    (h : ChainLink slots parent child) : Finalized slots child := by
  obtain ⟨row, hrow, hfinalized, -⟩ := h
  exact ⟨row, hrow, hfinalized⟩

theorem Finalized.mem_keys {slots : SlotTable} {slot : Int} (h : Finalized slots slot) :
    slot ∈ slots.keys := by
  obtain ⟨row, hrow, -⟩ := h
  exact (KeyedTable.mem_keys_iff slots slot).mpr ⟨row, hrow⟩

/-! ## What the statements read -/

theorem mem_finalizedSlots (slots : SlotTable) (slot : Int) :
    slot ∈ finalizedSlots slots ↔ Finalized slots slot := by
  simp only [finalizedSlots, Finalized, List.mem_map, List.mem_filter,
    KeyedTable.find_eq_some_iff]
  exact exists_congr fun row => by tauto

theorem mem_chainStep (slots : SlotTable) (work : List Int) (child : Int) :
    child ∈ chainStep slots work ↔ ∃ parent ∈ work, ChainLink slots parent child := by
  simp only [chainStep, ChainLink, List.mem_flatMap, List.mem_map, List.mem_filter,
    KeyedTable.find_eq_some_iff, Bool.and_eq_true, beq_iff_eq]
  refine exists_congr fun parent => and_congr_right fun _ => exists_congr fun row => ?_
  tauto

theorem chainSeed_eq_some_iff (db : Db) (streamName : String) (anchor : Int) :
    chainSeed db streamName = some anchor ↔ IsAnchor db streamName anchor := by
  rw [chainSeed, IsAnchor]
  cases db.watermark streamName with
  | some watermark => rw [Option.some_or, Option.some_inj, eq_comm]
  | none =>
      rw [Option.none_or, List.min?_eq_some_iff, IsLeast, mem_lowerBounds]
      simp only [mem_finalizedSlots, Set.mem_ofPred_eq]

theorem max?_isHead (slots : SlotTable) : IsHead slots (finalizedSlots slots).max? := by
  cases hmax : (finalizedSlots slots).max? with
  | none =>
      intro slot hslot
      rw [List.max?_eq_none_iff] at hmax
      exact List.not_mem_nil (hmax ▸ (mem_finalizedSlots slots slot).mpr hslot)
  | some head =>
      rw [List.max?_eq_some_iff] at hmax
      refine ⟨(mem_finalizedSlots slots head).mp hmax.1, fun slot hslot => ?_⟩
      exact hmax.2 slot ((mem_finalizedSlots slots slot).mpr hslot)

theorem selectWatermark_spec {fuel : Nat} {db : Db} {streamName : String}
    {watermark head : Option Int}
    (h : selectWatermark fuel db streamName = some (watermark, head)) :
    IsWatermark db streamName watermark ∧ IsHead (db.streamSlots streamName) head := by
  simp only [selectWatermark, Option.map_eq_some_iff, Prod.mk.injEq] at h
  obtain ⟨chain, hchain, rfl, rfl⟩ := h
  refine ⟨?_, max?_isHead _⟩
  have hmem := mem_unionAll (mem_chainStep (db.streamSlots streamName)) hchain
  simp only [Option.mem_toList, chainSeed_eq_some_iff] at hmem
  cases hmax : chain.max? with
  | none =>
      intro anchor hanchor
      rw [List.max?_eq_none_iff] at hmax
      exact List.not_mem_nil (hmax ▸ (hmem anchor).mpr ⟨anchor, hanchor, .refl⟩)
  | some watermark =>
      rw [List.max?_eq_some_iff] at hmax
      obtain ⟨anchor, hanchor, hreach⟩ := (hmem watermark).mp hmax.1
      exact ⟨anchor, hanchor, hreach, fun slot hslot =>
        hmax.2 slot ((hmem slot).mpr ⟨anchor, hanchor, hslot⟩)⟩

/-! ## The invariant -/

/-- What every operation keeps true of a stream's frontier. -/
structure FrontierInv (db : Db) (streamName : String) : Prop where
  slots_nonneg : ∀ slot ∈ (db.streamSlots streamName).keys, 0 ≤ slot
  watermark_finalized : ∀ w ∈ db.watermark streamName, Finalized (db.streamSlots streamName) w
  head_finalized : ∀ h ∈ db.head streamName, Finalized (db.streamSlots streamName) h
  watermark_le_head : ∀ w ∈ db.watermark streamName, ∃ h ∈ db.head streamName, w ≤ h

theorem frontierInv_empty (streamName : String) : FrontierInv .empty streamName where
  slots_nonneg := by simp [Db.empty, KeyedTable.empty, KeyedTable.keys]
  watermark_finalized := by simp [Db.watermark, Db.empty]
  head_finalized := by simp [Db.head, Db.empty]
  watermark_le_head := by simp [Db.watermark, Db.empty]

section Advance

variable {db : Db} {streamName : String}

/-- The anchor itself is finalized: a stored watermark always is. -/
theorem FrontierInv.finalized_of_reachable (h : FrontierInv db streamName) {anchor slot : Int}
    (hanchor : IsAnchor db streamName anchor)
    (hreach : ReflTransGen (ChainLink (db.streamSlots streamName)) anchor slot) :
    Finalized (db.streamSlots streamName) slot := by
  rcases hreach.cases_tail with rfl | ⟨_, -, hlink⟩
  · rw [IsAnchor] at hanchor
    cases hw : db.watermark streamName with
    | some watermark =>
        rw [hw] at hanchor
        exact hanchor ▸ h.watermark_finalized watermark hw
    | none =>
        rw [hw] at hanchor
        exact hanchor.1
  · exact hlink.finalized

theorem FrontierInv.isWatermark_finalized (h : FrontierInv db streamName) {w : Int}
    (hw : IsWatermark db streamName (some w)) : Finalized (db.streamSlots streamName) w := by
  obtain ⟨anchor, hanchor, hreach, -⟩ := hw
  exact h.finalized_of_reachable hanchor hreach

/-- An advance never ends below the stored watermark. -/
theorem IsWatermark.stored_le {watermark : Option Int} (h : IsWatermark db streamName watermark) :
    ∀ w ∈ db.watermark streamName, ∃ w' ∈ watermark, w ≤ w' := by
  intro w hw
  have hanchor : IsAnchor db streamName w := by rw [IsAnchor, hw]
  cases watermark with
  | none => exact absurd hanchor (h w)
  | some w' =>
      obtain ⟨anchor, hanchor', -, hgreatest⟩ := h
      rw [IsAnchor, hw] at hanchor'
      exact ⟨w', rfl, hgreatest (hanchor' ▸ .refl)⟩

theorem IsHead.stored_le (hinv : FrontierInv db streamName) {head : Option Int}
    (h : IsHead (db.streamSlots streamName) head) :
    ∀ x ∈ db.head streamName, ∃ y ∈ head, x ≤ y := by
  intro x hx
  have hfinalized := hinv.head_finalized x hx
  cases head with
  | none => exact absurd hfinalized (h x)
  | some y => exact ⟨y, rfl, h.2 hfinalized⟩

theorem decodeSlot_of_nonneg {slot : Option Int} (h : ∀ s ∈ slot, 0 ≤ s) :
    decodeSlot slot = .ok (slot.map Int.toNat) := by
  cases slot with
  | none => rfl
  | some s => rw [decodeSlot, u64TryFrom, if_pos (h s rfl), Option.map_some]

theorem upsertFrontier_watermark (stored : Option StreamCursorRow) (watermark head : Option Int) :
    (upsertFrontier stored watermark head).lastContiguousFinalizedSlot =
      greatest (stored.bind StreamCursorRow.lastContiguousFinalizedSlot) watermark := by
  cases stored <;> simp [upsertFrontier]

theorem upsertFrontier_head (stored : Option StreamCursorRow) (watermark head : Option Int) :
    (upsertFrontier stored watermark head).lastFinalizedSlot =
      greatest (stored.bind StreamCursorRow.lastFinalizedSlot) head := by
  cases stored <;> simp [upsertFrontier]

/-- Whatever is stored, an advance leaves the greatest reachable slot as the watermark; a stored
head can only be raised to the greatest finalized slot. -/
theorem advance_effect {fuel : Nat} {result : Except PostgresSlotStateError FinalizedFrontier}
    {db' : Db} (h : advanceContiguousFinalized fuel db streamName = some (result, db')) :
    ∃ watermark head, IsWatermark db streamName watermark ∧
      IsHead (db.streamSlots streamName) head ∧
      result = decodeFrontier watermark (greatest (db.head streamName) head) ∧
      db'.events = db.events ∧ db'.streamSlots = db.streamSlots ∧
      db'.watermark streamName = watermark ∧
      db'.head streamName = greatest (db.head streamName) head := by
  simp only [advanceContiguousFinalized, Option.map_eq_some_iff, Prod.exists] at h
  obtain ⟨watermark, head, hselect, hresult⟩ := h
  obtain ⟨hwatermark, hhead⟩ := selectWatermark_spec hselect
  obtain ⟨rfl, rfl⟩ := Prod.mk.inj hresult
  -- a watermark below the stored one would be lost to `GREATEST`; there is none
  have hw : (upsertFrontier (db.streamCursors streamName) watermark
      head).lastContiguousFinalizedSlot = watermark := by
    rw [upsertFrontier_watermark]
    exact greatest_eq_right hwatermark.stored_le
  refine ⟨watermark, head, hwatermark, hhead, ?_, rfl, rfl, ?_, ?_⟩
  · rw [hw, upsertFrontier_head]
    rfl
  · rw [Db.watermark, Db.setCursor_cursor, Option.bind_some, hw]
  · rw [Db.head, Db.setCursor_cursor, Option.bind_some, upsertFrontier_head, Db.head]

/-- What an advance returns is stored, and not below what was stored before. -/
theorem advance_stored {fuel : Nat} {frontier : FinalizedFrontier} {db' : Db}
    (h : advanceContiguousFinalized fuel db streamName = some (.ok frontier, db')) :
    (frontier.lastContiguousFinalizedSlot.map Int.ofNat = db'.watermark streamName ∧
      frontier.lastFinalizedSlot.map Int.ofNat = db'.head streamName) ∧
    (∀ w ∈ db.watermark streamName, ∃ w' ∈ db'.watermark streamName, w ≤ w') ∧
    ∀ x ∈ db.head streamName, ∃ y ∈ db'.head streamName, x ≤ y := by
  obtain ⟨watermark, head, hwatermark, -, hresult, -, -, hw, hh⟩ := advance_effect h
  rw [hw, hh]
  exact ⟨map_of_decodeFrontier hresult.symm, hwatermark.stored_le, le_greatest_left _ _⟩

/-- Everything an advance does: it stores and returns the greatest reachable slot and the greatest
finalized one. -/
theorem advance_spec (hinv : FrontierInv db streamName) {fuel : Nat}
    {result : Except PostgresSlotStateError FinalizedFrontier} {db' : Db}
    (h : advanceContiguousFinalized fuel db streamName = some (result, db')) :
    ∃ watermark head, IsWatermark db streamName watermark ∧
      IsHead (db.streamSlots streamName) head ∧
      result = .ok ⟨watermark.map Int.toNat, head.map Int.toNat⟩ ∧
      db'.streamSlots = db.streamSlots ∧
      db'.watermark streamName = watermark ∧ db'.head streamName = head := by
  obtain ⟨watermark, head, hwatermark, hhead, hresult, -, hslots, hw, hh⟩ := advance_effect h
  rw [greatest_eq_right (hhead.stored_le hinv)] at hresult hh
  have hwnonneg : ∀ w ∈ watermark, 0 ≤ w := by
    rintro w rfl
    exact hinv.slots_nonneg w (hinv.isWatermark_finalized hwatermark).mem_keys
  have hhnonneg : ∀ w ∈ head, 0 ≤ w := by
    rintro w rfl
    exact hinv.slots_nonneg w hhead.1.mem_keys
  refine ⟨watermark, head, hwatermark, hhead, ?_, hslots, hw, hh⟩
  rw [hresult, decodeFrontier, decodeSlot_of_nonneg hwnonneg, decodeSlot_of_nonneg hhnonneg]
  rfl

theorem frontierInv_advance (hinv : FrontierInv db streamName) {fuel : Nat}
    {result : Except PostgresSlotStateError FinalizedFrontier} {db' : Db}
    (h : advanceContiguousFinalized fuel db streamName = some (result, db')) :
    FrontierInv db' streamName := by
  obtain ⟨watermark, head, hwatermark, hhead, -, hslots, hw, hh⟩ := advance_spec hinv h
  have hfinalized : ∀ w ∈ watermark, Finalized (db.streamSlots streamName) w := by
    rintro w rfl
    exact hinv.isWatermark_finalized hwatermark
  constructor
  · rw [hslots]
    exact hinv.slots_nonneg
  · rw [hslots, hw]
    exact hfinalized
  · rw [hslots, hh]
    rintro slot rfl
    exact hhead.1
  · rw [hw, hh]
    intro w hmem
    cases head with
    | none => exact absurd (hfinalized w hmem) (hhead w)
    | some slot => exact ⟨slot, rfl, hhead.2 (hfinalized w hmem)⟩

end Advance

/-! ## Recording and cursor updates -/

section Operations

variable {db : Db} {streamName : String}

theorem finalized_recordedRow {slots slots' : SlotTable} {updates : List SlotStateUpdate}
    (h : ∀ slot : Nat, slots'.find slot = recordedRow slots updates slot) {slot : Int}
    (hnonneg : 0 ≤ slot) (hfinalized : Finalized slots slot) : Finalized slots' slot := by
  obtain ⟨n, rfl⟩ := Int.eq_ofNat_of_zero_le hnonneg
  obtain ⟨row, hrow, hflag⟩ := hfinalized
  rw [Finalized, h n, recordedRow]
  cases combinedUpdate updates n with
  | none => exact ⟨row, hrow, hflag⟩
  | some update =>
      rw [hrow]
      exact ⟨_, rfl, by simp [KeyedTable.merged, mergeRow, hflag]⟩

theorem frontierInv_record (hinv : FrontierInv db streamName) (order : IterationOrder)
    (updates : List SlotStateUpdate) :
    FrontierInv (recordSlotStates order db streamName updates).2 streamName := by
  by_cases hfit : UpdatesFit updates
  · obtain ⟨slots, hrecord, hfind, hkeys⟩ := recordSlotStates_of_fits order db streamName hfit
    have hkeep : ∀ slot, Finalized (db.streamSlots streamName) slot → Finalized slots slot :=
      fun slot hslot =>
        finalized_recordedRow hfind (hinv.slots_nonneg slot hslot.mem_keys) hslot
    rw [hrecord]
    constructor
    · rw [Db.setSlots_slots]
      intro slot hslot
      exact (hkeys slot hslot).elim (hinv.slots_nonneg slot) id
    · rw [Db.setSlots_slots]
      exact fun w hw => hkeep w (hinv.watermark_finalized w hw)
    · rw [Db.setSlots_slots]
      exact fun w hw => hkeep w (hinv.head_finalized w hw)
    · exact hinv.watermark_le_head
  · -- a call that does not fit fails before its statement
    obtain ⟨slot, hrecord⟩ := recordSlotStates_of_not_fits order db streamName hfit
    rw [hrecord]
    exact hinv

@[simp] theorem recordSlotStates_cursors (order : IterationOrder) (db : Db) (streamName : String)
    (updates : List SlotStateUpdate) :
    (recordSlotStates order db streamName updates).2.streamCursors = db.streamCursors := by
  by_cases hfit : UpdatesFit updates
  · obtain ⟨slots, hrecord, -⟩ := recordSlotStates_of_fits order db streamName hfit
    rw [hrecord, Db.setSlots_cursors]
  · obtain ⟨slot, hrecord⟩ := recordSlotStates_of_not_fits order db streamName hfit
    rw [hrecord]

@[simp] theorem updateAfterBatch_watermark (db : Db) (streamName : String) (slot : Nat) :
    (updateAfterBatch db streamName slot).2.watermark streamName = db.watermark streamName := by
  by_cases h : slot ≤ i64Max
  · rw [updateAfterBatch_of_le db streamName h, Db.watermark, Db.setCursor_cursor,
      Option.bind_some, upsertCursor_watermark, Db.watermark]
  · rw [updateAfterBatch_of_gt db streamName (Nat.lt_of_not_le h)]

@[simp] theorem updateAfterBatch_head (db : Db) (streamName : String) (slot : Nat) :
    (updateAfterBatch db streamName slot).2.head streamName = db.head streamName := by
  by_cases h : slot ≤ i64Max
  · rw [updateAfterBatch_of_le db streamName h, Db.head, Db.setCursor_cursor,
      Option.bind_some, upsertCursor_head, Db.head]
  · rw [updateAfterBatch_of_gt db streamName (Nat.lt_of_not_le h)]

theorem frontierInv_update (hinv : FrontierInv db streamName) (slot : Nat) :
    FrontierInv (updateAfterBatch db streamName slot).2 streamName := by
  constructor
  · rw [updateAfterBatch_slots]
    exact hinv.slots_nonneg
  · rw [updateAfterBatch_slots, updateAfterBatch_watermark]
    exact hinv.watermark_finalized
  · rw [updateAfterBatch_slots, updateAfterBatch_head]
    exact hinv.head_finalized
  · rw [updateAfterBatch_watermark, updateAfterBatch_head]
    exact hinv.watermark_le_head

end Operations

/-! ## Runs of operations on one stream -/

inductive StreamOp where
  | recordSlotStates (order : IterationOrder) (updates : List SlotStateUpdate)
  | advanceContiguousFinalized (fuel : Nat)
  | updateAfterBatch (slot : Nat)

def StreamOp.isRecording : StreamOp → Bool
  | .recordSlotStates .. => true
  | _ => false

def StreamOp.isAdvance : StreamOp → Bool
  | .advanceContiguousFinalized _ => true
  | _ => false

/-- The state after an operation; none when its recursive query does not stop. -/
def StreamOp.run (streamName : String) (db : Db) : StreamOp → Option Db
  | .recordSlotStates order updates =>
      some (Storage.recordSlotStates order db streamName updates).2
  | .advanceContiguousFinalized fuel =>
      (Storage.advanceContiguousFinalized fuel db streamName).map Prod.snd
  | .updateAfterBatch slot => some (Storage.updateAfterBatch db streamName slot).2

def runOps (streamName : String) (db : Db) (ops : List StreamOp) : Option Db :=
  ops.foldlM (StreamOp.run streamName) db

/-- A property each operation keeps holds after every run. -/
theorem runOps_induction {streamName : String} {P : Db → Prop} {allowed : StreamOp → Prop}
    (hstep : ∀ db op db', P db → allowed op → op.run streamName db = some db' → P db')
    {db db' : Db} {ops : List StreamOp} (hallowed : ∀ op ∈ ops, allowed op)
    (h : runOps streamName db ops = some db') (hdb : P db) : P db' := by
  induction ops generalizing db with
  | nil => exact Option.some.inj h ▸ hdb
  | cons op ops ih =>
      rw [runOps, List.foldlM_cons, Option.bind_eq_bind, Option.bind_eq_some_iff] at h
      obtain ⟨mid, hmid, hrest⟩ := h
      exact ih (fun o ho => hallowed o (List.mem_cons_of_mem _ ho)) hrest
        (hstep db op mid hdb (hallowed op List.mem_cons_self) hmid)

theorem frontierInv_step {streamName : String} (db : Db) (op : StreamOp) (db' : Db)
    (hinv : FrontierInv db streamName) (h : op.run streamName db = some db') :
    FrontierInv db' streamName := by
  cases op with
  | recordSlotStates order updates =>
      cases h
      exact frontierInv_record hinv order updates
  | advanceContiguousFinalized fuel =>
      rw [StreamOp.run, Option.map_eq_some_iff] at h
      obtain ⟨⟨result, db''⟩, hadvance, rfl⟩ := h
      exact frontierInv_advance hinv hadvance
  | updateAfterBatch slot =>
      cases h
      exact frontierInv_update hinv slot

theorem frontierInv_reachable {streamName : String} {ops : List StreamOp} {db : Db}
    (h : runOps streamName .empty ops = some db) : FrontierInv db streamName :=
  runOps_induction
    (fun db op db' hinv (_ : True) => frontierInv_step db op db' hinv) (fun _ _ => trivial) h
    (frontierInv_empty streamName)

/-- No operation lowers the stored watermark. -/
theorem watermark_mono_step {streamName : String} {db db' : Db} {op : StreamOp}
    (hinv : FrontierInv db streamName) (h : op.run streamName db = some db') :
    ∀ w ∈ db.watermark streamName, ∃ w' ∈ db'.watermark streamName, w ≤ w' := by
  cases op with
  | recordSlotStates order updates =>
      cases h
      intro w hw
      exact ⟨w, by rw [Db.watermark, recordSlotStates_cursors]; exact hw, le_rfl⟩
  | advanceContiguousFinalized fuel =>
      rw [StreamOp.run, Option.map_eq_some_iff] at h
      obtain ⟨⟨result, db''⟩, hadvance, rfl⟩ := h
      obtain ⟨watermark, head, hwatermark, -, -, -, hw, -⟩ := advance_spec hinv hadvance
      rw [hw]
      exact hwatermark.stored_le
  | updateAfterBatch slot =>
      cases h
      intro w hw
      exact ⟨w, by rw [updateAfterBatch_watermark]; exact hw, le_rfl⟩

/-- Without an advance the stored head stays. -/
theorem head_step_of_not_advance {streamName : String} {db db' : Db} {op : StreamOp}
    (hop : op.isAdvance = false) (h : op.run streamName db = some db') :
    db'.head streamName = db.head streamName := by
  cases op with
  | recordSlotStates order updates =>
      cases h
      rw [Db.head, recordSlotStates_cursors, Db.head]
  | advanceContiguousFinalized fuel => cases hop
  | updateAfterBatch slot =>
      cases h
      rw [updateAfterBatch_head]

/-- Nothing is left to advance: the stored frontier is what an advance would store. -/
structure Settled (db : Db) (streamName : String) : Prop where
  inv : FrontierInv db streamName
  watermark : IsWatermark db streamName (db.watermark streamName)
  head : IsHead (db.streamSlots streamName) (db.head streamName)

theorem IsWatermark.unique {db : Db} {streamName : String} {a b : Option Int}
    (ha : IsWatermark db streamName a) (hb : IsWatermark db streamName b) : a = b := by
  have hanchor : ∀ x y, IsAnchor db streamName x → IsAnchor db streamName y → x = y := by
    intro x y hx hy
    rw [← chainSeed_eq_some_iff] at hx hy
    exact Option.some.inj (hx.symm.trans hy)
  cases a with
  | none =>
      cases b with
      | none => rfl
      | some b => exact absurd hb.choose_spec.1 (ha _)
  | some a =>
      cases b with
      | none => exact absurd ha.choose_spec.1 (hb _)
      | some b =>
          obtain ⟨x, hx, hgreatest⟩ := ha
          obtain ⟨y, hy, hgreatest'⟩ := hb
          rw [hanchor y x hy hx] at hgreatest'
          rw [hgreatest.unique hgreatest']

theorem IsHead.unique {slots : SlotTable} {a b : Option Int} (ha : IsHead slots a)
    (hb : IsHead slots b) : a = b := by
  cases a with
  | none =>
      cases b with
      | none => rfl
      | some b => exact absurd hb.1 (ha b)
  | some a =>
      cases b with
      | none => exact absurd ha.1 (hb a)
      | some b => rw [IsGreatest.unique ha hb]

/-- The slots beyond the new watermark were beyond the old one. -/
theorem isWatermark_stored {db db' : Db} {streamName : String} {watermark : Option Int}
    (h : IsWatermark db streamName watermark) (hslots : db'.streamSlots = db.streamSlots)
    (hw : db'.watermark streamName = watermark) :
    IsWatermark db' streamName watermark := by
  cases watermark with
  | none =>
      -- without a result nothing was stored before, so both anchors are the lowest finalized slot
      intro anchor hanchor
      apply h anchor
      have hstored : db.watermark streamName = none := by
        by_contra hne
        obtain ⟨w, hw⟩ := Option.ne_none_iff_exists'.mp hne
        exact h w (by rw [IsAnchor, hw])
      rw [IsAnchor, hw, hslots] at hanchor
      rw [IsAnchor, hstored]
      exact hanchor
  | some w =>
      -- the next advance starts at `w`, which the greatest slot was reached through
      obtain ⟨anchor, hanchor, hreach, hgreatest⟩ := h
      refine ⟨w, by rw [IsAnchor, hw], .refl, fun slot hslot => hgreatest ?_⟩
      rw [hslots] at hslot
      exact hreach.trans hslot

theorem settled_advance {db db' : Db} {streamName : String} {fuel : Nat}
    {result : Except PostgresSlotStateError FinalizedFrontier} (hinv : FrontierInv db streamName)
    (h : advanceContiguousFinalized fuel db streamName = some (result, db')) :
    Settled db' streamName := by
  obtain ⟨watermark, head, hwatermark, hhead, -, hslots, hw, hh⟩ := advance_spec hinv h
  refine ⟨frontierInv_advance hinv h, ?_, ?_⟩
  · rw [hw]
    exact isWatermark_stored hwatermark hslots hw
  · rw [hslots, hh]
    exact hhead

/-- Once settled, operations that record nothing change neither value. -/
theorem settled_step {streamName : String} {db db' : Db} {op : StreamOp}
    (hop : op.isRecording = false) (h : op.run streamName db = some db')
    (hsettled : Settled db streamName) :
    Settled db' streamName ∧ db'.watermark streamName = db.watermark streamName ∧
      db'.head streamName = db.head streamName := by
  cases op with
  | recordSlotStates order updates => cases hop
  | advanceContiguousFinalized fuel =>
      rw [StreamOp.run, Option.map_eq_some_iff] at h
      obtain ⟨⟨result, db''⟩, hadvance, rfl⟩ := h
      obtain ⟨watermark, head, hwatermark, hhead, -, -, hw, hh⟩ :=
        advance_spec hsettled.inv hadvance
      refine ⟨settled_advance hsettled.inv hadvance, ?_, ?_⟩
      · rw [hw, hwatermark.unique hsettled.watermark]
      · rw [hh, hhead.unique hsettled.head]
  | updateAfterBatch slot =>
      cases h
      refine ⟨⟨frontierInv_update hsettled.inv slot, ?_, ?_⟩, by simp, by simp⟩
      · rw [updateAfterBatch_watermark]
        exact isWatermark_stored hsettled.watermark (by simp) (by simp)
      · rw [updateAfterBatch_slots, updateAfterBatch_head]
        exact hsettled.head

/-- In every state a run of operations reaches from empty tables: the stored watermark is finalized
and at most the stored head; no operation lowers it; an advance returns and stores the greatest slot
reachable from its anchor and the greatest finalized slot; that head stays until the next advance,
and both values stay while nothing is recorded. -/
theorem finalized_watermark_invariant (streamName : String) (ops : List StreamOp) (db : Db)
    (h : runOps streamName .empty ops = some db) :
    (∀ w ∈ db.watermark streamName, Finalized (db.streamSlots streamName) w ∧
      ∃ head ∈ db.head streamName, w ≤ head) ∧
    (∀ (op : StreamOp) (db' : Db), op.run streamName db = some db' →
      ∀ w ∈ db.watermark streamName, ∃ w' ∈ db'.watermark streamName, w ≤ w') ∧
    (∀ fuel result db', advanceContiguousFinalized fuel db streamName = some (result, db') →
      ∃ watermark head,
        IsWatermark db streamName watermark ∧ IsHead (db.streamSlots streamName) head ∧
        result = .ok ⟨watermark.map Int.toNat, head.map Int.toNat⟩ ∧
        db'.watermark streamName = watermark ∧ db'.head streamName = head ∧
        (∀ (later : List StreamOp) (db'' : Db), (∀ op ∈ later, op.isAdvance = false) →
          runOps streamName db' later = some db'' → db''.head streamName = head) ∧
        (∀ (later : List StreamOp) (db'' : Db), (∀ op ∈ later, op.isRecording = false) →
          runOps streamName db' later = some db'' →
          db''.watermark streamName = watermark ∧ db''.head streamName = head)) := by
  have hinv := frontierInv_reachable h
  refine ⟨fun w hw => ⟨hinv.watermark_finalized w hw, hinv.watermark_le_head w hw⟩,
    fun op db' => watermark_mono_step hinv, ?_⟩
  intro fuel result db' hadvance
  obtain ⟨watermark, head, hwatermark, hhead, hresult, -, hw, hh⟩ := advance_spec hinv hadvance
  refine ⟨watermark, head, hwatermark, hhead, hresult, hw, hh, ?_, ?_⟩
  · intro later db'' hlater hrun
    refine runOps_induction (P := fun d => d.head streamName = head) ?_ hlater hrun hh
    intro d op d' hd hop hstep
    rw [head_step_of_not_advance hop hstep, hd]
  · intro later db'' hlater hrun
    refine (runOps_induction (P := fun d => Settled d streamName ∧
      d.watermark streamName = watermark ∧ d.head streamName = head) ?_ hlater hrun
      ⟨settled_advance hinv hadvance, hw, hh⟩).2
    rintro d op d' ⟨hsettled, hdw, hdh⟩ hop hstep
    -- an operation that records nothing leaves a settled frontier settled
    obtain ⟨hsettled', hw', hh'⟩ := settled_step hop hstep hsettled
    exact ⟨hsettled', hw'.trans hdw, hh'.trans hdh⟩

/-- A hash map that happens to yield its values in insertion order. -/
def insertionOrder : IterationOrder := ⟨id, List.Perm.refl⟩

/-- The source's test: the watermark holds at the gap below 13. -/
def heldAtGap : List StreamOp :=
  [.recordSlotStates insertionOrder
      [⟨10, some 9, true, false⟩, ⟨11, some 10, true, false⟩, ⟨13, some 12, true, false⟩],
    .advanceContiguousFinalized 3, .updateAfterBatch 13]

theorem finalized_watermark_invariant_at_gap :
    ∃ db, runOps "test" .empty heldAtGap = some db ∧ db.watermark "test" = some 11 ∧
      Finalized (db.streamSlots "test") 11 ∧ ∃ head ∈ db.head "test", (11 : Int) ≤ head := by
  obtain ⟨db, hrun⟩ := Option.isSome_iff_exists.mp (show (runOps "test" .empty heldAtGap).isSome
    from by decide)
  have hw : (runOps "test" .empty heldAtGap).bind (fun db => db.watermark "test") = some 11 := by
    decide
  rw [hrun, Option.bind_some] at hw
  exact ⟨db, hrun, hw, (finalized_watermark_invariant "test" heldAtGap db hrun).1 11 hw⟩

end YellowstoneStream.Storage

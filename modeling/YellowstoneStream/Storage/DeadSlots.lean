import YellowstoneStream.Storage.RecordingCalls

/-!
# Slots that are never finalized

Each query of an advance asks for finalized rows only, so the rows of abandoned forks, with whatever
parents, can be left out of a stream's whole history without a trace in its frontier.
-/

open Relation YellowstoneStream.Reasoning

namespace YellowstoneStream.Storage

/-- All that an advance reads is the same in the two states. -/
structure SeenAlike (a b : Db) (streamName : String) : Prop where
  cursor : a.streamCursors streamName = b.streamCursors streamName
  finalized : ∀ slot, Finalized (a.streamSlots streamName) slot ↔
    Finalized (b.streamSlots streamName) slot
  chainLink : ∀ parent child, ChainLink (a.streamSlots streamName) parent child ↔
    ChainLink (b.streamSlots streamName) parent child

section Advance

variable {a b : Db} {streamName : String}

theorem SeenAlike.watermark_eq (h : SeenAlike a b streamName) :
    a.watermark streamName = b.watermark streamName := by
  rw [Db.watermark, h.cursor, Db.watermark]

theorem SeenAlike.isAnchor_iff (h : SeenAlike a b streamName) (anchor : Int) :
    IsAnchor a streamName anchor ↔ IsAnchor b streamName anchor := by
  have hfinalized : Finalized (a.streamSlots streamName) = Finalized (b.streamSlots streamName) :=
    funext fun slot => propext (h.finalized slot)
  rw [IsAnchor, IsAnchor, h.watermark_eq, hfinalized]

theorem SeenAlike.isWatermark (h : SeenAlike a b streamName) {watermark : Option Int}
    (hw : IsWatermark a streamName watermark) : IsWatermark b streamName watermark := by
  have hlink : ChainLink (a.streamSlots streamName) = ChainLink (b.streamSlots streamName) :=
    funext fun parent => funext fun child => propext (h.chainLink parent child)
  cases watermark with
  | none => exact fun anchor hanchor => hw anchor ((h.isAnchor_iff anchor).mpr hanchor)
  | some slot =>
      obtain ⟨anchor, hanchor, hgreatest⟩ := hw
      rw [hlink] at hgreatest
      exact ⟨anchor, (h.isAnchor_iff anchor).mp hanchor, hgreatest⟩

theorem SeenAlike.isHead (h : SeenAlike a b streamName) {head : Option Int}
    (hh : IsHead (a.streamSlots streamName) head) : IsHead (b.streamSlots streamName) head := by
  have hfinalized : Finalized (a.streamSlots streamName) = Finalized (b.streamSlots streamName) :=
    funext fun slot => propext (h.finalized slot)
  cases head with
  | none => exact fun slot hslot => hh slot ((h.finalized slot).mpr hslot)
  | some slot =>
      rw [IsHead, hfinalized] at hh
      exact hh

theorem SeenAlike.chainSeed_eq (h : SeenAlike a b streamName) :
    chainSeed a streamName = chainSeed b streamName := by
  apply Option.ext
  intro anchor
  exact ((chainSeed_eq_some_iff a streamName anchor).trans (h.isAnchor_iff anchor)).trans
    (chainSeed_eq_some_iff b streamName anchor).symm

/-- The statement returns in the other state too, after as many rounds, and returns the same. -/
theorem SeenAlike.selectWatermark (h : SeenAlike a b streamName) {fuel : Nat}
    {out : Option Int × Option Int} (hselect : selectWatermark fuel a streamName = some out) :
    Storage.selectWatermark fuel b streamName = some out := by
  have hstep : ∀ work child, child ∈ chainStep (b.streamSlots streamName) work ↔
      ∃ parent ∈ work, ChainLink (a.streamSlots streamName) parent child := by
    intro work child
    rw [mem_chainStep]
    exact exists_congr fun parent => and_congr_right fun _ => (h.chainLink parent child).symm
  obtain ⟨chain, hchain, -⟩ := Option.map_eq_some_iff.mp hselect
  rw [h.chainSeed_eq] at hchain
  obtain ⟨chain', hchain'⟩ := unionAll_congr (mem_chainStep (a.streamSlots streamName)) hstep
    (fun _ => Iff.rfl) hchain
  obtain ⟨⟨watermark, head⟩, hout⟩ : ∃ out',
      Storage.selectWatermark fuel b streamName = some out' :=
    ⟨_, Option.map_eq_some_iff.mpr ⟨chain', hchain', rfl⟩⟩
  have hspec := selectWatermark_spec hselect
  have hspec' := selectWatermark_spec hout
  rw [hout, hspec'.1.unique (h.isWatermark hspec.1), hspec'.2.unique (h.isHead hspec.2)]

theorem SeenAlike.advance (h : SeenAlike a b streamName) {fuel : Nat}
    {result : Except PostgresSlotStateError FinalizedFrontier} {a' : Db}
    (hadvance : advanceContiguousFinalized fuel a streamName = some (result, a')) :
    ∃ row, a' = a.setCursor streamName row ∧
      advanceContiguousFinalized fuel b streamName = some (result, b.setCursor streamName row) := by
  obtain ⟨⟨watermark, head⟩, hselect, hout⟩ := Option.map_eq_some_iff.mp hadvance
  obtain ⟨rfl, rfl⟩ := Prod.mk.inj hout
  refine ⟨_, rfl, Option.map_eq_some_iff.mpr ⟨_, h.selectWatermark hselect, ?_⟩⟩
  dsimp only
  rw [h.cursor]

end Advance

/-! ## Leaving out slots -/

/-- What an operation returns, where it is an advance that stops. -/
def StreamOp.returned (streamName : String) (db : Db) :
    StreamOp → List (Except PostgresSlotStateError FinalizedFrontier)
  | .advanceContiguousFinalized fuel =>
      ((Storage.advanceContiguousFinalized fuel db streamName).map Prod.fst).toList
  | .recordSlotStates .. | .updateAfterBatch _ => []

/-- The frontiers that the advances of a sequence return, in order. -/
def frontiers (streamName : String) : Db → List StreamOp →
    List (Except PostgresSlotStateError FinalizedFrontier)
  | _, [] => []
  | db, op :: ops =>
      op.returned streamName db ++
        match op.run streamName db with
        | none => []
        | some db' => frontiers streamName db' ops

/-- Some call of the sequence records the slot as finalized. -/
def receivesFinalized (ops : List StreamOp) (slot : Nat) : Bool :=
  ops.any fun
    | .recordSlotStates _ updates =>
        updates.any fun update => decide (update.slot = slot) && update.finalized
    | .advanceContiguousFinalized _ | .updateAfterBatch _ => false

/-- The same call without the updates of the slots left out.  The hash map is another one, so it may
yield its values in another order. -/
inductive Thinned (kept : Nat → Bool) : StreamOp → StreamOp → Prop where
  | recordSlotStates (order order' : IterationOrder) (updates : List SlotStateUpdate) :
      Thinned kept (.recordSlotStates order updates)
        (.recordSlotStates order' (updates.filter fun update => kept update.slot))
  | advanceContiguousFinalized (fuel : Nat) :
      Thinned kept (.advanceContiguousFinalized fuel) (.advanceContiguousFinalized fuel)
  | updateAfterBatch (slot : Nat) : Thinned kept (.updateAfterBatch slot) (.updateAfterBatch slot)

/-- The slot is none of those kept. -/
def LeftOut (kept : Nat → Bool) (key : Int) : Prop := ∀ slot : Nat, key = slot → kept slot = false

/-- The second state has the rows of the kept slots, and the first one none that is finalized beside
them. -/
structure ThinnedDb (kept : Nat → Bool) (streamName : String) (a b : Db) : Prop where
  cursor : a.streamCursors streamName = b.streamCursors streamName
  rows : ∀ slot : Nat, kept slot = true →
    (a.streamSlots streamName).find slot = (b.streamSlots streamName).find slot
  absent : ∀ key, LeftOut kept key → (b.streamSlots streamName).find key = none
  unfinalized : ∀ key, LeftOut kept key → ¬Finalized (a.streamSlots streamName) key

section Thinning

variable {kept : Nat → Bool} {streamName : String} {a b : Db}

theorem kept_or_leftOut (kept : Nat → Bool) (key : Int) :
    (∃ slot : Nat, key = slot ∧ kept slot = true) ∨ LeftOut kept key := by
  by_cases h : ∃ slot : Nat, key = slot ∧ kept slot = true
  · exact .inl h
  · refine .inr fun slot hkey => ?_
    rw [← Bool.not_eq_true]
    exact fun hkept => h ⟨slot, hkey, hkept⟩

theorem ThinnedDb.seenAlike (h : ThinnedDb kept streamName a b) : SeenAlike a b streamName := by
  have hnone : ∀ key, LeftOut kept key → ∀ row,
      (a.streamSlots streamName).find key = some row → row.finalized = true → False :=
    fun key hout row hrow hfinalized => h.unfinalized key hout ⟨row, hrow, hfinalized⟩
  constructor
  case cursor => exact h.cursor
  case finalized =>
    intro key
    rcases kept_or_leftOut kept key with ⟨slot, rfl, hkept⟩ | hout
    · rw [Finalized, h.rows slot hkept, Finalized]
    · constructor
      · rintro ⟨row, hrow, hfinalized⟩
        exact (hnone key hout row hrow hfinalized).elim
      · rintro ⟨row, hrow, -⟩
        rw [h.absent key hout] at hrow
        cases hrow
  case chainLink =>
    intro parent child
    rcases kept_or_leftOut kept child with ⟨slot, rfl, hkept⟩ | hout
    · rw [ChainLink, h.rows slot hkept, ChainLink]
    · constructor
      · rintro ⟨row, hrow, hfinalized, -⟩
        exact (hnone child hout row hrow hfinalized).elim
      · rintro ⟨row, hrow, -⟩
        rw [h.absent child hout] at hrow
        cases hrow

theorem ThinnedDb.setCursor (h : ThinnedDb kept streamName a b) (row : StreamCursorRow) :
    ThinnedDb kept streamName (a.setCursor streamName row) (b.setCursor streamName row) := by
  refine ⟨?_, h.rows, h.absent, h.unfinalized⟩
  rw [Db.setCursor_cursor, Db.setCursor_cursor]

theorem ownUpdates_filter_of_kept (updates : List SlotStateUpdate) {slot : Nat}
    (hkept : kept slot = true) :
    ownUpdates (updates.filter fun update => kept update.slot) slot = ownUpdates updates slot := by
  rw [ownUpdates, ownUpdates, List.filter_filter]
  refine List.filter_congr fun update _ => ?_
  by_cases hslot : update.slot = slot
  · rw [hslot, hkept, Bool.and_true]
  · rw [decide_eq_false hslot, Bool.false_and]

theorem ownUpdates_filter_of_not_kept (updates : List SlotStateUpdate) {slot : Nat}
    (hkept : kept slot = false) :
    ownUpdates (updates.filter fun update => kept update.slot) slot = [] := by
  rw [ownUpdates, List.filter_filter, List.filter_eq_nil_iff]
  intro update _ hboth
  rw [Bool.and_eq_true, decide_eq_true_eq] at hboth
  rw [← hboth.1, hboth.2] at hkept
  cases hkept

theorem recordedRow_congr {slots slots' : SlotTable} {updates updates' : List SlotStateUpdate}
    {slot : Nat} (hslots : slots.find slot = slots'.find slot)
    (hupdates : ownUpdates updates slot = ownUpdates updates' slot) :
    recordedRow slots updates slot = recordedRow slots' updates' slot := by
  unfold recordedRow combinedUpdate lastParent
  rw [hslots, hupdates]

/-- A call keeps the relation when the slots of its finalized updates are kept. -/
theorem ThinnedDb.slotsAfter (h : ThinnedDb kept streamName a b) (order order' : IterationOrder)
    {updates : List SlotStateUpdate}
    (hfinal : ∀ update ∈ updates, update.finalized = true → kept update.slot = true) :
    ThinnedDb kept streamName
      (a.setSlots streamName (slotsAfter order (a.streamSlots streamName) updates))
      (b.setSlots streamName (slotsAfter order' (b.streamSlots streamName)
        (updates.filter fun update => kept update.slot))) := by
  constructor
  case cursor => exact h.cursor
  case rows =>
    intro slot hkept
    rw [Db.setSlots_slots, Db.setSlots_slots, find_slotsAfter, find_slotsAfter]
    exact recordedRow_congr (h.rows slot hkept) (ownUpdates_filter_of_kept updates hkept).symm
  case absent =>
    intro key hout
    rw [Db.setSlots_slots]
    by_cases hneg : key < 0
    · rw [find_slotsAfter_of_neg _ _ _ hneg]
      exact h.absent key hout
    · obtain ⟨slot, rfl⟩ := Int.eq_ofNat_of_zero_le (Int.not_lt.mp hneg)
      have hown := ownUpdates_filter_of_not_kept updates (hout slot rfl)
      rw [find_slotsAfter, recordedRow, combinedUpdate, hown]
      exact h.absent slot hout
  case unfinalized =>
    intro key hout
    rw [Db.setSlots_slots]
    by_cases hneg : key < 0
    · rw [Finalized, find_slotsAfter_of_neg _ _ _ hneg]
      exact h.unfinalized key hout
    · obtain ⟨slot, rfl⟩ := Int.eq_ofNat_of_zero_le (Int.not_lt.mp hneg)
      rw [finalized_iff_any, find_slotsAfter, recordedRow_finalized, Bool.or_eq_true,
        ← finalized_iff_any, List.any_eq_true, not_or]
      refine ⟨h.unfinalized slot hout, ?_⟩
      rintro ⟨update, hown, hfinalized⟩
      obtain ⟨hmem, rfl⟩ := mem_ownUpdates.mp hown
      have hkept := hfinal update hmem hfinalized
      rw [hout update.slot rfl] at hkept
      cases hkept

/-- Every update of the operation fits, and those that finalize are for kept slots. -/
def StreamOp.Recordable (kept : Nat → Bool) : StreamOp → Prop
  | .recordSlotStates _ updates =>
      ∀ update ∈ updates, update.Fits ∧ (update.finalized = true → kept update.slot = true)
  | .advanceContiguousFinalized _ | .updateAfterBatch _ => True

/-- Both operations return the same and keep the relation. -/
theorem ThinnedDb.step (h : ThinnedDb kept streamName a b) {op op' : StreamOp}
    (hop : Thinned kept op op') (hrec : op.Recordable kept) {a' : Db}
    (hrun : op.run streamName a = some a') :
    op'.returned streamName b = op.returned streamName a ∧
      ∃ b', op'.run streamName b = some b' ∧ ThinnedDb kept streamName a' b' := by
  cases hop with
  | recordSlotStates order order' updates =>
      have hfits : UpdatesFit updates := updatesFit_of_fits fun update hu => (hrec update hu).1
      have hfits' : UpdatesFit (updates.filter fun update => kept update.slot) :=
        updatesFit_of_fits fun update hu => (hrec update (List.mem_of_mem_filter hu)).1
      rw [StreamOp.run, recordSlotStates_eq order a streamName hfits] at hrun
      cases hrun
      refine ⟨rfl, _, rfl, ?_⟩
      rw [recordSlotStates_eq order' b streamName hfits']
      exact h.slotsAfter order order' fun update hu => (hrec update hu).2
  | advanceContiguousFinalized fuel =>
      rw [StreamOp.run, Option.map_eq_some_iff] at hrun
      obtain ⟨⟨result, a''⟩, hadvance, rfl⟩ := hrun
      obtain ⟨row, rfl, hadvance'⟩ := h.seenAlike.advance hadvance
      refine ⟨?_, b.setCursor streamName row, ?_, h.setCursor row⟩
      · rw [StreamOp.returned, StreamOp.returned, hadvance, hadvance']
        rfl
      · rw [StreamOp.run, hadvance']
        rfl
  | updateAfterBatch slot =>
      cases hrun
      refine ⟨rfl, _, rfl, ?_⟩
      by_cases hle : slot ≤ i64Max
      · rw [updateAfterBatch_of_le a streamName hle, updateAfterBatch_of_le b streamName hle,
          h.cursor]
        exact h.setCursor _
      · have hgt := Nat.lt_of_not_le hle
        rw [updateAfterBatch_of_gt a streamName hgt, updateAfterBatch_of_gt b streamName hgt]
        exact h

theorem ThinnedDb.run (h : ThinnedDb kept streamName a b) {ops ops' : List StreamOp}
    (hops : List.Forall₂ (Thinned kept) ops ops') (hrec : ∀ op ∈ ops, op.Recordable kept) {a' : Db}
    (hrun : runOps streamName a ops = some a') :
    frontiers streamName b ops' = frontiers streamName a ops ∧
      ∃ b', runOps streamName b ops' = some b' ∧ ThinnedDb kept streamName a' b' := by
  induction hops generalizing a b with
  | nil =>
      cases hrun
      exact ⟨rfl, b, rfl, h⟩
  | @cons op op' ops ops' hop hops ih =>
      rw [runOps, List.foldlM_cons, Option.bind_eq_bind, Option.bind_eq_some_iff] at hrun
      obtain ⟨mid, hmid, hrest⟩ := hrun
      obtain ⟨hreturned, mid', hmid', hthin⟩ := h.step hop (hrec op List.mem_cons_self) hmid
      obtain ⟨hfrontiers, b', hb', hlast⟩ :=
        ih hthin (fun o ho => hrec o (List.mem_cons_of_mem _ ho)) hrest
      refine ⟨?_, b', ?_, hlast⟩
      · rw [frontiers, frontiers, hreturned, hmid, hmid']
        exact congrArg _ hfrontiers
      · rw [runOps, List.foldlM_cons, Option.bind_eq_bind, hmid', Option.bind_some]
        exact hb'

theorem thinnedDb_empty (kept : Nat → Bool) (streamName : String) :
    ThinnedDb kept streamName .empty .empty := by
  refine ⟨rfl, fun _ _ => rfl, fun _ _ => rfl, ?_⟩
  rintro key - ⟨row, hrow, -⟩
  cases hrow

end Thinning

theorem receivesFinalized_of_mem {ops : List StreamOp} {order : IterationOrder}
    {updates : List SlotStateUpdate} (hop : .recordSlotStates order updates ∈ ops)
    {update : SlotStateUpdate} (hupdate : update ∈ updates) (hfinal : update.finalized = true) :
    receivesFinalized ops update.slot = true := by
  rw [receivesFinalized, List.any_eq_true]
  refine ⟨_, hop, List.any_eq_true.mpr ⟨update, hupdate, ?_⟩⟩
  rw [hfinal, decide_eq_true rfl, Bool.and_true]

/-- Leaving out every update for the slots that no call of the history finalizes changes neither
what the advances return nor the frontier stored at the end. -/
theorem dead_slots_do_not_count (streamName : String) (ops thinned : List StreamOp) (db : Db)
    (fits : ∀ order updates, StreamOp.recordSlotStates order updates ∈ ops →
      ∀ update ∈ updates, update.Fits)
    (hthinned : List.Forall₂ (Thinned (receivesFinalized ops)) ops thinned)
    (hrun : runOps streamName .empty ops = some db) :
    ∃ db', runOps streamName .empty thinned = some db' ∧
      frontiers streamName .empty thinned = frontiers streamName .empty ops ∧
      db'.watermark streamName = db.watermark streamName ∧
      db'.head streamName = db.head streamName := by
  have hrec : ∀ op ∈ ops, op.Recordable (receivesFinalized ops) := by
    intro op hop
    cases op with
    | recordSlotStates order updates =>
        intro update hupdate
        exact ⟨fits order updates hop update hupdate, receivesFinalized_of_mem hop hupdate⟩
    | advanceContiguousFinalized fuel => trivial
    | updateAfterBatch slot => trivial
  obtain ⟨hfrontiers, db', hdb', hthin⟩ :=
    (thinnedDb_empty (receivesFinalized ops) streamName).run hthinned hrec hrun
  refine ⟨db', hdb', hfrontiers, ?_, ?_⟩
  · rw [Db.watermark, ← hthin.cursor, Db.watermark]
  · rw [Db.head, ← hthin.cursor, Db.head]

/-- Slot 9 is below the first finalized one, slot 12 is the parent of a finalized one. -/
def withDeadSlots : List StreamOp :=
  [.recordSlotStates insertionOrder [⟨9, some 8, false, true⟩, ⟨10, some 9, true, false⟩],
    .advanceContiguousFinalized 3,
    .recordSlotStates insertionOrder
      [⟨11, some 10, true, false⟩, ⟨12, some 11, false, true⟩, ⟨13, some 12, true, false⟩],
    .advanceContiguousFinalized 3]

def withoutDeadSlots : List StreamOp :=
  [.recordSlotStates reverseOrder [⟨10, some 9, true, false⟩],
    .advanceContiguousFinalized 3,
    .recordSlotStates reverseOrder [⟨11, some 10, true, false⟩, ⟨13, some 12, true, false⟩],
    .advanceContiguousFinalized 3]

theorem dead_slots_do_not_count_below_gap :
    frontiers "test" .empty withDeadSlots =
      [.ok ⟨some 10, some 10⟩, .ok ⟨some 11, some 13⟩] ∧
    frontiers "test" .empty withoutDeadSlots = frontiers "test" .empty withDeadSlots := by
  refine ⟨rfl, ?_⟩
  obtain ⟨db, hrun⟩ := Option.isSome_iff_exists.mp
    (show (runOps "test" .empty withDeadSlots).isSome from by decide)
  have hthinned : List.Forall₂ (Thinned (receivesFinalized withDeadSlots)) withDeadSlots
      withoutDeadSlots :=
    .cons (.recordSlotStates insertionOrder reverseOrder _)
      (.cons (.advanceContiguousFinalized 3)
        (.cons (.recordSlotStates insertionOrder reverseOrder _)
          (.cons (.advanceContiguousFinalized 3) .nil)))
  refine (dead_slots_do_not_count "test" withDeadSlots withoutDeadSlots db ?_ hthinned
    hrun).choose_spec.2.1
  intro order updates hop
  simp only [withDeadSlots, List.mem_cons, List.not_mem_nil, or_false, reduceCtorEq, false_or,
    StreamOp.recordSlotStates.injEq] at hop
  rcases hop with ⟨-, rfl⟩ | ⟨-, rfl⟩
  · decide
  · decide

end YellowstoneStream.Storage

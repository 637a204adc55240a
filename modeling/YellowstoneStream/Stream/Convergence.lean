import YellowstoneStream.Storage.ChainRecords
import YellowstoneStream.Stream.Ingestion

/-!
# The watermark converges

Over a consistent chain every advance moves along one path, so the watermark a run ends with is the
end of that path, in whatever order and batches the finalized slots arrived.
-/

open Relation YellowstoneStream.Domain YellowstoneStream.Reasoning YellowstoneStream.Storage

namespace YellowstoneStream.Stream

/-- Stored rows and delivered events name one parent for each slot, below it, and no two finalized
slots have the same one. -/
structure ConsistentChain (parentOf : Int → Option Int) (slots : SlotTable)
    (delivered : List NormalizedEvent) : Prop where
  below : ∀ slot parent, parentOf slot = some parent → parent < slot
  stored : ∀ slot row, slots.find slot = some row →
    ∀ parent ∈ row.parentSlot, parentOf slot = some parent
  sent : ConsistentUpdates parentOf (slotStates delivered)
  distinct : ∀ a b parent, Known slots (slotStates delivered) a →
    Known slots (slotStates delivered) b → parentOf a = some parent → parentOf b = some parent →
    a = b

/-- The delivered events in some order, any number of times each, among events that have no slot
state. -/
structure Arrangement (delivered events : List NormalizedEvent) : Prop where
  all : ∀ event ∈ delivered, event ∈ events
  rest : ∀ event ∈ events, event ∈ delivered ∨ slotStateFromEvent event = none

theorem Arrangement.mem_slotStates {delivered events : List NormalizedEvent}
    (h : Arrangement delivered events) (update : SlotStateUpdate) :
    update ∈ slotStates events ↔ update ∈ slotStates delivered := by
  unfold slotStates
  rw [List.mem_filterMap, List.mem_filterMap]
  constructor
  · rintro ⟨event, hevent, hfrom⟩
    rcases h.rest event hevent with hmem | hnone
    · exact ⟨event, hmem, hfrom⟩
    · rw [hnone] at hfrom
      cases hfrom
  · rintro ⟨event, hevent, hfrom⟩
    exact ⟨event, h.all event hevent, hfrom⟩

theorem finalized_of_mem_slotStates {delivered : List NormalizedEvent}
    (hfinal : ∀ event ∈ delivered, FinalizedSlotEvent event) :
    ∀ update ∈ slotStates delivered, update.finalized = true := by
  intro update hupdate
  obtain ⟨⟨identity, payload⟩, hevent, hfrom⟩ := List.mem_filterMap.mp hupdate
  obtain ⟨cluster, slot, rfl⟩ := hfinal _ hevent
  cases hfrom
  rfl

theorem slotStates_ne_nil {delivered : List NormalizedEvent} (hne : delivered ≠ [])
    (hfinal : ∀ event ∈ delivered, FinalizedSlotEvent event) : slotStates delivered ≠ [] := by
  obtain ⟨⟨identity, payload⟩, hevent⟩ := List.exists_mem_of_ne_nil _ hne
  obtain ⟨cluster, slot, rfl⟩ := hfinal _ hevent
  exact List.ne_nil_of_mem (List.mem_filterMap.mpr ⟨_, hevent, rfl⟩)

theorem slotStates_flatten (batches : List (List NormalizedEvent)) :
    slotStates batches.flatten = batches.flatMap slotStates := by
  induction batches with
  | nil => rfl
  | cons batch batches ih =>
      rw [List.flatten_cons, List.flatMap_cons, ← ih]
      exact List.filterMap_append

/-! ## The path -/

section Path

variable {parentOf : Int → Option Int} {slots : SlotTable} {delivered : List NormalizedEvent}
  (hchain : ConsistentChain parentOf slots delivered)
include hchain

theorem named_parentOf {parent child : Int} (h : Named slots (slotStates delivered) parent child) :
    parentOf child = some parent := by
  rcases h with ⟨row, hrow, hparent⟩ | ⟨update, hupdate, rfl, p, hp, rfl⟩
  · exact hchain.stored child row hrow parent hparent
  · exact (hchain.sent update hupdate).2 p hp

theorem knownLink_lt {updates : List SlotStateUpdate} (hsub : updates ⊆ slotStates delivered)
    (a b : Int) (h : KnownLink slots updates a b) : a < b :=
  hchain.below b a (named_parentOf hchain (h.2.mono hsub))

theorem knownLink_rightUnique {updates : List SlotStateUpdate}
    (hsub : updates ⊆ slotStates delivered) : Relator.RightUnique (KnownLink slots updates) := by
  intro parent a b ha hb
  exact hchain.distinct a b parent (ha.1.mono hsub) (hb.1.mono hsub)
    (named_parentOf hchain (ha.2.mono hsub)) (named_parentOf hchain (hb.2.mono hsub))

theorem rowsBelow_stored : RowsBelow slots := by
  intro slot row hrow parent hparent
  exact hchain.below slot parent (hchain.stored slot row hrow parent hparent)

end Path

/-! ## What every batch keeps -/

/-- After the updates, the watermark lies on the path from the anchor, and at its end once there
were any. -/
structure Converging (slots : SlotTable) (anchor : Int) (streamName : String)
    (updates : List SlotStateUpdate) (db : Db) (summary : PipelineSummary) : Prop where
  stored : StoredSlots db streamName
  records : Records slots updates (db.streamSlots streamName)
  watermark : ∃ w, db.watermark streamName = some w ∧
    ReflTransGen (KnownLink slots updates) anchor w ∧
    (updates ≠ [] → IsGreatest {s | ReflTransGen (KnownLink slots updates) anchor s} w ∧
      summary.lastContiguousFinalizedSlot = some w.toNat)

/-- A call that neither records nor advances. -/
def PipelineCall.IsPlain (c : PipelineCall) : Prop :=
  (∀ name updates, c ≠ .recordSlotStates name updates) ∧
    ∀ name, c ≠ .advanceContiguousFinalized name

theorem tallyReply_of_plain {W C S : Type} {c : PipelineCall} (hc : c.IsPlain)
    (summary : PipelineSummary) (r : PipelineCall.Reply W C S c) :
    (tallyReply summary ⟨c, r⟩).lastContiguousFinalizedSlot =
      summary.lastContiguousFinalizedSlot := by
  cases c with
  | advanceContiguousFinalized name => exact absurd rfl (hc.2 name)
  | writeBatch batch => cases r <;> rfl
  | updateAfterBatch name slot => cases r <;> rfl
  | _ => rfl

theorem slotCalls_of_final (streamName : String) {states : List SlotStateUpdate}
    (hne : states ≠ []) (hfinal : ∀ state ∈ states, state.finalized = true) :
    slotCalls streamName true states =
      [.recordSlotStates streamName states, .advanceContiguousFinalized streamName] := by
  have hany : states.any SlotStateUpdate.finalized = true := by
    obtain ⟨state, hstate⟩ := List.exists_mem_of_ne_nil _ hne
    exact List.any_eq_true.mpr ⟨state, hstate, hfinal state hstate⟩
  unfold slotCalls
  rw [if_neg (fun hempty => hne (List.isEmpty_iff.mp hempty)), hany]
  rfl

theorem decodeFrontier_contiguous {watermark head : Option Int} {frontier : FinalizedFrontier}
    (hw : ∀ w ∈ watermark, 0 ≤ w) (h : decodeFrontier watermark head = .ok frontier) :
    frontier.lastContiguousFinalizedSlot = watermark.map Int.toNat := by
  rw [decodeFrontier, decodeSlot_of_nonneg hw] at h
  cases hhead : decodeSlot head with
  | error err =>
      rw [hhead] at h
      cases h
  | ok slot =>
      rw [hhead] at h
      cases h
      rfl

section Batch

variable {hasher : Hasher} {parentOf : Int → Option Int} {slots : SlotTable} {anchor : Int}
  {streamName : String} {delivered : List NormalizedEvent} {updates recorded : List SlotStateUpdate}
  {db db' : Db} {summary : PipelineSummary}

theorem Converging.plain (h : Converging slots anchor streamName updates db summary)
    {c : PipelineCall} {r : PostgresReply PostgresSlotStateError c} (hname : c.OfStream streamName)
    (hc : c.IsPlain) (hact : storeReply hasher postgresSlotStateStore db c r db') :
    Converging slots anchor streamName updates db' (tallyReply summary ⟨c, r⟩) := by
  refine ⟨storedSlots_step h.stored hname hact, ?_, ?_⟩
  · rw [storeReply_slots hc.1 hact]
    exact h.records
  · rw [(storeReply_frontier hc.2 hname hact).1, tallyReply_of_plain hc]
    exact h.watermark

theorem Converging.plain_calls {tr : PostgresTrace PostgresSlotStateError}
    (hperforms : Program.Performs (storeReply hasher postgresSlotStateStore) db tr db')
    (h : Converging slots anchor streamName updates db summary)
    (hcalls : ∀ c ∈ Program.calls tr, c.OfStream streamName ∧ c.IsPlain) :
    Converging slots anchor streamName updates db' (tally summary tr) := by
  induction hperforms generalizing summary with
  | nil => exact h
  | cons hact _ ih =>
      have hfirst := hcalls _ List.mem_cons_self
      exact ih (h.plain hfirst.1 hfirst.2 hact) fun c hc =>
        hcalls c (List.mem_cons_of_mem _ hc)

variable (hchain : ConsistentChain parentOf slots delivered)
  (hfinal : ∀ event ∈ delivered, FinalizedSlotEvent event)
include hchain

/-- An advance goes to the end of the path. -/
theorem converging_advance (hsub : updates ⊆ slotStates delivered)
    (hstored : StoredSlots db streamName)
    (hrecords : Records slots updates (db.streamSlots streamName)) {w : Int}
    (hw : db.watermark streamName = some w)
    (hreach : ReflTransGen (KnownLink slots updates) anchor w)
    {r : PostgresReply PostgresSlotStateError (.advanceContiguousFinalized streamName)}
    (hact : storeReply hasher postgresSlotStateStore db (.advanceContiguousFinalized streamName) r
      db') :
    Converging slots anchor streamName updates db'
      (tallyReply summary ⟨.advanceContiguousFinalized streamName, r⟩) := by
  have hname : PipelineCall.OfStream streamName (.advanceContiguousFinalized streamName) := rfl
  have hstored' := storedSlots_step hstored hname hact
  obtain ⟨fuel, hadvance⟩ := hact
  obtain ⟨frontier, rfl⟩ := (advance_nonneg hstored hadvance).2
  obtain ⟨watermark, head, hwatermark, -, hresult, -, hslots, hnew, -⟩ := advance_effect hadvance
  have hlink : ChainLink (db.streamSlots streamName) = KnownLink slots updates := by
    funext parent child
    exact propext (hrecords.chainLink_iff parent child)
  obtain ⟨last, rfl, -⟩ := hwatermark.stored_le w hw
  obtain ⟨start, hstart, hgreatest⟩ := hwatermark
  unfold IsAnchor at hstart
  rw [hw] at hstart
  rw [hstart, hlink] at hgreatest
  -- the advance started somewhere on the path, so it ends where the whole path does
  have hend := isGreatest_of_reaches (knownLink_rightUnique hchain hsub) (knownLink_lt hchain hsub)
    hreach hgreatest
  refine ⟨hstored', ?_, last, hnew, hend.1, fun _ => ⟨hend, ?_⟩⟩
  · rw [hslots]
    exact hrecords
  · show frontier.lastContiguousFinalizedSlot = _
    apply decodeFrontier_contiguous ?_ hresult.symm
    rintro s ⟨⟩
    exact hstored'.watermark last hnew

/-- A recording of final slot states says what was known and what is recorded. -/
theorem records_record (hsub : updates ++ recorded ⊆ slotStates delivered)
    (hfinals : ∀ update ∈ recorded, update.finalized = true)
    (hstored : StoredSlots db streamName)
    (hrecords : Records slots updates (db.streamSlots streamName))
    {r : PostgresReply PostgresSlotStateError (.recordSlotStates streamName recorded)}
    (hact : storeReply hasher postgresSlotStateStore db (.recordSlotStates streamName recorded) r
      db') :
    Records slots (updates ++ recorded) (db'.streamSlots streamName) := by
  have hfits : UpdatesFit recorded := updatesFit_of_fits fun update hupdate =>
    (hchain.sent update (hsub (List.mem_append_right updates hupdate))).1
  obtain ⟨hfind, hkeys⟩ := storeReply_record hfits hact
  exact hrecords.record hstored.slots
    (fun parent child hnamed => named_parentOf hchain (hnamed.mono hsub)) hfinals hfind hkeys

/-- The calls for the slot states of a batch: they are recorded and, as they are final, the
watermark advances. -/
theorem converging_slotCalls {states : List SlotStateUpdate}
    (hsub : updates ++ states ⊆ slotStates delivered)
    (hfinals : ∀ state ∈ states, state.finalized = true)
    (h : Converging slots anchor streamName updates db summary)
    {tr : PostgresTrace PostgresSlotStateError}
    (hperforms : Program.Performs (storeReply hasher postgresSlotStateStore) db tr db')
    (hcalls : Program.calls tr = slotCalls streamName true states) :
    Converging slots anchor streamName (updates ++ states) db' (tally summary tr) := by
  by_cases hnil : states = []
  · rw [hnil] at hcalls
    obtain rfl : tr = [] := List.map_eq_nil_iff.mp hcalls
    cases hperforms
    rw [hnil, List.append_nil]
    exact h
  · rw [slotCalls_of_final streamName hnil hfinals] at hcalls
    obtain ⟨⟨_, r₁⟩, tail, rfl, rfl, htail⟩ := List.map_eq_cons_iff.mp hcalls
    obtain ⟨⟨_, r₂⟩, tail', rfl, rfl, hnil'⟩ := List.map_eq_cons_iff.mp htail
    obtain rfl : tail' = [] := List.map_eq_nil_iff.mp hnil'
    rcases hperforms with _ | ⟨hrecord, _ | ⟨hadvance, _ | _⟩⟩
    have hname : PipelineCall.OfStream streamName (.recordSlotStates streamName states) := rfl
    obtain ⟨w, hw, hreach, -⟩ := h.watermark
    have hkeep := storeReply_frontier (fun name hc => by cases hc) hname hrecord
    have hmore : KnownLink slots updates ≤ KnownLink slots (updates ++ states) :=
      fun _ _ => KnownLink.mono (List.subset_append_left _ _)
    -- what is recorded is consistent with what was known, so the table says both
    have hrecords := records_record hchain hsub hfinals h.stored h.records hrecord
    exact converging_advance hchain hsub (storedSlots_step h.stored hname hrecord) hrecords
      (hkeep.1.trans hw) (ReflTransGen.mono hmore _ _ hreach) hadvance

include hfinal

theorem converging_batch (hsub : updates ⊆ slotStates delivered) {batch : List NormalizedEvent}
    (hbatch : slotStates batch ⊆ slotStates delivered)
    (h : Converging slots anchor streamName updates db summary)
    {tr : PostgresTrace PostgresSlotStateError}
    (hperforms : Program.Performs (storeReply hasher postgresSlotStateStore) db tr db')
    (hcalls : Program.calls tr = batchCalls streamName true batch) :
    Converging slots anchor streamName (updates ++ slotStates batch) db' (tally summary tr) := by
  unfold batchCalls at hcalls
  rw [← List.cons_append] at hcalls
  obtain ⟨first, rest, rfl, hfirst, hrest⟩ := List.map_eq_append_iff.mp hcalls
  obtain ⟨db₁, hperforms₁, hperforms₂⟩ := Program.performs_append_iff.mp hperforms
  -- up to the cursor update nothing is recorded and nothing advances
  have h₁ : Converging slots anchor streamName updates db₁ (tally summary first) := by
    apply h.plain_calls hperforms₁
    intro c hc
    rw [Program.calls, hfirst] at hc
    rcases List.mem_cons.mp hc with rfl | hc
    · exact ⟨trivial, by simp, by simp⟩
    · obtain ⟨slot, -, rfl⟩ := List.mem_map.mp hc
      exact ⟨rfl, by simp, by simp⟩
  rw [tally_append]
  have hfinals : ∀ update ∈ slotStates batch, update.finalized = true := fun update hupdate =>
    finalized_of_mem_slotStates hfinal update (hbatch hupdate)
  exact converging_slotCalls hchain (List.append_subset.mpr ⟨hsub, hbatch⟩) hfinals h₁
    hperforms₂ hrest

/-- A run over the batches keeps converging, whatever the batches are. -/
theorem converging_batches {batches : List (List NormalizedEvent)}
    (hsub : updates ⊆ slotStates delivered)
    (hbatches : batches.flatMap slotStates ⊆ slotStates delivered)
    (h : Converging slots anchor streamName updates db summary)
    {tr : PostgresTrace PostgresSlotStateError}
    (hperforms : Program.Performs (storeReply hasher postgresSlotStateStore) db tr db')
    (hcalls : Program.calls tr = batches.flatMap (batchCalls streamName true)) :
    Converging slots anchor streamName (updates ++ batches.flatMap slotStates) db'
      (tally summary tr) := by
  induction batches generalizing updates db tr summary with
  | nil =>
      obtain rfl : tr = [] := List.map_eq_nil_iff.mp hcalls
      cases hperforms
      rw [List.flatMap_nil, List.append_nil]
      exact h
  | cons batch batches ih =>
      rw [List.flatMap_cons] at hcalls hbatches ⊢
      obtain ⟨hbatch, hrest⟩ := List.append_subset.mp hbatches
      obtain ⟨first, rest, rfl, hfirst, hlast⟩ := List.map_eq_append_iff.mp hcalls
      obtain ⟨db₁, hperforms₁, hperforms₂⟩ := Program.performs_append_iff.mp hperforms
      have h₁ := converging_batch hchain hfinal hsub hbatch h hperforms₁ hfirst
      rw [tally_append, ← List.append_assoc]
      exact ih (List.append_subset.mpr ⟨hsub, hbatch⟩) hrest h₁ hperforms₂ hlast

end Batch

/-! ## Whole runs -/

section Whole

variable {hasher : Hasher} {config : PipelineConfig} {streamName : String}
  {parentOf : Int → Option Int} {delivered events : List NormalizedEvent} {db db' : Db}
  {tr : PostgresTrace PostgresSlotStateError}

theorem slotStates_batches (hresume : config.useSlotResume = false) :
    (batchesOf config events).flatMap slotStates = slotStates events := by
  rw [← slotStates_flatten, batchesOf, flatten_chunks, keptEvents_of_no_resume hresume]

theorem slotStates_batch_subset (hresume : config.useSlotResume = false)
    (harranged : Arrangement delivered events) {batch : List NormalizedEvent}
    (hbatch : batch ∈ batchesOf config events) : slotStates batch ⊆ slotStates delivered := by
  intro update hupdate
  rw [← harranged.mem_slotStates, ← slotStates_batches hresume]
  exact List.mem_flatMap.mpr ⟨batch, hbatch, hupdate⟩

variable (hchain : ConsistentChain parentOf (db.streamSlots streamName) delivered)
include hchain

/-- A run that returned Ok has converged. -/
theorem converging_run (hsize : 0 < config.batchSize) (hresume : config.useSlotResume = false)
    (hadvance : config.advanceFinalizedWatermark = true) (hstored : StoredSlots db streamName)
    {anchor : Int} (hanchor : db.watermark streamName = some anchor)
    (hfinal : ∀ event ∈ delivered, FinalizedSlotEvent event)
    (harranged : Arrangement delivered events) {summary : PipelineSummary}
    (h : PostgresRun hasher config streamName events db tr (.pure summary) db') :
    Converging (db.streamSlots streamName) anchor streamName (slotStates events) db'
      summary.counters := by
  obtain ⟨hplan, -, hcounters⟩ := (follows_pipeline hsize streamName events).result h.runs
  rw [hadvance] at hplan
  have hstart : Converging (db.streamSlots streamName) anchor streamName [] db
      (initialCounters config events) :=
    ⟨hstored, records_nil _, anchor, hanchor, .refl, fun hne => absurd rfl hne⟩
  have hbatches : (batchesOf config events).flatMap slotStates ⊆ slotStates delivered := by
    rw [slotStates_batches hresume]
    exact fun update => (harranged.mem_slotStates update).mp
  have hend := converging_batches hchain hfinal (List.nil_subset _) hbatches hstart
    (performs_storeTrace h.performs) hplan.symm
  rw [slotStates_batches hresume, List.nil_append] at hend
  rw [hcounters]
  exact hend

/-- Parents stay below their slots, so every recursive query comes to an end. -/
theorem queriesReturn_of_consistent (hsize : 0 < config.batchSize)
    (hresume : config.useSlotResume = false) (hstored : StoredSlots db streamName)
    (harranged : Arrangement delivered events) :
    QueriesReturn hasher config streamName events db := by
  intro tr next db' hrun
  have hkeep : StoredSlots db' streamName ∧ RowsBelow (db'.streamSlots streamName) := by
    apply hrun.performs.induction_mem
      (P := fun db => StoredSlots db streamName ∧ RowsBelow (db.streamSlots streamName)) ?_
      ⟨hstored, rowsBelow_stored hchain⟩
    rintro db₁ c r db₂ hmem ⟨hslots, hbelow⟩ hact
    have hname := ofStream_of_runs hsize hrun.runs hmem
    refine ⟨storedSlots_step hslots hname hact, ?_⟩
    by_cases hc : ∃ name updates, c = .recordSlotStates name updates
    · -- only a recording adds parents, and it takes them from the delivered events
      obtain ⟨name, updates, rfl⟩ := hc
      obtain rfl : name = streamName := hname
      obtain ⟨batch, hbatch, hcall⟩ := planned_of_runs hsize hrun.runs hmem rfl
      obtain ⟨-, rfl, -⟩ := mem_batchCalls_record hcall
      have hconsistent : ConsistentUpdates parentOf (slotStates batch) := fun update hupdate =>
        hchain.sent update (slotStates_batch_subset hresume harranged hbatch hupdate)
      have hfits : UpdatesFit (slotStates batch) :=
        updatesFit_of_fits fun update hupdate => (hconsistent update hupdate).1
      obtain ⟨hfind, hkeys⟩ := storeReply_record hfits hact
      exact hbelow.record hslots.slots hchain.below hconsistent hfind hkeys
    · rw [storeReply_slots (fun name updates hname => hc ⟨name, updates, hname⟩) hact]
      exact hbelow
  have hstops := (advance_terminates_iff db' streamName).mpr
    (noCycle_of_parentsBelow hkeep.2.parentsBelow)
  obtain ⟨fuel, out, hout⟩ := hstops
  exact ⟨fuel, out, hout⟩

theorem eventsFit_of_consistent {batchSize : Nat} (hsize : 0 < batchSize)
    (harranged : Arrangement delivered events) (hfits : ∀ event ∈ events, Convertible event) :
    EventsFit batchSize events where
  batchSize_pos := hsize
  slots := hfits
  parents batch hbatch state hstate parent hparent := by
    obtain ⟨given, hgiven, -, hgivenParent⟩ := lastParent_eq_some hparent
    have hmem : given ∈ slotStates events := by
      rw [← flatten_chunks batchSize events, slotStates_flatten]
      exact List.mem_flatMap.mpr ⟨batch, hbatch, hgiven⟩
    exact (hchain.sent given ((harranged.mem_slotStates given).mp hmem)).1.2 parent hgivenParent

end Whole

theorem knownLink_of_arrangement {slots : SlotTable} {delivered events : List NormalizedEvent}
    (h : Arrangement delivered events) :
    KnownLink slots (slotStates events) = KnownLink slots (slotStates delivered) := by
  funext parent child
  apply propext
  constructor
  · exact KnownLink.mono fun update => (h.mem_slotStates update).mp
  · exact KnownLink.mono fun update => (h.mem_slotStates update).mpr

/-- The pipeline returns, and whenever it does it returns Ok, with the watermark at the end of the
chain of parents from the anchor. -/
structure Converges (hasher : Hasher) (config : PipelineConfig) (streamName : String)
    (events : List NormalizedEvent) (db : Db) (anchor watermark : Int) : Prop where
  returns : ∃ tr q db', PostgresRun hasher config streamName events db tr q db' ∧ q.Ended
  ok : ∀ tr q db', PostgresRun hasher config streamName events db tr q db' → q.Ended →
    ∃ summary, q = .pure summary ∧ db'.watermark streamName = some watermark ∧
      summary.lastContiguousFinalizedSlot = some watermark.toNat ∧
      IsChainEnd (ChainLink (db'.streamSlots streamName)) anchor watermark

theorem convertible_of_run {hasher : Hasher} {batchSize channelCapacity : Nat}
    {resumeAfterSlot : Option Nat} {streamName : String} {events : List NormalizedEvent}
    {db db' : Db} (hsize : 0 < batchSize) (hstored : StoredSlots db streamName)
    {tr : PostgresTrace PostgresSlotStateError} {summary : PipelineSummary}
    (h : PostgresRun hasher (liveConfig batchSize channelCapacity resumeAfterSlot) streamName events
      db tr (.pure summary) db') : ∀ event ∈ events, Convertible event := by
  have hcalls := h.fits_of_ok hsize hstored
  have hkept : batchesOf (liveConfig batchSize channelCapacity resumeAfterSlot) events =
      chunks batchSize events := congrArg _ (keptEvents_of_no_resume rfl events)
  rw [hkept] at hcalls
  exact ((eventsFit_iff hsize streamName true events).mpr hcalls).slots

theorem ingests_of_arrangement (hasher : Hasher) {streamName : String} {db : Db}
    {parentOf : Int → Option Int} {delivered events : List NormalizedEvent}
    (hchain : ConsistentChain parentOf (db.streamSlots streamName) delivered)
    (hstored : StoredSlots db streamName) {batchSize : Nat} (hsize : 0 < batchSize)
    (channelCapacity : Nat) (resumeAfterSlot : Option Nat)
    (harranged : Arrangement delivered events)
    (hfits : ∀ event ∈ events, Convertible event) :
    Ingests hasher (liveConfig batchSize channelCapacity resumeAfterSlot) streamName events db :=
  ingests_of_fits hasher hsize hstored
    (queriesReturn_of_consistent hchain hsize rfl hstored harranged)
    (eventsFit_of_consistent hchain hsize harranged hfits)

/-- The live watermark does not depend on the order in which finalized slots arrive, on how often
they are delivered, on what else comes between them or on the size of the batches: there is one slot
such that the run ends with it, as the end of the chain of parents that starts at the stored
watermark, exactly if every slot fits.  The run fails at the first batch with a slot that does not,
and leaves out the finalized slots from there on. -/
theorem watermark_confluent_iff (hasher : Hasher) (streamName : String) (db : Db)
    (hstored : StoredSlots db streamName) (anchor : Int)
    (hanchor : db.watermark streamName = some anchor) (parentOf : Int → Option Int)
    (delivered : List NormalizedEvent) (hne : delivered ≠ [])
    (hfinal : ∀ event ∈ delivered, FinalizedSlotEvent event)
    (hchain : ConsistentChain parentOf (db.streamSlots streamName) delivered) :
    ∃ watermark, ∀ (batchSize channelCapacity : Nat) (resumeAfterSlot : Option Nat)
      (events : List NormalizedEvent), 0 < batchSize → Arrangement delivered events →
      (Converges hasher (liveConfig batchSize channelCapacity resumeAfterSlot) streamName events db
        anchor watermark ↔ ∀ event ∈ events, Convertible event) := by
  set known := KnownLink (db.streamSlots streamName) (slotStates delivered) with hknown
  -- the end of the path, if there is a run that finds it
  obtain ⟨watermark, hwatermark⟩ : ∃ watermark, ∀ w,
      IsGreatest {s | ReflTransGen known anchor s} w → w = watermark := by
    by_cases hend : ∃ w, IsGreatest {s | ReflTransGen known anchor s} w
    · obtain ⟨w, hw⟩ := hend
      exact ⟨w, fun w' hw' => hw'.unique hw⟩
    · exact ⟨anchor, fun w hw => absurd ⟨w, hw⟩ hend⟩
  refine ⟨watermark, fun batchSize channelCapacity resumeAfterSlot events hsize harranged => ?_⟩
  constructor
  · intro hconverges
    obtain ⟨tr, q, db', hrun, hended⟩ := hconverges.returns
    obtain ⟨summary, rfl, -⟩ := hconverges.ok tr q db' hrun hended
    exact convertible_of_run hsize hstored hrun
  · intro hfits
    have hingests := ingests_of_arrangement hasher hchain hstored hsize channelCapacity
      resumeAfterSlot harranged hfits
    refine ⟨hingests.returns, fun tr q db' hrun hended => ?_⟩
    obtain ⟨summary, rfl, -⟩ := hingests.ok tr q db' hrun hended
    have hend := converging_run hchain hsize rfl rfl hstored hanchor hfinal harranged hrun
    obtain ⟨w, hw, -, hgreatest⟩ := hend.watermark
    have hsome : slotStates events ≠ [] := by
      obtain ⟨update, hupdate⟩ := List.exists_mem_of_ne_nil _ (slotStates_ne_nil hne hfinal)
      exact List.ne_nil_of_mem ((harranged.mem_slotStates update).mpr hupdate)
    obtain ⟨hgreatest, hsummary⟩ := hgreatest hsome
    have hlink : ChainLink (db'.streamSlots streamName) =
        KnownLink (db.streamSlots streamName) (slotStates events) := by
      funext parent child
      exact propext (hend.records.chainLink_iff parent child)
    rw [knownLink_of_arrangement harranged, ← hknown] at hgreatest hlink
    obtain rfl := hwatermark w hgreatest
    refine ⟨summary, rfl, hw, hsummary, ?_⟩
    rw [hlink]
    exact isChainEnd_of_isGreatest (knownLink_lt hchain (List.Subset.refl _)) hgreatest

/-- A stream whose watermark is 10, with no slot states yet. -/
def watermarkAtTen : Db := Db.empty.setCursor "test" ⟨10, some 10, some 10⟩

theorem storedSlots_watermarkAtTen : StoredSlots watermarkAtTen "test" where
  slots := by simp [watermarkAtTen, Db.empty, KeyedTable.empty, KeyedTable.keys]
  watermark := by
    rintro w ⟨⟩
    decide
  head := by
    rintro h ⟨⟩
    decide

theorem consistentChain_children : ConsistentChain (fun slot => some (slot - 1))
    (watermarkAtTen.streamSlots "test") [finalizedSlot 12 11, finalizedSlot 11 10] where
  below := by
    rintro slot parent ⟨⟩
    omega
  stored := by
    rintro slot row ⟨⟩
  sent := by
    intro update hupdate
    have hcases : update = ⟨12, some 11, true, false⟩ ∨ update = ⟨11, some 10, true, false⟩ := by
      simpa [slotStates, slotStateFromEvent, finalizedSlot, Value.get, Value.asU64] using hupdate
    rcases hcases with rfl | rfl
    · refine ⟨⟨by decide, by decide⟩, ?_⟩
      rintro parent ⟨⟩
      rfl
    · refine ⟨⟨by decide, by decide⟩, ?_⟩
      rintro parent ⟨⟩
      rfl
  distinct := by
    rintro a b parent - - ⟨⟩ hb
    have heq := Option.some.inj hb
    omega

theorem finalizedSlotEvents_children :
    ∀ event ∈ [finalizedSlot 12 11, finalizedSlot 11 10], FinalizedSlotEvent event := by
  intro event hevent
  rcases List.mem_pair.mp hevent with rfl | rfl <;> exact ⟨_, _, rfl⟩

/-- The two children of the watermark, the later one first and in batches of one; and one of them
twice, with a transaction between them and in batches of two. -/
theorem watermark_confluent_children : ∃ watermark,
    Converges sampleHasher (liveConfig 1 1 none) "test" [finalizedSlot 12 11, finalizedSlot 11 10]
      watermarkAtTen 10 watermark ∧
    Converges sampleHasher (liveConfig 2 1 none) "test"
      [finalizedSlot 11 10, transfer 12, finalizedSlot 12 11, finalizedSlot 11 10] watermarkAtTen 10
      watermark := by
  obtain ⟨watermark, h⟩ := watermark_confluent_iff sampleHasher "test" watermarkAtTen
    storedSlots_watermarkAtTen 10 rfl (fun slot => some (slot - 1))
    [finalizedSlot 12 11, finalizedSlot 11 10] (List.cons_ne_nil _ _) finalizedSlotEvents_children
    consistentChain_children
  refine ⟨watermark, (h 1 1 none _ Nat.one_pos ⟨fun _ => id, fun _ => .inl⟩).mpr ?_,
    (h 2 1 none _ Nat.two_pos ⟨fun event hevent => ?_, fun event hevent => ?_⟩).mpr ?_⟩
  · decide
  · rcases List.mem_pair.mp hevent with rfl | rfl <;> simp
  · simp only [List.mem_cons, List.not_mem_nil, or_false] at hevent
    rcases hevent with rfl | rfl | rfl | rfl
    · exact .inl (by simp)
    · exact .inr rfl
    · exact .inl (by simp)
    · exact .inl (by simp)
  · decide

/-- The calls that are made for a transaction of slot 2^63, up to the cursor update that fails. -/
def outOfRangeTrace : PostgresTrace PostgresSlotStateError :=
  [⟨.onProgress .default, ()⟩, ⟨.channelLen, (0 : Nat)⟩,
    ⟨.onActivity ⟨2 ^ 63, 1, 0, 1, "transaction"⟩, ()⟩,
    ⟨.writeBatch [transfer (2 ^ 63)],
      .ok (Storage.writeBatch sampleHasher watermarkAtTen.events [transfer (2 ^ 63)]).1⟩,
    ⟨.batchElapsed, (0 : Nat)⟩,
    ⟨.updateAfterBatch "test" (2 ^ 63), .error (.slotOutOfRange (2 ^ 63))⟩]

def afterOutOfRange : Db :=
  { watermarkAtTen with
    events := (Storage.writeBatch sampleHasher watermarkAtTen.events [transfer (2 ^ 63)]).2 }

theorem outOfRange_run : PostgresRun sampleHasher (liveConfig 1 1 none) "test"
    [transfer (2 ^ 63), finalizedSlot 12 11, finalizedSlot 11 10] watermarkAtTen outOfRangeTrace
      (.throw (.cursor (.slotOutOfRange (2 ^ 63)))) afterOutOfRange where
  runs := .step (.step (.step (.step (.step (.step (.refl _))))))
  performs := .cons rfl (.cons rfl (.cons rfl (.cons ⟨rfl, rfl⟩ (.cons rfl
    (.cons (updateAfterBatch_of_gt afterOutOfRange "test" (by decide)) (.nil _))))))

/-- A transaction of slot 2^63 before the children of the watermark stops it at 10, and without that
transaction it passes 11. -/
theorem watermark_depends_on_order : ¬ ∀ (hasher : Hasher) (streamName : String) (db : Db)
    (anchor : Int) (parentOf : Int → Option Int) (delivered : List NormalizedEvent),
    StoredSlots db streamName → db.watermark streamName = some anchor → delivered ≠ [] →
    (∀ event ∈ delivered, FinalizedSlotEvent event) →
    ConsistentChain parentOf (db.streamSlots streamName) delivered →
    ∃ watermark, ∀ (batchSize channelCapacity : Nat) (resumeAfterSlot : Option Nat)
      (events : List NormalizedEvent), 0 < batchSize → Arrangement delivered events →
      ∀ tr q db', PostgresRun hasher (liveConfig batchSize channelCapacity resumeAfterSlot)
        streamName events db tr q db' → q.Ended → db'.watermark streamName = some watermark := by
  intro hall
  obtain ⟨watermark, hsame⟩ := hall sampleHasher "test" watermarkAtTen 10
    (fun slot => some (slot - 1)) [finalizedSlot 12 11, finalizedSlot 11 10]
    storedSlots_watermarkAtTen rfl (List.cons_ne_nil _ _) finalizedSlotEvents_children
    consistentChain_children
  have hfirst := hsame 1 1 none _ Nat.one_pos
    ⟨fun event => List.mem_cons_of_mem _, fun event hevent =>
      (List.mem_cons.mp hevent).elim (fun heq => .inr (heq ▸ rfl)) .inl⟩ _ _ _ outOfRange_run
        trivial
  have harranged : Arrangement [finalizedSlot 12 11, finalizedSlot 11 10]
      [finalizedSlot 12 11, finalizedSlot 11 10] := ⟨fun _ => id, fun _ => .inl⟩
  have hingests := ingests_of_arrangement sampleHasher consistentChain_children
    storedSlots_watermarkAtTen Nat.one_pos 1 none harranged (by decide)
  obtain ⟨tr, q, db₂, hrun, hended⟩ := hingests.returns
  obtain ⟨summary, rfl, -⟩ := hingests.ok tr q db₂ hrun hended
  have hsecond := hsame 1 1 none _ Nat.one_pos harranged tr _ db₂ hrun hended
  -- both runs would end with 10, but 11 is on the path of the second
  obtain ⟨w, hw, -, hgreatest⟩ := (converging_run consistentChain_children Nat.one_pos rfl rfl
    storedSlots_watermarkAtTen rfl finalizedSlotEvents_children harranged hrun).watermark
  have hten : afterOutOfRange.watermark "test" = some 10 := rfl
  obtain rfl : w = 10 := Option.some.inj
    (hw.symm.trans (hsecond.trans (hfirst.symm.trans hten)))
  have hlink : KnownLink (watermarkAtTen.streamSlots "test")
      (slotStates [finalizedSlot 12 11, finalizedSlot 11 10]) 10 11 :=
    ⟨.inr ⟨⟨11, some 10, true, false⟩, by decide, rfl⟩,
      .inr ⟨⟨11, some 10, true, false⟩, by decide, rfl, 10, rfl, rfl⟩⟩
  have hle : (11 : Int) ≤ 10 :=
    (hgreatest (slotStates_ne_nil (List.cons_ne_nil _ _) finalizedSlotEvents_children)).1.2
      (.single hlink)
  exact absurd hle (by decide)

end YellowstoneStream.Stream

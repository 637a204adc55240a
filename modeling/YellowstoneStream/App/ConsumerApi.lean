import YellowstoneStream.Storage.Redelivery
import YellowstoneStream.Stream.SharedDatabase

/-!
# The consumer API

The `/v1` handlers of `crates/app/src/http.rs`, and what a consumer may conclude from their answers
while processes write to the database.
-/

open YellowstoneStream.Domain YellowstoneStream.Reasoning YellowstoneStream.Storage
  YellowstoneStream.Stream

namespace YellowstoneStream.App

inductive ApiError where
  | poolTimedOut
  deriving DecidableEq, Repr

structure RecentQuery where
  filter : Option String
  limit : Int

def defaultLimit : Int := 100

/-- `RecentEventsQuery` and `RecentSwapsQuery`, whose limit may be left out. -/
def RecentQuery.ofParams (filter : Option String) (limit : Option Int) : RecentQuery :=
  ⟨filter, limit.getD defaultLimit⟩

def requirePool (pool : Option Db) : Except ApiError Db :=
  match pool with
  | some db => .ok db
  | none => .error .poolTimedOut

section Handlers

variable (collation : Collation) (pool : Option Db)

/-- The handlers when their query succeeds. -/
def recentEventsHandler (params : RecentQuery) : Except ApiError (List RecentEvent) := do
  let db ← requirePool pool
  let limit := clampLimit params.limit
  return recentEvents collation db.events params.filter limit

def streamLagHandler (streamName : String) : Except ApiError StreamLag := do
  let db ← requirePool pool
  return streamLag db streamName

end Handlers

theorem recentEventsHandler_some (collation : Collation) (db : Db) (params : RecentQuery) :
    recentEventsHandler collation (some db) params =
      .ok (recentEvents collation db.events params.filter params.limit) := by
  show Except.ok (recentEvents _ _ _ (clampLimit params.limit)) = _
  unfold recentEvents
  rw [clampLimit_clampLimit]

/-! ## Two histories -/

section Histories

variable {S : Type} {hasher : Hasher} {store : SlotStateStore S} {db : Db}

/-- A row of one history is one of every other history that has persisted the same event ids. -/
theorem mem_rows_of_same_ids {db₁ db₂ : Db} {tr₁ tr₂ : PostgresTrace S}
    (h₁ : Program.Performs (faultyReply hasher store) db tr₁ db₁)
    (h₂ : Program.Performs (faultyReply hasher store) db tr₂ db₂)
    (hsame : ∀ id, id ∈ db₁.events.keys ↔ id ∈ db₂.events.keys)
    (hid : ∀ batch batch', .writeBatch batch ∈ Program.calls tr₁ →
      .writeBatch batch' ∈ Program.calls tr₂ → ∀ event ∈ batch, ∀ other ∈ batch',
        event.eventId hasher = other.eventId hasher → event = other)
    {row : EventRow} (hrow : row ∈ db₁.events.rows) : row ∈ db₂.events.rows := by
  obtain ⟨added₁, hadded₁⟩ := performs_rows h₁
  obtain ⟨added₂, hadded₂⟩ := performs_rows h₂
  rcases performs_row_origin h₁ hrow with hold | ⟨batch, hbatch, event, hevent, hconv⟩
  · rw [hadded₂]
    exact List.mem_append_left _ hold
  · obtain ⟨other, hother, hkey⟩ := List.mem_map.mp ((hsame _).mp (List.mem_map_of_mem hrow))
    rcases performs_row_origin h₂ hother with
      hold | ⟨batch', hbatch', event', hevent', hconv'⟩
    · -- the other row is older than both histories
      have hmem : other ∈ db₁.events.rows := by
        rw [hadded₁]
        exact List.mem_append_left _ hold
      exact List.inj_on_of_nodup_map db₁.events.unique hmem hrow hkey ▸ hother
    · have hids : event.eventId hasher = event'.eventId hasher := by
        rw [← (eventId_of_rowOf hconv).1, ← (eventId_of_rowOf hconv').1, hkey]
      obtain rfl := hid batch batch' hbatch hbatch' event hevent event' hevent' hids
      cases hconv.symm.trans hconv'
      exact hother

/-- Whatever processes wrote, in which order and in which batches, however often an event was
delivered and whichever calls failed: where two histories of a database have persisted the same
event ids, the recent events are the same, and in the same order. -/
theorem recent_events_of_same_ids (hasher : Hasher) (store : SlotStateStore S) (db db₁ db₂ : Db)
    (tr₁ tr₂ : PostgresTrace S) (h₁ : Program.Performs (faultyReply hasher store) db tr₁ db₁)
    (h₂ : Program.Performs (faultyReply hasher store) db tr₂ db₂)
    (hsame : ∀ id, id ∈ db₁.events.keys ↔ id ∈ db₂.events.keys)
    (hid : ∀ batch batch', .writeBatch batch ∈ Program.calls tr₁ →
      .writeBatch batch' ∈ Program.calls tr₂ → ∀ event ∈ batch, ∀ other ∈ batch',
        event.eventId hasher = other.eventId hasher → event = other)
    (collation : Collation) (eventType : Option String) (limit : Int)
    (page page' : List RecentEvent)
    (hpage : RecentEvents collation db₁.events eventType limit page)
    (hpage' : RecentEvents collation db₂.events eventType limit page') : page = page' := by
  rw [recentEvents_iff.mp hpage, recentEvents_iff.mp hpage']
  apply recentEvents_of_perm
  rw [List.perm_ext_iff_of_nodup db₁.events.unique.of_map db₂.events.unique.of_map]
  intro row
  constructor
  · exact mem_rows_of_same_ids h₁ h₂ hsame hid
  · refine mem_rows_of_same_ids h₂ h₁ (fun id => (hsame id).symm) ?_
    intro batch batch' hbatch hbatch' event hevent other hother hids
    exact (hid batch' batch hbatch' hbatch other hother event hevent hids.symm).symm

def afterWrite (db : Db) (batch : List NormalizedEvent) : Db :=
  { db with events := (Storage.writeBatch sampleHasher db.events batch).2 }

theorem eq_of_sample_ids {event other : NormalizedEvent}
    (hevent : event ∈ [missingSignature, emptySignature])
    (hother : other ∈ [missingSignature, emptySignature])
    (h : event.eventId sampleHasher = other.eventId sampleHasher) : event = other := by
  have hidentity : event.identity = other.identity := by
    refine sampleHasher_collisionFree.eventId_injOn ?_ ?_ h
    · exact (List.mem_pair.mp hevent).imp (congrArg _) (congrArg _)
    · exact (List.mem_pair.mp hother).imp (congrArg _) (congrArg _)
  rcases List.mem_pair.mp hevent with rfl | rfl <;> rcases List.mem_pair.mp hother with rfl | rfl
  · rfl
  · exact absurd hidentity (by decide)
  · exact absurd hidentity (by decide)
  · rfl

/-- Two events in one batch, or one after the other. -/
theorem recent_events_of_same_ids_reordered :
    recentEvents codePointCollation
        (afterWrite .empty [missingSignature, emptySignature]).events none 10 =
      recentEvents codePointCollation
        (afterWrite (afterWrite .empty [emptySignature]) [missingSignature]).events none 10 := by
  refine recent_events_of_same_ids sampleHasher sharedSlotStateStore .empty _ _
    [⟨.writeBatch [missingSignature, emptySignature], .ok _⟩]
    [⟨.writeBatch [emptySignature], .ok _⟩, ⟨.writeBatch [missingSignature], .ok _⟩]
    (.cons (.inl ⟨rfl, rfl⟩) (.nil _)) (.cons (.inl ⟨rfl, rfl⟩) (.cons (.inl ⟨rfl, rfl⟩) (.nil _)))
    (fun id => ?_) (fun batch batch' hbatch hbatch' event hevent other hother => ?_)
    codePointCollation none 10 _ _ (recentEvents_iff.mpr rfl) (recentEvents_iff.mpr rfl)
  · have hboth : [missingSignature, emptySignature].filterMap (rowOf sampleHasher) =
        [missingSignature].filterMap (rowOf sampleHasher) ++
          [emptySignature].filterMap (rowOf sampleHasher) :=
      List.filterMap_append (l := [missingSignature])
    simp only [writeBatch_table, KeyedTable.mem_keys_insertAllNew, hboth, List.map_append,
      List.mem_append]
    exact (or_congr_right or_comm).trans or_assoc.symm
  · refine eq_of_sample_ids ?_ ?_
    · obtain rfl := PipelineCall.writeBatch.inj (List.mem_singleton.mp hbatch)
      exact hevent
    · rcases List.mem_pair.mp hbatch' with h | h
      · cases h
        exact List.mem_cons_of_mem _ hother
      · cases h
        rw [List.mem_singleton.mp hother]
        exact List.mem_cons_self

/-! ## Polls -/

/-- What was inserted between two polls is all that the second adds to the first; and an event that
ranks above those of the first poll is missed by the second only if more events were inserted than
a page holds. -/
theorem next_poll (hasher : Hasher) (store : SlotStateStore S) (db db' : Db)
    (tr : PostgresTrace S) (h : Program.Performs (faultyReply hasher store) db tr db') :
    ∃ added, db'.events.rows = db.events.rows ++ added ∧
      ∀ collation params page page',
        recentEventsHandler collation (some db) params = .ok page →
        recentEventsHandler collation (some db') params = .ok page' →
        page' = (recentEventsOrder collation).top (clampLimit params.limit).toNat
          (page ++ selectedEvents params.filter added) ∧
        ((selectedEvents params.filter added).length ≤ clampLimit params.limit →
          ∀ event ∈ selectedEvents params.filter added,
            (∀ first ∈ page.head?, ¬ (recentEventsOrder collation).le first event) →
              event ∈ page') := by
  obtain ⟨added, hadded⟩ := performs_rows h
  refine ⟨added, hadded, fun collation params page page' hpage hpage' => ?_⟩
  rw [recentEventsHandler_some] at hpage hpage'
  cases hpage
  cases hpage'
  have hsep := @selectedEvents_separates collation db'.events params.filter
  unfold recentEvents
  rw [hadded, selectedEvents_append] at hsep ⊢
  refine ⟨RowOrder.top_append hsep, fun hfew event hevent hfirst => ?_⟩
  refine RowOrder.mem_top_of_added (by omega) hevent fun old hold hle => ?_
  -- the first event of the page ranks above all that were there
  obtain ⟨first, hhead, -⟩ :=
    @exists_first collation db.events params.filter params.limit old hold
  refine hfirst first hhead ?_
  by_cases hsame : old = first
  · exact hsame ▸ hle
  · exact IsTrans.trans _ _ _ (RowOrder.le_of_head hhead hold hsame) hle

/-- One event on an empty table. -/
theorem next_poll_one : ∃ page',
    recentEventsHandler codePointCollation (some (afterWrite .empty [missingSignature]))
      ⟨none, 1⟩ = .ok page' ∧ ∃ event ∈ page', event.slot = 42 := by
  obtain ⟨added, hadded, hpoll⟩ := next_poll sampleHasher sharedSlotStateStore .empty
    (afterWrite .empty [missingSignature]) [⟨.writeBatch [missingSignature], .ok _⟩]
    (.cons (.inl ⟨rfl, rfl⟩) (.nil _))
  obtain ⟨row, hrow, hslot⟩ :
      ∃ row, (afterWrite .empty [missingSignature]).events.rows = [row] ∧ row.slot = 42 :=
    ⟨_, rfl, rfl⟩
  obtain rfl : added = [row] := hadded.symm.trans hrow
  refine ⟨_, recentEventsHandler_some .., .fromRow row, ?_, hslot⟩
  exact (hpoll codePointCollation ⟨none, 1⟩ [] _ rfl (recentEventsHandler_some ..)).2
    (show (1 : Int) ≤ 1 from le_rfl) _ List.mem_cons_self nofun

end Histories

/-! ## Progress and events -/

/-- In every state that any number of processes lead to, and at whichever calls they failed or
stopped: the progress that is reported for a stream is the slot of a stored event, and no later than
the first of the recent events. -/
theorem lag_within_recent_events {ι : Type} [DecidableEq ι] (hasher : Hasher)
    (processes : ι → PipelineProcess)
    (hhash : hasher.CollisionFree {identity | ∃ event, Received processes event ∧
      event.identity = identity}) (x : SharedPipelines ι)
    (h : SharedPipelines.Reaches hasher processes .empty x)
    (streamName : String) (lag : StreamLag)
    (hlag : streamLagHandler (some x.world) streamName = .ok lag) (slot : Int)
    (hslot : lag.lastPersistedSlot = some slot) (hpos : 0 < slot) (collation : Collation)
    (limit : Option Int) :
    (∃ stored ∈ x.world.events.rows, stored.slot = slot) ∧
    ∃ page first, recentEventsHandler collation (some x.world) (.ofParams none limit) =
      .ok page ∧ page.head? = some first ∧ slot ≤ first.slot := by
  have hback := backed_of_reaches hhash h
  cases hlag
  unfold streamLag at hslot
  cases hrow : x.world.streamCursors streamName with
  | none =>
      rw [hrow] at hslot
      cases hslot
      exact absurd hpos (lt_irrefl _)
  | some row =>
      rw [hrow] at hslot
      cases hslot
      obtain ⟨stored, hstored, heq⟩ := hback.cursor streamName row hrow hpos
      have hselected : RecentEvent.fromRow stored ∈ selectedEvents none x.world.events.rows :=
        mem_selectedEvents.mpr ⟨stored, hstored, nofun, rfl⟩
      obtain ⟨first, hhead, hle⟩ := @exists_first collation x.world.events none
        (RecentQuery.ofParams none limit).limit _ hselected
      refine ⟨⟨stored, hstored, heq.symm⟩, _, first, recentEventsHandler_some .., hhead, ?_⟩
      exact heq.trans_le hle

/-- A process whose one event is the first that any process has written. -/
def firstProcess : Unit → PipelineProcess := fun _ =>
  ⟨⟨1, 1, none, true, false⟩, "test", .postgres, [finalizedSlot 7 6]⟩

theorem firstProcess_collisionFree :
    sampleHasher.CollisionFree {identity | ∃ event, Received firstProcess event ∧
      event.identity = identity} := by
  have hone : ∀ a ∈ {identity | ∃ event, Received firstProcess event ∧
      event.identity = identity}, a = (finalizedSlot 7 6).identity := by
    rintro a ⟨event, ⟨_, hevent⟩, rfl⟩
    rw [List.mem_singleton.mp hevent]
  constructor
  · intro a ha b hb _
    rw [hone a ha, hone b hb]
  · rintro _ ⟨a, ha, rfl⟩ _ ⟨b, hb, rfl⟩ _
    rw [hone a ha, hone b hb]

def firstTrace : PostgresTrace PostgresSlotStateError :=
  [⟨.onProgress .default, ()⟩, ⟨.channelLen, (0 : Nat)⟩, ⟨.onActivity ⟨7, 1, 0, 1, "slot"⟩, ()⟩,
    ⟨.writeBatch [finalizedSlot 7 6], .ok ⟨1, 1, 0, 0⟩⟩, ⟨.batchElapsed, (12 : Nat)⟩,
    ⟨.updateAfterBatch "test" 7, .ok ()⟩]

theorem performs_firstTrace : Program.Performs (processReply sampleHasher (firstProcess ()))
    .empty firstTrace (updateAfterBatch (afterWrite .empty [finalizedSlot 7 6]) "test" 7).2 :=
  .cons (.ok rfl rfl) (.cons (.ok rfl rfl) (.cons (.ok rfl rfl) (.cons (.ok ⟨rfl, rfl⟩ rfl)
    (.cons (.ok rfl rfl) (.cons (.ok rfl rfl) (.nil _))))))

/-- The cursor is at slot 7 once its batch is written. -/
theorem lag_within_recent_events_first : ∃ (db : Db) (page : List RecentEvent)
    (first : RecentEvent),
    streamLagHandler (some db) "test" = .ok ⟨"test", some 7, none, none⟩ ∧
    recentEventsHandler codePointCollation (some db) (.ofParams none none) = .ok page ∧
    page.head? = some first ∧ 7 ≤ first.slot := by
  have hstart : SharedPipelines.Reaches sampleHasher firstProcess .empty
    (startPipelines firstProcess .empty) := .refl
  obtain ⟨x, hreach, -, -, hworld, -⟩ := hstart.process (i := ())
    (.step (.step (.step (.step (.step (.step (.refl _))))))) performs_firstTrace rfl
  have hlag : streamLagHandler (some x.world) "test" = .ok ⟨"test", some 7, none, none⟩ := by
    rw [hworld]
    rfl
  obtain ⟨-, page, first, hpage, hfirst, hle⟩ := lag_within_recent_events sampleHasher firstProcess
    firstProcess_collisionFree x hreach "test" _ hlag 7 rfl (by decide) codePointCollation none
  exact ⟨x.world, page, first, hlag, hpage, hfirst, hle⟩

end YellowstoneStream.App

import Mathlib.Logic.Function.Basic
import YellowstoneStream.Storage.Redelivery
import YellowstoneStream.Stream.PostgresStores

/-!
# Streams of one database

Any number of processes may write to one database.  Cursors and slot states belong to a stream, so
those of a stream do not depend on what is done for the others; events are shared, and only writes
of batches touch them.  An advance is two statements, between which any others may come.
-/

open YellowstoneStream.Domain YellowstoneStream.Reasoning YellowstoneStream.Storage

namespace YellowstoneStream.Stream

/-- The stream whose rows a call reads and writes. -/
def PipelineCall.stream : PipelineCall → Option String
  | .updateAfterBatch name _ | .recordSlotStates name _ | .advanceContiguousFinalized name =>
      some name
  | .channelLen | .onActivity _ | .onProgress _ | .batchElapsed | .writeBatch _ => none

def PipelineCall.isOf (streamName : String) (c : PipelineCall) : Bool := c.stream = some streamName

def PipelineCall.isWrite : PipelineCall → Bool
  | .writeBatch _ => true
  | _ => false

/-- The rows of a stream. -/
def streamRows (streamName : String) (db : Db) : Option StreamCursorRow × SlotTable :=
  (db.streamCursors streamName, db.streamSlots streamName)

section Answers

variable {S : Type} {hasher : Hasher} {streamName : String}

theorem streamRows_setCursor_of_ne {name : String} (h : name ≠ streamName) (db : Db)
    (row : StreamCursorRow) : streamRows streamName (db.setCursor name row) =
      streamRows streamName db := by
  have hcursor : (db.setCursor name row).streamCursors streamName =
      db.streamCursors streamName := if_neg (Ne.symm h)
  rw [streamRows, hcursor]
  rfl

theorem streamRows_setSlots_of_ne {name : String} (h : name ≠ streamName) (db : Db)
    (slots : SlotTable) : streamRows streamName (db.setSlots name slots) =
      streamRows streamName db := by
  have hslots : (db.setSlots name slots).streamSlots streamName =
      db.streamSlots streamName := if_neg (Ne.symm h)
  rw [streamRows, hslots]
  rfl

/-- A recording for another stream. -/
theorem streamRows_record_of_ne {name : String} (h : name ≠ streamName) (order : IterationOrder)
    (db : Db) (updates : List SlotStateUpdate) :
    streamRows streamName (recordSlotStates order db name updates).2 =
      streamRows streamName db := by
  rw [recordSlotStates]
  split
  · rfl
  · split
    · rfl
    · split
      · rfl
      · exact streamRows_setSlots_of_ne h db _

theorem streamRows_update_of_ne {name : String} (h : name ≠ streamName) (db : Db) (slot : Nat) :
    streamRows streamName (updateAfterBatch db name slot).2 = streamRows streamName db := by
  rw [updateAfterBatch]
  split
  · rfl
  · exact streamRows_setCursor_of_ne h db _

variable {db v : Db} (hview : streamRows streamName v = streamRows streamName db)
include hview

/-- What a recording does is seen from the rows of its stream. -/
theorem record_view (order : IterationOrder) (updates : List SlotStateUpdate) :
    (recordSlotStates order v streamName updates).1 =
        (recordSlotStates order db streamName updates).1 ∧
      streamRows streamName (recordSlotStates order v streamName updates).2 =
        streamRows streamName (recordSlotStates order db streamName updates).2 := by
  obtain ⟨hcursor, hslots⟩ := Prod.mk.inj hview
  unfold recordSlotStates
  rw [hslots]
  split
  · exact ⟨rfl, hview⟩
  · split
    · exact ⟨rfl, hview⟩
    · split
      · exact ⟨rfl, hview⟩
      · refine ⟨rfl, Prod.ext hcursor ?_⟩
        show (v.setSlots streamName _).streamSlots streamName =
          (db.setSlots streamName _).streamSlots streamName
        rw [Db.setSlots_slots, Db.setSlots_slots]

theorem setCursor_view (row : StreamCursorRow) :
    streamRows streamName (v.setCursor streamName row) =
      streamRows streamName (db.setCursor streamName row) := by
  rw [streamRows, streamRows, Db.setCursor_cursor, Db.setCursor_cursor]
  exact Prod.ext rfl (Prod.mk.inj hview).2

theorem update_view (slot : Nat) :
    (updateAfterBatch v streamName slot).1 = (updateAfterBatch db streamName slot).1 ∧
      streamRows streamName (updateAfterBatch v streamName slot).2 =
        streamRows streamName (updateAfterBatch db streamName slot).2 := by
  unfold updateAfterBatch
  split
  · exact ⟨rfl, hview⟩
  · rw [(Prod.mk.inj hview).1]
    exact ⟨rfl, setCursor_view hview _⟩

theorem selectWatermark_view {fuel : Nat} :
    selectWatermark fuel v streamName = selectWatermark fuel db streamName := by
  obtain ⟨hcursor, hslots⟩ := Prod.mk.inj hview
  rw [selectWatermark, selectWatermark, chainSeed, chainSeed, Db.watermark, Db.watermark, hcursor,
    hslots]

theorem advance_view {fuel : Nat} {r : Except PostgresSlotStateError FinalizedFrontier} {db' : Db}
    (h : advanceContiguousFinalized fuel db streamName = some (r, db')) :
    ∃ v', advanceContiguousFinalized fuel v streamName = some (r, v') ∧
      streamRows streamName v' = streamRows streamName db' := by
  rw [advanceContiguousFinalized] at h ⊢
  rw [selectWatermark_view hview, (Prod.mk.inj hview).1]
  obtain ⟨found, hfound, heq⟩ := Option.map_eq_some_iff.mp h
  cases heq
  rw [hfound]
  exact ⟨_, rfl, setCursor_view hview _⟩

end Answers

/-! ## Parts of the database -/

/-- The cursor and the slot states of a stream, with the calls that name it. -/
def streamPart (hasher : Hasher) (streamName : String) :
    Program.Part (storeReply hasher postgresSlotStateStore)
      (Option StreamCursorRow × SlotTable) where
  view := streamRows streamName
  own := PipelineCall.isOf streamName
  other_keeps := by
    intro db c r db' hact hown
    have hname : c.stream ≠ some streamName := of_decide_eq_false hown
    cases c with
    | writeBatch batch =>
        obtain ⟨-, rfl⟩ := hact
        rfl
    | updateAfterBatch name slot =>
        have hrows := streamRows_update_of_ne (fun heq => hname (congrArg some heq)) db slot
        rwa [show updateAfterBatch db name slot = (r, db') from hact] at hrows
    | recordSlotStates name updates =>
        obtain ⟨order, hrecord⟩ := hact
        have hrows :=
          streamRows_record_of_ne (fun heq => hname (congrArg some heq)) order db updates
        rwa [hrecord] at hrows
    | advanceContiguousFinalized name =>
        obtain ⟨fuel, hadvance⟩ := hact
        obtain ⟨_, _, heq⟩ := Option.map_eq_some_iff.mp hadvance
        cases heq
        exact streamRows_setCursor_of_ne (fun heq => hname (congrArg some heq)) db _
    | channelLen | onActivity | onProgress | batchElapsed => rw [show db' = db from hact]
  own_answers := by
    intro db c r db' v hact hown hview
    have hname : c.stream = some streamName := of_decide_eq_true hown
    cases c with
    | updateAfterBatch name slot =>
        obtain rfl : name = streamName := Option.some.inj hname
        obtain ⟨hreply, hrows⟩ := update_view hview slot
        rw [show updateAfterBatch db name slot = (r, db') from hact] at hreply hrows
        exact ⟨(updateAfterBatch v name slot).2, Prod.ext hreply rfl, hrows⟩
    | recordSlotStates name updates =>
        obtain rfl : name = streamName := Option.some.inj hname
        obtain ⟨order, hrecord⟩ := hact
        obtain ⟨hreply, hrows⟩ := record_view hview order updates
        rw [hrecord] at hreply hrows
        exact ⟨(recordSlotStates order v name updates).2, ⟨order, Prod.ext hreply rfl⟩, hrows⟩
    | advanceContiguousFinalized name =>
        obtain rfl : name = streamName := Option.some.inj hname
        obtain ⟨fuel, hadvance⟩ := hact
        obtain ⟨v', hv', hrows⟩ := advance_view hview hadvance
        exact ⟨v', ⟨fuel, hv'⟩, hrows⟩
    | writeBatch | channelLen | onActivity | onProgress | batchElapsed => cases hname

/-- The events, with the writes of all streams. -/
def eventPart (hasher : Hasher) :
    Program.Part (storeReply hasher postgresSlotStateStore) EventTable where
  view := Db.events
  own := PipelineCall.isWrite
  other_keeps := by
    intro db c r db' hact hown
    refine storeReply_events hact fun batch hbatch => ?_
    rw [hbatch] at hown
    cases hown
  own_answers := by
    intro db c r db' v hact hown hview
    cases c with
    | writeBatch batch =>
        obtain ⟨rfl, rfl⟩ := hact
        refine ⟨{ v with events := (Storage.writeBatch hasher v.events batch).2 }, ⟨?_, rfl⟩, ?_⟩
        · rw [hview]
        · show (Storage.writeBatch hasher v.events batch).2 = _
          rw [hview]
    | updateAfterBatch | recordSlotStates | advanceContiguousFinalized | channelLen | onActivity
    | onProgress | batchElapsed => cases hown

/-- A part stays one when statements may fail. -/
def faultyPart {S ν : Type} {hasher : Hasher} {store : SlotStateStore S}
    (part : Program.Part (storeReply hasher store) ν) :
    Program.Part (faultyReply hasher store) ν where
  view := part.view
  own := part.own
  other_keeps := by
    intro db c r db' hact hown
    rcases faultyReply_effect hact with rfl | ⟨r', hstore⟩
    · rfl
    · exact part.other_keeps db c r' db' hstore hown
  own_answers := by
    intro db c r db' v hact hown hview
    rcases hact with hstore | ⟨herr, rfl | ⟨r', hstore⟩⟩
    · obtain ⟨v', hv', hrows⟩ := part.own_answers db c r db' v hstore hown hview
      exact ⟨v', .inl hv', hrows⟩
    · exact ⟨v, .inr ⟨herr, .inl rfl⟩, hview⟩
    · obtain ⟨v', hv', hrows⟩ := part.own_answers db c r' db' v hstore hown hview
      exact ⟨v', .inr ⟨herr, .inr ⟨r', hv'⟩⟩, hrows⟩

/-! ## Statements -/

/-- A call, or one of the two statements that an advance of a process takes. -/
inductive StoreStatement (Pid : Type) where
  | call (c : PipelineCall)
  | selectFrontier (pid : Pid) (streamName : String)
  | upsertFrontier (pid : Pid) (streamName : String)

namespace StoreStatement

variable {Pid : Type}

def Reply : StoreStatement Pid → Type
  | .call c => PostgresReply PostgresSlotStateError c
  | .selectFrontier .. => Except PostgresSlotStateError Unit
  | .upsertFrontier .. => Except PostgresSlotStateError FinalizedFrontier

def isOf (streamName : String) : StoreStatement Pid → Bool
  | .call c => c.isOf streamName
  | .selectFrontier _ name | .upsertFrontier _ name => name = streamName

def isWrite : StoreStatement Pid → Bool
  | .call c => c.isWrite
  | .selectFrontier .. | .upsertFrontier .. => false

end StoreStatement

/-- A database, and what the processes hold between the two statements of an advance. -/
structure StatementDb (Pid : Type) where
  db : Db
  found : String → Pid → Option (Option Int × Option Int)

namespace StatementDb

variable {Pid : Type} [DecidableEq Pid] {hasher : Hasher} {streamName : String}

def empty : StatementDb Pid := ⟨.empty, fun _ _ => none⟩

def hold (x : StatementDb Pid) (name : String) (pid : Pid)
    (pair : Option (Option Int × Option Int)) : String → Pid → Option (Option Int × Option Int) :=
  Function.update x.found name (Function.update (x.found name) pid pair)

/-- Any statement may fail, and one that writes may have been committed all the same. -/
def answers (hasher : Hasher) (x : StatementDb Pid) :
    (statement : StoreStatement Pid) → statement.Reply → StatementDb Pid → Prop
  | .call c, r, y => faultyReply hasher postgresSlotStateStore x.db c r y.db ∧ y.found = x.found
  | .selectFrontier pid name, r, y =>
      (∃ fuel pair, selectWatermark fuel x.db name = some pair ∧ r = .ok () ∧
        y = ⟨x.db, x.hold name pid (some pair)⟩) ∨ (∃ err, r = .error err) ∧ y = x
  | .upsertFrontier pid name, r, y =>
      ∃ watermark head row, x.found name pid = some (watermark, head) ∧
        row = Storage.upsertFrontier (x.db.streamCursors name) watermark head ∧
        y.found = x.hold name pid none ∧
        (r = decodeFrontier row.lastContiguousFinalizedSlot row.lastFinalizedSlot ∧
            y.db = x.db.setCursor name row ∨
          (∃ err, r = .error err) ∧ (y.db = x.db ∨ y.db = x.db.setCursor name row))

theorem answers_call {x : StatementDb Pid} {c : PipelineCall}
    {r : PostgresReply PostgresSlotStateError c} {db' : Db}
    (h : faultyReply hasher postgresSlotStateStore x.db c r db') :
    x.answers hasher (.call c) r ⟨db', x.found⟩ :=
  ⟨h, rfl⟩

/-- The second statement of an advance succeeds. -/
theorem answers_upsert {x : StatementDb Pid} {pid : Pid} {name : String}
    {watermark head : Option Int} {row : StreamCursorRow}
    {r : Except PostgresSlotStateError FinalizedFrontier}
    (hfound : x.found name pid = some (watermark, head))
    (hrow : Storage.upsertFrontier (x.db.streamCursors name) watermark head = row)
    (hr : decodeFrontier row.lastContiguousFinalizedSlot row.lastFinalizedSlot = r) :
    x.answers hasher (.upsertFrontier pid name) r ⟨x.db.setCursor name row, x.hold name pid none⟩ :=
  ⟨watermark, head, row, hfound, hrow.symm, rfl, .inl ⟨hr.symm, rfl⟩⟩

/-- With no statement between its two, an advance answers and leaves what it does as one call. -/
theorem answers_of_advance {x : StatementDb Pid} {name : String}
    {r : Except PostgresSlotStateError FinalizedFrontier} {db' : Db} (pid : Pid)
    (h : postgresSlotStateStore.advanceContiguousFinalized x.db name r db') :
    ∃ y z, x.answers hasher (.selectFrontier pid name) (.ok ()) y ∧
      y.answers hasher (.upsertFrontier pid name) r z ∧ z.db = db' := by
  obtain ⟨fuel, h⟩ := h
  obtain ⟨⟨watermark, head⟩, hselect, heq⟩ := Option.map_eq_some_iff.mp h
  cases heq
  have hheld : x.hold name pid (some (watermark, head)) name pid = some (watermark, head) := by
    rw [hold, Function.update_self, Function.update_self]
  exact ⟨_, _, .inl ⟨fuel, _, hselect, rfl, rfl⟩, answers_upsert hheld rfl rfl, rfl⟩

theorem hold_of_ne {name : String} (h : name ≠ streamName) (x : StatementDb Pid) (pid : Pid)
    (pair : Option (Option Int × Option Int)) : x.hold name pid pair streamName =
      x.found streamName :=
  Function.update_of_ne (Ne.symm h) _ _

theorem hold_view {x v : StatementDb Pid} (h : v.found streamName = x.found streamName) (pid : Pid)
    (pair : Option (Option Int × Option Int)) :
    v.hold streamName pid pair streamName = x.hold streamName pid pair streamName := by
  rw [hold, hold, Function.update_self, Function.update_self, h]

/-- The cursor, the slot states and the started advances of a stream. -/
def streamView (streamName : String) (x : StatementDb Pid) :
    (Option StreamCursorRow × SlotTable) × (Pid → Option (Option Int × Option Int)) :=
  (streamRows streamName x.db, x.found streamName)

theorem other_keeps {x y : StatementDb Pid} {statement : StoreStatement Pid} {r : statement.Reply}
    (hact : x.answers hasher statement r y) (hown : statement.isOf streamName = false) :
    streamView streamName y = streamView streamName x := by
  cases statement with
  | call c =>
      obtain ⟨hreply, hfound⟩ := hact
      have hrows := (faultyPart (streamPart hasher streamName)).other_keeps _ _ _ _ hreply hown
      exact Prod.ext hrows (congrFun hfound streamName)
  | selectFrontier pid name =>
      have hname : name ≠ streamName := of_decide_eq_false hown
      obtain ⟨_, _, -, -, rfl⟩ | ⟨-, rfl⟩ := hact
      · exact Prod.ext rfl (hold_of_ne hname x pid _)
      · rfl
  | upsertFrontier pid name =>
      have hname : name ≠ streamName := of_decide_eq_false hown
      obtain ⟨_, _, row, -, -, hfound, hdb⟩ := hact
      refine Prod.ext ?_ ((congrFun hfound streamName).trans (hold_of_ne hname x pid _))
      obtain ⟨-, hdb⟩ | ⟨-, hdb | hdb⟩ := hdb
      · exact (congrArg (streamRows streamName) hdb).trans (streamRows_setCursor_of_ne hname _ row)
      · exact congrArg (streamRows streamName) hdb
      · exact (congrArg (streamRows streamName) hdb).trans (streamRows_setCursor_of_ne hname _ row)

theorem own_answers {x y v : StatementDb Pid} {statement : StoreStatement Pid}
    {r : statement.Reply} (hact : x.answers hasher statement r y)
    (hown : statement.isOf streamName = true) (hview : streamView streamName v =
      streamView streamName x) :
    ∃ v', v.answers hasher statement r v' ∧ streamView streamName v' = streamView streamName y := by
  obtain ⟨hrows, hheld⟩ := Prod.mk.inj hview
  cases statement with
  | call c =>
      obtain ⟨hreply, hfound⟩ := hact
      obtain ⟨db', hdb', hview'⟩ :=
        (faultyPart (streamPart hasher streamName)).own_answers _ _ _ _ v.db hreply hown hrows
      exact ⟨⟨db', v.found⟩, ⟨hdb', rfl⟩,
        Prod.ext hview' (hheld.trans (congrFun hfound streamName).symm)⟩
  | selectFrontier pid name =>
      obtain rfl : name = streamName := of_decide_eq_true hown
      obtain ⟨fuel, pair, hselect, rfl, rfl⟩ | ⟨herr, rfl⟩ := hact
      · rw [← selectWatermark_view hrows] at hselect
        exact ⟨_, .inl ⟨fuel, pair, hselect, rfl, rfl⟩, Prod.ext hrows (hold_view hheld pid _)⟩
      · exact ⟨v, .inr ⟨herr, rfl⟩, hview⟩
  | upsertFrontier pid name =>
      obtain rfl : name = streamName := of_decide_eq_true hown
      obtain ⟨watermark, head, row, hpair, hrow, hfound, hdb⟩ := hact
      rw [← congrFun hheld pid] at hpair
      rw [← (Prod.mk.inj hrows).1] at hrow
      have hlast : v.hold name pid none name = y.found name :=
        (hold_view hheld pid none).trans (congrFun hfound name).symm
      obtain ⟨hr, hdb⟩ | ⟨herr, hdb | hdb⟩ := hdb
      · exact ⟨⟨v.db.setCursor name row, _⟩, ⟨_, _, row, hpair, hrow, rfl, .inl ⟨hr, rfl⟩⟩,
          Prod.ext ((setCursor_view hrows row).trans (congrArg _ hdb.symm)) hlast⟩
      · exact ⟨⟨v.db, _⟩, ⟨_, _, row, hpair, hrow, rfl, .inr ⟨herr, .inl rfl⟩⟩,
          Prod.ext (hrows.trans (congrArg _ hdb.symm)) hlast⟩
      · exact ⟨⟨v.db.setCursor name row, _⟩, ⟨_, _, row, hpair, hrow, rfl, .inr ⟨herr, .inr rfl⟩⟩,
          Prod.ext ((setCursor_view hrows row).trans (congrArg _ hdb.symm)) hlast⟩

def streamPart (hasher : Hasher) (streamName : String) :
    Program.Part (@answers Pid _ hasher)
      ((Option StreamCursorRow × SlotTable) × (Pid → Option (Option Int × Option Int))) where
  view := streamView streamName
  own := StoreStatement.isOf streamName
  other_keeps _ _ _ _ := other_keeps
  own_answers _ _ _ _ _ := own_answers

def eventPart (hasher : Hasher) : Program.Part (@answers Pid _ hasher) EventTable where
  view x := x.db.events
  own := StoreStatement.isWrite
  other_keeps := by
    intro x statement r y hact hown
    cases statement with
    | call c => exact (faultyPart (Stream.eventPart hasher)).other_keeps _ _ _ _ hact.1 hown
    | selectFrontier =>
        obtain ⟨_, _, -, -, rfl⟩ | ⟨-, rfl⟩ := hact
        · rfl
        · rfl
    | upsertFrontier =>
        obtain ⟨_, _, _, -, -, -, ⟨-, hdb⟩ | ⟨-, hdb | hdb⟩⟩ := hact <;>
          rw [hdb] <;> rfl
  own_answers := by
    intro x statement r y v hact hown hview
    cases statement with
    | call c =>
        obtain ⟨db', hdb', hview'⟩ :=
          (faultyPart (Stream.eventPart hasher)).own_answers _ _ _ _ v.db hact.1 hown hview
        exact ⟨⟨db', v.found⟩, ⟨hdb', rfl⟩, hview'⟩
    | selectFrontier | upsertFrontier => cases hown

end StatementDb

/-- However the statements of processes on one database are interleaved, and whichever of them fail:
the cursor and the slot states of a stream, and all answers about them, are those that the
statements naming this stream would have had alone, and the events and the answers to the writes are
those of the writes alone. -/
theorem streams_do_not_interfere {Pid : Type} [DecidableEq Pid] (hasher : Hasher)
    (x y : StatementDb Pid) (tr : List (Answered StoreStatement.Reply))
    (h : Program.Performs (StatementDb.answers hasher) x tr y) :
    (∀ streamName, ∃ alone, Program.Performs (StatementDb.answers hasher) x
        (Program.issued (StoreStatement.isOf streamName) tr) alone ∧
      alone.db.streamCursors streamName = y.db.streamCursors streamName ∧
      alone.db.streamSlots streamName = y.db.streamSlots streamName) ∧
    ∃ alone, Program.Performs (StatementDb.answers hasher) x
        (Program.issued StoreStatement.isWrite tr) alone ∧ alone.db.events = y.db.events := by
  constructor
  · intro streamName
    obtain ⟨alone, hperforms, hview⟩ :=
      Program.Performs.project (StatementDb.streamPart hasher streamName) h rfl
    exact ⟨alone, hperforms, Prod.mk.inj (Prod.mk.inj hview).1⟩
  · exact Program.Performs.project (StatementDb.eventPart hasher) h rfl

def slotTen : List SlotStateUpdate := [⟨10, some 9, true, false⟩]

def slotEleven : List SlotStateUpdate := [⟨11, some 10, true, false⟩]

/-- Two processes advance one stream at once, and a third one fails to update the cursor of another
stream meanwhile. -/
def overlappingAdvances : List (Answered (@StoreStatement.Reply Bool)) :=
  [⟨.call (.recordSlotStates "a" slotTen), .ok ()⟩, ⟨.selectFrontier true "a", .ok ()⟩,
    ⟨.call (.updateAfterBatch "b" 6), .error .sqlx⟩,
    ⟨.call (.recordSlotStates "a" slotEleven), .ok ()⟩, ⟨.selectFrontier false "a", .ok ()⟩,
    ⟨.upsertFrontier false "a", .ok ⟨some 11, some 11⟩⟩,
    ⟨.upsertFrontier true "a", .ok ⟨some 11, some 11⟩⟩]

theorem overlappingAdvances_performs : ∃ y : StatementDb Bool,
    Program.Performs (StatementDb.answers sampleHasher) .empty overlappingAdvances y ∧
      y.db.streamCursors "a" = some ⟨0, some 11, some 11⟩ :=
  ⟨_, .cons (StatementDb.answers_call (.inl ⟨insertionOrder, rfl⟩))
    (.cons (.inl ⟨2, (some 10, some 10), rfl, rfl, rfl⟩)
    (.cons (StatementDb.answers_call (.inr ⟨⟨_, rfl⟩, .inl rfl⟩))
    (.cons (StatementDb.answers_call (.inl ⟨insertionOrder, rfl⟩))
    (.cons (.inl ⟨3, (some 11, some 11), rfl, rfl, rfl⟩)
    (.cons (StatementDb.answers_upsert rfl rfl rfl)
    (.cons (StatementDb.answers_upsert rfl rfl rfl) (.nil _))))))), rfl⟩

theorem streams_do_not_interfere_two : ∃ alone : StatementDb Bool,
    Program.Performs (StatementDb.answers sampleHasher) .empty
      (overlappingAdvances.take 2 ++ overlappingAdvances.drop 3) alone ∧
    alone.db.streamCursors "a" = some ⟨0, some 11, some 11⟩ := by
  obtain ⟨y, hperforms, hrow⟩ := overlappingAdvances_performs
  obtain ⟨alone, halone, hcursor, -⟩ :=
    (streams_do_not_interfere sampleHasher .empty y _ hperforms).1 "a"
  exact ⟨alone, halone, hcursor.trans hrow⟩

end YellowstoneStream.Stream

import YellowstoneStream.Storage.Redelivery
import YellowstoneStream.Stream.PostgresStores
import YellowstoneStream.Stream.Runtime

/-!
# Replay

`run_replay` sends the events of a file through the pipeline and skips what lies at or below the
stored cursor.  The cursor holds the greatest slot of the batches written so far, so a rerun skips
an event of a later batch whose slot is not greater.
-/

open YellowstoneStream.Domain YellowstoneStream.Reasoning YellowstoneStream.Storage
open YellowstoneStream.Stream

namespace YellowstoneStream.App

/-- What `run_replay` is given, and is given again after a crash. -/
structure ReplayJob where
  hasher : Hasher
  batchSize : Nat
  channelCapacity : Nat
  streamName : String
  events : List NormalizedEvent

abbrev ReplaySystem :=
  PipelineSystem PostgresWriteError PostgresCursorError Empty (Except Empty Unit) Db

def replayAct (hasher : Hasher) : Answering PostgresWriteError PostgresCursorError Empty Db :=
  fun depth db c r db' => ReadsDepth depth c r ∧ storeReply hasher noopSlotStateStore db c r db'

namespace ReplayJob

variable (job : ReplayJob)

/-- The pipeline settings of `run_replay`. -/
def config (cursor : Option StreamCursor) : PipelineConfig :=
  ⟨job.batchSize, job.channelCapacity, cursor.map StreamCursor.lastPersistedSlot, false, true⟩

/-- The states of a run that found `db`; its producer returns Ok whether or not a send failed. -/
def Reaches (db : Db) (x : ReplaySystem) : Prop :=
  ∃ cursor, getCursor db job.streamName = .ok cursor ∧
    ReachedBy (job.config cursor) job.streamName true (.ok ()) (.ok ()) (replayAct job.hasher) db
      job.events x

/-- What a finite number of runs leaves that each stopped somewhere. -/
inductive Crashed (start : Db) : Db → Prop
  | start : Crashed start start
  | rerun {db : Db} {x : ReplaySystem} (h : Crashed start db) (hreach : job.Reaches db x) :
      Crashed start x.world

/-- However often runs on a fresh stream crashed, once one completes all events are there. -/
def LosesNoEvent : Prop :=
  ∀ start, start.streamCursors job.streamName = none → ∀ db, job.Crashed start db →
    ∀ x summary j, job.Reaches db x → x.main = .done (.ok summary) j →
      ∀ event ∈ job.events, Persisted job.hasher x.world event

end ReplayJob

/-! ## The condition -/

/-- The events a rerun takes up when the events of `done` moved the cursor. -/
def beyond (done events : List NormalizedEvent) : List NormalizedEvent :=
  events.filter fun event => done.all fun earlier => earlier.slot < event.slot

/-- What some reruns may have left to do, each cut off behind a number of batches. -/
inductive Remaining (batchSize : Nat) (events : List NormalizedEvent) :
    List NormalizedEvent → Prop
  | whole : Remaining batchSize events events
  | cut {rest : List NormalizedEvent} (h : Remaining batchSize events rest) (batches : Nat) :
      Remaining batchSize events (beyond (rest.take (batches * batchSize)) rest)

/-- Behind every batch boundary lie only events of greater slots and repetitions. -/
def CutSafe (batchSize : Nat) (events : List NormalizedEvent) : Prop :=
  ∀ rest, Remaining batchSize events rest → ∀ batches : Nat,
    ∀ later ∈ rest.drop (batches * batchSize), ∀ earlier ∈ rest.take (batches * batchSize),
      later.slot ≤ earlier.slot →
      ∃ same ∈ rest.take (batches * batchSize), same.identity = later.identity

/-! ## The cursor -/

/-- A rerun skips events of this slot. -/
def Covers (db : Db) (streamName : String) (slot : Nat) : Prop :=
  ∃ row, db.streamCursors streamName = some row ∧ (slot : Int) ≤ row.lastPersistedSlot

def ReadableCursor (db : Db) (streamName : String) : Prop :=
  ∀ row, db.streamCursors streamName = some row → 0 ≤ row.lastPersistedSlot

section Cursor

variable {db db' : Db} {streamName : String}

theorem getCursor_of_readable (h : ReadableCursor db streamName) :
    ∃ cursor, getCursor db streamName = .ok cursor := by
  unfold getCursor
  cases hrow : db.streamCursors streamName with
  | none => exact ⟨none, rfl⟩
  | some row =>
      simp only [u64TryFrom, if_pos (h row hrow)]
      exact ⟨_, rfl⟩

theorem shouldSkip_iff {cursor : Option StreamCursor} (h : getCursor db streamName = .ok cursor)
    (event : NormalizedEvent) :
    shouldSkipEvent event (cursor.map StreamCursor.lastPersistedSlot) true = true ↔
      Covers db streamName event.slot := by
  unfold getCursor at h
  unfold Covers shouldSkipEvent
  cases hrow : db.streamCursors streamName with
  | none =>
      rw [hrow] at h
      cases h
      simp
  | some row =>
      rw [hrow] at h
      simp only [u64TryFrom] at h
      -- a negative slot in the row is an error of `get_cursor`
      split at h
      · cases h
      · rename_i slot hslot
        cases h
        split at hslot
        · rename_i hnonneg
          cases hslot
          have hle : event.slot ≤ row.lastPersistedSlot.toNat ↔
              (event.slot : Int) ≤ row.lastPersistedSlot := by omega
          simp [hle]
        · cases hslot

theorem readable_of_getCursor {cursor : Option StreamCursor}
    (h : getCursor db streamName = .ok cursor) : ReadableCursor db streamName := by
  intro row hrow
  unfold getCursor at h
  rw [hrow] at h
  by_contra hneg
  simp only [u64TryFrom, if_neg hneg] at h
  cases h

theorem covers_update {slot : Nat} (h : slot ≤ i64Max) (n : Nat) :
    Covers (updateAfterBatch db streamName slot).2 streamName n ↔
      Covers db streamName n ∨ n ≤ slot := by
  unfold Covers
  rw [updateAfterBatch_of_le db streamName h, Db.setCursor_cursor]
  cases db.streamCursors streamName with
  | none =>
      show (∃ row, some (⟨slot, none, none⟩ : StreamCursorRow) = some row ∧ _) ↔ _
      simp
  | some row =>
      show (∃ row', some { row with lastPersistedSlot := max row.lastPersistedSlot slot } =
        some row' ∧ _) ↔ _
      simp

theorem readable_update (h : ReadableCursor db streamName) (slot : Nat) :
    ReadableCursor (updateAfterBatch db streamName slot).2 streamName := by
  by_cases hslot : slot ≤ i64Max
  · unfold ReadableCursor
    rw [updateAfterBatch_of_le db streamName hslot, Db.setCursor_cursor]
    rintro row ⟨⟩
    cases hrow : db.streamCursors streamName with
    | none => exact Int.natCast_nonneg slot
    | some row =>
        show 0 ≤ max row.lastPersistedSlot (slot : Int)
        have hpos := h row hrow
        omega
  · rw [updateAfterBatch_of_gt db streamName (Nat.lt_of_not_le hslot)]
    exact h

variable {hasher : Hasher}

theorem cursors_of_other {c : PipelineCall} {r : PostgresReply Empty c}
    (hc : ∀ name slot, c ≠ .updateAfterBatch name slot)
    (hact : storeReply hasher noopSlotStateStore db c r db') :
    db'.streamCursors = db.streamCursors := by
  cases c with
  | updateAfterBatch name slot => exact absurd rfl (hc name slot)
  | writeBatch batch =>
      obtain ⟨-, rfl⟩ := hact
      rfl
  | recordSlotStates name updates => rw [show db' = db from hact.2]
  | advanceContiguousFinalized name => rw [show db' = db from hact.2]
  | channelLen | onActivity | onProgress | batchElapsed => rw [show db' = db from hact]

/-- The cursor afterwards covers what it covered before and what it was updated to. -/
theorem covers_performs {tr : PostgresTrace Empty}
    (h : Program.Performs (storeReply hasher noopSlotStateStore) db tr db')
    (hnames : ∀ c ∈ Program.calls tr, c.OfStream streamName)
    (hfits : ∀ name slot, .updateAfterBatch name slot ∈ Program.calls tr → slot ≤ i64Max)
    (hreadable : ReadableCursor db streamName) :
    ReadableCursor db' streamName ∧ ∀ n, Covers db' streamName n ↔ Covers db streamName n ∨
      ∃ slot, .updateAfterBatch streamName slot ∈ Program.calls tr ∧ n ≤ slot := by
  induction h with
  | nil => exact ⟨hreadable, fun n => by simp [Program.calls]⟩
  | @cons db db₁ db₂ c r tr hact _ ih =>
      have hname := hnames c List.mem_cons_self
      have ih := ih (fun c hc => hnames c (List.mem_cons_of_mem _ hc))
        fun name slot hc => hfits name slot (List.mem_cons_of_mem _ hc)
      by_cases hc : ∃ name slot, c = .updateAfterBatch name slot
      · -- the greater of the stored slot and the new one is kept
        obtain ⟨name, slot, rfl⟩ := hc
        obtain rfl : name = streamName := hname
        have hdb : db₁ = (Storage.updateAfterBatch db name slot).2 := by
          rw [show Storage.updateAfterBatch db name slot = (r, db₁) from hact]
        obtain ⟨hreadable', hcovers⟩ := ih (hdb ▸ readable_update hreadable slot)
        refine ⟨hreadable', fun n => ?_⟩
        rw [hcovers, hdb, covers_update (hfits name slot List.mem_cons_self)]
        simp only [Program.calls, List.map_cons, List.mem_cons, PipelineCall.updateAfterBatch.injEq,
          true_and, or_and_right, exists_or, exists_eq_left, or_assoc]
      · -- any other call leaves the row
        have hsame := cursors_of_other (fun name slot hname => hc ⟨name, slot, hname⟩) hact
        have hreadable₁ : ReadableCursor db₁ streamName := by
          unfold ReadableCursor
          rw [hsame]
          exact hreadable
        obtain ⟨hreadable', hcovers⟩ := ih hreadable₁
        refine ⟨hreadable', fun n => ?_⟩
        rw [hcovers]
        have hfirst' : Covers db₁ streamName n ↔ Covers db streamName n := by
          unfold Covers
          rw [hsame]
        have hnot : ∀ slot, c ≠ .updateAfterBatch streamName slot := fun slot hslot =>
          hc ⟨streamName, slot, hslot⟩
        simp only [hfirst', Program.calls, List.map_cons, List.mem_cons, (hnot _).symm, false_or]

/-- Only a cursor update can fail, and only by its range check. -/
theorem no_failure {c : PipelineCall} {r : PostgresReply Empty c}
    (hact : storeReply hasher noopSlotStateStore db c r db')
    (hfits : ∀ name slot, c = .updateAfterBatch name slot → slot ≤ i64Max) :
    failureOf c r = none := by
  cases c with
  | writeBatch batch =>
      obtain ⟨rfl, -⟩ := hact
      rfl
  | updateAfterBatch name slot =>
      have hok := (updateAfterBatch_ok_iff db name slot).mpr (hfits name slot rfl)
      rw [show Storage.updateAfterBatch db name slot = (r, db') from hact] at hok
      rw [show r = .ok () from hok]
      rfl
  | recordSlotStates name updates =>
      obtain ⟨rfl, -⟩ := hact
      rfl
  | advanceContiguousFinalized name =>
      obtain ⟨rfl, -⟩ := hact
      rfl
  | channelLen | onActivity | onProgress | batchElapsed => rfl

end Cursor

/-! ## One run -/

section Run

variable {job : ReplayJob} {db : Db} {cursor : Option StreamCursor} {x : ReplaySystem}

/-- What a run that found `db` does not skip. -/
def ReplayJob.kept (job : ReplayJob) (cursor : Option StreamCursor) : List NormalizedEvent :=
  keptEvents (job.config cursor) job.events

def ReplayJob.setup (job : ReplayJob) (cursor : Option StreamCursor) :=
  channelSetup (job.config cursor) job.streamName true (.ok () : Except Empty Unit) (.ok ())
    (replayAct job.hasher)

/-- A reachable state of a run that found the cursor. -/
def ReplayJob.ReachesFrom (job : ReplayJob) (cursor : Option StreamCursor) (db : Db)
    (x : ReplaySystem) : Prop :=
  ReachedBy (job.config cursor) job.streamName true (.ok ()) (.ok ()) (replayAct job.hasher) db
    job.events x

theorem config_batchSize_pos (hbatch : 0 < job.batchSize) (cursor : Option StreamCursor) :
    0 < (job.config cursor).batchSize := hbatch

theorem mem_of_mem_kept {event : NormalizedEvent} (h : event ∈ job.kept cursor) :
    event ∈ job.events :=
  List.mem_of_mem_filter h

theorem mem_kept_iff (hcursor : getCursor db job.streamName = .ok cursor)
    (event : NormalizedEvent) :
    event ∈ job.kept cursor ↔ event ∈ job.events ∧ ¬ Covers db job.streamName event.slot := by
  unfold ReplayJob.kept keptEvents
  rw [List.mem_filter, Bool.not_eq_true', ← Bool.not_eq_true]
  exact and_congr_right fun _ => not_congr (shouldSkip_iff hcursor event)

/-- What does not lie beyond is no later than one of the events that are done. -/
theorem exists_le_of_not_mem_beyond {done events : List NormalizedEvent} {event : NormalizedEvent}
    (hmem : event ∈ events) (h : event ∉ beyond done events) :
    ∃ earlier ∈ done, event.slot ≤ earlier.slot := by
  by_contra hnone
  apply h
  refine List.mem_filter.mpr ⟨hmem, List.all_eq_true.mpr fun earlier hearlier => ?_⟩
  apply decide_eq_true
  by_contra hle
  exact hnone ⟨earlier, hearlier, Nat.le_of_not_lt hle⟩

/-- A cursor that moved on by the events of `done` leaves what lies beyond them. -/
theorem kept_beyond {db' : Db} {cursor' : Option StreamCursor} {done : List NormalizedEvent}
    (hcursor : getCursor db job.streamName = .ok cursor)
    (hcursor' : getCursor db' job.streamName = .ok cursor')
    (hcovers : ∀ n, Covers db' job.streamName n ↔ Covers db job.streamName n ∨
      ∃ earlier ∈ done, n ≤ earlier.slot) :
    job.kept cursor' = beyond done (job.kept cursor) := by
  unfold ReplayJob.kept keptEvents beyond
  rw [List.filter_filter]
  apply List.filter_congr
  intro event _
  rw [Bool.eq_iff_iff, Bool.and_eq_true, Bool.not_eq_true', Bool.not_eq_true', ← Bool.not_eq_true,
    ← Bool.not_eq_true]
  have hskip := shouldSkip_iff hcursor event
  have hskip' := shouldSkip_iff hcursor' event
  rw [hcovers] at hskip'
  show ¬ shouldSkipEvent event (cursor'.map _) true = true ↔
    _ ∧ ¬ shouldSkipEvent event (cursor.map _) true = true
  rw [hskip, hskip', not_or, and_comm]
  refine and_congr_left fun _ => ?_
  simp only [not_exists, not_and, List.all_eq_true, decide_eq_true_eq, Nat.not_le]

variable (hbatch : 0 < job.batchSize) (hfits : ∀ event ∈ job.events, event.slot ≤ i64Max)
  (hreach : job.ReachesFrom cursor db x)
include hreach

theorem replay_performs :
    Program.Performs (storeReply job.hasher noopSlotStateStore) db (storeTrace x.trace)
      x.world := by
  apply performs_storeTrace
  apply (Setup.inv_reaches hreach).execution.world.mono
  rintro w c r w' ⟨n, -, hact⟩
  exact hact.2

theorem replay_keeps {event : NormalizedEvent} (h : Persisted job.hasher db event) :
    Persisted job.hasher x.world event := by
  apply (replay_performs hreach).induction (P := fun db => Persisted job.hasher db event)
  · exact fun _ _ _ _ hrow hact => persisted_step hact hrow
  · exact h

include hbatch

theorem replay_ofStream : ∀ c ∈ Program.calls (storeTrace x.trace), c.OfStream job.streamName := by
  intro c hc
  obtain ⟨a, ha, rfl⟩ := List.mem_map.mp hc
  exact ofStream_of_runs (config_batchSize_pos hbatch cursor)
    (Setup.inv_reaches hreach).execution.runs (List.mem_of_mem_filter ha)

/-- A run that completed made all the calls of its plan, and counted their replies. -/
theorem replay_result {summary : PipelineSummary} {j : Joined (Except Empty Unit)}
    (hmain : x.main = .done (.ok summary) j) :
    (chunks job.batchSize (job.kept cursor)).flatMap (batchCalls job.streamName false) =
        Program.calls (storeTrace x.trace) ∧
      (∀ a ∈ storeTrace x.trace, failureOf a.1 a.2 = none) ∧
      summary.counters = tally (initialCounters (job.config cursor) job.events)
        (storeTrace x.trace) := by
  have hruns := (Setup.inv_reaches hreach).execution.runs
  rw [hmain, (received_all hreach (by rw [hmain]; rfl)).1] at hruns
  exact (follows_pipeline (config_batchSize_pos hbatch cursor) job.streamName
    job.events).result hruns

theorem replay_done {summary : PipelineSummary} {j : Joined (Except Empty Unit)}
    (hmain : x.main = .done (.ok summary) j) : Program.calls (storeTrace x.trace) =
      (chunks job.batchSize (job.kept cursor)).flatMap (batchCalls job.streamName false) :=
  (replay_result hbatch hreach hmain).1.symm

include hfits

theorem replay_fits (name : String) (slot : Nat)
    (h : .updateAfterBatch name slot ∈ Program.calls (storeTrace x.trace)) : slot ≤ i64Max := by
  obtain ⟨a, ha, hcall⟩ := List.mem_map.mp h
  have hruns := (Setup.inv_reaches hreach).execution.runs
  obtain ⟨batch, hbatches, hmem⟩ := planned_of_runs
    (config_batchSize_pos hbatch cursor) hruns (List.mem_of_mem_filter ha)
    (List.mem_filter.mp ha).2
  obtain rfl : name = job.streamName := replay_ofStream hbatch hreach _ h
  rw [hcall] at hmem
  have hmax := mem_batchCalls_update.mp hmem
  obtain ⟨event, hevent, rfl⟩ := List.mem_map.mp (List.max?_eq_some_iff.mp hmax).1
  apply hfits
  have hkept : event ∈ keptEvents (job.config cursor) x.received :=
    mem_of_mem_chunks _ hbatches hevent
  have hsent := (Setup.inv_reaches hreach).flow.received_of_sent.subset
    (List.mem_of_mem_filter hkept)
  exact (prefix_sent hreach).subset hsent

theorem replay_no_failure : ∀ a ∈ storeTrace x.trace, failureOf a.1 a.2 = none := by
  intro a ha
  obtain ⟨before, after, db₁, db₂, -, -, hact, -⟩ := (replay_performs hreach).split ha
  apply no_failure hact
  intro name slot hcall
  apply replay_fits hbatch hfits hreach name slot
  rw [← hcall]
  exact List.mem_map_of_mem ha

theorem replay_calls : Program.calls (storeTrace x.trace) <+:
    (chunks job.batchSize (job.kept cursor)).flatMap (batchCalls job.streamName false) :=
  prefix_calls (config_batchSize_pos hbatch cursor) hreach
    (replay_no_failure hbatch hfits hreach)

/-- Wherever a run stops, the cursor has moved on by some of its batches, and their rows exist. -/
theorem replay_stopped (hcursor : getCursor db job.streamName = .ok cursor) :
    ReadableCursor x.world job.streamName ∧ ∃ batches,
      (∀ n, Covers x.world job.streamName n ↔ Covers db job.streamName n ∨
        ∃ earlier ∈ (job.kept cursor).take (batches * job.batchSize), n ≤ earlier.slot) ∧
      ∀ event ∈ (job.kept cursor).take (batches * job.batchSize),
        Persisted job.hasher x.world event := by
  have hperforms := replay_performs hreach
  obtain ⟨hreadable, hcovers⟩ := covers_performs hperforms (replay_ofStream hbatch hreach)
    (replay_fits hbatch hfits hreach) (readable_of_getCursor hcursor)
  obtain ⟨m, hupdates, hwrites⟩ := prefix_batchCalls (replay_calls hbatch hfits hreach)
  refine ⟨hreadable, m, fun n => ?_, fun event hevent => ?_⟩
  · rw [hcovers]
    simp only [hupdates]
    rw [exists_max_iff, flatten_take_chunks hbatch]
  · rw [← flatten_take_chunks hbatch] at hevent
    obtain ⟨batch, hmem, hin⟩ := List.mem_flatten.mp hevent
    apply persisted_of_performs hperforms (hwrites batch hmem) hin
    apply hfits event
    exact mem_of_mem_kept (mem_of_mem_chunks _ (List.mem_of_mem_take hmem) hin)

theorem replay_done_persisted {summary : PipelineSummary} {j : Joined (Except Empty Unit)}
    (hmain : x.main = .done (.ok summary) j) {event : NormalizedEvent}
    (hevent : event ∈ job.kept cursor) : Persisted job.hasher x.world event := by
  obtain ⟨batch, hmem, hin⟩ := exists_mem_chunks job.batchSize hevent
  apply persisted_of_performs (replay_performs hreach) ?_ hin (hfits event (mem_of_mem_kept hevent))
  rw [replay_done hbatch hreach hmain]
  exact List.mem_flatMap.mpr ⟨batch, hmem, List.mem_cons_self⟩

end Run

/-! ## Reruns lose nothing where every cut is safe -/

/-- Nothing that the next run skips is missing. -/
structure Recoverable (job : ReplayJob) (db : Db) : Prop where
  cursor : ∃ cursor, getCursor db job.streamName = .ok cursor ∧
    Remaining job.batchSize job.events (job.kept cursor) ∧
    ∀ event ∈ job.events, event ∈ job.kept cursor ∨ Persisted job.hasher db event

theorem kept_of_fresh {job : ReplayJob} {start : Db}
    (hfresh : start.streamCursors job.streamName = none) :
    getCursor start job.streamName = .ok none ∧ job.kept none = job.events := by
  constructor
  · unfold getCursor
    rw [hfresh]
  · unfold ReplayJob.kept keptEvents
    exact List.filter_eq_self.mpr fun _ _ => rfl

section Safe

variable {job : ReplayJob} (hbatch : 0 < job.batchSize)
  (hfits : ∀ event ∈ job.events, event.slot ≤ i64Max)
  (hsafe : CutSafe job.batchSize job.events)
include hbatch hfits hsafe

theorem recoverable_run {db : Db} {x : ReplaySystem} (h : Recoverable job db)
    (hreach : job.Reaches db x) : Recoverable job x.world := by
  obtain ⟨cursor, hcursor, hremaining, hall⟩ := h.cursor
  obtain ⟨cursor', hcursor', hfrom⟩ := hreach
  obtain rfl : cursor = cursor' := Except.ok.inj (hcursor.symm.trans hcursor')
  obtain ⟨hreadable, batches, hcovers, hpersisted⟩ := replay_stopped hbatch hfits hfrom hcursor
  obtain ⟨next, hnext⟩ := getCursor_of_readable hreadable
  have hkept := kept_beyond hcursor hnext hcovers
  refine ⟨next, hnext, ?_, fun event hevent => ?_⟩
  · rw [hkept]
    exact .cut hremaining batches
  · rcases hall event hevent with hleft | hrow
    · rw [← List.take_append_drop (batches * job.batchSize) (job.kept cursor)] at hleft
      rcases List.mem_append.mp hleft with hdone | hlater
      · exact .inr (hpersisted event hdone)
      · by_cases hbeyond : event ∈ beyond
            ((job.kept cursor).take (batches * job.batchSize)) (job.kept cursor)
        · rw [hkept]
          exact .inl hbeyond
        · -- the next run skips this event of a later batch
          obtain ⟨earlier, hearlier, hle⟩ :=
            exists_le_of_not_mem_beyond (List.mem_of_mem_drop hlater) hbeyond
          obtain ⟨same, hsame, hidentity⟩ :=
            hsafe _ hremaining batches event hlater earlier hearlier hle
          right
          have hrow := hpersisted same hsame
          unfold Persisted NormalizedEvent.eventId at hrow ⊢
          rw [← hidentity]
          exact hrow
    · exact .inr (replay_keeps hfrom hrow)

theorem recoverable_of_crashed {start db : Db}
    (hfresh : start.streamCursors job.streamName = none) (h : job.Crashed start db) :
    Recoverable job db := by
  induction h with
  | start =>
      obtain ⟨hcursor, hkept⟩ := kept_of_fresh hfresh
      refine ⟨none, hcursor, ?_, fun event hevent => .inl ?_⟩
      · rw [hkept]
        exact .whole
      · rw [hkept]
        exact hevent
  | rerun _ hreach ih => exact recoverable_run hbatch hfits hsafe ih hreach

theorem loses_no_event : job.LosesNoEvent := by
  intro start hfresh db hcrashed x summary j hreach hmain event hevent
  obtain ⟨cursor, hcursor, -, hall⟩ :=
    (recoverable_of_crashed hbatch hfits hsafe hfresh hcrashed).cursor
  obtain ⟨cursor', hcursor', hfrom⟩ := hreach
  obtain rfl : cursor = cursor' := Except.ok.inj (hcursor.symm.trans hcursor')
  rcases hall event hevent with hkept | hrow
  · exact replay_done_persisted hbatch hfits hfrom hmain hkept
  · exact replay_keeps hfrom hrow

end Safe

/-! ## A cut that is not safe loses an event -/

theorem replayAct_total (hasher : Hasher) (depth : Nat) (db : Db) (c : PipelineCall) :
    ∃ r db', replayAct hasher depth db c r db' := by
  unfold replayAct
  cases c with
  | channelLen => exact ⟨depth, db, rfl, rfl⟩
  | onActivity | onProgress => exact ⟨(), db, trivial, rfl⟩
  | batchElapsed => exact ⟨(0 : Nat), db, trivial, rfl⟩
  | writeBatch batch => exact ⟨_, _, trivial, rfl, rfl⟩
  | updateAfterBatch name slot => exact ⟨_, _, trivial, rfl⟩
  | recordSlotStates name updates => exact ⟨_, _, trivial, rfl, rfl⟩
  | advanceContiguousFinalized name => exact ⟨_, _, trivial, rfl, rfl⟩

section Stopped

variable {job : ReplayJob} (hbatch : 0 < job.batchSize) (hcapacity : 0 < job.channelCapacity)
  (hfits : ∀ event ∈ job.events, event.slot ≤ i64Max) (cursor : Option StreamCursor) (db : Db)
include hbatch hcapacity hfits

theorem exists_completed : ∃ (x : ReplaySystem) (summary : PipelineSummary)
    (j : Joined (Except Empty Unit)),
    job.ReachesFrom cursor db x ∧ x.main = .done (.ok summary) j := by
  let setup := job.setup cursor
  have hcalm : ∀ y, setup.Reaches (setup.init db (.sending job.events)) y → y.main ≠ .panicked :=
    fun y hy => not_panicked (config_batchSize_pos hbatch cursor) hy
  have hbound : Setup.Bounded setup.producer SendTask.rank := eventProducer_bounded _ _
  obtain ⟨x, result, j, hreach, hmain⟩ := Setup.exists_done hbound (replayAct_total job.hasher)
    (eventProducer_lively _ _) (show 0 < setup.capacity from hcapacity) hcalm
  cases result with
  | ok summary => exact ⟨x, summary, j, hreach, hmain⟩
  | error e =>
      obtain ⟨a, ha, hfail⟩ :=
        done_error (config_batchSize_pos hbatch cursor) hreach hmain
      rw [replay_no_failure hbatch hfits hreach a ha] at hfail
      cases hfail

/-- A run may stop right behind any of its batches. -/
theorem exists_stopped (batches : Nat) : ∃ x, job.ReachesFrom cursor db x ∧
    Program.calls (storeTrace x.trace) =
      ((chunks job.batchSize (job.kept cursor)).take batches).flatMap
        (batchCalls job.streamName false) := by
  obtain ⟨y, summary, j, hreach, hmain⟩ := exists_completed hbatch hcapacity hfits cursor db
  have hall := replay_done hbatch hreach hmain
  have hfront : ((chunks job.batchSize (job.kept cursor)).take batches).flatMap
      (batchCalls job.streamName false) <+: Program.calls (storeTrace y.trace) := by
    rw [hall]
    nth_rewrite 2 [← List.take_append_drop batches (chunks job.batchSize (job.kept cursor))]
    rw [List.flatMap_append]
    exact List.prefix_append _ _
  obtain ⟨made, hmade, hcalls⟩ := List.prefix_map_iff.mp hfront
  obtain ⟨tr, htr, rfl⟩ := List.prefix_filter_iff.mp hmade
  obtain ⟨x, hx, rfl⟩ := Setup.exists_reaches_at hreach rfl htr
  exact ⟨x, hx, hcalls.symm⟩

/-- What such a run leaves: rows and cursor are those of the batches before. -/
theorem exists_cut (hcursor : getCursor db job.streamName = .ok cursor) (batches : Nat) :
    ∃ x next, job.ReachesFrom cursor db x ∧ getCursor x.world job.streamName = .ok next ∧
      (∀ n, Covers x.world job.streamName n ↔ Covers db job.streamName n ∨
        ∃ earlier ∈ (job.kept cursor).take (batches * job.batchSize), n ≤ earlier.slot) ∧
      ∀ id ∈ x.world.events.keys, id ∈ db.events.keys ∨
        ∃ event ∈ (job.kept cursor).take (batches * job.batchSize),
          event.eventId job.hasher = id := by
  obtain ⟨x, hreach, hcalls⟩ := exists_stopped hbatch hcapacity hfits cursor db batches
  have hperforms := replay_performs hreach
  obtain ⟨hreadable, hcovers⟩ := covers_performs hperforms (replay_ofStream hbatch hreach)
    (replay_fits hbatch hfits hreach) (readable_of_getCursor hcursor)
  obtain ⟨next, hnext⟩ := getCursor_of_readable hreadable
  refine ⟨x, next, hreach, hnext, fun n => ?_, fun id hid => ?_⟩
  · rw [hcovers, hcalls]
    simp only [List.mem_flatMap, mem_batchCalls_update]
    rw [exists_max_iff, flatten_take_chunks hbatch]
  · rcases persisted_origin hperforms hid with hold | ⟨batch, hmem, event, hevent, hid⟩
    · exact .inl hold
    · rw [hcalls] at hmem
      obtain ⟨batch', hbatch', hwrite⟩ := List.mem_flatMap.mp hmem
      right
      refine ⟨event, ?_, hid⟩
      rw [← flatten_take_chunks hbatch]
      obtain rfl := mem_batchCalls_write hwrite
      exact List.mem_flatten_of_mem hbatch' hevent

/-- Crashes of a run from scratch and of its reruns get to everything `Remaining` names; the rows
there are of events that are skipped from then on. -/
theorem exists_crashed {rest : List NormalizedEvent}
    (h : Remaining job.batchSize job.events rest) :
    ∃ db cursor, job.Crashed .empty db ∧ getCursor db job.streamName = .ok cursor ∧
      job.kept cursor = rest ∧
      ∀ id ∈ db.events.keys, ∃ event ∈ job.events, event.eventId job.hasher = id ∧
        Covers db job.streamName event.slot := by
  induction h with
  | whole =>
      have hfresh : Db.empty.streamCursors job.streamName = none := rfl
      obtain ⟨hcursor, hkept⟩ := kept_of_fresh hfresh
      exact ⟨.empty, none, .start, hcursor, hkept, fun id hid => absurd hid List.not_mem_nil⟩
  | cut h batches ih =>
      -- one more run, which crashes behind the given number of batches
      obtain ⟨db, cursor, hcrashed, hcursor, rfl, hrows⟩ := ih
      obtain ⟨x, next, hreach, hnext, hcovers, horigin⟩ :=
        exists_cut hbatch hcapacity hfits cursor db hcursor batches
      refine ⟨x.world, next, .rerun hcrashed ⟨cursor, hcursor, hreach⟩, hnext,
        kept_beyond hcursor hnext hcovers, fun id hid => ?_⟩
      rcases horigin id hid with hold | ⟨event, hevent, hid⟩
      · obtain ⟨event, hevent, hid, hcovered⟩ := hrows id hold
        exact ⟨event, hevent, hid, (hcovers _).mpr (.inl hcovered)⟩
      · refine ⟨event, mem_of_mem_kept (List.mem_of_mem_take hevent), hid, ?_⟩
        exact (hcovers _).mpr (.inr ⟨event, hevent, le_rfl⟩)

end Stopped

section Lossless

variable {job : ReplayJob}
  (hhash : job.hasher.CollisionFree {identity | ∃ event ∈ job.events, event.identity = identity})
include hhash

theorem identity_of_eventId {a b : NormalizedEvent} (ha : a ∈ job.events) (hb : b ∈ job.events)
    (h : a.eventId job.hasher = b.eventId job.hasher) : a.identity = b.identity :=
  hhash.eventId_injOn ⟨a, ha, rfl⟩ ⟨b, hb, rfl⟩ h

variable (hbatch : 0 < job.batchSize) (hcapacity : 0 < job.channelCapacity)
  (hfits : ∀ event ∈ job.events, event.slot ≤ i64Max)
include hbatch hcapacity hfits

theorem cutSafe_of_losesNoEvent (h : job.LosesNoEvent) : CutSafe job.batchSize job.events := by
  intro rest hremaining batches later hlater earlier hearlier hle
  obtain ⟨db, cursor, hcrashed, hcursor, rfl, hrows⟩ :=
    exists_crashed hbatch hcapacity hfits hremaining
  obtain ⟨x, next, hreach, hnext, hcovers, horigin⟩ :=
    exists_cut hbatch hcapacity hfits cursor db hcursor batches
  obtain ⟨y, summary, j, hrerun, hmain⟩ :=
    exists_completed hbatch hcapacity hfits next x.world
  have hin : later ∈ job.kept cursor := List.mem_of_mem_drop hlater
  have hpersisted : Persisted job.hasher y.world later :=
    h .empty rfl x.world (.rerun hcrashed ⟨cursor, hcursor, hreach⟩) y summary j
      ⟨next, hnext, hrerun⟩ hmain later (mem_of_mem_kept hin)
  have hslot : ∀ event ∈ job.events, event.eventId job.hasher = later.eventId job.hasher →
      event.slot = later.slot := fun event hevent hid =>
    congrArg EventIdentity.slotNumber (identity_of_eventId hhash hevent (mem_of_mem_kept hin) hid)
  -- the rerun skips the later event, so its row stems from the first run
  rcases persisted_origin (replay_performs hrerun) hpersisted with hold |
    ⟨batch, hwrite, event, hevent, hid⟩
  · rcases horigin _ hold with hearly | ⟨same, hsame, hid⟩
    · obtain ⟨event, hevent, hid, hcovered⟩ := hrows _ hearly
      rw [hslot event hevent hid] at hcovered
      exact absurd hcovered ((mem_kept_iff hcursor later).mp hin).2
    · have hmem : same ∈ job.events := mem_of_mem_kept (List.mem_of_mem_take hsame)
      exact ⟨same, hsame, identity_of_eventId hhash hmem (mem_of_mem_kept hin) hid⟩
  · -- an event with its id that the rerun wrote would have been skipped as well
    rw [replay_done hbatch hrerun hmain] at hwrite
    obtain ⟨batch', hbatch', hwrite⟩ := List.mem_flatMap.mp hwrite
    obtain rfl := mem_batchCalls_write hwrite
    have hkept : event ∈ job.kept next := mem_of_mem_chunks _ hbatch' hevent
    obtain ⟨hmem, hcovered⟩ := (mem_kept_iff hnext event).mp hkept
    rw [hslot event hmem hid] at hcovered
    exact absurd ((hcovers _).mpr (.inr ⟨earlier, hearlier, hle⟩)) hcovered

end Lossless

/-- Crashes and reruns lose no event exactly where every batch boundary is a safe one: what lies
behind it either has a greater slot than all before it or repeats one of these. -/
theorem replay_loses_no_event_iff (job : ReplayJob) (hbatch : 0 < job.batchSize)
    (hcapacity : 0 < job.channelCapacity) (hfits : ∀ event ∈ job.events, event.slot ≤ i64Max)
    (hhash : job.hasher.CollisionFree
      {identity | ∃ event ∈ job.events, event.identity = identity}) :
    job.LosesNoEvent ↔ CutSafe job.batchSize job.events :=
  ⟨cutSafe_of_losesNoEvent hhash hbatch hcapacity hfits, loses_no_event hbatch hfits⟩

theorem cutSafe_of_length_le {batchSize : Nat} {events : List NormalizedEvent}
    (h : events.length ≤ batchSize) : CutSafe batchSize events := by
  intro rest hremaining batches later hlater earlier hearlier _
  have hlength : rest.length ≤ events.length := by
    clear hlater hearlier
    induction hremaining with
    | whole => exact le_rfl
    | cut _ batches ih => exact (List.length_filter_le _ _).trans ih
  cases batches with
  | zero =>
      rw [Nat.zero_mul, List.take_zero] at hearlier
      exact absurd hearlier List.not_mem_nil
  | succ batches =>
      have hle : rest.length ≤ (batches + 1) * batchSize := by
        rw [Nat.add_mul]
        omega
      rw [List.drop_of_length_le hle] at hlater
      exact absurd hlater List.not_mem_nil

/-- Two transactions of one slot. -/
def firstTransaction : NormalizedEvent := ⟨.transaction "localnet" 42 "sig-1" 0, .null⟩
def secondTransaction : NormalizedEvent := ⟨.transaction "localnet" 42 "sig-2" 1, .null⟩

def transactionHasher : Hasher :=
  pairHasher firstTransaction.identity secondTransaction.identity
    [41, 16, 171, 15, 207, 37, 222, 44, 149, 86, 140, 212, 255, 40, 106, 106, 240, 139, 15, 19, 52,
      229, 0, 171, 206, 213, 213, 155, 80, 125, 163, 215]
    [225, 203, 11, 109, 220, 33, 236, 173, 108, 175, 21, 248, 223, 244, 180, 128, 57, 111, 179, 74,
      27, 79, 222, 142, 103, 102, 131, 123, 216, 231, 192, 103]

def sameSlotJob (batchSize : Nat) : ReplayJob :=
  ⟨transactionHasher, batchSize, 1, "test", [firstTransaction, secondTransaction]⟩

theorem sameSlotJob_fits (batchSize : Nat) :
    ∀ event ∈ (sameSlotJob batchSize).events, event.slot ≤ i64Max := by
  show ∀ event ∈ [firstTransaction, secondTransaction], event.slot ≤ i64Max
  decide

theorem sameSlotJob_collisionFree (batchSize : Nat) :
    (sameSlotJob batchSize).hasher.CollisionFree
      {identity | ∃ event ∈ (sameSlotJob batchSize).events, event.identity = identity} := by
  have hsame : {identity | ∃ event ∈ (sameSlotJob batchSize).events, event.identity = identity} =
      {firstTransaction.identity, secondTransaction.identity} := by
    ext identity
    show (∃ event ∈ [firstTransaction, secondTransaction], event.identity = identity) ↔ _
    simp [eq_comm]
  rw [hsame]
  exact pairHasher_collisionFree (by decide) (by decide)

theorem replay_loses_no_event_iff_one_batch : (sameSlotJob 2).LosesNoEvent :=
  (replay_loses_no_event_iff (sameSlotJob 2) (by decide) (by decide) (sameSlotJob_fits 2)
    (sameSlotJob_collisionFree 2)).mpr (cutSafe_of_length_le (by decide))

/-- A crash behind the first of two batches with one slot: the rerun skips the second. -/
theorem replay_loses_event_of_split_slot : ¬ ∀ job : ReplayJob, 0 < job.batchSize →
    0 < job.channelCapacity → (∀ event ∈ job.events, event.slot ≤ i64Max) →
    job.hasher.CollisionFree {identity | ∃ event ∈ job.events, event.identity = identity} →
    job.LosesNoEvent := by
  intro hall
  have hlossless := hall (sameSlotJob 1) (by decide) (by decide) (sameSlotJob_fits 1)
    (sameSlotJob_collisionFree 1)
  have hsafe := cutSafe_of_losesNoEvent (sameSlotJob_collisionFree 1) (by decide) (by decide)
    (sameSlotJob_fits 1) hlossless
  obtain ⟨same, hsame, hidentity⟩ := hsafe _ .whole 1 secondTransaction (.head _) firstTransaction
    (.head _) (by decide)
  obtain rfl := List.mem_singleton.mp hsame
  exact absurd hidentity (by decide)

end YellowstoneStream.App

import YellowstoneStream.App.Live
import YellowstoneStream.App.StatusRace

/-!
# The status of a live run

Every progress report shows the persisted slot as it is stored, and the frontier as it is stored or
none at all: a run starts out without one, also where one is stored.  What is published goes back
then, and also where a callback of the other task is sent over a report that it has not read.
-/

open YellowstoneStream.Domain YellowstoneStream.Reasoning YellowstoneStream.Storage
open YellowstoneStream.Stream

namespace YellowstoneStream.App

section Columns

variable (db : Db) (streamName : String) (summary : PipelineSummary)

def MatchesCursor : Prop :=
  summary.lastPersistedSlot.map Int.ofNat =
    (db.streamCursors streamName).map StreamCursorRow.lastPersistedSlot

def MatchesFrontier : Prop :=
  summary.lastContiguousFinalizedSlot.map Int.ofNat = db.watermark streamName ∧
    summary.lastFinalizedSlot.map Int.ofNat = db.head streamName

/-- The summary has the stored frontier, or none. -/
def FrontierIfAny : Prop :=
  (summary.lastContiguousFinalizedSlot = none ∧ summary.lastFinalizedSlot = none) ∨
    MatchesFrontier db streamName summary

end Columns

/-- The three slots of a snapshot, or of the summary it is made from. -/
abbrev SlotColumns := Option Nat × Option Nat × Option Nat

/-- None of the slots is below that of the other columns. -/
def SlotColumns.Le (columns later : SlotColumns) : Prop :=
  SlotLe columns.1 later.1 ∧ SlotLe columns.2.1 later.2.1 ∧ SlotLe columns.2.2 later.2.2

def StatusSnapshot.slotColumns (status : StatusSnapshot) : SlotColumns :=
  (status.lastPersistedSlot, status.lastContiguousFinalizedSlot, status.lastFinalizedSlot)

def slotColumnsOf (summary : PipelineSummary) : SlotColumns :=
  (summary.lastPersistedSlot, summary.lastContiguousFinalizedSlot, summary.lastFinalizedSlot)

/-- The snapshot shows the columns of its stream's row. -/
def StatusSnapshot.ShowsStored (status : StatusSnapshot) (db : Db) : Prop :=
  status.lastPersistedSlot.map Int.ofNat =
      (db.streamCursors status.streamName).map StreamCursorRow.lastPersistedSlot ∧
    status.lastContiguousFinalizedSlot.map Int.ofNat = db.watermark status.streamName ∧
    status.lastFinalizedSlot.map Int.ofNat = db.head status.streamName

theorem SlotColumns.Le.refl (columns : SlotColumns) : columns.Le columns :=
  ⟨.refl _, .refl _, .refl _⟩

/-- None of the three slots is below that of the other summary. -/
def SlotsLe (summary later : PipelineSummary) : Prop :=
  (slotColumnsOf summary).Le (slotColumnsOf later)

theorem SlotsLe.refl (summary : PipelineSummary) : SlotsLe summary summary :=
  SlotColumns.Le.refl _

/-! ## Every report -/

section Calls

variable {hasher : Hasher} {streamName : String} {db db' : Db} {summary : PipelineSummary}

theorem matchesCursor_update (h : MatchesCursor db streamName summary) {slot : Nat}
    (hupdate : updateAfterBatch db streamName slot = (.ok (), db')) :
    MatchesCursor db' streamName (summary.persistSlot slot) ∧
      (db'.streamCursors streamName).isSome = true := by
  have hfits : slot ≤ i64Max := by
    rw [← updateAfterBatch_ok_iff db streamName slot, hupdate]
  rw [updateAfterBatch_of_le db streamName hfits] at hupdate
  obtain rfl := (Prod.mk.inj hupdate).2
  unfold MatchesCursor at *
  rw [Db.setCursor_cursor]
  refine ⟨?_, rfl⟩
  cases hrow : db.streamCursors streamName with
  | none =>
      rw [hrow, Option.map_none, Option.map_eq_none_iff] at h
      -- the row is new, and the summary had no slot either
      simp only [PipelineSummary.persistSlot, h]
      rfl
  | some row =>
      rw [hrow, Option.map_some, Option.map_eq_some_iff] at h
      obtain ⟨n, hn, hrowSlot⟩ := h
      -- `GREATEST` in the table and `max` in the summary
      simp only [PipelineSummary.persistSlot, hn, upsertCursor, ← hrowSlot]
      have hmax : ((max n slot : Nat) : Int) = max (n : Int) slot := by omega
      exact congrArg some hmax

/-- An advance of an existing row leaves its persisted slot, and returns what it stores. -/
theorem matches_advance (h : MatchesCursor db streamName summary)
    (hrow : (db.streamCursors streamName).isSome = true) {frontier : FinalizedFrontier} {fuel : Nat}
    (hadvance : advanceContiguousFinalized fuel db streamName = some (.ok frontier, db')) :
    MatchesCursor db' streamName (summary.setFrontier frontier) ∧
      (db'.streamCursors streamName).isSome = true ∧
      MatchesFrontier db' streamName (summary.setFrontier frontier) ∧
      (∀ w ∈ db.watermark streamName, ∃ w' ∈ db'.watermark streamName, w ≤ w') ∧
      ∀ x ∈ db.head streamName, ∃ y ∈ db'.head streamName, x ≤ y := by
  obtain ⟨hfrontier, hwatermark, hhead⟩ := advance_stored hadvance
  simp only [advanceContiguousFinalized, Option.map_eq_some_iff, Prod.exists] at hadvance
  obtain ⟨watermark, head, -, hresult⟩ := hadvance
  obtain ⟨-, rfl⟩ := Prod.mk.inj hresult
  obtain ⟨row, hrow⟩ := Option.isSome_iff_exists.mp hrow
  have hcursor : (db.setCursor streamName (upsertFrontier (db.streamCursors streamName) watermark
      head)).streamCursors streamName =
      some (upsertFrontier (db.streamCursors streamName) watermark head) := Db.setCursor_cursor ..
  refine ⟨?_, ?_, hfrontier, hwatermark, hhead⟩
  · -- the upsert of a row that exists leaves its persisted slot
    unfold MatchesCursor at *
    rw [hcursor, hrow]
    rw [hrow] at h
    exact h
  · rw [hcursor]
    rfl

theorem slotLe_of_map {a b : Option Nat} {x y : Option Int} (ha : a.map Int.ofNat = x)
    (hb : b.map Int.ofNat = y) (h : ∀ i ∈ x, ∃ j ∈ y, i ≤ j) : SlotLe a b := by
  rintro n rfl
  obtain ⟨j, hj, hle⟩ := h n (by rw [← ha]; rfl)
  rw [← hb] at hj
  obtain ⟨m, hm, rfl⟩ := Option.map_eq_some_iff.mp hj
  exact ⟨m, hm, Int.ofNat_le.mp hle⟩

end Calls

/-- The stores, and the reports made so far. -/
abbrev reportingAct (hasher : Hasher) :
    Db × List PipelineSummary → (c : PipelineCall) → PostgresReply PostgresSlotStateError c →
      Db × List PipelineSummary → Prop :=
  Program.Both (storeReply hasher postgresSlotStateStore) (Program.Logs reports)

/-- The persisted slot is always as stored, the frontier if there is one.  If there was none in the
beginning, which is `fresh`, then what is shown is always stored and no report goes back. -/
def Durable (streamName : String) (fresh : Prop) (w : Db × List PipelineSummary)
    (s : PipelineSummary) : Prop :=
  (MatchesCursor w.1 streamName s ∧ FrontierIfAny w.1 streamName s) ∧
    (fresh → MatchesFrontier w.1 streamName s ∧ ∀ r ∈ w.2, SlotsLe r s)

section Rule

variable {hasher : Hasher} {streamName : String} {fresh : Prop}
  {w w' : Db × List PipelineSummary} {s : PipelineSummary}

theorem Durable.same {s' : PipelineSummary} (h : Durable streamName fresh w s)
    (hsame : s.SameBatches s') : Durable streamName fresh w s' := by
  obtain ⟨-, hpersisted, hcontiguous, hfinalized⟩ := hsame
  unfold Durable FrontierIfAny MatchesCursor MatchesFrontier SlotsLe slotColumnsOf at *
  rw [← hpersisted, ← hcontiguous, ← hfinalized]
  exact h

/-- Calls that leave the cursors alone, other than reports. -/
theorem Durable.silent (h : Durable streamName fresh w s) {c : PipelineCall}
    {r : PostgresReply PostgresSlotStateError c} (hc : reports c = [])
    (hcursors : w'.1.streamCursors = w.1.streamCursors) (hact : reportingAct hasher w c r w') :
    Durable streamName fresh w' s := by
  unfold Durable FrontierIfAny MatchesCursor MatchesFrontier Db.watermark Db.head at *
  rw [hcursors, logs_silent hc hact.2]
  exact h

theorem Durable.report (h : Durable streamName fresh w s)
    (hact : reportingAct hasher w (.onProgress s) () w') : Durable streamName fresh w' s := by
  obtain ⟨hdb, hlog⟩ := hact
  have hdb : w'.1 = w.1 := hdb
  have hlog : w'.2 = w.2 ++ [s] := hlog
  unfold Durable at *
  rw [hdb, hlog]
  refine ⟨h.1, fun hfresh => ⟨(h.2 hfresh).1, fun r hr => ?_⟩⟩
  rcases List.mem_append.mp hr with hr | hr
  · exact (h.2 hfresh).2 r hr
  · rw [List.mem_singleton.mp hr]
    exact .refl s

theorem Durable.cursor (h : Durable streamName fresh w s) {slot : Nat}
    (hact : reportingAct hasher w (.updateAfterBatch streamName slot) (.ok ()) w') :
    Durable streamName fresh w' (s.persistSlot slot) ∧
      (w'.1.streamCursors streamName).isSome = true := by
  obtain ⟨hupdate, hlog⟩ := hact
  have hupdate : updateAfterBatch w.1 streamName slot = (.ok (), w'.1) := hupdate
  obtain ⟨hcursor, hrow⟩ := matchesCursor_update h.1.1 hupdate
  have hw : w'.1 = (updateAfterBatch w.1 streamName slot).2 := by rw [hupdate]
  have hfrontier : MatchesFrontier w.1 streamName s →
      MatchesFrontier w'.1 streamName (s.persistSlot slot) := by
    unfold MatchesFrontier
    rw [hw, updateAfterBatch_watermark, updateAfterBatch_head]
    exact id
  refine ⟨⟨⟨hcursor, h.1.2.imp id hfrontier⟩, fun hfresh => ⟨?_, fun r hr => ?_⟩⟩, hrow⟩
  · exact hfrontier (h.2 hfresh).1
  · rw [logs_silent rfl hlog] at hr
    obtain ⟨hpersisted, hcontiguous, hfinalized⟩ := (h.2 hfresh).2 r hr
    exact ⟨hpersisted.trans (slotLe_persistSlot s slot), hcontiguous, hfinalized⟩

theorem Durable.advance (h : Durable streamName fresh w s)
    (hrow : (w.1.streamCursors streamName).isSome = true) {frontier : FinalizedFrontier}
    (hact : reportingAct hasher w (.advanceContiguousFinalized streamName) (.ok frontier) w') :
    Durable streamName fresh w' (s.setFrontier frontier) ∧
      (w'.1.streamCursors streamName).isSome = true := by
  obtain ⟨⟨fuel, hadvance⟩, hlog⟩ := hact
  obtain ⟨hcursor, hrow', hfrontier, hwatermark, hhead⟩ := matches_advance h.1.1 hrow hadvance
  refine ⟨⟨⟨hcursor, .inr hfrontier⟩, fun hfresh => ⟨hfrontier, fun r hr => ?_⟩⟩, hrow'⟩
  rw [logs_silent rfl hlog] at hr
  obtain ⟨hmatches, hearlier⟩ := h.2 hfresh
  obtain ⟨hpersisted, hcontiguous, hfinalized⟩ := hearlier r hr
  exact ⟨hpersisted, hcontiguous.trans (slotLe_of_map hmatches.1 hfrontier.1 hwatermark),
    hfinalized.trans (slotLe_of_map hmatches.2 hfrontier.2 hhead)⟩

theorem recordSlotStates_of_act {updates : List SlotStateUpdate}
    {r : PostgresReply PostgresSlotStateError (.recordSlotStates streamName updates)}
    (hact : reportingAct hasher w (.recordSlotStates streamName updates) r w') :
    w'.1.streamCursors = w.1.streamCursors := by
  obtain ⟨⟨order, hrecord⟩, -⟩ := hact
  have hcursors := recordSlotStates_cursors order w.1 streamName updates
  rw [hrecord] at hcursors
  exact hcursors

variable (hasher streamName fresh)

def durableRule : ReportRule (reportingAct hasher) (Durable streamName fresh) streamName where
  idle := Durable streamName fresh
  busy := Durable streamName fresh
  stored w s := Durable streamName fresh w s ∧ (w.1.streamCursors streamName).isSome = true
  idle_same _ _ _ h hsame := h.same hsame
  idle_depth _ _ _ _ h hact := h.silent rfl (congrArg Db.streamCursors hact.1) hact
  idle_activity _ _ _ _ h hact := h.silent rfl (congrArg Db.streamCursors hact.1) hact
  report _ _ h := ⟨h, fun _ hact => h.report hact⟩
  busy_of_idle _ _ h := h
  busy_same _ _ _ h hsame := h.same hsame
  write _ _ _ _ _ h hact := h.silent rfl (by rw [hact.1.2]) hact
  elapsed _ _ _ _ h hact := h.silent rfl (congrArg Db.streamCursors hact.1) hact
  cursor _ _ _ _ h hact := h.cursor hact
  record _ _ _ _ h hact := by
    have hcursors := recordSlotStates_of_act hact
    exact ⟨h.1.silent rfl hcursors hact, hcursors ▸ h.2⟩
  advance _ _ _ _ h hact := h.1.advance h.2 hact
  busy_of_stored _ _ h := h.1
  report_batch _ _ _ h := ⟨h, fun _ hact => Durable.report h hact⟩

end Rule

section Run

variable {hasher : Hasher} {streamName : String} {settings : LiveSettings} {start : Db}
  {cursor : Option StreamCursor} {frontier : FinalizedFrontier} {events : List NormalizedEvent}
  {tr : PostgresTrace PostgresSlotStateError} {q : PostgresProgram} {db' : Db}

/-- No frontier is stored. -/
def Unadvanced (db : Db) (streamName : String) : Prop :=
  db.watermark streamName = none ∧ db.head streamName = none

theorem durable_start (hcursor : getCursor start streamName = .ok cursor)
    (hfrontier : getFinalizedFrontier start streamName = .ok frontier) :
    Durable streamName (Unadvanced start streamName)
      (start, [initialSummary (settings.config cursor) frontier])
      (settings.config cursor).startSummary := by
  refine ⟨⟨loaded_cursor hcursor, .inl ⟨rfl, rfl⟩⟩,
    fun hfresh => ⟨⟨hfresh.1.symm, hfresh.2.symm⟩, fun r hr => ?_⟩⟩
  -- what is loaded then is the empty frontier
  obtain ⟨hcontiguous, hfinalized⟩ := loaded_frontier hfrontier
  rw [hfresh.1, Option.map_eq_none_iff] at hcontiguous
  rw [hfresh.2, Option.map_eq_none_iff] at hfinalized
  rw [List.mem_singleton.mp hr]
  unfold initialSummary PipelineSummary.setFrontier
  rw [hcontiguous, hfinalized]
  exact .refl _

/-- At every report the summary is durable. -/
theorem durable_report (hcursor : getCursor start streamName = .ok cursor)
    (hfrontier : getFinalizedFrontier start streamName = .ok frontier)
    (hrun : PostgresRun hasher (settings.config cursor) streamName events
      start tr q db') {before after : PostgresTrace PostgresSlotStateError}
    {summary : PipelineSummary} (htr : tr = before ++ ⟨.onProgress summary, ()⟩ :: after) {db : Db}
    (hdb : Program.Performs (storeReply hasher postgresSlotStateStore) start before db) :
    Durable streamName (Unadvanced start streamName)
      (db, initialSummary (settings.config cursor) frontier ::
        (Program.calls before).flatMap reports) summary := by
  have htriple := (durableRule hasher streamName (Unadvanced start streamName)).triple_pipeline
    (settings.config cursor) events (durable_start hcursor hfrontier)
  have hruns := hrun.runs
  rw [htr] at hruns
  exact htriple.allowed_of_runs hruns (hdb.both (Program.performs_logs reports _ before))

theorem reports_increasing (hcursor : getCursor start streamName = .ok cursor)
    (hfrontier : getFinalizedFrontier start streamName = .ok frontier)
    (hrun : PostgresRun hasher (settings.config cursor) streamName events
      start tr q db') (hfresh : Unadvanced start streamName) :
    (initialSummary (settings.config cursor) frontier ::
      (Program.calls tr).flatMap reports).Pairwise SlotsLe := by
  have htriple := (durableRule hasher streamName (Unadvanced start streamName)).triple_pipeline
    (settings.config cursor) events (durable_start hcursor hfrontier)
  exact pairwise_reports htriple (fun _ _ _ h => (h.2 hfresh).2) hrun.runs hrun.performs

/-- The first call is the report at the start. -/
theorem first_report {config : PipelineConfig}
    (hruns : Program.Runs ((eventReceiverPipeline config streamName).whole events) tr q)
    (hne : tr ≠ []) : ∃ rest, tr = ⟨.onProgress config.startSummary, ()⟩ :: rest := by
  rcases Nat.eq_zero_or_pos config.batchSize with hzero | hsize
  · exact absurd (runs_of_batchSize_zero hzero hruns).1 hne
  obtain ⟨batcher, hbatcher⟩ := Batcher.new_of_pos hsize
  have hstart : ∃ next, (eventReceiverPipeline (W := PostgresWriteError)
      (C := PostgresCursorError) (S := PostgresSlotStateError) config streamName).start =
      .call (.onProgress config.startSummary) next := by
    show ∃ next, startReceiving config = .call _ next
    unfold startReceiving
    rw [hbatcher]
    exact ⟨_, rfl⟩
  obtain ⟨next, hnext⟩ := hstart
  obtain ⟨rest, hrest⟩ := Worker.exists_whole_eq_call hnext events
  rw [hrest] at hruns
  cases hruns with
  | refl => exact absurd rfl hne
  | step => exact ⟨_, rfl⟩

end Run

/-! ## Every published snapshot -/

/-- In the run no progress report is sent while a callback of the other task, which reports no
progress, stands between its read and its send. -/
abbrev UndisturbedReports (streamName : String) (x : SharedStatus)
    (steps : List (HalfStep StatusTask)) : Prop :=
  SafeRun (statusStep streamName)
    (SharedValue.Safe fun sent held => sent.isProgress = true ∧ held.isProgress = false) x steps

def slotsView (streamName : String) : View (StatusUpdate.apply streamName) SlotColumns :=
  .overwriting StatusSnapshot.slotColumns (fun update => update.summary?.map slotColumnsOf)
    fun update _ => by cases update <;> rfl

/-- What the snapshot is where no report is undone. -/
structure ReportsInv (streamName : String) (start : StatusSnapshot)
    (plan : StatusTask → List StatusUpdate) (x : SharedStatus) : Prop where
  keeps : x.Keeps StatusUpdate.task plan
  slots : (slotsView streamName).Current ((slotsView streamName).view start) x

section Published

variable {streamName : String} {plan : StatusTask → List StatusUpdate} {x y : SharedStatus}

theorem reportsInv_initial (start : StatusSnapshot) :
    ReportsInv streamName start plan (.initial start plan) where
  keeps := SharedValue.keeps_initial StatusUpdate.task start plan
  slots := View.current_initial start plan

theorem ReportsInv.step {start : StatusSnapshot}
    (hplan : ∀ task, ∀ update ∈ plan task, update.task = task)
    (h : ReportsInv streamName start plan x) {i : HalfStep StatusTask}
    (hsafe : x.Safe (fun sent held => sent.isProgress = true ∧ held.isProgress = false) i)
    (hstep : statusStep streamName x i = some y) : ReportsInv streamName start plan y where
  keeps := h.keeps.step hplan hstep
  slots := by
    refine h.slots.step (fun sent held hsent hheld => ⟨?_, ?_⟩) hsafe hstep
    · cases sent with
      | progress => rfl
      | reconnect | activity => cases hsent
    · cases held with
      | progress => cases hheld
      | reconnect | activity => rfl

theorem ReportsInv.run {start : StatusSnapshot}
    (hplan : ∀ task, ∀ update ∈ plan task, update.task = task)
    (h : ReportsInv streamName start plan x) {steps : List (HalfStep StatusTask)}
    (hsafe : UndisturbedReports streamName x steps)
    (hrun : runSteps (statusStep streamName) x steps = some y) :
    ReportsInv streamName start plan y ∧ x.sent <+: y.sent := by
  have hboth : ∀ (x : SharedStatus) (i : HalfStep StatusTask) (y : SharedStatus),
      ReportsInv streamName start plan x →
      x.Safe (fun sent held => sent.isProgress = true ∧ held.isProgress = false) i →
      statusStep streamName x i = some y →
      ReportsInv streamName start plan y ∧ x.sent <+: y.sent :=
    fun _ _ _ hinv hsafe hstep => ⟨hinv.step hplan hsafe hstep, SharedValue.sent_step hstep⟩
  exact hsafe.induction hboth (fun _ => List.prefix_refl _) (fun _ _ _ => List.IsPrefix.trans)
    hrun h

/-- What is published shows the last report sent, or what was there at the start. -/
theorem ReportsInv.slotColumns_eq {config : PipelineConfig} {frontier : FinalizedFrontier}
    (h : ReportsInv streamName (initialStatus streamName config frontier) plan x) :
    x.value.slotColumns = slotColumnsOf
      ((x.sent.filterMap StatusUpdate.summary?).getLastD (initialSummary config frontier)) := by
  have hlast : x.value.slotColumns =
      (x.sent.filterMap fun update => update.summary?.map slotColumnsOf).getLastD
        (slotColumnsOf (initialSummary config frontier)) := h.slots.overwritten
  rw [hlast, ← List.map_filterMap, List.getLastD_eq_getLast?, List.getLastD_eq_getLast?,
    List.getLast?_map]
  cases (x.sent.filterMap StatusUpdate.summary?).getLast? <;> rfl

/-- Where the reports of the pipeline do not go back, nothing published does. -/
theorem published_increasing {config : PipelineConfig} {frontier : FinalizedFrontier}
    {reconnects : List YellowstoneReconnectEvent} {calls : List (PipelineCall × CallbackReading)}
    (hsorted : (initialSummary config frontier ::
      (calls.map Prod.fst).flatMap reports).Pairwise SlotsLe)
    {before after : List (HalfStep StatusTask)}
    (hbefore : runSteps (statusStep streamName) (.initial (initialStatus streamName config frontier)
      (statusPlan reconnects calls)) before = some x)
    (hafter : runSteps (statusStep streamName) x after = some y)
    (hsafe : UndisturbedReports streamName (.initial (initialStatus streamName config frontier)
      (statusPlan reconnects calls)) (before ++ after)) :
    x.value.slotColumns.Le y.value.slotColumns := by
  have hplan := statusPlan_task reconnects calls
  obtain ⟨hsafeBefore, hsafeAfter⟩ := hsafe.append hbefore
  have hx := ((reportsInv_initial _).run hplan hsafeBefore hbefore).1
  obtain ⟨hy, rest, hrest⟩ := hx.run hplan hsafeAfter hafter
  obtain ⟨more, hmore⟩ := summaries_prefix_of_keeps hy.keeps
  rw [← hmore, ← hrest, List.filterMap_append, ← List.cons_append, List.pairwise_append] at hsorted
  rw [hx.slotColumns_eq, hy.slotColumns_eq, ← hrest, List.filterMap_append]
  exact rel_getLastD SlotsLe.refl hsorted.1

end Published

section Statement

variable {hasher : Hasher} {streamName : String} {settings : LiveSettings} {start : Db}
  {cursor : Option StreamCursor} {frontier : FinalizedFrontier} {events : List NormalizedEvent}
  {tr : PostgresTrace PostgresSlotStateError} {q : PostgresProgram} {db' : Db}

/-- Every report of a live run shows the persisted slot of the stream's row, and its frontier if
any.  Every snapshot of the progress callback shows the whole row, and nothing published goes back
from the initial snapshot on, if and only if no frontier was stored when the run began; nothing
published, that is, in any interleaving of the callbacks in which no report is undone. -/
theorem live_status_durable_iff (hcursor : getCursor start streamName = .ok cursor)
    (hfrontier : getFinalizedFrontier start streamName = .ok frontier)
    (hrun : PostgresRun hasher (settings.config cursor) streamName events
      start tr q db') (hne : tr ≠ []) :
    (∀ before summary after db, tr = before ++ ⟨.onProgress summary, ()⟩ :: after →
      Program.Performs (storeReply hasher postgresSlotStateStore) start before db →
      MatchesCursor db streamName summary ∧ FrontierIfAny db streamName summary) ∧
    (((∀ before summary after db, tr = before ++ ⟨.onProgress summary, ()⟩ :: after →
        Program.Performs (storeReply hasher postgresSlotStateStore) start before db →
        ∀ newBatch decodeErrors nowUnixMs status,
          ((StatusUpdate.progress summary newBatch decodeErrors nowUnixMs).apply streamName
            status).ShowsStored db) ∧
      ∀ (reconnects : List YellowstoneReconnectEvent)
        (calls : List (PipelineCall × CallbackReading)) (before after : List (HalfStep StatusTask))
        (x y : SharedStatus), calls.map Prod.fst = Program.calls tr →
        runSteps (statusStep streamName) (.initial (initialStatus streamName
          (settings.config cursor) frontier) (statusPlan reconnects calls)) before = some x →
        runSteps (statusStep streamName) x after = some y →
        UndisturbedReports streamName (.initial (initialStatus streamName (settings.config cursor)
          frontier) (statusPlan reconnects calls)) (before ++ after) →
        x.value.slotColumns.Le y.value.slotColumns) ↔ Unadvanced start streamName) := by
  refine ⟨fun before summary after db htr hdb =>
    (durable_report hcursor hfrontier hrun htr hdb).1, ?_⟩
  constructor
  · rintro ⟨hshows, -⟩
    -- the first report shows no frontier
    obtain ⟨rest, hrest⟩ := first_report hrun.runs hne
    have hfirst := hshows [] _ rest start hrest (.nil start) false 0 0
      (initialStatus streamName (settings.config cursor) frontier)
    exact ⟨hfirst.2.1.symm, hfirst.2.2.symm⟩
  · intro hfresh
    refine ⟨fun before summary after db htr hdb _ _ _ _ => ?_,
      fun reconnects calls before after x y hcalls hbefore hafter hsafe => ?_⟩
    · obtain ⟨hpersisted, hrest⟩ := durable_report hcursor hfrontier hrun htr hdb
      exact ⟨hpersisted.1, (hrest hfresh).1.1, (hrest hfresh).1.2⟩
    · have hsorted := reports_increasing hcursor hfrontier hrun hfresh
      rw [← hcalls] at hsorted
      exact published_increasing hsorted hbefore hafter hsafe

end Statement

def resumedConfig : PipelineConfig := LiveSettings.config ⟨1, 1, .default⟩ (some ⟨"test", 6⟩)

/-- A stream of which slot 6 is persisted, with the frontier that is stored. -/
def resumed (watermark head : Option Int) : Db where
  events := .empty
  streamCursors _ := some ⟨6, watermark, head⟩
  streamSlots _ := .empty

/-- The first report of a run on it. -/
def resumedReport : PostgresTrace PostgresSlotStateError :=
  [⟨.onProgress resumedConfig.startSummary, ()⟩]

theorem resumed_run (watermark head : Option Int) : ∃ q,
    PostgresRun sampleHasher resumedConfig "test" []
      (resumed watermark head) resumedReport q (resumed watermark head) :=
  ⟨_, .step (.refl _), .cons rfl (.nil _)⟩

def resumedStatus (frontier : FinalizedFrontier) : StatusSnapshot :=
  initialStatus "test" resumedConfig frontier

/-- What the run over a finalized slot 7 reports once it is written. -/
def slotSevenReport : PipelineSummary :=
  ⟨1, 0, 1, .add .default ⟨1, 1, 0, 0⟩, some 7, some 7, some 7, 12, 12, 12⟩

/-- The run up to the report of its batch. -/
def slotSevenBatch : PostgresTrace PostgresSlotStateError :=
  [⟨.onProgress resumedConfig.startSummary, ()⟩, ⟨.channelLen, (0 : Nat)⟩,
    ⟨.onActivity ⟨7, 1, 0, 1, "slot"⟩, ()⟩, ⟨.writeBatch [finalizedSlot 7 6], .ok ⟨1, 1, 0, 0⟩⟩,
    ⟨.batchElapsed, (12 : Nat)⟩, ⟨.updateAfterBatch "test" 7, .ok ()⟩,
    ⟨.recordSlotStates "test" [⟨7, some 6, true, false⟩], .ok ()⟩,
    ⟨.advanceContiguousFinalized "test", .ok ⟨some 7, some 7⟩⟩]

def slotSevenTrace : PostgresTrace PostgresSlotStateError :=
  slotSevenBatch ++ [⟨.onProgress slotSevenReport, ()⟩, ⟨.onProgress slotSevenReport, ()⟩]

def recordedSeven : Db :=
  (recordSlotStates insertionOrder
    (updateAfterBatch { resumed none none with
      events := (Storage.writeBatch sampleHasher .empty [finalizedSlot 7 6]).2 } "test" 7).2
    "test" [⟨7, some 6, true, false⟩]).2

def afterSlotSeven : Db := recordedSeven.setCursor "test" ⟨7, some 7, some 7⟩

theorem slotSeven_advance :
    advanceContiguousFinalized 2 recordedSeven "test" =
      some (.ok ⟨some 7, some 7⟩, afterSlotSeven) :=
  rfl

theorem slotSevenBatch_performs : Program.Performs (storeReply sampleHasher postgresSlotStateStore)
    (resumed none none) slotSevenBatch afterSlotSeven :=
  .cons rfl (.cons rfl (.cons rfl (.cons ⟨rfl, rfl⟩ (.cons rfl (.cons rfl
    (.cons ⟨insertionOrder, rfl⟩ (.cons ⟨2, slotSeven_advance⟩ (.nil _))))))))

theorem slotSeven_run : PostgresRun sampleHasher resumedConfig "test" [finalizedSlot 7 6]
    (resumed none none) slotSevenTrace (.pure slotSevenReport) afterSlotSeven where
  runs := .step (.step (.step (.step (.step (.step (.step (.step (.step (.step (.refl _))))))))))
  performs := slotSevenBatch_performs.append (.cons rfl (.cons rfl (.nil _)))

def slotSevenCalls : List (PipelineCall × CallbackReading) :=
  slotSevenTrace.map fun a => (a.1, ⟨0, 3 * nanosPerSecond, 3000⟩)

def slotSevenStart : SharedStatus :=
  .initial (initialStatus "test" resumedConfig .default)
    (statusPlan [connectWithoutSlot] slotSevenCalls)

/-- The batch of slot 7 moves all three slots, and a reconnect that is sent before it is reported
leaves them. -/
theorem live_status_durable_slot_seven :
    (∀ status, ((StatusUpdate.progress slotSevenReport true 0 3000).apply "test"
      status).ShowsStored afterSlotSeven) ∧
    ∃ x y, runSteps (statusStep "test") slotSevenStart ([StatusTask.pipeline, .producer].flatMap
        fun task => [.read task, .send task]) = some x ∧
      runSteps (statusStep "test") x ([StatusTask.pipeline, .pipeline, .pipeline].flatMap
        fun task => [.read task, .send task]) = some y ∧
      x.value.slotColumns = (some 6, none, none) ∧
      y.value.slotColumns = (some 7, some 7, some 7) ∧
      x.value.slotColumns.Le y.value.slotColumns := by
  have hrun : (runSteps (statusStep "test") slotSevenStart ([StatusTask.pipeline, .producer].flatMap
      fun task => [.read task, .send task])).bind (fun x =>
        (runSteps (statusStep "test") x ([StatusTask.pipeline, .pipeline, .pipeline].flatMap
          fun task => [.read task, .send task])).map fun y =>
            (x.value.slotColumns, y.value.slotColumns)) =
      some ((some 6, none, none), (some 7, some 7, some 7)) := by decide
  simp only [Option.bind_eq_some_iff, Option.map_eq_some_iff, Prod.mk.injEq] at hrun
  obtain ⟨x, hbefore, y, hafter, hx, hy⟩ := hrun
  obtain ⟨hshows, hpublished⟩ := (@live_status_durable_iff sampleHasher "test" ⟨1, 1, .default⟩
    (resumed none none) (some ⟨"test", 6⟩) .default _ _ _ _ rfl rfl slotSeven_run
    (List.cons_ne_nil _ _)).2.mpr ⟨rfl, rfl⟩
  refine ⟨hshows slotSevenBatch _ _ _ rfl slotSevenBatch_performs true 0 3000, x, y, hbefore,
    hafter, hx, hy, ?_⟩
  refine hpublished [connectWithoutSlot] slotSevenCalls _ _ x y rfl hbefore hafter ?_
  rw [← List.flatMap_append]
  exact SharedValue.safeRun_sequential (fun _ => rfl) _

theorem live_status_stale : ¬ ∀ (start : Db) (cursor : Option StreamCursor)
    (frontier : FinalizedFrontier) (tr : PostgresTrace PostgresSlotStateError) (q : PostgresProgram)
    (db' : Db),
    getCursor start "test" = .ok cursor → getFinalizedFrontier start "test" = .ok frontier →
    PostgresRun sampleHasher (LiveSettings.config ⟨1, 1, .default⟩ cursor) "test" [] start tr q
      db' →
    ∀ before summary after db, tr = before ++ ⟨.onProgress summary, ()⟩ :: after →
      Program.Performs (storeReply sampleHasher postgresSlotStateStore) start before db →
      ∀ status, ((StatusUpdate.progress summary false 0 0).apply "test" status).ShowsStored db := by
  intro hall
  obtain ⟨q, hrun⟩ := resumed_run (some 6) (some 6)
  have hshows := hall (resumed (some 6) (some 6)) (some ⟨"test", 6⟩) ⟨some 6, some 6⟩
    resumedReport q _ rfl rfl hrun [] _ [] _ rfl (.nil _) (resumedStatus ⟨some 6, some 6⟩)
  exact absurd hshows.2.1 nofun

end YellowstoneStream.App

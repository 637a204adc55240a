import YellowstoneStream.App.Status
import YellowstoneStream.Reasoning.SharedValue
import YellowstoneStream.Stream.Reports

/-!
# The race for the status

The reconnect callback runs in the task of the producer, the progress and activity callbacks in that
of the pipeline.  Each clones the published snapshot and sends what it made of it later, over
whatever the other task has sent in between.
-/

open YellowstoneStream.Domain YellowstoneStream.Reasoning YellowstoneStream.Storage
open YellowstoneStream.Stream

namespace YellowstoneStream.App

inductive StatusTask where
  | producer
  | pipeline
  deriving DecidableEq, Repr

/-- What a callback takes from the clocks and the shared counter. -/
structure CallbackReading where
  decodeErrors : Nat
  now : Nat
  nowUnixMs : Nat

namespace StatusUpdate

def task : StatusUpdate → StatusTask
  | .reconnect _ => .producer
  | .progress .. | .activity .. => .pipeline

def summary? : StatusUpdate → Option PipelineSummary
  | .progress summary .. => some summary
  | .reconnect _ | .activity .. => none

/-- Sent while the other task stands between read and send of its callback, the one undoes the
other. -/
def Undone (sent held : StatusUpdate) : Prop :=
  sent.withoutSlot = true ∨ sent.isProgress = true ∧ held.isProgress = false

end StatusUpdate

/-- The updates that the callbacks of the pipeline come to send. -/
def pipelineUpdates (vars : CallbackVars) : List (PipelineCall × CallbackReading) →
    List StatusUpdate
  | [] => []
  | (.onProgress summary, reading) :: rest =>
      let (update, vars) := vars.progress summary reading.decodeErrors reading.nowUnixMs
      update :: pipelineUpdates vars rest
  | (.onActivity activity, reading) :: rest =>
      let (update, vars) := vars.activity activity reading.now reading.nowUnixMs
      update.toList ++ pipelineUpdates vars rest
  | _ :: rest => pipelineUpdates vars rest

/-- What each task has to do. -/
def statusPlan (reconnects : List YellowstoneReconnectEvent)
    (calls : List (PipelineCall × CallbackReading)) : StatusTask → List StatusUpdate
  | .producer => reconnects.map .reconnect
  | .pipeline => pipelineUpdates .initial calls

abbrev SharedStatus := SharedValue StatusTask StatusUpdate StatusSnapshot

abbrev statusStep (streamName : String) :
    SharedStatus → HalfStep StatusTask → Option SharedStatus :=
  SharedValue.step (StatusUpdate.apply streamName)

abbrev SafeStatusRun (streamName : String) (x : SharedStatus)
    (steps : List (HalfStep StatusTask)) : Prop :=
  SafeRun (statusStep streamName) (SharedValue.Safe StatusUpdate.Undone) x steps

/-! ## The plan -/

theorem pipelineUpdates_task (vars : CallbackVars) (calls : List (PipelineCall × CallbackReading)) :
    ∀ update ∈ pipelineUpdates vars calls, update.task = .pipeline := by
  induction calls generalizing vars with
  | nil => simp [pipelineUpdates]
  | cons call calls ih =>
      obtain ⟨c, reading⟩ := call
      cases c with
      | onProgress summary =>
          simp only [pipelineUpdates, List.forall_mem_cons]
          exact ⟨rfl, ih _⟩
      | onActivity activity =>
          intro update hupdate
          simp only [pipelineUpdates, List.mem_append, Option.mem_toList] at hupdate
          rcases hupdate with hupdate | hupdate
          · unfold CallbackVars.activity at hupdate
            split at hupdate
            · cases hupdate
            · cases hupdate
              rfl
          · exact ih _ update hupdate
      | _ => exact ih vars

theorem pipelineUpdates_summaries (vars : CallbackVars)
    (calls : List (PipelineCall × CallbackReading)) :
    (pipelineUpdates vars calls).filterMap StatusUpdate.summary? =
      (calls.map Prod.fst).flatMap reports := by
  induction calls generalizing vars with
  | nil => rfl
  | cons call calls ih =>
      obtain ⟨c, reading⟩ := call
      cases c with
      | onProgress summary =>
          have hrest := ih (vars.progress summary reading.decodeErrors reading.nowUnixMs).2
          rw [List.map_cons, List.flatMap_cons, ← hrest]
          rfl
      | onActivity activity =>
          have hnone : (vars.activity activity reading.now reading.nowUnixMs).1.toList.filterMap
              StatusUpdate.summary? = [] := by
            unfold CallbackVars.activity
            split <;> rfl
          have hrest := ih (vars.activity activity reading.now reading.nowUnixMs).2
          rw [List.map_cons, List.flatMap_cons, ← hrest, pipelineUpdates, List.filterMap_append,
            hnone]
          rfl
      | _ => exact ih vars

theorem statusPlan_task (reconnects : List YellowstoneReconnectEvent)
    (calls : List (PipelineCall × CallbackReading)) :
    ∀ task, ∀ update ∈ statusPlan reconnects calls task, update.task = task := by
  intro task update hupdate
  cases task with
  | producer =>
      obtain ⟨event, -, rfl⟩ := List.mem_map.mp hupdate
      rfl
  | pipeline => exact pipelineUpdates_task .initial calls update hupdate

/-! ## Two views of the snapshot -/

def gapView (streamName : String) : View (StatusUpdate.apply streamName) Nat where
  view status := (status.live.getD .default).gapRiskCount
  act update count := update.countGap count
  view_apply update status := by
    rw [← updateLive_gapRiskCount]
    cases update <;> rfl
  changes := StatusUpdate.withoutSlot
  keeps update count h := by rw [StatusUpdate.countGap, h]; rfl
  depends _ := true
  forgets _ _ _ h := by cases h

/-- The columns that progress reports set. -/
def batchView (streamName : String) : View (StatusUpdate.apply streamName) (Option Nat × Nat) where
  view status := (status.lastPersistedSlot, status.batchesWritten)
  act update part :=
    (update.summary?.map fun s => (s.lastPersistedSlot, s.batchesWritten)).getD part
  view_apply update status := by cases update <;> rfl
  changes := StatusUpdate.isProgress
  keeps update part h := by
    cases update with
    | progress => cases h
    | reconnect | activity => rfl
  depends update := !update.isProgress
  forgets update part part' h := by
    cases update with
    | progress => rfl
    | reconnect | activity => cases h

theorem foldl_batchView (streamName : String) (updates : List StatusUpdate)
    (start : PipelineSummary) :
    updates.foldl (fun part update => (batchView streamName).act update part)
        (start.lastPersistedSlot, start.batchesWritten) =
      (((updates.filterMap StatusUpdate.summary?).getLastD start).lastPersistedSlot,
        ((updates.filterMap StatusUpdate.summary?).getLastD start).batchesWritten) := by
  induction updates generalizing start with
  | nil => rfl
  | cons update updates ih =>
      cases update with
      | progress summary newBatch decodeErrors nowUnixMs =>
          have hstep := ih summary
          rw [List.filterMap_cons_some (f := StatusUpdate.summary?) rfl, List.getLastD_cons]
          exact hstep
      | reconnect | activity => exact ih start

/-! ## Safe runs -/

/-- What the snapshot is in a run in which no callback undoes another one. -/
structure StatusInv (streamName : String) (start : StatusSnapshot)
    (plan : StatusTask → List StatusUpdate) (x : SharedStatus) : Prop where
  keeps : x.Keeps StatusUpdate.task plan
  gap : (gapView streamName).Current ((gapView streamName).view start) x
  batch : (batchView streamName).Current ((batchView streamName).view start) x
  live : x.value.live.isSome = true

section Runs

variable {streamName : String} {start : StatusSnapshot} {plan : StatusTask → List StatusUpdate}
  {x y : SharedStatus}

theorem statusInv_initial (hlive : start.live.isSome = true) :
    StatusInv streamName start plan (.initial start plan) where
  keeps := SharedValue.keeps_initial StatusUpdate.task start plan
  gap := View.current_initial start plan
  batch := View.current_initial start plan
  live := hlive

theorem apply_live (update : StatusUpdate) (status : StatusSnapshot) :
    (update.apply streamName status).live.isSome = true := by
  cases update <;> rfl

theorem StatusInv.step (hplan : ∀ task, ∀ update ∈ plan task, update.task = task)
    (h : StatusInv streamName start plan x) {i : HalfStep StatusTask}
    (hsafe : x.Safe StatusUpdate.Undone i) (hstep : statusStep streamName x i = some y) :
    StatusInv streamName start plan y where
  keeps := h.keeps.step hplan hstep
  gap := h.gap.step (fun _ _ hsent _ => .inl hsent) hsafe hstep
  batch := by
    refine h.batch.step (fun sent held hsent hheld => .inr ⟨hsent, ?_⟩) hsafe hstep
    simpa [batchView] using hheld
  live := by
    obtain ⟨_, _, _, -, -, -, rfl⟩ | ⟨_, update, old, -, -, rfl⟩ := SharedValue.step_cases hstep
    · exact h.live
    · exact apply_live update old

theorem StatusInv.run (hplan : ∀ task, ∀ update ∈ plan task, update.task = task)
    (h : StatusInv streamName start plan x) {steps : List (HalfStep StatusTask)}
    (hsafe : SafeStatusRun streamName x steps)
    (hrun : runSteps (statusStep streamName) x steps = some y) :
    StatusInv streamName start plan y ∧ x.sent <+: y.sent := by
  have hboth : ∀ (x : SharedStatus) (i : HalfStep StatusTask) (y : SharedStatus),
      StatusInv streamName start plan x → x.Safe StatusUpdate.Undone i →
      statusStep streamName x i = some y →
      StatusInv streamName start plan y ∧ x.sent <+: y.sent :=
    fun _ _ _ hinv hsafe hstep => ⟨hinv.step hplan hsafe hstep, SharedValue.sent_step hstep⟩
  exact hsafe.induction hboth (fun _ => List.prefix_refl _) (fun _ _ _ => List.IsPrefix.trans)
    hrun h

end Runs

/-- Of a nondecreasing list, a longer part ends no lower. -/
theorem rel_getLastD {α : Type} {rel : α → α → Prop} (hrefl : ∀ a, rel a a) {start : α}
    {front more : List α} (h : (start :: (front ++ more)).Pairwise rel) :
    rel (front.getLastD start) ((front ++ more).getLastD start) := by
  rcases List.eq_nil_or_concat' more with rfl | ⟨middle, last, rfl⟩
  · rw [List.append_nil]
    exact hrefl _
  · have hlast : (front ++ (middle ++ [last])).getLastD start = last := by
      rw [← List.append_assoc, List.getLastD_concat]
    rw [hlast]
    rw [← List.cons_append, List.pairwise_append] at h
    refine h.2.2 _ ?_ last (by simp)
    rcases List.eq_nil_or_concat' front with rfl | ⟨done, s, rfl⟩
    · exact List.mem_cons_self
    · rw [List.getLastD_concat]
      simp

theorem slotLe_getLastD {start : PipelineSummary} {summaries more : List PipelineSummary}
    (h : (start :: (summaries ++ more)).Pairwise
      fun a b => SlotLe a.lastPersistedSlot b.lastPersistedSlot) :
    SlotLe (summaries.getLastD start).lastPersistedSlot
      ((summaries ++ more).getLastD start).lastPersistedSlot :=
  rel_getLastD (fun summary => .refl summary.lastPersistedSlot) h

/-- Only the pipeline reports. -/
theorem filterMap_pipeline (updates : List StatusUpdate) :
    (updates.filter fun update => update.task = .pipeline).filterMap StatusUpdate.summary? =
      updates.filterMap StatusUpdate.summary? := by
  rw [List.filterMap_filter]
  congr 1
  funext update
  cases update <;> rfl

/-- Only the producer reconnects. -/
theorem countP_producer (updates : List StatusUpdate) :
    (updates.filter fun update => update.task = .producer).countP StatusUpdate.withoutSlot =
      updates.countP StatusUpdate.withoutSlot := by
  rw [List.countP_filter]
  congr 1
  funext update
  cases update <;> simp [StatusUpdate.withoutSlot, StatusUpdate.task]

/-- The reports sent are the first ones of the pipeline. -/
theorem summaries_prefix_of_keeps {reconnects : List YellowstoneReconnectEvent}
    {calls : List (PipelineCall × CallbackReading)} {x : SharedStatus}
    (h : x.Keeps StatusUpdate.task (statusPlan reconnects calls)) :
    x.sent.filterMap StatusUpdate.summary? <+: (calls.map Prod.fst).flatMap reports := by
  have hkeeps := congrArg (List.filterMap StatusUpdate.summary?) (h .pipeline)
  rw [List.append_assoc, List.filterMap_append, filterMap_pipeline] at hkeeps
  exact ⟨_, hkeeps.trans (pipelineUpdates_summaries .initial calls)⟩

section Statement

variable {W C S : Type} {config : PipelineConfig} {streamName : String}
  {frontier : FinalizedFrontier} {reconnects : List YellowstoneReconnectEvent}
  {calls : List (PipelineCall × CallbackReading)} {x y : SharedStatus}

/-- The batch columns are those of the last report sent. -/
theorem StatusInv.batch_eq
    (h : StatusInv streamName (initialStatus streamName config frontier)
      (statusPlan reconnects calls) x) :
    x.value.lastPersistedSlot =
        ((x.sent.filterMap StatusUpdate.summary?).getLastD config.startSummary).lastPersistedSlot ∧
      x.value.batchesWritten =
        ((x.sent.filterMap StatusUpdate.summary?).getLastD config.startSummary).batchesWritten := by
  have hfold := h.batch.value.trans (foldl_batchView streamName x.sent config.startSummary)
  exact Prod.mk.inj hfold

theorem StatusInv.summaries_prefix
    (h : StatusInv streamName (initialStatus streamName config frontier)
      (statusPlan reconnects calls) x) :
    x.sent.filterMap StatusUpdate.summary? <+: (calls.map Prod.fst).flatMap reports :=
  summaries_prefix_of_keeps h.keeps

theorem StatusInv.summaries_finished
    (h : StatusInv streamName (initialStatus streamName config frontier)
      (statusPlan reconnects calls) x) (hfinished : x.Finished) :
    x.sent.filterMap StatusUpdate.summary? = (calls.map Prod.fst).flatMap reports := by
  rw [← filterMap_pipeline, h.keeps.finished hfinished .pipeline]
  exact pipelineUpdates_summaries .initial calls

theorem StatusInv.gap_finished
    (h : StatusInv streamName (initialStatus streamName config frontier)
      (statusPlan reconnects calls) x) (hfinished : x.Finished)
    (hcount : reconnects.countP (fun event => event.fromSlot.isNone) ≤ u64Max) :
    (x.value.live.getD .default).gapRiskCount =
      reconnects.countP fun event => event.fromSlot.isNone := by
  have hsent : x.sent.countP StatusUpdate.withoutSlot =
      reconnects.countP fun event => event.fromSlot.isNone := by
    rw [← countP_producer, h.keeps.finished hfinished .producer]
    exact List.countP_map
  have hfold := h.gap.value.trans (foldl_countGap x.sent (Nat.zero_le u64Max))
  have hstart : (gapView streamName).view (initialStatus streamName config frontier) = 0 := rfl
  rw [hsent, hstart, Nat.zero_add, Nat.min_eq_left hcount] at hfold
  exact hfold

/-- However the half steps of the two tasks interleave, as long as none is sent that undoes what the
other task stands before: the published slot never goes back, and once all callbacks are done every
reconnect without a slot is counted and the last report is shown. -/
theorem status_updates_kept {events : List NormalizedEvent} {tr : PipelineTrace W C S}
    {q : PipelineProgram W C S PipelineSummary}
    (hpipeline : Program.Runs ((eventReceiverPipeline config streamName).whole events) tr q)
    (hcalls : calls.map Prod.fst = Program.calls tr) {before after : List (HalfStep StatusTask)}
    (hbefore : runSteps (statusStep streamName) (.initial (initialStatus streamName config frontier)
      (statusPlan reconnects calls)) before = some x)
    (hafter : runSteps (statusStep streamName) x after = some y)
    (hsafe : SafeStatusRun streamName (.initial (initialStatus streamName config frontier)
      (statusPlan reconnects calls)) (before ++ after))
    (hcount : reconnects.countP (fun event => event.fromSlot.isNone) ≤ u64Max) :
    SlotLe x.value.lastPersistedSlot y.value.lastPersistedSlot ∧
      (y.Finished →
        (∃ live, y.value.live = some live ∧
          live.gapRiskCount = reconnects.countP fun event => event.fromSlot.isNone) ∧
        ∀ summary ∈ ((Program.calls tr).flatMap reports).getLast?,
          y.value.lastPersistedSlot = summary.lastPersistedSlot ∧
            y.value.batchesWritten = summary.batchesWritten) := by
  have hplan := statusPlan_task reconnects calls
  obtain ⟨hsafeBefore, hsafeAfter⟩ := hsafe.append hbefore
  have hx := ((statusInv_initial rfl).run hplan hsafeBefore hbefore).1
  obtain ⟨hy, hprefix⟩ := hx.run hplan hsafeAfter hafter
  refine ⟨?_, fun hfinished => ⟨?_, fun summary hsummary => ?_⟩⟩
  · -- both show reports of the pipeline, the later one no earlier report
    obtain ⟨rest, hrest⟩ := hprefix
    obtain ⟨more, hmore⟩ := hy.summaries_prefix
    have hsorted := reports_nondecreasing hpipeline
    rw [← hcalls, ← hmore, ← hrest, List.filterMap_append, ← List.cons_append,
      List.pairwise_append] at hsorted
    rw [hx.batch_eq.1, hy.batch_eq.1, ← hrest, List.filterMap_append]
    exact slotLe_getLastD hsorted.1
  · -- nothing takes the live status away once it is there
    obtain ⟨live, hlive⟩ := Option.isSome_iff_exists.mp hy.live
    have hgap := hy.gap_finished hfinished hcount
    rw [hlive, Option.getD_some] at hgap
    exact ⟨live, hlive, hgap⟩
  · rw [hy.batch_eq.1, hy.batch_eq.2, hy.summaries_finished hfinished, hcalls,
      List.getLastD_eq_getLast?, show _ = some summary from hsummary]
    exact ⟨rfl, rfl⟩

end Statement

def connectWithoutSlot : YellowstoneReconnectEvent :=
  ⟨1, nanosPerSecond, .connect, "failed to connect to yellowstone endpoint", none⟩

/-- The callbacks of a run over one event, which comes at 3 s. -/
def oneBatchCalls : List (PipelineCall × CallbackReading) :=
  oneBatchRun.map fun a => (a.1, ⟨0, 3 * nanosPerSecond, 3000⟩)

def oneBatchStart : SharedStatus :=
  .initial (initialStatus "test" ⟨2, 1, none, false, true⟩ .default)
    (statusPlan [connectWithoutSlot] oneBatchCalls)

def taskDone (x : SharedStatus) (task : StatusTask) : Bool :=
  (x.ahead task).isEmpty && (x.reading task).isNone

theorem finished_of_done {x : SharedStatus}
    (h : (taskDone x .producer && taskDone x .pipeline) = true) : x.Finished := by
  rw [Bool.and_eq_true] at h
  intro task
  cases task with
  | producer => simpa [taskDone] using h.1
  | pipeline => simpa [taskDone] using h.2

theorem status_updates_kept_in_turn :
    ∃ x y, runSteps (statusStep "test") oneBatchStart ([StatusTask.pipeline, .producer].flatMap
        fun task => [.read task, .send task]) = some x ∧
      (runSteps (statusStep "test") x ([StatusTask.pipeline, .pipeline].flatMap fun task =>
        [.read task, .send task]) = some y ∧ y.Finished) ∧
      SlotLe x.value.lastPersistedSlot y.value.lastPersistedSlot ∧
      (∃ live, y.value.live = some live ∧ live.gapRiskCount = 1) ∧
      y.value.lastPersistedSlot = some 7 ∧ y.value.batchesWritten = 1 := by
  have hrun : (runSteps (statusStep "test") oneBatchStart ([StatusTask.pipeline,
      .producer].flatMap fun task => [.read task, .send task])).bind (fun x =>
        (runSteps (statusStep "test") x ([StatusTask.pipeline, .pipeline].flatMap fun task =>
          [.read task, .send task])).map fun y => taskDone y .producer && taskDone y .pipeline) =
      some true := by decide
  simp only [Option.bind_eq_some_iff, Option.map_eq_some_iff] at hrun
  obtain ⟨x, hbefore, y, hafter, hdone⟩ := hrun
  have hfinished := finished_of_done hdone
  have hsafe : SafeStatusRun "test" oneBatchStart ([StatusTask.pipeline, .producer, .pipeline,
      .pipeline].flatMap fun task => [.read task, .send task]) :=
    SharedValue.safeRun_sequential (fun _ => rfl) _
  obtain ⟨hslots, hkept⟩ :=
    status_updates_kept oneBatchRun_runs rfl hbefore hafter hsafe (by decide)
  obtain ⟨hlive, hlast⟩ := hkept hfinished
  exact ⟨x, y, hbefore, ⟨hafter, hfinished⟩, hslots, hlive, hlast oneBatchSummary rfl⟩

def oneByOne : PipelineConfig := ⟨1, 1, none, true, false⟩

/-- The run over no events, which reports at its start and at its end. -/
def emptyRun : PipelineTrace Unit Unit Unit :=
  [⟨.onProgress oneByOne.startSummary, ()⟩, ⟨.onProgress oneByOne.startSummary, ()⟩]

def emptyCalls : List (PipelineCall × CallbackReading) :=
  [(.onProgress oneByOne.startSummary, ⟨0, 0, 0⟩), (.onProgress oneByOne.startSummary, ⟨0, 0, 0⟩)]

theorem emptyRun_runs : Program.Runs
    ((eventReceiverPipeline (W := Unit) (C := Unit) (S := Unit) oneByOne "test").whole [])
    emptyRun (.pure oneByOne.startSummary) :=
  .step (.step (.refl _))

def emptyStart : SharedStatus :=
  .initial (initialStatus "test" oneByOne .default) (statusPlan [connectWithoutSlot] emptyCalls)

/-- The reconnect is sent between read and send of the first progress callback. -/
def racedReconnect : List (HalfStep StatusTask) :=
  [.read .pipeline, .read .producer, .send .producer, .send .pipeline, .read .pipeline,
    .send .pipeline]

theorem gap_risk_lost : ¬ ∀ (config : PipelineConfig) (frontier : FinalizedFrontier)
    (events : List NormalizedEvent) (tr : PipelineTrace Unit Unit Unit)
    (q : PipelineProgram Unit Unit Unit PipelineSummary)
    (calls : List (PipelineCall × CallbackReading))
    (reconnects : List YellowstoneReconnectEvent) (steps : List (HalfStep StatusTask))
    (y : SharedStatus),
    Program.Runs ((eventReceiverPipeline config "test").whole events) tr q →
    calls.map Prod.fst = Program.calls tr →
    runSteps (statusStep "test") (.initial (initialStatus "test" config frontier)
      (statusPlan reconnects calls)) steps = some y →
    y.Finished →
    (y.value.live.getD .default).gapRiskCount =
      reconnects.countP fun event => event.fromSlot.isNone := by
  intro hall
  -- one evaluation of the run says that it ends, and with which count
  have hrun : (runSteps (statusStep "test") emptyStart racedReconnect).map (fun y =>
      (taskDone y .producer && taskDone y .pipeline,
        (y.value.live.getD .default).gapRiskCount)) = some (true, 0) := by decide
  rw [Option.map_eq_some_iff] at hrun
  obtain ⟨y, hy, hlast⟩ := hrun
  obtain ⟨hdone, hgap⟩ := Prod.mk.inj hlast
  have hcount := hall oneByOne .default [] emptyRun _ emptyCalls [connectWithoutSlot]
    racedReconnect y emptyRun_runs rfl hy (finished_of_done hdone)
  rw [hgap] at hcount
  exact absurd hcount (by decide)

end YellowstoneStream.App

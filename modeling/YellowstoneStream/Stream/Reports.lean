import YellowstoneStream.Reasoning.Triple
import YellowstoneStream.Stream.PipelineTrace

/-!
# What the pipeline reports

A rule for what every progress report of the consumer satisfies: one condition between batches, and
two while a batch is stored, before and after its cursor update.
-/

open YellowstoneStream.Domain YellowstoneStream.Reasoning YellowstoneStream.Storage

namespace YellowstoneStream.Stream

variable {W C S : Type} {ω : Type}

/-- Only reports are restricted. -/
def ReportsOnly (reportable : ω → PipelineSummary → Prop) (w : ω) : PipelineCall → Prop
  | .onProgress summary => reportable w summary
  | _ => True

/-- The summary with what a persisted batch is counted as. -/
def PipelineSummary.countBatch (summary : PipelineSummary) (written : WriteSummary) :
    PipelineSummary :=
  { summary with
    batchesWritten := summary.batchesWritten + 1
    writeSummary := summary.writeSummary.add written }

def PipelineSummary.persistSlot (summary : PipelineSummary) (slot : Nat) : PipelineSummary :=
  { summary with
    lastPersistedSlot := some ((summary.lastPersistedSlot.map (max · slot)).getD slot) }

def PipelineSummary.setFrontier (summary : PipelineSummary) (frontier : FinalizedFrontier) :
    PipelineSummary :=
  { summary with
    lastContiguousFinalizedSlot := frontier.lastContiguousFinalizedSlot
    lastFinalizedSlot := frontier.lastFinalizedSlot }

/-- The summary the consumer starts with. -/
def PipelineConfig.startSummary (config : PipelineConfig) : PipelineSummary :=
  { PipelineSummary.default with lastPersistedSlot := config.resumeAfterSlot }

/-- Equal but for the events counted and the durations. -/
def PipelineSummary.SameBatches (summary other : PipelineSummary) : Prop :=
  summary.batchesWritten = other.batchesWritten ∧
    summary.lastPersistedSlot = other.lastPersistedSlot ∧
    summary.lastContiguousFinalizedSlot = other.lastContiguousFinalizedSlot ∧
    summary.lastFinalizedSlot = other.lastFinalizedSlot

/-- `idle` holds between batches, `busy` from the start of a batch on, and `stored` from the update
of its cursor on; every call keeps them when it returns Ok. -/
structure ReportRule (act : ω → (c : PipelineCall) → PipelineCall.Reply W C S c → ω → Prop)
    (reportable : ω → PipelineSummary → Prop) (streamName : String) where
  idle : ω → PipelineSummary → Prop
  busy : ω → PipelineSummary → Prop
  stored : ω → PipelineSummary → Prop
  idle_same : ∀ w s s', idle w s → s.SameBatches s' → idle w s'
  idle_depth : ∀ w s n w', idle w s → act w .channelLen n w' → idle w' s
  idle_activity : ∀ w s activity w', idle w s → act w (.onActivity activity) () w' → idle w' s
  report : ∀ w s, idle w s → reportable w s ∧ ∀ w', act w (.onProgress s) () w' → idle w' s
  busy_of_idle : ∀ w s, idle w s → busy w s
  busy_same : ∀ w s s', busy w s → s.SameBatches s' → busy w s'
  write : ∀ w s batch written w', busy w s → act w (.writeBatch batch) (.ok written) w' → busy w' s
  elapsed : ∀ w s duration w', busy w s → act w .batchElapsed duration w' → busy w' s
  cursor : ∀ w s slot w', busy w s → act w (.updateAfterBatch streamName slot) (.ok ()) w' →
    stored w' (s.persistSlot slot)
  record : ∀ w s updates w', stored w s →
    act w (.recordSlotStates streamName updates) (.ok ()) w' → stored w' s
  advance : ∀ w s frontier w', stored w s →
    act w (.advanceContiguousFinalized streamName) (.ok frontier) w' →
    stored w' (s.setFrontier frontier)
  busy_of_stored : ∀ w s, stored w s → busy w s
  report_batch : ∀ w s written, busy w s → reportable w (s.countBatch written) ∧
    ∀ w', act w (.onProgress (s.countBatch written)) () w' → idle w' (s.countBatch written)

namespace ReportRule

variable {act : ω → (c : PipelineCall) → PipelineCall.Reply W C S c → ω → Prop}
  {reportable : ω → PipelineSummary → Prop} {streamName : String}
  (rule : ReportRule act reportable streamName)

abbrev Holds {α : Type} (_ : ReportRule act reportable streamName) (post : ω → α → Prop)
    (p : PipelineProgram W C S α) (w : ω) : Prop :=
  Program.Triple act (ReportsOnly reportable) post p w

theorem triple_persistCursor (lastSlot : Option Nat) {w : ω} {s : PipelineSummary}
    (h : rule.busy w s) :
    rule.Holds (fun w s => rule.busy w s ∧ (lastSlot = none ∨ rule.stored w s))
      (persistCursor streamName lastSlot s) w := by
  cases lastSlot with
  | none => exact ⟨h, .inl rfl⟩
  | some slot =>
      refine Program.triple_request trivial fun updated w₁ hupdate =>
        Program.triple_orThrow fun _ hok => ?_
      subst hok
      have hstored := rule.cursor w s slot w₁ h hupdate
      exact ⟨rule.busy_of_stored w₁ _ hstored, .inr hstored⟩

theorem triple_persistSlotStates (advance : Bool) (states : List SlotStateUpdate) {w : ω}
    {s : PipelineSummary} (h : rule.stored w s) :
    rule.Holds rule.stored (persistSlotStates streamName advance states s) w := by
  unfold persistSlotStates
  split
  · exact h
  refine Program.triple_request trivial fun recorded w₁ hrecord =>
    Program.triple_orThrow fun _ hok => ?_
  subst hok
  have hrecorded := rule.record w s states w₁ h hrecord
  split
  · refine Program.triple_request trivial fun advanced w₂ hadvance =>
      Program.triple_orThrow fun frontier hok => ?_
    subst hok
    exact rule.advance w₁ s frontier w₂ hrecorded hadvance
  · exact hrecorded

/-- A batch is counted last. -/
theorem triple_writeBatch (advance : Bool) (batch : List NormalizedEvent) {w : ω}
    {s : PipelineSummary} (h : rule.busy w s) :
    rule.Holds (fun w s => ∃ before written, rule.busy w before ∧ s = before.countBatch written)
      (writeBatch streamName advance batch s) w := by
  refine Program.triple_request trivial fun written w₁ hwrite =>
    Program.triple_orThrow fun writeSummary hok => ?_
  subst hok
  refine Program.triple_request trivial fun duration w₂ helapsed => ?_
  have hbusy := rule.elapsed w₁ s duration w₂ (rule.write w s batch _ w₁ h hwrite) helapsed
  have htimed : rule.busy w₂
      { s with
        lastBatchWriteDuration := duration
        totalBatchWriteDuration := s.totalBatchWriteDuration + duration
        maxBatchWriteDuration :=
          if s.maxBatchWriteDuration < duration then duration else s.maxBatchWriteDuration
        eventsSkipped := s.eventsSkipped + writeSummary.skipped } :=
    rule.busy_same w₂ s _ hbusy ⟨rfl, rfl, rfl, rfl⟩
  refine (rule.triple_persistCursor (batch.map NormalizedEvent.slot).max? htimed).bind ?_
  rintro w₃ s₃ ⟨hbusy₃, hmax | hstored⟩
  · -- a batch without a greatest slot is empty and has no slot states either
    obtain rfl := List.map_eq_nil_iff.mp (List.max?_eq_none_iff.mp hmax)
    exact ⟨s₃, writeSummary, hbusy₃, rfl⟩
  · refine (rule.triple_persistSlotStates advance (slotStates batch) hstored).bind ?_
    intro w₄ s₄ hstored₄
    exact ⟨s₄, writeSummary, rule.busy_of_stored w₄ s₄ hstored₄, rfl⟩

section Consumer

variable (config : PipelineConfig)

theorem triple_receiveEvent (state : ReceiverState) (event : NormalizedEvent) {w : ω}
    (h : rule.idle w state.summary) :
    rule.Holds (fun w state => rule.idle w state.summary)
      (receiveEvent config streamName state event) w := by
  refine Program.triple_request trivial fun depth w₁ hdepth => ?_
  refine Program.triple_request trivial fun _ w₂ hactivity => ?_
  have hidle := rule.idle_activity w₁ _ _ w₂ (rule.idle_depth w _ depth w₁ h hdepth) hactivity
  split
  · exact rule.idle_same w₂ _ _ hidle ⟨rfl, rfl, rfl, rfl⟩
  have hseen : rule.idle w₂ { state.summary with eventsSeen := state.summary.eventsSeen + 1 } :=
    rule.idle_same w₂ _ _ hidle ⟨rfl, rfl, rfl, rfl⟩
  cases state.batcher.push event with
  | mk full batcher =>
      cases full with
      | none => exact hseen
      | some batch =>
          refine (rule.triple_writeBatch config.advanceFinalizedWatermark batch
            (rule.busy_of_idle w₂ _ hseen)).bind ?_
          rintro w₃ _ ⟨before, written, hbusy, rfl⟩
          obtain ⟨hreportable, hreported⟩ := rule.report_batch w₃ before written hbusy
          exact Program.triple_request hreportable fun _ w₄ hreport => hreported w₄ hreport

theorem triple_finishReceiving (state : ReceiverState) {w : ω} (h : rule.idle w state.summary) :
    rule.Holds rule.idle (finishReceiving config streamName state) w := by
  unfold finishReceiving
  split
  · rename_i batch hflush
    refine (rule.triple_writeBatch config.advanceFinalizedWatermark batch
      (rule.busy_of_idle w _ h)).bind ?_
    rintro w₁ _ ⟨before, written, hbusy, rfl⟩
    obtain ⟨hreportable, hreported⟩ := rule.report_batch w₁ before written hbusy
    exact Program.triple_request hreportable fun _ w₂ hreport => hreported w₂ hreport
  · obtain ⟨hreportable, hreported⟩ := rule.report w _ h
    exact Program.triple_request hreportable fun _ w₁ hreport => hreported w₁ hreport

theorem triple_startReceiving {w : ω} (h : rule.idle w config.startSummary) :
    rule.Holds (fun w state => rule.idle w state.summary) (startReceiving config) w := by
  unfold startReceiving
  split
  · exact trivial
  · obtain ⟨hreportable, hreported⟩ := rule.report w _ h
    exact Program.triple_request hreportable fun _ w₁ hreport => hreported w₁ hreport

/-- Every report of every run is as the rule says. -/
theorem triple_pipeline (events : List NormalizedEvent) {w : ω}
    (h : rule.idle w config.startSummary) :
    rule.Holds rule.idle ((eventReceiverPipeline config streamName).whole events) w :=
  Worker.triple_whole (rule.triple_startReceiving config h)
    (fun _ state event hidle => rule.triple_receiveEvent config state event hidle)
    (fun _ state hidle => rule.triple_finishReceiving config state hidle) events

end Consumer

end ReportRule

/-! ## The persisted slot never goes back -/

/-- No slot counts as below every slot. -/
def SlotLe (a b : Option Nat) : Prop := ∀ x ∈ a, ∃ y ∈ b, x ≤ y

theorem SlotLe.refl (a : Option Nat) : SlotLe a a := fun x hx => ⟨x, hx, le_rfl⟩

theorem SlotLe.trans {a b c : Option Nat} (hab : SlotLe a b) (hbc : SlotLe b c) : SlotLe a c := by
  intro x hx
  obtain ⟨y, hy, hxy⟩ := hab x hx
  obtain ⟨z, hz, hyz⟩ := hbc y hy
  exact ⟨z, hz, hxy.trans hyz⟩

theorem slotLe_persistSlot (summary : PipelineSummary) (slot : Nat) :
    SlotLe summary.lastPersistedSlot (summary.persistSlot slot).lastPersistedSlot := by
  intro x hx
  refine ⟨max x slot, ?_, le_max_left x slot⟩
  simp only [PipelineSummary.persistSlot]
  rw [show summary.lastPersistedSlot = some x from hx]
  rfl

def reports : PipelineCall → List PipelineSummary
  | .onProgress summary => [summary]
  | _ => []

theorem logs_silent {earlier later : List PipelineSummary} {c : PipelineCall}
    {r : PipelineCall.Reply W C S c} (hc : reports c = [])
    (h : Program.Logs reports earlier c r later) : later = earlier := by
  rw [h, hc, List.append_nil]

/-- When reports may only follow what they are related to, they all are. -/
theorem pairwise_reports {rel : PipelineSummary → PipelineSummary → Prop} {α : Type}
    {act : ω → (c : PipelineCall) → PipelineCall.Reply W C S c → ω → Prop}
    {reportable : ω × List PipelineSummary → PipelineSummary → Prop}
    {post : ω × List PipelineSummary → α → Prop} {p q : PipelineProgram W C S α} {w w' : ω}
    {start : PipelineSummary} {tr : PipelineTrace W C S}
    (htriple : Program.Triple (Program.Both act (Program.Logs reports)) (ReportsOnly reportable)
      post p (w, [start]))
    (himp : ∀ v earlier s, reportable (v, earlier) s → ∀ r ∈ earlier, rel r s)
    (hrun : Program.Runs p tr q) (hworld : Program.Performs act w tr w') :
    (start :: (Program.calls tr).flatMap reports).Pairwise rel := by
  have hstep : ∀ (v : ω × List PipelineSummary) (c : PipelineCall) (r : PipelineCall.Reply W C S c)
      (v' : ω × List PipelineSummary), v.2.Pairwise rel → ReportsOnly reportable v c →
      Program.Both act (Program.Logs reports) v c r v' → v'.2.Pairwise rel := by
    rintro v c r v' hpairwise hallowed ⟨-, hlog⟩
    rw [show v'.2 = v.2 ++ reports c from hlog, List.pairwise_append]
    cases c with
    | onProgress summary =>
        refine ⟨hpairwise, List.pairwise_singleton _ _, fun a ha b hb => ?_⟩
        rw [List.mem_singleton.mp hb]
        exact himp v.1 v.2 summary hallowed a ha
    | _ => exact ⟨hpairwise, .nil, fun _ _ _ hb => (List.not_mem_nil hb).elim⟩
  have hfinal := htriple.world_of_runs hstep hrun
    (hworld.both (Program.performs_logs reports [start] tr)) (List.pairwise_singleton _ _)
  exact hfinal

/-- No earlier report has a higher persisted slot. -/
def Persists (w : Unit × List PipelineSummary) (s : PipelineSummary) : Prop :=
  ∀ r ∈ w.2, SlotLe r.lastPersistedSlot s.lastPersistedSlot

/-- The reports made so far, whatever the calls reply. -/
abbrev notingAct (W C S : Type) : Unit × List PipelineSummary → (c : PipelineCall) →
    PipelineCall.Reply W C S c → Unit × List PipelineSummary → Prop :=
  Program.Both (fun _ _ _ _ => True) (Program.Logs reports)

section Persists

variable {w w' : Unit × List PipelineSummary} {s : PipelineSummary}

theorem Persists.same {s' : PipelineSummary} (h : Persists w s) (hsame : s.SameBatches s') :
    Persists w s' := by
  unfold Persists at *
  rw [← hsame.2.1]
  exact h

theorem Persists.silent (h : Persists w s) {c : PipelineCall} {r : PipelineCall.Reply W C S c}
    (hc : reports c = [])
    (hact : notingAct W C S w c r w') : Persists w' s := by
  unfold Persists
  rw [logs_silent hc hact.2]
  exact h

theorem Persists.report (h : Persists w s)
    (hact : notingAct W C S w (.onProgress s) () w') : Persists w' s := by
  unfold Persists
  rw [show w'.2 = w.2 ++ [s] from hact.2]
  intro r hr
  rcases List.mem_append.mp hr with hr | hr
  · exact h r hr
  · rw [List.mem_singleton.mp hr]
    exact .refl _

end Persists

/-- Whatever the stores do, no report is below an earlier one. -/
def persistedRule (W C S : Type) (streamName : String) :
    ReportRule (notingAct W C S) Persists streamName where
  idle := Persists
  busy := Persists
  stored := Persists
  idle_same _ _ _ h hsame := h.same hsame
  idle_depth _ _ _ _ h hact := h.silent rfl hact
  idle_activity _ _ _ _ h hact := h.silent rfl hact
  report _ _ h := ⟨h, fun _ hact => h.report hact⟩
  busy_of_idle _ _ h := h
  busy_same _ _ _ h hsame := h.same hsame
  write _ _ _ _ _ h hact := h.silent rfl hact
  elapsed _ _ _ _ h hact := h.silent rfl hact
  cursor _ s slot _ h hact r hr := ((h.silent rfl hact) r hr).trans (slotLe_persistSlot s slot)
  record _ _ _ _ h hact := h.silent rfl hact
  advance _ _ _ _ h hact := h.silent rfl hact
  busy_of_stored _ _ h := h
  report_batch _ _ _ h := ⟨h, fun _ hact => Persists.report h hact⟩

theorem reports_nondecreasing {config : PipelineConfig} {streamName : String}
    {events : List NormalizedEvent} {tr : PipelineTrace W C S}
    {q : PipelineProgram W C S PipelineSummary}
    (hrun : Program.Runs ((eventReceiverPipeline config streamName).whole events) tr q) :
    (config.startSummary :: (Program.calls tr).flatMap reports).Pairwise
      fun a b => SlotLe a.lastPersistedSlot b.lastPersistedSlot := by
  have hstart : Persists ((), [config.startSummary]) config.startSummary := by
    intro r hr
    rw [List.mem_singleton.mp hr]
    exact .refl _
  have htriple := (persistedRule W C S streamName).triple_pipeline config events hstart
  exact pairwise_reports htriple (fun _ _ _ h => h) hrun
    (Program.performs_of_replies fun _ _ => trivial)

def oneBatchSummary : PipelineSummary :=
  { PipelineSummary.default with
    eventsSeen := 1
    batchesWritten := 1
    writeSummary := ⟨1, 1, 0, 0⟩
    lastPersistedSlot := some 7
    totalBatchWriteDuration := 12
    maxBatchWriteDuration := 12
    lastBatchWriteDuration := 12 }

/-- One event and its batch, up to the report of the batch. -/
def oneBatchRun : PipelineTrace Unit Unit Unit :=
  [⟨.onProgress .default, ()⟩, ⟨.channelLen, 0⟩, ⟨.onActivity ⟨7, 1, 0, 1, "slot"⟩, ()⟩,
    ⟨.writeBatch [finalizedSlot 7 6], .ok ⟨1, 1, 0, 0⟩⟩, ⟨.batchElapsed, 12⟩,
    ⟨.updateAfterBatch "test" 7, .ok ()⟩,
    ⟨.recordSlotStates "test" (slotStates [finalizedSlot 7 6]), .ok ()⟩,
    ⟨.onProgress oneBatchSummary, ()⟩]

theorem oneBatchRun_runs : Program.Runs
    ((eventReceiverPipeline ⟨2, 1, none, false, true⟩ "test").whole [finalizedSlot 7 6])
    oneBatchRun (.pure oneBatchSummary) :=
  .step (.step (.step (.step (.step (.step (.step (.step (.refl _))))))))

end YellowstoneStream.Stream

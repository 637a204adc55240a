import YellowstoneStream.Stream.Reports

/-!
# The persisted slot of the summary

Between two events it is the greatest slot of the batches that were full and of the one the run
resumed after, and it is what was reported last.
-/

open YellowstoneStream.Domain YellowstoneStream.Reasoning YellowstoneStream.Storage

namespace YellowstoneStream.Stream

variable {W C S : Type}

/-- The slot persisted once these are. -/
def persistedSlot (config : PipelineConfig) (events : List NormalizedEvent) : Option Nat :=
  (config.resumeAfterSlot.toList ++ events.map NormalizedEvent.slot).max?

theorem max?_congr {a b : List Nat} (h : ∀ n, (∃ x ∈ a, n ≤ x) ↔ ∃ x ∈ b, n ≤ x) :
    a.max? = b.max? := by
  have hsub {a b : List Nat} (h : ∀ n, (∃ x ∈ a, n ≤ x) ↔ ∃ x ∈ b, n ≤ x) {m : Nat}
      (hm : a.max? = some m) : b.max? = some m := by
    rw [List.max?_eq_some_iff] at hm ⊢
    obtain ⟨hmem, hle⟩ := hm
    have hbound : ∀ y ∈ b, y ≤ m := by
      intro y hy
      obtain ⟨x, hx, hyx⟩ := (h y).mpr ⟨y, hy, le_rfl⟩
      exact hyx.trans (hle x hx)
    obtain ⟨y, hy, hmy⟩ := (h m).mp ⟨m, hmem, le_rfl⟩
    rw [(hbound y hy).antisymm hmy] at hy
    exact ⟨hy, hbound⟩
  apply Option.ext
  intro m
  exact ⟨hsub h, hsub fun n => (h n).symm⟩

/-! ## The tally of the cursor updates -/

def updatedSlots (calls : List PipelineCall) : List Nat :=
  calls.filterMap fun
    | .updateAfterBatch _ slot => some slot
    | _ => none

theorem exists_le_persist (start : Option Nat) (slot n : Nat) :
    (∃ x ∈ (some ((start.map (max · slot)).getD slot)).toList, n ≤ x) ↔
      (∃ x ∈ start.toList, n ≤ x) ∨ n ≤ slot := by
  cases start with
  | none => simp
  | some first => simp

theorem tally_lastPersistedSlot (summary : PipelineSummary) (tr : PipelineTrace W C S)
    (hok : ∀ a ∈ tr, failureOf a.1 a.2 = none) : (tally summary tr).lastPersistedSlot =
      (summary.lastPersistedSlot.toList ++ updatedSlots (Program.calls tr)).max? := by
  induction tr generalizing summary with
  | nil =>
      show summary.lastPersistedSlot = _
      cases summary.lastPersistedSlot <;> rfl
  | cons a tr ih =>
      have hrest := ih (tallyReply summary a) fun a ha => hok a (List.mem_cons_of_mem _ ha)
      have hfirst := hok a List.mem_cons_self
      rw [tally, List.foldl_cons, ← tally, hrest]
      obtain ⟨c, r⟩ := a
      cases c with
      | updateAfterBatch name slot =>
          cases r with
          | error err => cases hfirst
          | ok _ =>
              apply max?_congr
              intro n
              show (∃ x ∈ (some ((summary.lastPersistedSlot.map (max · slot)).getD slot)).toList ++
                updatedSlots (Program.calls tr), n ≤ x) ↔
                ∃ x ∈ summary.lastPersistedSlot.toList ++ slot :: updatedSlots (Program.calls tr),
                  n ≤ x
              simp only [List.mem_append, List.mem_cons, or_and_right, exists_or, exists_le_persist,
                or_assoc, exists_eq_left]
      | writeBatch batch => cases r <;> rfl
      | advanceContiguousFinalized name => cases r <;> rfl
      | _ => rfl

theorem mem_updatedSlots {streamName : String} {advance : Bool}
    {batches : List (List NormalizedEvent)} {slot : Nat} :
    slot ∈ updatedSlots (batches.flatMap (batchCalls streamName advance)) ↔
      ∃ batch ∈ batches, (batch.map NormalizedEvent.slot).max? = some slot := by
  rw [updatedSlots, List.mem_filterMap]
  constructor
  · rintro ⟨c, hc, hslot⟩
    obtain ⟨batch, hbatch, hcall⟩ := List.mem_flatMap.mp hc
    cases c with
    | updateAfterBatch name updated =>
        obtain rfl : updated = slot := Option.some.inj hslot
        rcases mem_batchCalls hcall with hc | ⟨_, hmax, hc⟩ | hc
        · cases hc
        · cases hc
          exact ⟨batch, hbatch, hmax⟩
        · rcases (mem_slotCalls hc).2 with hc | ⟨hc, -⟩ <;> cases hc
    | _ => cases hslot
  · rintro ⟨batch, hbatch, hmax⟩
    exact ⟨.updateAfterBatch streamName slot,
      List.mem_flatMap.mpr ⟨batch, hbatch, mem_batchCalls_update.mpr hmax⟩, rfl⟩

/-- Only the greatest slot of each batch counts. -/
theorem exists_le_updatedSlots (streamName : String) (advance : Bool)
    (batches : List (List NormalizedEvent)) (n : Nat) :
    (∃ slot ∈ updatedSlots (batches.flatMap (batchCalls streamName advance)), n ≤ slot) ↔
      ∃ slot ∈ batches.flatten.map NormalizedEvent.slot, n ≤ slot := by
  constructor
  · rintro ⟨slot, hmem, hn⟩
    obtain ⟨batch, hbatch, hmax⟩ := mem_updatedSlots.mp hmem
    obtain ⟨event, hevent, rfl⟩ := List.mem_map.mp (List.max?_eq_some_iff.mp hmax).1
    exact ⟨event.slot, List.mem_map_of_mem (List.mem_flatten_of_mem hbatch hevent), hn⟩
  · rintro ⟨_, hmem, hn⟩
    obtain ⟨event, hevent, rfl⟩ := List.mem_map.mp hmem
    obtain ⟨batch, hbatch, hin⟩ := List.mem_flatten.mp hevent
    cases hmax : (batch.map NormalizedEvent.slot).max? with
    | none =>
        rw [List.max?_eq_none_iff.mp hmax |> List.map_eq_nil_iff.mp] at hin
        exact absurd hin List.not_mem_nil
    | some slot =>
        have hle := (List.max?_eq_some_iff.mp hmax).2 event.slot (List.mem_map_of_mem hin)
        exact ⟨slot, mem_updatedSlots.mpr ⟨batch, hbatch, hmax⟩, hn.trans hle⟩

/-! ## The summary of a run -/

section Run

variable {config : PipelineConfig} {streamName : String} {events : List NormalizedEvent}
  {tr : PipelineTrace W C S}

theorem persistedSlot_of_counters {counted written : List NormalizedEvent}
    {batches : List (List NormalizedEvent)} {summary : PipelineSummary}
    (hplan : batches.flatMap (batchCalls streamName config.advanceFinalizedWatermark) =
      Program.calls (storeTrace tr)) (hok : ∀ a ∈ storeTrace tr, failureOf a.1 a.2 = none)
    (hcounters : summary.counters = tally (initialCounters config counted) (storeTrace tr))
    (hwritten : batches.flatten = written) :
    summary.lastPersistedSlot = persistedSlot config written := by
  have hslot := congrArg PipelineSummary.lastPersistedSlot hcounters
  rw [tally_lastPersistedSlot _ _ hok, ← hplan] at hslot
  rw [show summary.lastPersistedSlot = summary.counters.lastPersistedSlot from rfl, hslot,
    persistedSlot, ← hwritten]
  apply max?_congr
  intro n
  simp only [List.mem_append, or_and_right, exists_or, exists_le_updatedSlots]
  rfl

theorem batchSize_pos_of_consume {state : ReceiverState}
    (hrun : Program.Runs ((eventReceiverPipeline config streamName).consume events) tr
      (.pure state)) : 0 < config.batchSize := by
  rcases Nat.eq_zero_or_pos config.batchSize with hzero | hpos
  · rw [consume_of_batchSize_zero hzero] at hrun
    cases hrun
  · exact hpos

/-- Between two events, what the full batches have persisted. -/
theorem persistedSlot_of_consume {state : ReceiverState}
    (hrun : Program.Runs ((eventReceiverPipeline config streamName).consume events) tr
      (.pure state)) : state.summary.lastPersistedSlot =
        persistedSlot config (fullChunks config.batchSize (keptEvents config events)).flatten := by
  obtain ⟨hplan, hok, -, hcounters⟩ :=
    (follows_consume (batchSize_pos_of_consume hrun) streamName events).result hrun
  exact persistedSlot_of_counters hplan hok hcounters rfl

/-- In the end, what all kept events have persisted. -/
theorem persistedSlot_of_whole {summary : PipelineSummary}
    (hrun : Program.Runs ((eventReceiverPipeline config streamName).whole events) tr
      (.pure summary)) :
    summary.lastPersistedSlot = persistedSlot config (keptEvents config events) := by
  obtain ⟨state, _, _, -, hconsume, -⟩ := hrun.of_bind
  obtain ⟨hplan, hok, hcounters⟩ :=
    (follows_pipeline (batchSize_pos_of_consume hconsume) streamName events).result hrun
  exact persistedSlot_of_counters hplan hok hcounters (flatten_chunks _ _)

/-- Every event that the run received is within the slot that it ends with. -/
theorem exists_le_of_whole {summary : PipelineSummary}
    (hrun : Program.Runs ((eventReceiverPipeline config streamName).whole events) tr
      (.pure summary)) {event : NormalizedEvent} (hevent : event ∈ events) :
    ∃ slot, summary.lastPersistedSlot = some slot ∧ event.slot ≤ slot := by
  rw [persistedSlot_of_whole hrun, persistedSlot]
  have hcovered : ∃ slot ∈ config.resumeAfterSlot.toList ++
      (keptEvents config events).map NormalizedEvent.slot, event.slot ≤ slot := by
    by_cases hskip : shouldSkipEvent event config.resumeAfterSlot config.useSlotResume = true
    · -- it was skipped for a slot resumed after
      rw [shouldSkipEvent, Bool.and_eq_true, Option.any_eq_true] at hskip
      obtain ⟨-, slot, hslot, hle⟩ := hskip
      refine ⟨slot, List.mem_append_left _ (Option.mem_toList.mpr hslot), ?_⟩
      exact of_decide_eq_true hle
    · have hkept : event ∈ keptEvents config events :=
        List.mem_filter.mpr ⟨hevent, by simpa using hskip⟩
      exact ⟨event.slot, List.mem_append_right _ (List.mem_map_of_mem hkept), le_rfl⟩
  obtain ⟨slot, hmem, hle⟩ := hcovered
  cases hmax : (config.resumeAfterSlot.toList ++
      (keptEvents config events).map NormalizedEvent.slot).max? with
  | none =>
      rw [List.max?_eq_none_iff.mp hmax] at hmem
      exact absurd hmem List.not_mem_nil
  | some greatest =>
      exact ⟨greatest, rfl, hle.trans ((List.max?_eq_some_iff.mp hmax).2 slot hmem)⟩

end Run

/-! ## The last report -/

/-- The last report shows the persisted slot of the summary. -/
def Latest (w : Unit × List PipelineSummary) (summary : PipelineSummary) : Prop :=
  ∃ report, w.2.getLast? = some report ∧ report.lastPersistedSlot = summary.lastPersistedSlot

section Latest

variable {w w' : Unit × List PipelineSummary} {summary : PipelineSummary}

theorem Latest.silent (h : Latest w summary) {c : PipelineCall} {r : PipelineCall.Reply W C S c}
    (hc : reports c = []) (hact : notingAct W C S w c r w') : Latest w' summary := by
  unfold Latest
  rw [logs_silent hc hact.2]
  exact h

theorem latest_of_report (hact : notingAct W C S w (.onProgress summary) () w') :
    Latest w' summary := by
  refine ⟨summary, ?_, rfl⟩
  rw [show w'.2 = w.2 ++ [summary] from hact.2, List.getLast?_concat]

end Latest

def latestRule (W C S : Type) (streamName : String) :
    ReportRule (notingAct W C S) (fun _ _ => True) streamName where
  idle := Latest
  busy _ _ := True
  stored _ _ := True
  idle_same _ _ _ h hsame := by
    obtain ⟨report, hlast, hslot⟩ := h
    exact ⟨report, hlast, hslot.trans hsame.2.1⟩
  idle_depth _ _ _ _ h hact := h.silent rfl hact
  idle_activity _ _ _ _ h hact := h.silent rfl hact
  report _ _ _ := ⟨trivial, fun _ hact => latest_of_report hact⟩
  busy_of_idle _ _ _ := trivial
  busy_same _ _ _ _ _ := trivial
  write _ _ _ _ _ _ _ := trivial
  elapsed _ _ _ _ _ _ := trivial
  cursor _ _ _ _ _ _ := trivial
  record _ _ _ _ _ _ := trivial
  advance _ _ _ _ _ _ := trivial
  busy_of_stored _ _ _ := trivial
  report_batch _ _ _ _ := ⟨trivial, fun _ hact => latest_of_report hact⟩

section Consume

variable {config : PipelineConfig} {streamName : String} {events : List NormalizedEvent}
  {tr : PipelineTrace W C S} {state : ReceiverState}

theorem latest_consume (events : List NormalizedEvent) :
    (latestRule W C S streamName).Holds (fun w state => Latest w state.summary)
      ((eventReceiverPipeline config streamName).consume events) ((), []) := by
  induction events using List.reverseRecOn with
  | nil =>
      rw [Worker.consume_nil, eventReceiverPipeline, startReceiving]
      split
      · exact trivial
      · exact Program.triple_request trivial fun _ _ hact => latest_of_report hact
  | append_singleton events event ih =>
      rw [Worker.consume_snoc]
      refine ih.bind fun w state h => ?_
      exact (latestRule W C S streamName).triple_receiveEvent config state event h

theorem exists_latest
    (hrun : Program.Runs ((eventReceiverPipeline config streamName).consume events) tr
      (.pure state)) :
    ∃ report, ((Program.calls tr).flatMap reports).getLast? = some report ∧
      report.lastPersistedSlot = state.summary.lastPersistedSlot := by
  have hreplies : Program.Performs (fun (_ : Unit) _ _ _ => True) () tr () :=
    Program.performs_of_replies fun _ _ => trivial
  exact (latest_consume events).runs hrun (hreplies.both (Program.performs_logs reports [] tr))

/-- The consumer ends with a report of what it returns. -/
theorem exists_finishing_report {summary : PipelineSummary}
    (hrun : Program.Runs (finishReceiving config streamName state) tr (.pure summary)) :
    ∃ earlier, tr = earlier ++ [⟨.onProgress summary, ()⟩] := by
  have hreport {s : PipelineSummary} {tr : PipelineTrace W C S}
      (hrun : Program.Runs ((perform (.onProgress s)).bind fun _ => .pure s) tr (.pure summary)) :
      tr = [⟨.onProgress summary, ()⟩] := by
    cases hrun with
    | step hrun =>
        obtain ⟨rfl, hsame⟩ := Program.Ended.runs (p := .pure s) trivial hrun
        cases hsame
        rfl
  unfold finishReceiving at hrun
  split at hrun
  · obtain ⟨s, earlier, later, rfl, -, hlast⟩ := hrun.of_bind
    exact ⟨earlier, by rw [hreport hlast]⟩
  · exact ⟨[], hreport hrun⟩

end Consume

end YellowstoneStream.Stream

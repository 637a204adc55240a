import YellowstoneStream.App.BatchLatency
import YellowstoneStream.Stream.Announcements
import YellowstoneStream.Stream.PersistedSlot
import YellowstoneStream.Stream.Runtime

/-!
# The metrics of a run

What the counters and the gauges show at any moment of a run, and what the slot lag is left at when
it completes: only the live callbacks lower it when a batch is persisted.
-/

open YellowstoneStream.Domain YellowstoneStream.Reasoning YellowstoneStream.Storage
open YellowstoneStream.Stream

namespace YellowstoneStream.App

theorem gaugeValue_le (value : Nat) : gaugeValue value ≤ i64Max := Nat.min_le_right _ _

theorem gaugeValue_of_le {value : Nat} (h : value ≤ i64Max) : gaugeValue value = value :=
  Nat.min_eq_left h

/-! ## The callbacks of both modes -/

/-- What no progress report changes. -/
def Metrics.ofEvents (metrics : Metrics) : Metrics :=
  { metrics with
    batchWriteLatency := [], lastFinalizedSlot := 0, lastPersistedSlot := 0, slotLag := 0 }

/-- The lag is shown, or a greater one. -/
def Metrics.ShowsLag (metrics : Metrics) : Prop :=
  metrics.lastObservedSlot - metrics.lastPersistedSlot ≤ metrics.slotLag

section Callbacks

variable (metrics : Metrics) (summary : PipelineSummary)

theorem replayProgress_spec :
    (metrics.replayProgress summary).ofEvents = metrics.ofEvents ∧
    (metrics.replayProgress summary).lastPersistedSlot =
      (summary.lastPersistedSlot.map gaugeValue).getD metrics.lastPersistedSlot ∧
    (metrics.replayProgress summary).slotLag = metrics.slotLag := by
  unfold Metrics.replayProgress Metrics.observeSummary
  cases summary.lastPersistedSlot <;> (dsimp only; split <;> exact ⟨rfl, rfl, rfl⟩)

theorem liveProgress_spec :
    (metrics.liveProgress summary).ofEvents = metrics.ofEvents ∧
    (metrics.liveProgress summary).lastPersistedSlot =
      (summary.lastPersistedSlot.map gaugeValue).getD metrics.lastPersistedSlot ∧
    (metrics.liveProgress summary).slotLag = (summary.lastPersistedSlot.map fun slot =>
      gaugeValue (metrics.lastObservedSlot - slot)).getD metrics.slotLag := by
  unfold Metrics.liveProgress Metrics.observeSummary
  cases summary.lastPersistedSlot <;> cases summary.lastFinalizedSlot <;>
    (dsimp only; split <;> exact ⟨rfl, rfl, rfl⟩)

theorem fields_of_ofEvents {a b : Metrics} (h : a.ofEvents = b.ofEvents) :
    a.ingestEventsTotal = b.ingestEventsTotal ∧ a.channelDepth = b.channelDepth ∧
      a.channelCapacity = b.channelCapacity ∧ a.lastObservedSlot = b.lastObservedSlot := by
  have htotal := congrArg Metrics.ingestEventsTotal h
  have hdepth := congrArg Metrics.channelDepth h
  have hcapacity := congrArg Metrics.channelCapacity h
  have hobserved := congrArg Metrics.lastObservedSlot h
  exact ⟨htotal, hdepth, hcapacity, hobserved⟩

end Callbacks

/-- What the callbacks of a mode do at each call. -/
structure ObservesRun (source streamName : String) (after : Metrics → PipelineCall → Metrics) :
    Prop where
  activity : ∀ metrics activity,
    after metrics (.onActivity activity) = metrics.onActivity source streamName activity
  ofEvents : ∀ metrics summary, (after metrics (.onProgress summary)).ofEvents = metrics.ofEvents
  persisted : ∀ metrics summary, (after metrics (.onProgress summary)).lastPersistedSlot =
    (summary.lastPersistedSlot.map gaugeValue).getD metrics.lastPersistedSlot
  lag : ∀ metrics summary, metrics.ShowsLag → metrics.lastObservedSlot ≤ i64Max →
    metrics.lastPersistedSlot ≤ (after metrics (.onProgress summary)).lastPersistedSlot →
    (after metrics (.onProgress summary)).ShowsLag
  silent : ∀ metrics c, activities c = [] → reports c = [] → after metrics c = metrics

theorem observesRun_replay (streamName : String) :
    ObservesRun "replay" streamName (Metrics.afterReplayCall streamName) where
  activity _ _ := rfl
  ofEvents metrics summary := (replayProgress_spec metrics summary).1
  persisted metrics summary := (replayProgress_spec metrics summary).2.1
  lag metrics summary hlag _ hle := by
    -- the lag stays what it was
    obtain ⟨hevents, -, hsame⟩ := replayProgress_spec metrics summary
    obtain ⟨-, -, -, hobserved⟩ := fields_of_ofEvents hevents
    unfold Metrics.ShowsLag at *
    simp only [Metrics.afterReplayCall] at hle ⊢
    omega
  silent metrics c hactivity hreport := by
    cases c with
    | onActivity => cases hactivity
    | onProgress => cases hreport
    | _ => rfl

theorem observesRun_live (streamName : String) :
    ObservesRun "yellowstone" streamName (Metrics.afterLiveCall streamName) where
  activity _ _ := rfl
  ofEvents metrics summary := (liveProgress_spec metrics summary).1
  persisted metrics summary := (liveProgress_spec metrics summary).2.1
  lag metrics summary hlag hbound hle := by
    obtain ⟨hevents, hlast, hnew⟩ := liveProgress_spec metrics summary
    obtain ⟨-, -, -, hobserved⟩ := fields_of_ofEvents hevents
    unfold Metrics.ShowsLag at *
    simp only [Metrics.afterLiveCall] at hle ⊢
    cases hslot : summary.lastPersistedSlot with
    | none =>
        rw [hslot, Option.map_none, Option.getD_none] at hlast hnew
        omega
    | some slot =>
        rw [hslot, Option.map_some, Option.getD_some] at hlast hnew
        rw [hobserved, hlast, hnew, gaugeValue, gaugeValue]
        omega
  silent metrics c hactivity hreport := by
    cases c with
    | onActivity => cases hactivity
    | onProgress => cases hreport
    | _ => rfl

/-! ## What the calls of a run leave -/

/-- The slot of the latest report. -/
def reportedSlot (reported : List PipelineSummary) : Option Nat :=
  reported.getLast?.bind PipelineSummary.lastPersistedSlot

structure Metrics.Shows (metrics : Metrics) (source streamName : String)
    (seen : List PipelineActivity) (reported : List PipelineSummary) : Prop where
  counted : ∀ eventType, metrics.ingestEventsTotal source eventType =
    (seen.countP fun activity => activity.eventType = eventType) % 2 ^ 64
  others : ∀ other eventType, other ≠ source → metrics.ingestEventsTotal other eventType = 0
  depth : metrics.channelDepth streamName =
    seen.getLast?.map fun activity => gaugeValue activity.channelDepth
  capacity : metrics.channelCapacity streamName =
    seen.getLast?.map fun activity => gaugeValue activity.channelCapacity
  observed : metrics.lastObservedSlot =
    gaugeValue ((seen.getLast?.map PipelineActivity.slot).getD 0)
  persisted : metrics.lastPersistedSlot = gaugeValue ((reportedSlot reported).getD 0)
  lag : metrics.ShowsLag

section Shows

variable {source streamName : String} {seen : List PipelineActivity}
  {reported : List PipelineSummary} {metrics : Metrics}

theorem Metrics.shows_new : Metrics.new.Shows source streamName [] [] :=
  ⟨fun _ => rfl, fun _ _ _ => rfl, rfl, rfl, rfl, rfl, Nat.zero_le _⟩

theorem ingestEventsTotal_onActivity (activity : PipelineActivity) (other eventType : String) :
    (metrics.onActivity source streamName activity).ingestEventsTotal other eventType =
      if other = source ∧ eventType = activity.eventType
      then counterInc (metrics.ingestEventsTotal source activity.eventType)
      else metrics.ingestEventsTotal other eventType :=
  rfl

theorem Metrics.Shows.activity (h : metrics.Shows source streamName seen reported)
    (activity : PipelineActivity) :
    (metrics.onActivity source streamName activity).Shows source streamName (seen ++ [activity])
      reported := by
  constructor
  · intro eventType
    have hcounted := h.counted eventType
    rw [List.countP_append, List.countP_singleton, ingestEventsTotal_onActivity]
    by_cases heq : eventType = activity.eventType
    · subst heq
      rw [if_pos ⟨rfl, rfl⟩, counterInc, hcounted, if_pos (decide_eq_true rfl), Nat.mod_add_mod]
    · rw [if_neg (fun hand => heq hand.2), hcounted,
        if_neg (fun hsame => heq (of_decide_eq_true hsame).symm), Nat.add_zero]
  · intro other eventType hother
    rw [ingestEventsTotal_onActivity, if_neg (fun hand => hother hand.1),
      h.others other eventType hother]
  · rw [List.getLast?_concat]
    exact if_pos rfl
  · rw [List.getLast?_concat]
    exact if_pos rfl
  · rw [List.getLast?_concat]
    rfl
  · exact h.persisted
  · show gaugeValue activity.slot - metrics.lastPersistedSlot ≤
      gaugeValue (activity.slot - metrics.lastPersistedSlot)
    rw [gaugeValue, gaugeValue]
    omega

theorem Metrics.Shows.report {after : Metrics → PipelineCall → Metrics}
    (hafter : ObservesRun source streamName after)
    (h : metrics.Shows source streamName seen reported) {summary : PipelineSummary}
    (hrises : SlotLe (reportedSlot reported) summary.lastPersistedSlot) :
    (after metrics (.onProgress summary)).Shows source streamName seen (reported ++ [summary]) := by
  obtain ⟨htotal, hdepth, hcapacity, hobserved⟩ :=
    fields_of_ofEvents (hafter.ofEvents metrics summary)
  have hpersisted : (after metrics (.onProgress summary)).lastPersistedSlot =
      gaugeValue (summary.lastPersistedSlot.getD 0) := by
    rw [hafter.persisted]
    cases hslot : summary.lastPersistedSlot with
    | some slot => rfl
    | none =>
        -- then no report before it had a slot either
        rw [hslot] at hrises
        cases hlast : reportedSlot reported with
        | some slot =>
            obtain ⟨_, hmem, -⟩ := hrises slot hlast
            cases hmem
        | none => rw [Option.map_none, Option.getD_none, h.persisted, hlast]
  constructor
  · rw [htotal]
    exact h.counted
  · rw [htotal]
    exact h.others
  · rw [hdepth, h.depth]
  · rw [hcapacity, h.capacity]
  · rw [hobserved, h.observed]
  · rw [hpersisted, reportedSlot, List.getLast?_concat]
    rfl
  · apply hafter.lag metrics summary h.lag
    · rw [h.observed]
      exact gaugeValue_le _
    · rw [h.persisted, hpersisted, gaugeValue, gaugeValue]
      cases hlast : reportedSlot reported with
      | none => exact (Nat.zero_min _).le.trans (Nat.zero_le _)
      | some slot =>
          obtain ⟨later, hmem, hle⟩ := hrises slot hlast
          rw [show summary.lastPersistedSlot = some later from hmem]
          exact min_le_min_right _ hle

/-- Reports that never go back are all that is asked of the calls. -/
theorem shows_foldl {after : Metrics → PipelineCall → Metrics}
    (hafter : ObservesRun source streamName after) (calls : List PipelineCall)
    (hrises : (calls.flatMap reports).Pairwise fun a b =>
      SlotLe a.lastPersistedSlot b.lastPersistedSlot) :
    (calls.foldl after .new).Shows source streamName (calls.flatMap activities)
      (calls.flatMap reports) := by
  induction calls using List.reverseRecOn with
  | nil => exact Metrics.shows_new
  | append_singleton calls c ih =>
      rw [List.flatMap_append, List.flatMap_singleton] at hrises
      obtain ⟨hfront, -, hlast⟩ := List.pairwise_append.mp hrises
      have h := ih hfront
      rw [List.foldl_append, List.flatMap_append, List.flatMap_append, List.flatMap_singleton,
        List.flatMap_singleton]
      cases c with
      | onActivity activity =>
          rw [List.foldl_cons, List.foldl_nil, hafter.activity, show reports _ = [] from rfl,
            List.append_nil]
          exact h.activity activity
      | onProgress summary =>
          have hbefore : SlotLe (reportedSlot (calls.flatMap reports))
              summary.lastPersistedSlot := by
            intro slot hslot
            obtain ⟨report, hreport, hrest⟩ := Option.bind_eq_some_iff.mp hslot
            exact hlast report (List.mem_of_getLast? hreport) summary (List.mem_singleton_self _)
              slot hrest
          rw [List.foldl_cons, List.foldl_nil, show activities _ = [] from rfl, List.append_nil]
          exact h.report hafter hbefore
      | _ =>
          rw [List.foldl_cons, List.foldl_nil, hafter.silent _ _ rfl rfl]
          simp only [activities, reports, List.append_nil]
          exact h

end Shows

/-- The live callbacks show the lag itself, whichever of the two slots moved last. -/
theorem liveLag_foldl (streamName : String) (calls : List PipelineCall)
    (hfits : ∀ activity ∈ calls.flatMap activities, activity.slot ≤ i64Max) :
    (calls.foldl (Metrics.afterLiveCall streamName) .new).lastObservedSlot ≤ i64Max ∧
    (calls.foldl (Metrics.afterLiveCall streamName) .new).slotLag =
      (calls.foldl (Metrics.afterLiveCall streamName) .new).lastObservedSlot -
        (calls.foldl (Metrics.afterLiveCall streamName) .new).lastPersistedSlot := by
  induction calls using List.reverseRecOn with
  | nil => exact ⟨Nat.zero_le _, rfl⟩
  | append_singleton calls c ih =>
      rw [List.flatMap_append, List.flatMap_singleton] at hfits
      have h := ih fun activity hactivity => hfits activity (List.mem_append_left _ hactivity)
      rw [List.foldl_append, List.foldl_cons, List.foldl_nil]
      generalize calls.foldl (Metrics.afterLiveCall streamName) .new = metrics at h ⊢
      obtain ⟨hbound, hlag⟩ := h
      cases c with
      | onActivity activity =>
          have hslot := hfits activity (List.mem_append_right _ List.mem_cons_self)
          show gaugeValue activity.slot ≤ i64Max ∧
            gaugeValue (activity.slot - metrics.lastPersistedSlot) =
              gaugeValue activity.slot - metrics.lastPersistedSlot
          rw [gaugeValue_of_le hslot, gaugeValue_of_le ((Nat.sub_le _ _).trans hslot)]
          exact ⟨hslot, rfl⟩
      | onProgress summary =>
          obtain ⟨hevents, hpersisted, hnew⟩ := liveProgress_spec metrics summary
          obtain ⟨-, -, -, hobserved⟩ := fields_of_ofEvents hevents
          rw [Metrics.afterLiveCall, hobserved, hpersisted, hnew]
          refine ⟨hbound, ?_⟩
          cases summary.lastPersistedSlot with
          | none => exact hlag
          | some slot =>
              show gaugeValue (metrics.lastObservedSlot - slot) =
                metrics.lastObservedSlot - gaugeValue slot
              rw [gaugeValue, gaugeValue]
              omega
      | _ => exact ⟨hbound, hlag⟩

/-! ## The metrics in every state of a run -/

/-- What the metrics tell of the events taken off the channel and of the reports made. -/
structure Metrics.Follows (metrics : Metrics) (config : PipelineConfig)
    (source streamName : String) (seen : List NormalizedEvent)
    (reported : List PipelineSummary) : Prop where
  counted : ∀ eventType, metrics.ingestEventsTotal source eventType =
    (seen.countP fun event => event.kind.asStr = eventType) % 2 ^ 64
  others : ∀ other eventType, other ≠ source → metrics.ingestEventsTotal other eventType = 0
  channel : seen ≠ [] →
    metrics.channelCapacity streamName = some (gaugeValue config.channelCapacity) ∧
      ∃ depth ≤ config.channelCapacity,
        metrics.channelDepth streamName = some (gaugeValue depth)
  observed : metrics.lastObservedSlot =
    gaugeValue ((seen.getLast?.map NormalizedEvent.slot).getD 0)
  persisted : metrics.lastPersistedSlot = gaugeValue ((reportedSlot reported).getD 0)
  lag : metrics.ShowsLag

def reportsOf {W C S : Type} (tr : PipelineTrace W C S) : List PipelineSummary :=
  (Program.calls tr).flatMap reports

section Follows

variable {W C S : Type} {config : PipelineConfig} {source streamName : String}
  {seen : List NormalizedEvent} {reported : List PipelineSummary} {metrics : Metrics}
  {tr : PipelineTrace W C S}

theorem map_announced {β : Type} {f : PipelineActivity → β} {g : NormalizedEvent → β}
    (hsame : ∀ activity event, Announces config activity event → f activity = g event)
    (h : Announced config seen tr) : (announced tr).map f = seen.map g := by
  rw [← List.forall₂_eq_eq_eq, List.forall₂_map_left_iff, List.forall₂_map_right_iff]
  exact h.imp hsame

theorem announces_of_mem (h : Announced config seen tr) {activity : PipelineActivity}
    (hmem : activity ∈ announced tr) : ∃ event ∈ seen, Announces config activity event := by
  unfold Announced at h
  generalize announced tr = told at h hmem
  induction h with
  | nil => cases hmem
  | @cons first event _ _ hfirst _ ih =>
      rcases List.mem_cons.mp hmem with rfl | hmem
      · exact ⟨event, List.mem_cons_self, hfirst⟩
      · obtain ⟨event, hevent, hannounces⟩ := ih hmem
        exact ⟨event, List.mem_cons_of_mem _ hevent, hannounces⟩

theorem Metrics.Shows.follows (hseen : Announced config seen tr)
    (h : metrics.Shows source streamName (announced tr) reported) :
    metrics.Follows config source streamName seen reported := by
  have htypes := map_announced (fun _ _ h => h.eventType) hseen
  have hslots := map_announced (fun _ _ h => h.slot) hseen
  refine ⟨fun eventType => ?_, h.others, fun hne => ?_, ?_, h.persisted, h.lag⟩
  · have hsame := congrArg (List.countP fun name => decide (name = eventType)) htypes
    rw [List.countP_map, List.countP_map] at hsame
    rw [h.counted]
    exact congrArg (· % 2 ^ 64) hsame
  · rw [h.capacity, h.depth]
    cases hlast : (announced tr).getLast? with
    | none =>
        have hlength := hseen.length_eq
        rw [List.getLast?_eq_none_iff.mp hlast] at hlength
        exact absurd (List.length_eq_zero_iff.mp hlength.symm) hne
    | some activity =>
        obtain ⟨event, -, hannounces⟩ := announces_of_mem hseen (List.mem_of_getLast? hlast)
        refine ⟨?_, activity.channelDepth, hannounces.channelDepth, rfl⟩
        rw [Option.map_some, hannounces.channelCapacity]
  · rw [h.observed, ← List.getLast?_map, hslots, List.getLast?_map]

theorem follows_of_announced {after : Metrics → PipelineCall → Metrics}
    (hafter : ObservesRun source streamName after) {events : List NormalizedEvent}
    {q : PipelineProgram W C S PipelineSummary}
    (hrun : Program.Runs ((eventReceiverPipeline config streamName).whole events) tr q)
    (hseen : Announced config seen tr) :
    ((Program.calls tr).foldl after .new).Follows config source streamName seen (reportsOf tr) :=
  (shows_foldl hafter _ (List.pairwise_cons.mp (reports_nondecreasing hrun)).2).follows hseen

end Follows

/-- In every state that a run comes to, whatever its stores reply and however its producer and its
consumer take turns: the metrics of either mode are those of the events received, or of all but the
last.  The lag is never shown too low, and in live mode it is exact while the slots fit. -/
theorem metrics_follow_run {W C S π ρ Ω : Type} {config : PipelineConfig} {streamName : String}
    {setup : Setup PipelineCall (PipelineCall.Reply W C S) (PipelineError W C S) π NormalizedEvent ρ
      ReceiverState PipelineSummary Ω}
    (h : Consuming config streamName setup) {w : Ω} {s : π}
    {x : System PipelineCall (PipelineCall.Reply W C S) (PipelineError W C S) π NormalizedEvent ρ
      ReceiverState PipelineSummary Ω} (hreach : setup.Reaches (setup.init w s) x) :
    ∃ seen, (x.received = seen ∨ ∃ event, x.received = seen ++ [event]) ∧
      (replayMetrics streamName x.trace).Follows config "replay" streamName seen
        (reportsOf x.trace) ∧
      (liveMetrics streamName x.trace).Follows config "yellowstone" streamName seen
        (reportsOf x.trace) ∧
      ((∀ event ∈ seen, event.slot ≤ i64Max) → (liveMetrics streamName x.trace).slotLag =
        (liveMetrics streamName x.trace).lastObservedSlot -
          (liveMetrics streamName x.trace).lastPersistedSlot) := by
  obtain ⟨seen, hseen, hreceived⟩ := announced_of_reaches h hreach
  have hruns := (Setup.inv_reaches hreach).execution.runs
  rw [h.worker] at hruns
  refine ⟨seen, hreceived, follows_of_announced (observesRun_replay streamName) hruns hseen,
    follows_of_announced (observesRun_live streamName) hruns hseen, fun hfits => ?_⟩
  have hslots := map_announced (fun _ _ h => h.slot) hseen
  refine (liveLag_foldl streamName _ fun activity hactivity => ?_).2
  have hmem : activity.slot ∈ seen.map NormalizedEvent.slot := by
    rw [← hslots]
    exact List.mem_map_of_mem hactivity
  obtain ⟨event, hevent, hslot⟩ := List.mem_map.mp hmem
  rw [← hslot]
  exact hfits event hevent

theorem consuming_pipelineSetup {W C S Ω ρ : Type} (config : PipelineConfig) (streamName : String)
    (abortsOnError : Bool) (outcome onClosed : ρ) (stores : Stores W C S Ω) :
    Consuming config streamName
      (pipelineSetup config streamName abortsOnError outcome onClosed stores) := by
  refine ⟨rfl, rfl, fun depth w c r w' hact => ?_⟩
  cases c with
  | channelLen => exact hact.1
  | _ => exact trivial

/-- The first of two events, just announced. -/
theorem metrics_follow_run_first : ∃ x : PipelineSystem Unit Unit Unit (Except Unit Unit) Unit,
    x.received = [finalizedSlot 7 6] ∧
      (liveMetrics "test" x.trace).lastObservedSlot = 7 ∧
      (liveMetrics "test" x.trace).slotLag = (liveMetrics "test" x.trace).lastObservedSlot -
        (liveMetrics "test" x.trace).lastPersistedSlot := by
  have hcall {x : PipelineSystem Unit Unit Unit (Except Unit Unit) Unit} {c : PipelineCall}
      {next : PipelineCall.Reply Unit Unit Unit c → PipelineProgram Unit Unit Unit ReceiverState}
      (r : PipelineCall.Reply Unit Unit Unit c) (hmain : x.main = .looping (.call c next))
      (hact : capacityOne.act x.queue.length x.world c r ()) : capacityOne.Step x
        { x with world := (), main := .looping (next r), trace := x.trace ++ [⟨c, r⟩] } :=
    .callLooping hmain hact
  have hreported : capacityOne.Reaches
      (capacityOne.init () (.sending [finalizedSlot 7 6, finalizedSlot 8 7])) _ :=
    .single (hcall () rfl rfl)
  have hreceived := (hreported.tail (.send rfl (.send _ _) rfl (by decide))).tail (.receive rfl rfl)
  have hannounced := (hreceived.tail (hcall (0 : Nat) rfl ⟨rfl, rfl⟩)).tail (hcall () rfl rfl)
  have hconsuming : Consuming _ _ capacityOne := consuming_pipelineSetup _ _ _ _ _ _
  obtain ⟨seen, hseen, -, -, hlag⟩ := metrics_follow_run hconsuming hannounced
  refine ⟨_, rfl, rfl, hlag fun event hevent => ?_⟩
  have hall : [finalizedSlot 7 6] = seen ∨ ∃ last, [finalizedSlot 7 6] = seen ++ [last] := hseen
  have hmem : event ∈ [finalizedSlot 7 6] := by
    rcases hall with hall | ⟨last, hlast⟩
    · rw [hall]
      exact hevent
    · rw [hlast]
      exact List.mem_append_left _ hevent
  rw [List.mem_singleton.mp hmem]
  decide

/-! ## The lag that a completed run leaves -/

section Completed

variable {W C S : Type} {config : PipelineConfig} {streamName : String}
  {events : List NormalizedEvent} {tr : PipelineTrace W C S}

theorem replayMetrics_append (tr tr' : PipelineTrace W C S) :
    replayMetrics streamName (tr ++ tr') = (Program.calls tr').foldl
      (Metrics.afterReplayCall streamName) (replayMetrics streamName tr) := by
  rw [replayMetrics, Program.calls, List.map_append, List.foldl_append]
  rfl

theorem liveMetrics_append (tr tr' : PipelineTrace W C S) : liveMetrics streamName (tr ++ tr') =
    (Program.calls tr').foldl (Metrics.afterLiveCall streamName) (liveMetrics streamName tr) := by
  rw [liveMetrics, Program.calls, List.map_append, List.foldl_append]
  rfl

/-- Reports and store calls leave the lag of a replay as it is. -/
theorem replayLag_foldl (metrics : Metrics) (h : ∀ a ∈ tr, activities a.1 = []) :
    ((Program.calls tr).foldl (Metrics.afterReplayCall streamName) metrics).slotLag =
      metrics.slotLag := by
  induction tr generalizing metrics with
  | nil => rfl
  | cons a tr ih =>
      have hfirst := h a List.mem_cons_self
      rw [Program.calls, List.map_cons, List.foldl_cons, ← Program.calls,
        ih _ fun a ha => h a (List.mem_cons_of_mem _ ha)]
      obtain ⟨c, r⟩ := a
      cases c with
      | onActivity => cases hfirst
      | onProgress summary => exact (replayProgress_spec metrics summary).2.2
      | _ => rfl

/-- In live mode the last call shows the lag behind what the run has persisted. -/
theorem liveLag_of_whole {summary : PipelineSummary} {slot : Nat}
    (hrun : Program.Runs ((eventReceiverPipeline config streamName).whole events) tr
      (.pure summary)) (hslot : summary.lastPersistedSlot = some slot) :
    (liveMetrics streamName tr).slotLag =
      gaugeValue ((liveMetrics streamName tr).lastObservedSlot - slot) := by
  obtain ⟨state, front, back, rfl, -, hfinish⟩ := hrun.of_bind
  obtain ⟨earlier, rfl⟩ := exists_finishing_report hfinish
  rw [← List.append_assoc, liveMetrics_append]
  obtain ⟨hevents, -, hlag⟩ := liveProgress_spec (liveMetrics streamName (front ++ earlier)) summary
  obtain ⟨-, -, -, hobserved⟩ := fields_of_ofEvents hevents
  show (Metrics.liveProgress _ summary).slotLag =
    gaugeValue ((Metrics.liveProgress _ summary).lastObservedSlot - slot)
  rw [hlag, hobserved, hslot]
  rfl

/-- A run that completes announces its last event, and nothing after it. -/
theorem exists_last_announced {last : NormalizedEvent} {summary : PipelineSummary}
    (hrun : Program.Runs ((eventReceiverPipeline config streamName).whole (events ++ [last])) tr
      (.pure summary)) :
    ∃ before front activity depth rest,
      tr = front ++ [⟨.channelLen, depth⟩, ⟨.onActivity activity, ()⟩] ++ rest ∧
      Program.Runs ((eventReceiverPipeline config streamName).consume events) front
        (.pure before) ∧
      activity.slot = last.slot ∧ ∀ a ∈ rest, activities a.1 = [] := by
  obtain ⟨state, tr₁, tr₂, rfl, hconsume, hfinish⟩ := hrun.of_bind
  rw [Worker.consume_snoc] at hconsume
  obtain ⟨before, front, _, rfl, hfront, hbody⟩ := hconsume.of_bind
  obtain ⟨activity, depth, later, hslot, rfl, hlater⟩ := announces_first _ hbody
  refine ⟨before, front, activity, depth, later ++ tr₂, ?_, hfront, hslot, fun a ha => ?_⟩
  · simp only [List.append_assoc, List.cons_append, List.nil_append]
  · rcases List.mem_append.mp ha with ha | ha
    · exact hlater a ha
    · exact activities_of_silent (silent_finishReceiving _ _ _) hfinish a ha

theorem quiet_of_whole_nil {q : PipelineProgram W C S PipelineSummary}
    (hrun : Program.Runs ((eventReceiverPipeline config streamName).whole []) tr q) :
    ∀ a ∈ tr, activities a.1 = [] :=
  activities_of_silent
    ((silent_startReceiving config).bind fun _ _ _ => silent_finishReceiving _ _ _) hrun

theorem persisted_of_consume {state : ReceiverState}
    (hrun : Program.Runs ((eventReceiverPipeline config streamName).consume events) tr
      (.pure state)) : (replayMetrics streamName tr).lastPersistedSlot =
        gaugeValue (state.summary.lastPersistedSlot.getD 0) := by
  obtain ⟨report, hlast, hslot⟩ := exists_latest hrun
  have hrises := reports_nondecreasing (hrun.bind (eventReceiverPipeline config streamName).finish)
  have hshows := shows_foldl (observesRun_replay streamName) _ (List.pairwise_cons.mp hrises).2
  rw [replayMetrics, hshows.persisted, reportedSlot, hlast, Option.bind_some, hslot]

theorem observed_of_whole {q : PipelineProgram W C S PipelineSummary}
    (hrun : Program.Runs ((eventReceiverPipeline config streamName).whole events) tr q) :
    (liveMetrics streamName tr).lastObservedSlot =
      gaugeValue (((announced tr).getLast?.map PipelineActivity.slot).getD 0) :=
  (shows_foldl (observesRun_live streamName) _
    (List.pairwise_cons.mp (reports_nondecreasing hrun)).2).observed

theorem liveLag_completed {summary : PipelineSummary}
    (hrun : Program.Runs ((eventReceiverPipeline config streamName).whole events) tr
      (.pure summary)) : (liveMetrics streamName tr).slotLag = 0 := by
  rcases List.eq_nil_or_concat' events with rfl | ⟨earlier, last, rfl⟩
  · -- without an event the observed slot stays 0
    have hnone : announced tr = [] := announced_of_quiet (quiet_of_whole_nil hrun)
    obtain ⟨-, hlag⟩ := liveLag_foldl streamName (Program.calls tr) fun activity hactivity => by
      rw [← announced, hnone] at hactivity
      cases hactivity
    have hobserved := observed_of_whole hrun
    rw [hnone] at hobserved
    rw [liveMetrics, hlag, ← liveMetrics, hobserved]
    exact Nat.zero_sub _
  · obtain ⟨slot, hpersisted, hle⟩ := exists_le_of_whole hrun
      (List.mem_append_right earlier (List.mem_singleton_self last))
    rw [liveLag_of_whole hrun hpersisted, observed_of_whole hrun]
    obtain ⟨_, front, activity, depth, rest, rfl, -, hslot, hquiet⟩ := exists_last_announced hrun
    have hseen : announced (front ++ [⟨.channelLen, depth⟩, ⟨.onActivity activity, ()⟩] ++ rest) =
        announced front ++ [activity] := by
      rw [announced_append, announced_of_quiet hquiet, List.append_nil, announced_append]
      rfl
    rw [hseen, List.getLast?_concat, Option.map_some, Option.getD_some, hslot, gaugeValue,
      gaugeValue]
    omega

theorem replayLag_completed {last : NormalizedEvent} {summary : PipelineSummary}
    (hrun : Program.Runs ((eventReceiverPipeline config streamName).whole (events ++ [last])) tr
      (.pure summary)) :
    (replayMetrics streamName tr).slotLag =
      gaugeValue (last.slot - gaugeValue ((persistedSlot config
        (fullChunks config.batchSize (keptEvents config events)).flatten).getD 0)) := by
  obtain ⟨_, front, activity, _, rest, rfl, hfront, hslot, hquiet⟩ := exists_last_announced hrun
  have hbefore := @persisted_of_consume _ _ _ _ streamName _ _ _ hfront
  rw [persistedSlot_of_consume hfront] at hbefore
  rw [replayMetrics_append, replayLag_foldl _ hquiet, replayMetrics_append, ← hslot, ← hbefore]
  rfl

end Completed

/-- A run that completes leaves no lag in live mode.  A replay leaves the one that its last event
found, behind what the resume slot and the batches that were full by then had persisted. -/
theorem slot_lag_after_run {W C S : Type} {config : PipelineConfig} {streamName : String}
    {events : List NormalizedEvent} {tr : PipelineTrace W C S} {summary : PipelineSummary}
    (hrun : Program.Runs ((eventReceiverPipeline config streamName).whole events) tr
      (.pure summary)) :
    (liveMetrics streamName tr).slotLag = 0 ∧
    (events = [] → (replayMetrics streamName tr).slotLag = 0) ∧
    ∀ earlier last, events = earlier ++ [last] → (replayMetrics streamName tr).slotLag =
      gaugeValue (last.slot - gaugeValue ((persistedSlot config
        (fullChunks config.batchSize (keptEvents config earlier)).flatten).getD 0)) := by
  refine ⟨liveLag_completed hrun, ?_, ?_⟩
  · rintro rfl
    exact replayLag_foldl .new (quiet_of_whole_nil hrun)
  · rintro earlier last rfl
    exact replayLag_completed hrun

/-- One batch that the last report persists: the replay still shows all of its slot as lag. -/
theorem slot_lag_after_run_one_batch : (liveMetrics "test" oneBatchRun).slotLag = 0 ∧
    (replayMetrics "test" oneBatchRun).slotLag = 7 := by
  obtain ⟨hlive, -, hreplay⟩ := slot_lag_after_run oneBatchRun_runs
  exact ⟨hlive, hreplay [] (finalizedSlot 7 6) rfl⟩

end YellowstoneStream.App

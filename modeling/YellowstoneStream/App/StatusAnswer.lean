import YellowstoneStream.App.RunMetrics
import YellowstoneStream.App.StatusRace

/-!
# What `/status` answers

The answer derives the staleness and the slot lag from the published snapshot.  The activity
callback does not publish every event, so the answer is about an event announced less than a second
before the latest one.
-/

open YellowstoneStream.Domain YellowstoneStream.Reasoning YellowstoneStream.Storage
open YellowstoneStream.Stream

namespace YellowstoneStream.App

def secondsBetween (startUnixMs endUnixMs : Nat) : Nat := (endUnixMs - startUnixMs) / 1000

namespace LiveProducerStatus

def refreshStalenessAt (live : LiveProducerStatus) (nowUnixMs : Nat) : LiveProducerStatus :=
  { live with
    secondsSinceLastEvent := live.lastEventAtUnixMs.map fun eventAt =>
      secondsBetween eventAt nowUnixMs
    secondsSinceLastPersistedBatch := live.lastPersistedBatchAtUnixMs.map fun batchAt =>
      secondsBetween batchAt nowUnixMs }

def refreshSlotLag (live : LiveProducerStatus) (lastPersistedSlot : Option Nat) :
    LiveProducerStatus :=
  { live with
    observedToPersistedSlotLag := live.lastObservedSlot.bind fun observedSlot =>
      lastPersistedSlot.map fun persistedSlot => observedSlot - persistedSlot }

end LiveProducerStatus

def StatusSnapshot.refreshLiveDerived (status : StatusSnapshot) (nowUnixMs : Nat) :
    StatusSnapshot :=
  { status with
    live := status.live.map fun live =>
      (live.refreshStalenessAt nowUnixMs).refreshSlotLag status.lastPersistedSlot }

def refreshStatus (status : StatusSnapshot) (nowUnixMs : Nat) : StatusSnapshot :=
  status.refreshLiveDerived nowUnixMs

/-- The answer to a request that comes at this time. -/
def statusHandler (status : StatusSnapshot) (nowUnixMs : Nat) : StatusSnapshot :=
  refreshStatus status nowUnixMs

/-! ## The events that are published -/

def announcementOf : PipelineCall × CallbackReading → List (PipelineActivity × CallbackReading)
  | (.onActivity activity, reading) => [(activity, reading)]
  | _ => []

/-- What the pipeline announced, and when. -/
def announcements (calls : List (PipelineCall × CallbackReading)) :
    List (PipelineActivity × CallbackReading) :=
  calls.flatMap announcementOf

/-- What an update sets of the slot and the time of the last event. -/
def StatusUpdate.observed : StatusUpdate → Option (Option Nat × Option Nat)
  | .activity slot nowUnixMs => some (some slot, some nowUnixMs)
  | .reconnect _ | .progress .. => none

def LiveProducerStatus.observed (live : LiveProducerStatus) : Option Nat × Option Nat :=
  (live.lastObservedSlot, live.lastEventAtUnixMs)

/-- Announced within a second after the time, on the monotonic clock. -/
def Within (now : Nat) (later : List (PipelineActivity × CallbackReading)) : Prop :=
  ∀ announcement ∈ later, announcement.2.now - now < nanosPerSecond

/-- Published is one that all later ones followed within a second. -/
def ShowsRecent (announced : List (PipelineActivity × CallbackReading))
    (observed : Option (Option Nat × Option Nat)) : Prop :=
  ∃ earlier activity reading later, announced = earlier ++ (activity, reading) :: later ∧
    Within reading.now later ∧ observed = some (some activity.slot, some reading.nowUnixMs)

theorem ShowsRecent.cons {announced : List (PipelineActivity × CallbackReading)}
    {observed : Option (Option Nat × Option Nat)} (h : ShowsRecent announced observed)
    (first : PipelineActivity × CallbackReading) : ShowsRecent (first :: announced) observed := by
  obtain ⟨earlier, activity, reading, later, rfl, hwithin, hobserved⟩ := h
  exact ⟨first :: earlier, activity, reading, later, rfl, hwithin, hobserved⟩

section Published

variable (vars : CallbackVars) (calls : List (PipelineCall × CallbackReading))
  (reading : CallbackReading)

theorem pipelineUpdates_activity (activity : PipelineActivity) :
    pipelineUpdates vars ((.onActivity activity, reading) :: calls) =
      if vars.lastActivityStatusSent.any fun last => reading.now - last < nanosPerSecond
      then pipelineUpdates vars calls
      else .activity activity.slot reading.nowUnixMs ::
        pipelineUpdates { vars with lastActivityStatusSent := some reading.now } calls := by
  show (vars.activity activity reading.now reading.nowUnixMs).1.toList ++
    pipelineUpdates (vars.activity activity reading.now reading.nowUnixMs).2 calls = _
  rw [CallbackVars.activity]
  split <;> rfl

/-- Progress reports leave the time at which an activity was sent. -/
theorem pipelineUpdates_progress (summary : PipelineSummary) : ∃ newBatch vars',
    vars'.lastActivityStatusSent = vars.lastActivityStatusSent ∧
    pipelineUpdates vars ((.onProgress summary, reading) :: calls) =
      .progress summary newBatch reading.decodeErrors reading.nowUnixMs ::
        pipelineUpdates vars' calls := by
  refine ⟨_, (vars.progress summary reading.decodeErrors reading.nowUnixMs).2, ?_, rfl⟩
  unfold CallbackVars.progress
  dsimp only
  split <;> rfl

/-- What is published last is recent, or nothing is published, where all that is announced comes
within a second after what was sent before. -/
theorem shows_pipelineUpdates :
    ShowsRecent (announcements calls)
        ((pipelineUpdates vars calls).filterMap StatusUpdate.observed).getLast? ∨
      (pipelineUpdates vars calls).filterMap StatusUpdate.observed = [] ∧
        (announcements calls ≠ [] →
          ∃ last ∈ vars.lastActivityStatusSent, Within last (announcements calls)) := by
  induction calls generalizing vars with
  | nil => exact .inr ⟨rfl, fun hne => absurd rfl hne⟩
  | cons call calls ih =>
      obtain ⟨c, reading⟩ := call
      cases c with
      | onProgress summary =>
          obtain ⟨newBatch, vars', hsame, hupdates⟩ :=
            pipelineUpdates_progress vars calls reading summary
          have hrest := ih vars'
          rw [hsame] at hrest
          rw [hupdates, List.filterMap_cons_none rfl]
          exact hrest
      | onActivity activity =>
          rw [pipelineUpdates_activity]
          by_cases hrecent : vars.lastActivityStatusSent.any
              fun last => reading.now - last < nanosPerSecond
          · rw [if_pos hrecent]
            refine (ih vars).imp (fun h => h.cons _) fun ⟨hnone, hwithin⟩ => ⟨hnone, fun _ => ?_⟩
            obtain ⟨last, hlast, hnow⟩ := (Option.any_eq_true _ _).mp hrecent
            refine ⟨last, hlast, fun later hlater => ?_⟩
            rcases List.mem_cons.mp hlater with rfl | hlater
            · exact of_decide_eq_true hnow
            · obtain ⟨last', hlast', hrest⟩ := hwithin (List.ne_nil_of_mem hlater)
              rw [hlast] at hlast'
              cases hlast'
              exact hrest later hlater
          · -- this one is published, and the others came within a second or were published, too
            rw [if_neg hrecent, List.filterMap_cons_some (f := StatusUpdate.observed) rfl]
            rcases ih { vars with lastActivityStatusSent := some reading.now } with hshows | hnone
            · have hlast := hshows.cons (activity, reading)
              obtain ⟨_, _, _, _, -, -, hobserved⟩ := hshows
              rw [List.getLast?_cons, hobserved, Option.getD_some, ← hobserved]
              exact .inl hlast
            · rw [hnone.1]
              refine .inl ⟨[], activity, reading, announcements calls, rfl, fun later hlater => ?_,
                rfl⟩
              obtain ⟨last, hlast, hwithin⟩ := hnone.2 (List.ne_nil_of_mem hlater)
              cases hlast
              exact hwithin later hlater
      | _ => exact ih vars

end Published

/-! ## The answer in the course of a run -/

/-- In the run no callback of the pipeline sends while the one of the producer stands between its
read and its send. -/
abbrev UndisturbedRun (streamName : String) (x : SharedStatus)
    (steps : List (HalfStep StatusTask)) : Prop :=
  SafeRun (statusStep streamName) (SharedValue.Safe fun sent _ => sent.isReconnect = false) x steps

def observedView (streamName : String) :
    View (StatusUpdate.apply streamName) (Option Nat × Option Nat) :=
  .overwriting (fun status => (status.live.getD .default).observed) StatusUpdate.observed fun update
    status => by
      cases update with
      | reconnect event =>
          obtain ⟨retryAttempt, delay, errorKind, errorMessage, fromSlot⟩ := event
          cases fromSlot <;> rfl
      | progress summary newBatch decodeErrors nowUnixMs => cases newBatch <;> rfl
      | activity slot nowUnixMs => rfl

/-- What the snapshot is in an undisturbed run. -/
structure AnswerInv (streamName : String) (start : StatusSnapshot)
    (plan : StatusTask → List StatusUpdate) (x : SharedStatus) : Prop where
  keeps : x.Keeps StatusUpdate.task plan
  batch : (batchView streamName).Current ((batchView streamName).view start) x
  observed : (observedView streamName).Current ((observedView streamName).view start) x
  live : x.value.live.isSome = true

section Runs

variable {streamName : String} {start : StatusSnapshot} {plan : StatusTask → List StatusUpdate}
  {x y : SharedStatus}

theorem answerInv_initial (hlive : start.live.isSome = true) :
    AnswerInv streamName start plan (.initial start plan) where
  keeps := SharedValue.keeps_initial StatusUpdate.task start plan
  batch := View.current_initial start plan
  observed := View.current_initial start plan
  live := hlive

theorem AnswerInv.step (hplan : ∀ task, ∀ update ∈ plan task, update.task = task)
    (h : AnswerInv streamName start plan x) {i : HalfStep StatusTask}
    (hsafe : x.Safe (fun sent _ => sent.isReconnect = false) i)
    (hstep : statusStep streamName x i = some y) : AnswerInv streamName start plan y where
  keeps := h.keeps.step hplan hstep
  batch := by
    refine h.batch.step (fun sent held hsent _ => ?_) hsafe hstep
    cases sent with
    | progress => rfl
    | reconnect | activity => cases hsent
  observed := by
    refine h.observed.step (fun sent held hsent _ => ?_) hsafe hstep
    cases sent with
    | activity => rfl
    | reconnect | progress => cases hsent
  live := by
    obtain ⟨_, _, _, -, -, -, rfl⟩ | ⟨_, update, old, -, -, rfl⟩ := SharedValue.step_cases hstep
    · exact h.live
    · exact apply_live update old

theorem AnswerInv.run (hplan : ∀ task, ∀ update ∈ plan task, update.task = task)
    (h : AnswerInv streamName start plan x) {steps : List (HalfStep StatusTask)}
    (hsafe : UndisturbedRun streamName x steps)
    (hrun : runSteps (statusStep streamName) x steps = some y) :
    AnswerInv streamName start plan y := by
  have hboth : ∀ (x : SharedStatus) (i : HalfStep StatusTask) (y : SharedStatus),
      AnswerInv streamName start plan x → x.Safe (fun sent _ => sent.isReconnect = false) i →
      statusStep streamName x i = some y → AnswerInv streamName start plan y ∧ True :=
    fun _ _ _ hinv hsafe hstep => ⟨hinv.step hplan hsafe hstep, trivial⟩
  exact (hsafe.induction hboth (fun _ => trivial) (fun _ _ _ _ _ => trivial) hrun h).1

end Runs

/-! ## The answer -/

theorem filterMap_of_pipeline {β : Type} {f : StatusUpdate → Option β}
    (h : ∀ event, f (.reconnect event) = none) (updates : List StatusUpdate) :
    (updates.filter fun update => update.task = .pipeline).filterMap f = updates.filterMap f := by
  rw [List.filterMap_filter]
  congr 1
  funext update
  cases update with
  | reconnect event => exact (h event).symm
  | progress | activity => rfl

theorem announcements_activities (calls : List (PipelineCall × CallbackReading)) :
    (announcements calls).map Prod.fst = (calls.map Prod.fst).flatMap activities := by
  induction calls with
  | nil => rfl
  | cons call calls ih =>
      rw [announcements, List.flatMap_cons, List.map_append, ← announcements, ih, List.map_cons,
        List.flatMap_cons]
      obtain ⟨c, reading⟩ := call
      cases c <;> rfl

/-- What was reported last. -/
def reportedBy (config : PipelineConfig) (done : List (PipelineCall × CallbackReading)) :
    PipelineSummary :=
  ((done.map Prod.fst).flatMap reports).getLastD config.startSummary

/-- The answer is about no event, where none was announced, or about one that all later ones
followed within a second; the lag is that behind the last report. -/
def LiveProducerStatus.AnswersFor (live : LiveProducerStatus) (config : PipelineConfig)
    (done : List (PipelineCall × CallbackReading)) (nowUnixMs : Nat) : Prop :=
  (announcements done = [] ∧ live.lastObservedSlot = none ∧ live.secondsSinceLastEvent = none ∧
    live.observedToPersistedSlotLag = none) ∨
  ∃ earlier activity reading later, announcements done = earlier ++ (activity, reading) :: later ∧
    Within reading.now later ∧ live.lastObservedSlot = some activity.slot ∧
    live.secondsSinceLastEvent = some (secondsBetween reading.nowUnixMs nowUnixMs) ∧
    live.observedToPersistedSlotLag =
      (reportedBy config done).lastPersistedSlot.map fun slot => activity.slot - slot

section Answer

variable {config : PipelineConfig} {streamName : String} {frontier : FinalizedFrontier}
  {reconnects : List YellowstoneReconnectEvent} {calls : List (PipelineCall × CallbackReading)}
  {x : SharedStatus}

theorem AnswerInv.answersFor
    (h : AnswerInv streamName (initialStatus streamName config frontier)
      (statusPlan reconnects calls) x) {done : List (PipelineCall × CallbackReading)}
    (hdone : x.sent.filter (fun update => update.task = .pipeline) = pipelineUpdates .initial done)
    (nowUnixMs : Nat) : ∃ live, (statusHandler x.value nowUnixMs).live = some live ∧
      live.AnswersFor config done nowUnixMs := by
  obtain ⟨live, hlive⟩ := Option.isSome_iff_exists.mp h.live
  have hbatch := h.batch.value.trans (foldl_batchView streamName x.sent config.startSummary)
  rw [← filterMap_pipeline, hdone, pipelineUpdates_summaries] at hbatch
  have hpersisted : x.value.lastPersistedSlot = (reportedBy config done).lastPersistedSlot :=
    (Prod.mk.inj hbatch).1
  have hobserved := h.observed.overwritten
  rw [← filterMap_of_pipeline (fun _ => rfl), hdone, hlive] at hobserved
  refine ⟨(live.refreshStalenessAt nowUnixMs).refreshSlotLag x.value.lastPersistedSlot, ?_, ?_⟩
  · show x.value.live.map _ = _
    rw [hlive]
    rfl
  rcases shows_pipelineUpdates .initial done with hshows | ⟨hnone, hwithin⟩
  · obtain ⟨earlier, activity, reading, later, hsplit, hrecent, hlast⟩ := hshows
    rw [List.getLastD_eq_getLast?, hlast] at hobserved
    obtain ⟨hslot, hat⟩ := Prod.mk.inj hobserved
    have hslot : live.lastObservedSlot = some activity.slot := hslot
    have hat : live.lastEventAtUnixMs = some reading.nowUnixMs := hat
    refine .inr ⟨earlier, activity, reading, later, hsplit, hrecent, hslot, ?_, ?_⟩
    · show live.lastEventAtUnixMs.map _ = _
      rw [hat]
      rfl
    · show live.lastObservedSlot.bind _ = _
      rw [hslot, hpersisted]
      rfl
  · rw [hnone] at hobserved
    obtain ⟨hslot, hat⟩ := Prod.mk.inj hobserved
    have hslot : live.lastObservedSlot = none := hslot
    have hat : live.lastEventAtUnixMs = none := hat
    refine .inl ⟨?_, hslot, ?_, ?_⟩
    · by_contra hne
      obtain ⟨last, hlast, -⟩ := hwithin hne
      cases hlast
    · show live.lastEventAtUnixMs.map _ = _
      rw [hat]
      rfl
    · show live.lastObservedSlot.bind _ = _
      rw [hslot]
      rfl

/-- The callbacks of which the pipeline has sent what they send. -/
def SentBy (calls : List (PipelineCall × CallbackReading)) (x : SharedStatus)
    (done : List (PipelineCall × CallbackReading)) : Prop :=
  done <+: calls ∧
    x.sent.filter (fun update => update.task = .pipeline) = pipelineUpdates .initial done

/-- No callback sends more than one snapshot. -/
theorem pipelineUpdates_cons (vars : CallbackVars) (call : PipelineCall × CallbackReading) :
    ∃ (first : Option StatusUpdate) (vars' : CallbackVars), ∀ calls,
      pipelineUpdates vars (call :: calls) = first.toList ++ pipelineUpdates vars' calls := by
  obtain ⟨c, reading⟩ := call
  cases c with
  | onProgress summary => exact ⟨some _, _, fun _ => rfl⟩
  | onActivity activity => exact ⟨_, _, fun _ => rfl⟩
  | _ => exact ⟨none, vars, fun _ => rfl⟩

theorem exists_sentBy (vars : CallbackVars) (calls : List (PipelineCall × CallbackReading))
    {updates : List StatusUpdate} (h : updates <+: pipelineUpdates vars calls) :
    ∃ done, done <+: calls ∧ updates = pipelineUpdates vars done := by
  induction calls generalizing vars updates with
  | nil => exact ⟨[], List.prefix_rfl, List.prefix_nil.mp h⟩
  | cons call calls ih =>
      obtain ⟨first, vars', hcall⟩ := pipelineUpdates_cons vars call
      have hmore {rest : List StatusUpdate} (hrest : rest <+: pipelineUpdates vars' calls) :
          ∃ done, done <+: call :: calls ∧
            first.toList ++ rest = pipelineUpdates vars done := by
        obtain ⟨done, hdone, rfl⟩ := ih vars' hrest
        exact ⟨call :: done, List.prefix_cons_iff.mpr (.inr ⟨done, rfl, hdone⟩), (hcall done).symm⟩
      rw [hcall] at h
      cases first with
      | none => exact hmore h
      | some update =>
          rcases List.prefix_cons_iff.mp h with rfl | ⟨rest, rfl, hrest⟩
          · exact ⟨[], List.nil_prefix, rfl⟩
          · exact hmore hrest

theorem reportedBy_calls {W C S : Type} {events : List NormalizedEvent} {tr : PipelineTrace W C S}
    {summary : PipelineSummary} (hpipeline : Program.Runs
      ((eventReceiverPipeline config streamName).whole events) tr (.pure summary))
    (hcalls : calls.map Prod.fst = Program.calls tr) : reportedBy config calls = summary := by
  obtain ⟨state, front, back, rfl, -, hfinish⟩ := hpipeline.of_bind
  obtain ⟨earlier, rfl⟩ := exists_finishing_report hfinish
  rw [reportedBy, hcalls, Program.calls, ← List.append_assoc, List.map_append, List.flatMap_append]
  exact List.getLastD_concat ..

/-- At every moment of an undisturbed run the answer is about one of the events announced so far,
which all later ones followed within a second, and the lag is that of this event behind the last
report.  Once the run has completed there is no lag. -/
theorem status_answer {W C S : Type} {events : List NormalizedEvent} {tr : PipelineTrace W C S}
    {q : PipelineProgram W C S PipelineSummary}
    (hpipeline : Program.Runs ((eventReceiverPipeline config streamName).whole events) tr q)
    (hdepth : ∀ a ∈ tr, ReadsWithin config.channelCapacity a.1 a.2)
    (hcalls : calls.map Prod.fst = Program.calls tr) {steps : List (HalfStep StatusTask)}
    (hrun : runSteps (statusStep streamName) (.initial (initialStatus streamName config frontier)
      (statusPlan reconnects calls)) steps = some x)
    (hsafe : UndisturbedRun streamName (.initial (initialStatus streamName config frontier)
      (statusPlan reconnects calls)) steps) (nowUnixMs : Nat) :
    (∃ done, SentBy calls x done) ∧ ∃ live, (statusHandler x.value nowUnixMs).live = some live ∧
      (∀ done, SentBy calls x done → live.AnswersFor config done nowUnixMs) ∧
      (x.Finished → ∀ summary, q = .pure summary →
        ∀ lag ∈ live.observedToPersistedSlotLag, lag = 0) := by
  have hx := (answerInv_initial rfl).run (statusPlan_task reconnects calls) hsafe hrun
  have hprefix : x.sent.filter (fun update => update.task = .pipeline) <+:
      pipelineUpdates .initial calls := by
    have hkeeps := hx.keeps .pipeline
    rw [List.append_assoc] at hkeeps
    exact ⟨_, hkeeps⟩
  obtain ⟨done, hdone, hsent⟩ := exists_sentBy .initial calls hprefix
  obtain ⟨live, hlive, -⟩ := hx.answersFor hsent nowUnixMs
  have hanswers {done : List (PipelineCall × CallbackReading)}
      (hsent : x.sent.filter (fun update => update.task = .pipeline) =
        pipelineUpdates .initial done) : live.AnswersFor config done nowUnixMs := by
    obtain ⟨live', hlive', hanswers⟩ := hx.answersFor hsent nowUnixMs
    rw [hlive] at hlive'
    cases hlive'
    exact hanswers
  refine ⟨⟨done, hdone, hsent⟩, live, hlive, fun done h => hanswers h.2, ?_⟩
  rintro hfinished summary rfl lag hlag
  rcases hanswers (hx.keeps.finished hfinished .pipeline) with ⟨-, -, -, hnone⟩ |
    ⟨earlier, activity, reading, later, hsplit, -, -, -, hsome⟩
  · rw [hnone] at hlag
    cases hlag
  · -- the event was announced, so the run has persisted up to its slot at least
    have hannounced : activity ∈ announced tr := by
      rw [announced, ← hcalls, ← announcements_activities, hsplit, List.map_append, List.map_cons]
      exact List.mem_append_right _ List.mem_cons_self
    have hall := (announcing_pipeline streamName).post_of_records hpipeline hdepth
    obtain ⟨event, hevent, hannounces⟩ := announces_of_mem hall hannounced
    obtain ⟨slot, hpersisted, hle⟩ := exists_le_of_whole hpipeline hevent
    rw [hsome, reportedBy_calls hpipeline hcalls, hpersisted, hannounces.slot] at hlag
    cases hlag
    exact Nat.sub_eq_zero_of_le hle

end Answer

theorem status_answer_one_batch : ∃ x, (runSteps (statusStep "test") oneBatchStart
      ([StatusTask.pipeline, .producer, .pipeline, .pipeline].flatMap fun task =>
        [.read task, .send task]) = some x ∧ x.Finished) ∧
    ∃ live, (statusHandler x.value 5000).live = some live ∧
      ∀ lag ∈ live.observedToPersistedSlotLag, lag = 0 := by
  have hrun : (runSteps (statusStep "test") oneBatchStart ([StatusTask.pipeline, .producer,
      .pipeline, .pipeline].flatMap fun task => [.read task, .send task])).map (fun x =>
        taskDone x .producer && taskDone x .pipeline) = some true := by decide
  rw [Option.map_eq_some_iff] at hrun
  obtain ⟨x, hx, hdone⟩ := hrun
  have hfinished := finished_of_done hdone
  have hdepth : ∀ a ∈ oneBatchRun, ReadsWithin 1 a.1 a.2 := by
    simp [oneBatchRun, ReadsWithin]
  obtain ⟨-, live, hlive, -, hlag⟩ := status_answer oneBatchRun_runs hdepth rfl hx
    (SharedValue.safeRun_sequential (fun _ => rfl) _) 5000
  exact ⟨x, ⟨hx, hfinished⟩, live, hlive, hlag hfinished _ rfl⟩

end YellowstoneStream.App

import YellowstoneStream.Stream.Pipeline

/-!
# The store calls of the pipeline

The consumer issues, batch after batch, the write, the cursor update, the slot states and the
advance, each only after the ones before returned Ok, and stops at the first error.
-/

open YellowstoneStream.Domain YellowstoneStream.Reasoning YellowstoneStream.Storage

namespace YellowstoneStream.Stream

variable {W C S : Type}

def failureOf : (c : PipelineCall) → PipelineCall.Reply W C S c → Option (PipelineError W C S)
  | .writeBatch _, reply =>
      match reply with
      | .error err => some (.write err)
      | .ok _ => none
  | .updateAfterBatch .., reply =>
      match reply with
      | .error err => some (.cursor err)
      | .ok _ => none
  | .recordSlotStates .., reply =>
      match reply with
      | .error err => some (.slotState err)
      | .ok _ => none
  | .advanceContiguousFinalized _, reply =>
      match reply with
      | .error err => some (.slotState err)
      | .ok _ => none
  | .channelLen, _ | .onActivity _, _ | .onProgress _, _ | .batchElapsed, _ => none

abbrev PipelineTrace (W C S : Type) := List (Answered (PipelineCall.Reply W C S))

def storeTrace (tr : PipelineTrace W C S) : PipelineTrace W C S :=
  Program.issued PipelineCall.isStore tr

def slotStates (batch : List NormalizedEvent) : List SlotStateUpdate :=
  batch.filterMap slotStateFromEvent

def slotCalls (streamName : String) (advanceFinalizedWatermark : Bool)
    (states : List SlotStateUpdate) : List PipelineCall :=
  if states.isEmpty then []
  else
    .recordSlotStates streamName states ::
      if advanceFinalizedWatermark && states.any SlotStateUpdate.finalized then
        [.advanceContiguousFinalized streamName]
      else []

/-- The store calls of one batch. -/
def batchCalls (streamName : String) (advanceFinalizedWatermark : Bool)
    (batch : List NormalizedEvent) : List PipelineCall :=
  .writeBatch batch ::
    ((batch.map NormalizedEvent.slot).max?.toList.map (.updateAfterBatch streamName) ++
      slotCalls streamName advanceFinalizedWatermark (slotStates batch))

def keptEvents (config : PipelineConfig) (events : List NormalizedEvent) : List NormalizedEvent :=
  events.filter fun event =>
    !shouldSkipEvent event config.resumeAfterSlot config.useSlotResume

def batchesOf (config : PipelineConfig) (events : List NormalizedEvent) :
    List (List NormalizedEvent) :=
  chunks config.batchSize (keptEvents config events)

/-! ## Counters -/

/-- The summary without what the clock put into it. -/
def PipelineSummary.counters (summary : PipelineSummary) : PipelineSummary :=
  { summary with
    totalBatchWriteDuration := 0, maxBatchWriteDuration := 0, lastBatchWriteDuration := 0 }

/-- What an answered store call adds to the counters. -/
def tallyReply (summary : PipelineSummary) :
    Answered (PipelineCall.Reply W C S) → PipelineSummary
  | ⟨.writeBatch _, .ok written⟩ =>
      { summary with
        eventsSkipped := summary.eventsSkipped + written.skipped
        batchesWritten := summary.batchesWritten + 1
        writeSummary := summary.writeSummary.add written }
  | ⟨.updateAfterBatch _ slot, .ok _⟩ =>
      { summary with
        lastPersistedSlot := some ((summary.lastPersistedSlot.map (max · slot)).getD slot) }
  | ⟨.advanceContiguousFinalized _, .ok frontier⟩ =>
      { summary with
        lastContiguousFinalizedSlot := frontier.lastContiguousFinalizedSlot
        lastFinalizedSlot := frontier.lastFinalizedSlot }
  | _ => summary

def tally (summary : PipelineSummary) (tr : PipelineTrace W C S) : PipelineSummary :=
  tr.foldl tallyReply summary

def PipelineSummary.add (summary : PipelineSummary) (seen skipped batches : Nat)
    (written : WriteSummary) : PipelineSummary :=
  { summary with
    eventsSeen := summary.eventsSeen + seen
    eventsSkipped := summary.eventsSkipped + skipped
    batchesWritten := summary.batchesWritten + batches
    writeSummary := summary.writeSummary.add written }

/-- The counters of a run over the events, before any store answered. -/
def initialCounters (config : PipelineConfig) (events : List NormalizedEvent) : PipelineSummary :=
  { PipelineSummary.default with
    lastPersistedSlot := config.resumeAfterSlot
    eventsSeen := events.length
    eventsSkipped := events.countP fun event =>
      shouldSkipEvent event config.resumeAfterSlot config.useSlotResume }

theorem writeSummary_add_right_comm (a b c : WriteSummary) : (a.add b).add c = (a.add c).add b := by
  simp only [WriteSummary.add, WriteSummary.mk.injEq]
  omega

theorem tallyReply_add (summary : PipelineSummary) (seen skipped batches : Nat)
    (written : WriteSummary) (a : Answered (PipelineCall.Reply W C S)) :
    tallyReply (summary.add seen skipped batches written) a =
      (tallyReply summary a).add seen skipped batches written := by
  obtain ⟨c, reply⟩ := a
  cases c with
  | writeBatch batch =>
      cases reply with
      | ok w =>
          simp only [tallyReply, PipelineSummary.add, PipelineSummary.mk.injEq, and_true, true_and,
            writeSummary_add_right_comm _ written w]
          omega
      | error err => rfl
  | updateAfterBatch name slot => cases reply <;> rfl
  | advanceContiguousFinalized name => cases reply <;> rfl
  | _ => rfl

theorem tally_add (summary : PipelineSummary) (seen skipped batches : Nat)
    (written : WriteSummary) (tr : PipelineTrace W C S) :
    tally (summary.add seen skipped batches written) tr =
      (tally summary tr).add seen skipped batches written := by
  induction tr generalizing summary with
  | nil => rfl
  | cons a tr ih =>
      rw [tally, List.foldl_cons, tallyReply_add, ← tally, ih]
      rfl

theorem tally_append (summary : PipelineSummary) (tr tr' : PipelineTrace W C S) :
    tally summary (tr ++ tr') = tally (tally summary tr) tr' :=
  List.foldl_append

/-! ## The consumer follows the plan -/

abbrev FollowsCalls (plan : List PipelineCall) {α : Type} (post : PipelineTrace W C S → α → Prop)
    (p : PipelineProgram W C S α) : Prop :=
  Program.Follows PipelineCall.isStore failureOf plan post p

theorem follows_callback {α : Type} {c : PipelineCall} (hc : c.isStore = false)
    {plan : List PipelineCall} {post : PipelineTrace W C S → α → Prop}
    {f : PipelineCall.Reply W C S c → PipelineProgram W C S α}
    (h : ∀ r, FollowsCalls plan post (f r)) : FollowsCalls plan post ((perform c).bind f) :=
  .other hc h

/-- A store call whose reply is thrown on when it is an error. -/
theorem follows_store {α : Type} {c : PipelineCall} (hc : c.isStore = true)
    {plan : List PipelineCall} {post : PipelineTrace W C S → α → Prop}
    {f : PipelineCall.Reply W C S c → PipelineProgram W C S α}
    (hok : ∀ r, failureOf c r = none →
      FollowsCalls plan (fun tr a => post (⟨c, r⟩ :: tr) a) (f r))
    (herr : ∀ r e, failureOf c r = some e → f r = .throw e) :
    FollowsCalls (c :: plan) post ((perform c).bind f) :=
  .issue hc hok herr

theorem follows_persistCursor (streamName : String) (lastSlot : Option Nat)
    (summary : PipelineSummary) :
    FollowsCalls (W := W) (C := C) (S := S)
      (lastSlot.toList.map (.updateAfterBatch streamName))
      (fun tr summary' => summary'.counters = tally summary.counters tr)
      (persistCursor streamName lastSlot summary) := by
  cases lastSlot with
  | none => exact .pure rfl
  | some slot =>
      refine follows_store rfl ?_ ?_
      · intro reply hreply
        cases reply with
        | error err => cases hreply
        | ok updated => exact .pure rfl
      · intro reply e he
        cases reply with
        | error err => cases he; rfl
        | ok updated => cases he

theorem follows_persistSlotStates (streamName : String) (advanceFinalizedWatermark : Bool)
    (states : List SlotStateUpdate) (summary : PipelineSummary) :
    FollowsCalls (W := W) (C := C) (S := S)
      (slotCalls streamName advanceFinalizedWatermark states)
      (fun tr summary' => summary'.counters = tally summary.counters tr)
      (persistSlotStates streamName advanceFinalizedWatermark states summary) := by
  rw [slotCalls, persistSlotStates]
  split
  · exact .pure rfl
  refine follows_store rfl ?_ ?_
  · intro reply hreply
    cases reply with
    | error err => cases hreply
    | ok recorded =>
        simp only [Program.orThrow, Program.bind_eq, Program.pure_bind]
        -- the advance follows only where a recorded state is finalized
        split
        · refine follows_store rfl ?_ ?_
          · intro reply hreply
            cases reply with
            | error err => cases hreply
            | ok frontier => exact .pure rfl
          · intro reply e he
            cases reply with
            | error err => cases he; rfl
            | ok frontier => cases he
        · exact .pure rfl
  · intro reply e he
    cases reply with
    | error err => cases he; rfl
    | ok recorded => cases he

theorem follows_writeBatch (streamName : String) (advanceFinalizedWatermark : Bool)
    (batch : List NormalizedEvent) (summary : PipelineSummary) :
    FollowsCalls (W := W) (C := C) (S := S)
      (batchCalls streamName advanceFinalizedWatermark batch)
      (fun tr summary' => summary'.counters = tally summary.counters tr)
      (writeBatch streamName advanceFinalizedWatermark batch summary) := by
  rw [writeBatch, batchCalls]
  refine follows_store rfl ?_ ?_
  · intro reply hreply
    cases reply with
    | error err => cases hreply
    | ok written =>
        refine follows_callback rfl fun batchDuration => ?_
        refine (follows_persistCursor streamName _ _).bind fun tr s hs => ?_
        rw [← List.append_nil (slotCalls _ _ _)]
        refine (follows_persistSlotStates streamName _ _ s).bind fun tr' s' hs' => .pure ?_
        -- the two counters raised last are those the reply of the write accounts for
        have htally : s'.counters = tally (summary.counters.add 0 written.skipped 0 .default)
            (tr ++ tr') := by
          rw [tally_append, hs', hs]
          rfl
        rw [tally_add] at htally
        rw [List.append_nil]
        show s'.counters.add 0 0 1 written =
          tally (summary.counters.add 0 written.skipped 1 written) (tr ++ tr')
        rw [htally, tally_add]
        rfl
  · intro reply e he
    cases reply with
    | error err => cases he; rfl
    | ok written => cases he

/-- The calls made on behalf of one received event: those of the batch it completes. -/
def eventCalls (config : PipelineConfig) (streamName : String) (events : List NormalizedEvent)
    (event : NormalizedEvent) : List PipelineCall :=
  if shouldSkipEvent event config.resumeAfterSlot config.useSlotResume then []
  else (completed config.batchSize (keptEvents config events) event).flatMap
    (batchCalls streamName config.advanceFinalizedWatermark)

theorem keptEvents_snoc (config : PipelineConfig) (events : List NormalizedEvent)
    (event : NormalizedEvent) :
    keptEvents config (events ++ [event]) = keptEvents config events ++
      if shouldSkipEvent event config.resumeAfterSlot config.useSlotResume then []
      else [event] := by
  rw [keptEvents, List.filter_append, ← keptEvents]
  congr 1
  cases h : shouldSkipEvent event config.resumeAfterSlot config.useSlotResume <;> simp [h]

theorem follows_receiveEvent (config : PipelineConfig) (streamName : String)
    {events : List NormalizedEvent} {state : ReceiverState}
    (hstate : state.batcher.Holds config.batchSize (keptEvents config events))
    (event : NormalizedEvent) :
    FollowsCalls (W := W) (C := C) (S := S) (eventCalls config streamName events event)
      (fun tr state' =>
        state'.batcher.Holds config.batchSize (keptEvents config (events ++ [event])) ∧
        state'.summary.counters = tally (state.summary.counters.add 1
          (if shouldSkipEvent event config.resumeAfterSlot config.useSlotResume then 1 else 0)
          0 .default) tr)
      (receiveEvent config streamName state event) := by
  rw [keptEvents_snoc, receiveEvent, eventCalls]
  refine follows_callback rfl fun depth => follows_callback rfl fun _ => ?_
  by_cases hskip : shouldSkipEvent event config.resumeAfterSlot config.useSlotResume
  · -- a skipped event is counted and never reaches the batcher
    simp only [if_pos hskip, List.append_nil]
    exact .pure ⟨hstate, rfl⟩
  · obtain ⟨hholds, hchunk⟩ := Batcher.push_holds hstate event
    simp only [if_neg hskip, ← hchunk]
    rcases hpush : state.batcher.push event with ⟨batch?, batcher⟩
    rw [hpush] at hholds
    cases batch? with
    | none => exact .pure ⟨hholds, rfl⟩
    | some batch =>
        rw [Option.toList_some, List.flatMap_singleton, ← List.append_nil (batchCalls _ _ _)]
        refine (follows_writeBatch streamName _ batch _).bind fun tr summary hsummary => ?_
        refine follows_callback rfl fun _ => .pure ⟨hholds, ?_⟩
        rw [List.append_nil]
        exact hsummary

theorem initialCounters_snoc (config : PipelineConfig) (events : List NormalizedEvent)
    (event : NormalizedEvent) :
    initialCounters config (events ++ [event]) = (initialCounters config events).add 1
      (if shouldSkipEvent event config.resumeAfterSlot config.useSlotResume then 1 else 0)
      0 .default := by
  simp only [initialCounters, List.length_append, List.countP_append, List.countP_singleton]
  rfl

theorem eventCalls_snoc (config : PipelineConfig) (streamName : String)
    (events : List NormalizedEvent) (event : NormalizedEvent) :
    (fullChunks config.batchSize (keptEvents config (events ++ [event]))).flatMap
        (batchCalls streamName config.advanceFinalizedWatermark) =
      (fullChunks config.batchSize (keptEvents config events)).flatMap
        (batchCalls streamName config.advanceFinalizedWatermark) ++
      eventCalls config streamName events event := by
  rw [keptEvents_snoc, eventCalls]
  split
  · rw [List.append_nil, List.append_nil]
  · rw [fullChunks_snoc, List.flatMap_append]

/-- Having received the events, the consumer has issued the calls of their full batches. -/
theorem follows_consume {config : PipelineConfig} (hsize : 0 < config.batchSize)
    (streamName : String) (events : List NormalizedEvent) :
    FollowsCalls (W := W) (C := C) (S := S)
      ((fullChunks config.batchSize (keptEvents config events)).flatMap
        (batchCalls streamName config.advanceFinalizedWatermark))
      (fun tr state =>
        state.batcher.Holds config.batchSize (keptEvents config events) ∧
        state.summary.counters = tally (initialCounters config events) tr)
      ((eventReceiverPipeline config streamName).consume events) := by
  induction events using List.reverseRecOn with
  | nil =>
      obtain ⟨batcher, hbatcher⟩ := Batcher.new_of_pos hsize
      rw [Worker.consume_nil, eventReceiverPipeline, startReceiving, hbatcher]
      exact follows_callback rfl fun _ => .pure ⟨(Batcher.new_holds hbatcher).2, rfl⟩
  | append_singleton events event ih =>
      rw [Worker.consume_snoc]
      rw [eventCalls_snoc]
      refine ih.bind fun tr state hstate => ?_
      refine (follows_receiveEvent config streamName hstate.1 event).mono fun tr' state' h => ?_
      rw [initialCounters_snoc, tally_append, tally_add, ← hstate.2]
      exact h

theorem follows_finishReceiving (config : PipelineConfig) (streamName : String)
    (state : ReceiverState) :
    FollowsCalls (W := W) (C := C) (S := S)
      (state.batcher.flush.1.toList.flatMap
        (batchCalls streamName config.advanceFinalizedWatermark))
      (fun tr summary => summary.counters = tally state.summary.counters tr)
      (finishReceiving config streamName state) := by
  rw [finishReceiving]
  cases state.batcher.flush.1 with
  | none => exact follows_callback rfl fun _ => .pure rfl
  | some batch =>
      rw [Option.toList_some, List.flatMap_singleton, ← List.append_nil (batchCalls _ _ _)]
      refine (follows_writeBatch streamName _ batch _).bind fun tr summary hsummary => ?_
      refine follows_callback rfl fun _ => .pure ?_
      rw [List.append_nil]
      exact hsummary

/-- The consumer issues the calls of all batches in order; its counters are their tally. -/
theorem follows_pipeline {config : PipelineConfig} (hsize : 0 < config.batchSize)
    (streamName : String) (events : List NormalizedEvent) :
    FollowsCalls (W := W) (C := C) (S := S)
      ((batchesOf config events).flatMap (batchCalls streamName config.advanceFinalizedWatermark))
      (fun tr summary => summary.counters = tally (initialCounters config events) tr)
      ((eventReceiverPipeline config streamName).whole events) := by
  obtain ⟨batcher, hbatcher⟩ := Batcher.new_of_pos hsize
  have hflush : (batchesOf config events).flatMap
        (batchCalls streamName config.advanceFinalizedWatermark) =
      (fullChunks config.batchSize (keptEvents config events)).flatMap
        (batchCalls streamName config.advanceFinalizedWatermark) ++
      (if (remainder config.batchSize (keptEvents config events)).isEmpty then []
        else [remainder config.batchSize (keptEvents config events)]).flatMap
        (batchCalls streamName config.advanceFinalizedWatermark) := List.flatMap_append
  rw [hflush]
  refine (follows_consume hsize streamName events).bind fun tr state hstate => ?_
  have hcalls := Batcher.flush_holds hstate.1
  rw [← hcalls]
  refine (follows_finishReceiving config streamName state).mono fun tr' summary h => ?_
  rw [tally_append, ← hstate.2]
  exact h

theorem consume_of_batchSize_zero {config : PipelineConfig} (hsize : config.batchSize = 0)
    (streamName : String) (events : List NormalizedEvent) :
    (eventReceiverPipeline (W := W) (C := C) (S := S) config streamName).consume events =
      .panic := by
  induction events using List.reverseRecOn with
  | nil => rw [Worker.consume_nil, eventReceiverPipeline, startReceiving, hsize, Batcher.new_zero]
  | append_singleton events event ih => rw [Worker.consume_snoc, ih, Program.panic_bind]

/-- A batch size of zero panics before anything is called. -/
theorem runs_of_batchSize_zero {config : PipelineConfig} (hsize : config.batchSize = 0)
    {streamName : String} {events : List NormalizedEvent} {tr : PipelineTrace W C S}
    {q : PipelineProgram W C S PipelineSummary}
    (h : Program.Runs ((eventReceiverPipeline config streamName).whole events) tr q) :
    tr = [] ∧ q = .panic := by
  rw [Worker.whole, consume_of_batchSize_zero hsize, Program.panic_bind] at h
  exact Program.Ended.runs (p := .panic) trivial h

/-! ## The order of the calls -/

theorem mem_slotCalls {streamName : String} {advanceFinalizedWatermark : Bool}
    {states : List SlotStateUpdate} {c : PipelineCall}
    (h : c ∈ slotCalls streamName advanceFinalizedWatermark states) :
    states ≠ [] ∧ (c = .recordSlotStates streamName states ∨
      (c = .advanceContiguousFinalized streamName ∧ advanceFinalizedWatermark = true ∧
        states.any SlotStateUpdate.finalized = true)) := by
  rw [slotCalls] at h
  split at h
  · exact absurd h List.not_mem_nil
  · rename_i hne
    refine ⟨fun hnil => hne (List.isEmpty_iff.mpr hnil), ?_⟩
    rcases List.mem_cons.mp h with rfl | h
    · exact .inl rfl
    · split at h
      · rename_i hflags
        rw [Bool.and_eq_true] at hflags
        exact .inr ⟨List.mem_singleton.mp h, hflags⟩
      · exact absurd h List.not_mem_nil

theorem mem_batchCalls {streamName : String} {advanceFinalizedWatermark : Bool}
    {batch : List NormalizedEvent} {c : PipelineCall}
    (h : c ∈ batchCalls streamName advanceFinalizedWatermark batch) :
    c = .writeBatch batch ∨
    (∃ slot, (batch.map NormalizedEvent.slot).max? = some slot ∧
      c = .updateAfterBatch streamName slot) ∨
    c ∈ slotCalls streamName advanceFinalizedWatermark (slotStates batch) := by
  rw [batchCalls, List.mem_cons, List.mem_append, List.mem_map] at h
  refine h.imp_right (Or.imp_left ?_)
  rintro ⟨slot, hslot, rfl⟩
  exact ⟨slot, Option.mem_toList.mp hslot, rfl⟩

theorem mem_batchCalls_write {streamName : String} {advanceFinalizedWatermark : Bool}
    {batch written : List NormalizedEvent}
    (h : .writeBatch written ∈ batchCalls streamName advanceFinalizedWatermark batch) :
    written = batch := by
  rcases mem_batchCalls h with hc | ⟨_, _, hc⟩ | hc
  · exact PipelineCall.writeBatch.inj hc
  · cases hc
  · rcases (mem_slotCalls hc).2 with hc | ⟨hc, -⟩ <;> cases hc

theorem mem_batchCalls_advance {streamName : String} {advanceFinalizedWatermark : Bool}
    {batch : List NormalizedEvent} {name : String}
    (h : .advanceContiguousFinalized name ∈
      batchCalls streamName advanceFinalizedWatermark batch) :
    name = streamName ∧ slotStates batch ≠ [] ∧ advanceFinalizedWatermark = true ∧
      (slotStates batch).any SlotStateUpdate.finalized = true := by
  rcases mem_batchCalls h with hc | ⟨_, _, hc⟩ | hc
  · cases hc
  · cases hc
  · obtain ⟨hne, hc | ⟨hc, hflags⟩⟩ := mem_slotCalls hc
    · cases hc
    · exact ⟨PipelineCall.advanceContiguousFinalized.inj hc, hne, hflags⟩

/-- Within a batch everything comes after the write, and the advance right after the slot states. -/
theorem batchCalls_order {streamName : String} {advanceFinalizedWatermark : Bool}
    {batch : List NormalizedEvent} {earlier later : List PipelineCall} {c : PipelineCall}
    (h : batchCalls streamName advanceFinalizedWatermark batch = earlier ++ c :: later) :
    (c = .writeBatch batch ∨ .writeBatch batch ∈ earlier) ∧
    ∀ name, c = .advanceContiguousFinalized name →
      .recordSlotStates streamName (slotStates batch) ∈ earlier := by
  constructor
  · -- the write is the first call of the batch
    cases earlier with
    | nil => exact .inl (List.cons.inj h).1.symm
    | cons first earlier => exact .inr ((List.cons.inj h).1 ▸ List.mem_cons_self)
  · rintro name rfl
    have hmem : PipelineCall.advanceContiguousFinalized name ∈
        batchCalls streamName advanceFinalizedWatermark batch := by simp [h]
    obtain ⟨-, hne, hadvance, hfinalized⟩ := mem_batchCalls_advance hmem
    have hstates : ¬ (slotStates batch).isEmpty = true := fun hnil =>
      hne (List.isEmpty_iff.mp hnil)
    have hflags : (advanceFinalizedWatermark &&
        (slotStates batch).any SlotStateUpdate.finalized) = true := by
      rw [hadvance, hfinalized]
      rfl
    rw [batchCalls, slotCalls, if_neg hstates, if_pos hflags] at h
    -- the advance is the last call, and the slot states stand right before it
    set front := PipelineCall.writeBatch batch ::
      ((batch.map NormalizedEvent.slot).max?.toList.map (.updateAfterBatch streamName) ++
        [.recordSlotStates streamName (slotStates batch)]) with hfront
    have hrecord : PipelineCall.recordSlotStates streamName (slotStates batch) ∈ front := by
      simp [hfront]
    have hnone : PipelineCall.advanceContiguousFinalized name ∉ front := by simp [hfront]
    have hsplit : front ++ [.advanceContiguousFinalized streamName] =
        earlier ++ .advanceContiguousFinalized name :: later := by
      rw [← h, hfront, List.cons_append, List.append_assoc]
      rfl
    rcases List.append_eq_append_iff.mp hsplit with ⟨more, rfl, -⟩ | ⟨back, hback, hlast⟩
    · exact List.mem_append_left _ hrecord
    · cases back with
      | nil => rwa [hback, List.append_nil] at hrecord
      | cons call back =>
          rw [hback, ← (List.cons.inj hlast).1] at hnone
          exact absurd (List.mem_append_right _ List.mem_cons_self) hnone

theorem mem_batchCalls_update {streamName : String} {advanceFinalizedWatermark : Bool}
    {batch : List NormalizedEvent} {slot : Nat} :
    .updateAfterBatch streamName slot ∈ batchCalls streamName advanceFinalizedWatermark batch ↔
      (batch.map NormalizedEvent.slot).max? = some slot := by
  constructor
  · intro h
    rcases mem_batchCalls h with hc | ⟨_, hmax, hc⟩ | hc
    · cases hc
    · cases hc
      exact hmax
    · rcases (mem_slotCalls hc).2 with hc | ⟨hc, -⟩ <;> cases hc
  · intro h
    unfold batchCalls
    simp [h]

theorem mem_batchCalls_record {streamName : String} {advanceFinalizedWatermark : Bool}
    {batch : List NormalizedEvent} {name : String} {updates : List SlotStateUpdate}
    (h : .recordSlotStates name updates ∈ batchCalls streamName advanceFinalizedWatermark batch) :
    name = streamName ∧ updates = slotStates batch ∧ updates ≠ [] := by
  rcases mem_batchCalls h with hc | ⟨_, _, hc⟩ | hc
  · cases hc
  · cases hc
  · obtain ⟨hne, hc | ⟨hc, -⟩⟩ := mem_slotCalls hc
    · cases hc
      exact ⟨rfl, rfl, hne⟩
    · cases hc

/-- Among the first calls for a batch the cursor update is the only one of its kind, and the batch is
written before it. -/
theorem updated_of_prefix {streamName : String} {advanceFinalizedWatermark : Bool}
    {batch : List NormalizedEvent} {made : List PipelineCall}
    (h : made <+: batchCalls streamName advanceFinalizedWatermark batch) {last : Nat}
    (hlast : .updateAfterBatch streamName last ∈ made) :
    (∀ slot, .updateAfterBatch streamName slot ∈ made ↔
      (batch.map NormalizedEvent.slot).max? = some slot) ∧ .writeBatch batch ∈ made := by
  constructor
  · intro slot
    constructor
    · intro hslot
      exact mem_batchCalls_update.mp (h.subset hslot)
    · intro hslot
      rw [mem_batchCalls_update.mp (h.subset hlast)] at hslot
      cases hslot
      exact hlast
  · cases made with
    | nil => exact absurd hlast List.not_mem_nil
    | cons first made =>
        rw [batchCalls, List.cons_prefix_cons] at h
        exact h.1 ▸ List.mem_cons_self

/-- The first calls of a plan: the cursor was updated for some batches, all of them written. -/
theorem prefix_batchCalls {streamName : String} {advanceFinalizedWatermark : Bool}
    {batches : List (List NormalizedEvent)} {made : List PipelineCall}
    (h : made <+: batches.flatMap (batchCalls streamName advanceFinalizedWatermark)) :
    ∃ m, (∀ slot, .updateAfterBatch streamName slot ∈ made ↔
        ∃ batch ∈ batches.take m, (batch.map NormalizedEvent.slot).max? = some slot) ∧
      ∀ batch ∈ batches.take m, .writeBatch batch ∈ made := by
  induction batches generalizing made with
  | nil =>
      rw [List.flatMap_nil, List.prefix_nil] at h
      exact ⟨0, by simp [h], by simp⟩
  | cons batch batches ih =>
      rw [List.flatMap_cons] at h
      rcases Nat.le_total made.length
        (batchCalls streamName advanceFinalizedWatermark batch).length with hle | hle
      · -- cut off within the first batch, before or after its cursor update
        have hfirst := List.prefix_of_prefix_length_le h (List.prefix_append _ _) hle
        by_cases hupdated : ∃ slot, .updateAfterBatch streamName slot ∈ made
        · obtain ⟨last, hlast⟩ := hupdated
          obtain ⟨hupdate, hwrite⟩ := updated_of_prefix hfirst hlast
          refine ⟨1, fun slot => ?_, fun b hb => ?_⟩
          · rw [List.take_succ_cons, List.take_zero, hupdate]
            simp only [List.mem_singleton, exists_eq_left]
          · rw [List.take_succ_cons, List.take_zero] at hb
            rwa [List.mem_singleton.mp hb]
        · refine ⟨0, fun slot => ?_, fun b hb => absurd hb List.not_mem_nil⟩
          exact iff_of_false (fun hslot => hupdated ⟨slot, hslot⟩) (by simp)
      · -- the first batch is done, and the rest is cut off within the others
        obtain ⟨more, rfl⟩ := List.prefix_of_prefix_length_le (List.prefix_append _ _) h hle
        obtain ⟨m, hupdates, hwrites⟩ := ih ((List.prefix_append_right_inj _).mp h)
        refine ⟨m + 1, fun slot => ?_, fun b hb => ?_⟩
        · rw [List.take_succ_cons, List.mem_append, hupdates, mem_batchCalls_update]
          simp only [List.mem_cons, or_and_right, exists_or, exists_eq_left]
        · rw [List.take_succ_cons] at hb
          rcases List.mem_cons.mp hb with rfl | hb
          · exact List.mem_append_left _ List.mem_cons_self
          · exact List.mem_append_right _ (hwrites b hb)

theorem exists_max_iff (batches : List (List NormalizedEvent)) (n : Nat) :
    (∃ slot, (∃ batch ∈ batches, (batch.map NormalizedEvent.slot).max? = some slot) ∧ n ≤ slot) ↔
      ∃ event ∈ batches.flatten, n ≤ event.slot := by
  constructor
  · rintro ⟨slot, ⟨batch, hbatch, hmax⟩, hle⟩
    obtain ⟨event, hevent, rfl⟩ := List.mem_map.mp (List.max?_eq_some_iff.mp hmax).1
    exact ⟨event, List.mem_flatten_of_mem hbatch hevent, hle⟩
  · rintro ⟨event, hevent, hle⟩
    obtain ⟨batch, hbatch, hmem⟩ := List.mem_flatten.mp hevent
    have hslot := List.mem_map_of_mem (f := NormalizedEvent.slot) hmem
    cases hmax : (batch.map NormalizedEvent.slot).max? with
    | none =>
        rw [List.max?_eq_none_iff.mp hmax] at hslot
        exact absurd hslot List.not_mem_nil
    | some slot =>
        have hbound := (List.max?_eq_some_iff.mp hmax).2 _ hslot
        exact ⟨slot, ⟨batch, hbatch, hmax⟩, hle.trans hbound⟩

theorem written_of_mem {tr : PipelineTrace W C S}
    (hok : ∀ a ∈ tr, failureOf a.1 a.2 = none) {batch : List NormalizedEvent}
    (h : .writeBatch batch ∈ Program.calls tr) :
    ∃ written, ⟨.writeBatch batch, .ok written⟩ ∈ tr := by
  obtain ⟨⟨c, reply⟩, ha, rfl⟩ := List.mem_map.mp h
  cases reply with
  | ok written => exact ⟨written, ha⟩
  | error err => exact absurd (hok _ ha) nofun

theorem recorded_of_mem {tr : PipelineTrace W C S}
    (hok : ∀ a ∈ tr, failureOf a.1 a.2 = none) {name : String} {updates : List SlotStateUpdate}
    (h : .recordSlotStates name updates ∈ Program.calls tr) :
    ⟨.recordSlotStates name updates, .ok ()⟩ ∈ tr := by
  obtain ⟨⟨c, reply⟩, ha, rfl⟩ := List.mem_map.mp h
  cases reply with
  | ok _ => exact ha
  | error err => exact absurd (hok _ ha) nofun

/-- A store call that is issued belongs to a batch; the calls of the batches before and the earlier
ones of its own are done, and unless it is the write itself, the writes up to its batch are. -/
theorem issued_in_batch {config : PipelineConfig} (hsize : 0 < config.batchSize)
    {streamName : String} {events : List NormalizedEvent} {tr : PipelineTrace W C S}
    {c : PipelineCall} {next : PipelineCall.Reply W C S c → PipelineProgram W C S PipelineSummary}
    (hrun : Program.Runs ((eventReceiverPipeline config streamName).whole events) tr (.call c next))
    (hc : c.isStore = true) :
    ∃ done batch rest earlier later,
      batchesOf config events = done ++ batch :: rest ∧
      batchCalls streamName config.advanceFinalizedWatermark batch = earlier ++ c :: later ∧
      Program.calls (storeTrace tr) =
        done.flatMap (batchCalls streamName config.advanceFinalizedWatermark) ++ earlier ∧
      (∀ a ∈ storeTrace tr, failureOf a.1 a.2 = none) ∧
      (c ≠ .writeBatch batch →
        ∀ b ∈ done ++ [batch], .writeBatch b ∈ Program.calls (storeTrace tr)) ∧
      ∀ reply err, failureOf c reply = some err → next reply = .throw err := by
  obtain ⟨⟨ahead, hplan⟩, hok, herr⟩ :=
    (follows_pipeline hsize streamName events).issued_call hrun hc
  obtain ⟨done, batch, rest, earlier, later, hbatches, hbatch, hcalls⟩ :=
    flatMap_eq_append_cons hplan
  refine ⟨done, batch, rest, earlier, later, hbatches, hbatch, hcalls, hok, ?_, herr⟩
  intro hne b hb
  unfold storeTrace
  rw [hcalls]
  rcases List.mem_append.mp hb with hb | hb
  · exact List.mem_append_left _ (List.mem_flatMap.mpr ⟨b, hb, List.mem_cons_self⟩)
  · rw [List.mem_singleton.mp hb]
    exact List.mem_append_right _ ((batchCalls_order hbatch).1.resolve_left hne)

/-- Persist before advance.  Whenever a store call is issued (whether it then succeeds, fails or is
cut off by a crash), it belongs to some batch, every store call of the batches before and every
earlier one of its own has returned Ok, and nothing else has been issued.  Hence the writes up to
its batch are done when it is not itself the write; the cursor gets the batch's greatest slot; the
slot states are those of the batch, and come before the advance, which needs a finalized one.  A
failure ends the run with its error, and every error comes from the last call. -/
theorem persist_before_advance (config : PipelineConfig) (streamName : String)
    (events : List NormalizedEvent) :
    (∀ (tr : PipelineTrace W C S) (c : PipelineCall)
      (next : PipelineCall.Reply W C S c → PipelineProgram W C S PipelineSummary),
      Program.Runs ((eventReceiverPipeline config streamName).whole events) tr (.call c next) →
      c.isStore = true →
      ∃ done batch rest earlier later,
        batchesOf config events = done ++ batch :: rest ∧
        batchCalls streamName config.advanceFinalizedWatermark batch = earlier ++ c :: later ∧
        Program.calls (storeTrace tr) =
          done.flatMap (batchCalls streamName config.advanceFinalizedWatermark) ++ earlier ∧
        (∀ a ∈ storeTrace tr, failureOf a.1 a.2 = none) ∧
        (c ≠ .writeBatch batch → ∀ b ∈ done ++ [batch], ∃ written,
          ⟨.writeBatch b, .ok written⟩ ∈ storeTrace tr) ∧
        (∀ name slot, c = .updateAfterBatch name slot →
          name = streamName ∧ (batch.map NormalizedEvent.slot).max? = some slot) ∧
        (∀ name updates, c = .recordSlotStates name updates →
          name = streamName ∧ updates = batch.filterMap slotStateFromEvent ∧ updates ≠ []) ∧
        (∀ name, c = .advanceContiguousFinalized name →
          name = streamName ∧ config.advanceFinalizedWatermark = true ∧
          (batch.filterMap slotStateFromEvent).any SlotStateUpdate.finalized = true ∧
          ⟨.recordSlotStates streamName (batch.filterMap slotStateFromEvent), .ok ()⟩ ∈
            storeTrace tr) ∧
        ∀ reply err, failureOf c reply = some err → next reply = .throw err) ∧
    (∀ (tr : PipelineTrace W C S) (err : PipelineError W C S),
      Program.Runs ((eventReceiverPipeline config streamName).whole events) tr (.throw err) →
      ∃ before c reply, tr = before ++ [⟨c, reply⟩] ∧ c.isStore = true ∧
        failureOf c reply = some err ∧ ∀ a ∈ storeTrace before, failureOf a.1 a.2 = none) := by
  rcases Nat.eq_zero_or_pos config.batchSize with hzero | hsize
  · -- the batcher's assertion fails, so there is no call and no error
    constructor
    · intro tr c next hrun
      exact absurd (runs_of_batchSize_zero hzero hrun).2 nofun
    · intro tr err hrun
      exact absurd (runs_of_batchSize_zero hzero hrun).2 nofun
  refine ⟨fun tr c next hrun hc => ?_, fun tr err hrun => ?_⟩
  · obtain ⟨done, batch, rest, earlier, later, hbatches, hbatch, hcalls, hok, hwrites, herr⟩ :=
      issued_in_batch hsize hrun hc
    have hmem : c ∈ batchCalls streamName config.advanceFinalizedWatermark batch := by
      simp [hbatch]
    refine ⟨done, batch, rest, earlier, later, hbatches, hbatch, hcalls, hok, ?_, ?_, ?_, ?_, herr⟩
    · exact fun hne b hb => written_of_mem hok (hwrites hne b hb)
    · rintro name slot rfl
      rcases mem_batchCalls hmem with hc | ⟨_, hmax, hc⟩ | hc
      · cases hc
      · cases hc
        exact ⟨rfl, hmax⟩
      · rcases (mem_slotCalls hc).2 with hc | ⟨hc, -⟩ <;> cases hc
    · rintro name updates rfl
      exact mem_batchCalls_record hmem
    · rintro name rfl
      obtain ⟨rfl, -, hadvance, hfinalized⟩ := mem_batchCalls_advance hmem
      refine ⟨rfl, hadvance, hfinalized, recorded_of_mem hok ?_⟩
      rw [hcalls]
      exact List.mem_append_right _ ((batchCalls_order hbatch).2 _ rfl)
  · exact (follows_pipeline hsize streamName events).thrown hrun

/-- A finalized slot event with a recorded parent. -/
def finalizedSlot (slot parent : Nat) : NormalizedEvent :=
  ⟨.slot "localnet" slot .finalized, .object [("parent", .number (.posInt parent))]⟩

/-- One batch written, right before its cursor update. -/
def afterFirstWrite : PipelineTrace Unit Unit Unit :=
  [⟨.onProgress .default, ()⟩, ⟨.channelLen, 0⟩, ⟨.onActivity ⟨7, 1, 0, 1, "slot"⟩, ()⟩,
    ⟨.writeBatch [finalizedSlot 7 6], .ok ⟨1, 1, 0, 0⟩⟩, ⟨.batchElapsed, 12⟩]

theorem persist_before_advance_first_cursor :
    ∃ batch ∈ batchesOf ⟨1, 1, none, true, false⟩ [finalizedSlot 7 6],
      (batch.map NormalizedEvent.slot).max? = some 7 ∧
      ∃ written, ⟨.writeBatch batch, .ok written⟩ ∈ storeTrace afterFirstWrite := by
  obtain ⟨done, batch, rest, earlier, later, hbatches, -, -, -, hwritten, hcursor, -⟩ :=
    (persist_before_advance (W := Unit) (C := Unit) (S := Unit) ⟨1, 1, none, true, false⟩ "test"
      [finalizedSlot 7 6]).1 afterFirstWrite (.updateAfterBatch "test" 7) _
      (.step (.step (.step (.step (.step (.refl _)))))) rfl
  refine ⟨batch, by simp [hbatches], (hcursor _ _ rfl).2, ?_⟩
  exact hwritten nofun batch (List.mem_append_right _ (List.mem_singleton_self _))

end YellowstoneStream.Stream

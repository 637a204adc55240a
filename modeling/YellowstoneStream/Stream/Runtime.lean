import YellowstoneStream.Stream.PipelineTrace

/-!
# The pipeline over its bounded channel

`run_event_producer_pipeline_with_progress_and_activity` aborts its producer when a store fails;
`run_replay_pipeline` only drops the receiver.  Either way every event sent is received once and in
order, no state is stuck, and the store error is what is returned.
-/

open YellowstoneStream.Domain YellowstoneStream.Reasoning YellowstoneStream.Storage

namespace YellowstoneStream.Stream

variable {W C S P ρ Ω : Type}

/-! ## The producer -/

inductive SendTask (ρ : Type) where
  | sending (rest : List NormalizedEvent)
  | released (result : ρ)

/-- A task that sends its events and returns `outcome`, or `onClosed` once a send is refused. -/
inductive SendStep (outcome onClosed : ρ) :
    SendTask ρ → Move NormalizedEvent → SendTask ρ → Prop
  | send (event : NormalizedEvent) (rest : List NormalizedEvent) :
      SendStep outcome onClosed (.sending (event :: rest)) (.send event) (.sending rest)
  | refused (event : NormalizedEvent) (rest : List NormalizedEvent) :
      SendStep outcome onClosed (.sending (event :: rest)) .refused (.released onClosed)
  | finished : SendStep outcome onClosed (.sending []) .quiet (.released outcome)

def eventProducer (outcome onClosed : ρ) : Producer (SendTask ρ) NormalizedEvent ρ Ω where
  step _ := SendStep outcome onClosed
  holdsSender
    | .sending _ => true
    | .released _ => false
  result
    | .sending _ => none
    | .released r => some r
  dropped := by
    rintro _ s m s' (_ | _ | _) hs <;> cases hs

def SendTask.rank : SendTask ρ → Nat
  | .sending rest => 2 * rest.length + 2
  | .released _ => 1

theorem eventProducer_bounded (outcome onClosed : ρ) :
    Setup.Bounded (eventProducer (Ω := Ω) outcome onClosed) SendTask.rank where
  send := by
    rintro _ _ _ _ ⟨⟩
    simp only [SendTask.rank, List.length_cons]
    omega
  refused := by
    rintro _ _ _ ⟨⟩
    simp only [SendTask.rank]
    omega
  quiet := by
    rintro _ _ _ ⟨⟩
    simp [SendTask.rank]
  positive s := by cases s <;> simp [SendTask.rank]

theorem eventProducer_lively (outcome onClosed : ρ) :
    Setup.Lively (eventProducer (Ω := Ω) outcome onClosed) := by
  intro w s
  cases s with
  | released r => exact .inl ⟨r, rfl⟩
  | sending rest =>
      cases rest with
      | nil => exact .inr (.inl ⟨_, .finished⟩)
      | cons event rest => exact .inr (.inr ⟨⟨event, _, .send event rest⟩, _, .refused event rest⟩)

/-! ## The stores -/

/-- Stores as a deterministic state machine; any of its replies may be an error. -/
abbrev Stores (W C S Ω : Type) := Ω → (c : PipelineCall) → PipelineCall.Reply W C S c × Ω

/-- How the consumer's calls are answered when `depth` events are queued. -/
def pipelineAct (stores : Stores W C S Ω) (depth : Nat) (w : Ω) :
    (c : PipelineCall) → PipelineCall.Reply W C S c → Ω → Prop
  | .channelLen, n, w' => n = depth ∧ w' = w
  | .onActivity _, _, w' => w' = w
  | .onProgress _, _, w' => w' = w
  | .batchElapsed, _, w' => w' = w
  | .writeBatch batch, r, w' => stores w (.writeBatch batch) = (r, w')
  | .updateAfterBatch name slot, r, w' => stores w (.updateAfterBatch name slot) = (r, w')
  | .recordSlotStates name updates, r, w' => stores w (.recordSlotStates name updates) = (r, w')
  | .advanceContiguousFinalized name, r, w' => stores w (.advanceContiguousFinalized name) = (r, w')

/-- The calls with the replies the stores give them in this order. -/
def replies (stores : Stores W C S Ω) (w : Ω) : List PipelineCall → PipelineTrace W C S
  | [] => []
  | c :: cs => ⟨c, (stores w c).1⟩ :: replies stores (stores w c).2 cs

theorem pipelineAct_of_store {stores : Stores W C S Ω} {depth : Nat} {w w' : Ω} {c : PipelineCall}
    {r : PipelineCall.Reply W C S c} (hc : c.isStore = true)
    (h : pipelineAct stores depth w c r w') : stores w c = (r, w') := by
  cases c <;> first | exact h | cases hc

theorem pipelineAct_of_other {stores : Stores W C S Ω} {depth : Nat} {w w' : Ω} {c : PipelineCall}
    {r : PipelineCall.Reply W C S c} (hc : c.isStore = false)
    (h : pipelineAct stores depth w c r w') : w' = w := by
  cases c with
  | channelLen => exact h.2
  | onActivity | onProgress | batchElapsed => exact h
  | writeBatch | updateAfterBatch | recordSlotStates | advanceContiguousFinalized => cases hc

theorem pipelineAct_total (stores : Stores W C S Ω) (depth : Nat) (w : Ω) (c : PipelineCall) :
    ∃ r w', pipelineAct stores depth w c r w' := by
  cases c with
  | channelLen => exact ⟨depth, w, rfl, rfl⟩
  | onActivity | onProgress => exact ⟨(), w, rfl⟩
  | batchElapsed => exact ⟨(0 : Nat), w, rfl⟩
  | writeBatch | updateAfterBatch | recordSlotStates | advanceContiguousFinalized =>
      exact ⟨_, _, rfl⟩

/-- Neither the channel's depth nor the clock has any say in what the stores reply. -/
theorem storeTrace_eq_replies {stores : Stores W C S Ω} {capacity : Nat} {w w' : Ω}
    {tr : PipelineTrace W C S}
    (h : Program.Performs (fun w c r w' => ∃ n ≤ capacity, pipelineAct stores n w c r w') w tr w') :
    storeTrace tr = replies stores w (Program.calls (storeTrace tr)) := by
  induction h with
  | nil => rfl
  | @cons w w' w'' c r tr hact _ ih =>
      obtain ⟨n, -, hact⟩ := hact
      rw [storeTrace]
      cases hc : c.isStore with
      | true =>
          rw [Program.issued_cons_of_planned hc, ← storeTrace]
          -- a store call is answered by the stores alone
          have hstore := pipelineAct_of_store hc hact
          rw [Program.calls, List.map_cons, replies, hstore, ← Program.calls, ← ih]
      | false =>
          rw [Program.issued_cons_of_other hc, ← storeTrace]
          rw [pipelineAct_of_other hc hact] at ih
          exact ih

/-! ## The two pipelines -/

/-- How the consumer's calls are answered, given the number of queued events. -/
abbrev Answering (W C S Ω : Type) :=
  Nat → Ω → (c : PipelineCall) → PipelineCall.Reply W C S c → Ω → Prop

def channelSetup (config : PipelineConfig) (streamName : String) (abortsOnError : Bool)
    (outcome onClosed : ρ) (act : Answering W C S Ω) :
    Setup PipelineCall (PipelineCall.Reply W C S) (PipelineError W C S) (SendTask ρ)
      NormalizedEvent ρ ReceiverState PipelineSummary Ω where
  worker := eventReceiverPipeline config streamName
  producer := eventProducer outcome onClosed
  capacity := config.channelCapacity
  act := act
  abortsOnError := abortsOnError

def pipelineSetup (config : PipelineConfig) (streamName : String) (abortsOnError : Bool)
    (outcome onClosed : ρ) (stores : Stores W C S Ω) :=
  channelSetup config streamName abortsOnError outcome onClosed (pipelineAct stores)

inductive ProducerPipelineError (W C S P : Type) where
  | pipeline (err : PipelineError W C S)
  | producer (err : P)
  | producerJoin

def producerPipelineResult : Except (PipelineError W C S) PipelineSummary →
    Joined (Except P Unit) → Except (ProducerPipelineError W C S P) PipelineSummary
  -- the store error comes first, whatever became of the producer
  | .error err, _ => .error (.pipeline err)
  | .ok summary, .returned (.ok ()) => .ok summary
  | .ok _, .returned (.error err) => .error (.producer err)
  | .ok _, .cancelled => .error .producerJoin

def replayPipelineResult : Except (PipelineError W C S) PipelineSummary →
    Joined Unit → Except (PipelineError W C S) PipelineSummary
  | .error err, _ => .error err
  | .ok _, .cancelled => .error .producerJoin
  | .ok summary, .returned () => .ok summary

/-- A producer that sends the events and returns `outcome`. -/
def producerPipeline (config : PipelineConfig) (streamName : String)
    (outcome onClosed : Except P Unit) (stores : Stores W C S Ω) :=
  pipelineSetup config streamName true outcome onClosed stores

/-- `send_events` returns nothing, whether or not a send was refused. -/
def replayPipeline (config : PipelineConfig) (streamName : String) (stores : Stores W C S Ω) :=
  pipelineSetup config streamName false () () stores

def writtenBatches (tr : PipelineTrace W C S) : List (List NormalizedEvent) :=
  (Program.calls tr).filterMap fun
    | .writeBatch batch => some batch
    | _ => none

def plannedCalls (config : PipelineConfig) (streamName : String)
    (events : List NormalizedEvent) : List PipelineCall :=
  (batchesOf config events).flatMap (batchCalls streamName config.advanceFinalizedWatermark)

/-- All events were written, in order and in full batches, and the counters are those of the
stores' replies to the planned calls. -/
structure WroteAll (config : PipelineConfig) (streamName : String) (stores : Stores W C S Ω)
    (w : Ω) (events : List NormalizedEvent) (tr : PipelineTrace W C S)
    (summary : PipelineSummary) : Prop where
  no_failure : ∀ a ∈ storeTrace tr, failureOf a.1 a.2 = none
  in_order : (writtenBatches tr).flatten = events.filter fun event =>
    !shouldSkipEvent event config.resumeAfterSlot config.useSlotResume
  full : ∀ done batch rest, writtenBatches tr = done ++ batch :: rest →
    0 < batch.length ∧ batch.length ≤ config.batchSize ∧
      (rest ≠ [] → batch.length = config.batchSize)
  calls : storeTrace tr = replies stores w (plannedCalls config streamName events)
  counters : summary.counters = tally (initialCounters config events)
    (replies stores w (plannedCalls config streamName events))

theorem writtenBatches_storeTrace (tr : PipelineTrace W C S) :
    writtenBatches (storeTrace tr) = writtenBatches tr := by
  induction tr with
  | nil => rfl
  | cons a tr ih =>
      obtain ⟨c, r⟩ := a
      rw [writtenBatches, writtenBatches] at ih
      cases c <;> simp [writtenBatches, storeTrace, Program.issued, Program.calls,
        PipelineCall.isStore] at ih ⊢ <;> exact ih

theorem writtenBatches_of_calls {streamName : String} {advanceFinalizedWatermark : Bool}
    {batches : List (List NormalizedEvent)} {tr : PipelineTrace W C S}
    (h : batches.flatMap (batchCalls streamName advanceFinalizedWatermark) =
      Program.calls (storeTrace tr)) : writtenBatches tr = batches := by
  rw [← writtenBatches_storeTrace, writtenBatches, ← h, List.filterMap_flatMap]
  have hbatch : ∀ batch, (batchCalls streamName advanceFinalizedWatermark batch).filterMap
      (fun | .writeBatch batch => some batch | _ => none) = [batch] := by
    intro batch
    rw [batchCalls, List.filterMap_cons]
    refine congrArg _ (List.filterMap_eq_nil_iff.mpr fun c hc => ?_)
    rcases List.mem_append.mp hc with hc | hc
    · obtain ⟨slot, -, rfl⟩ := List.mem_map.mp hc
      rfl
    · rcases (mem_slotCalls hc).2 with rfl | ⟨rfl, -⟩ <;> rfl
  simp only [hbatch, List.flatMap_singleton']

theorem writtenBatches_of_plan {config : PipelineConfig} {streamName : String}
    {events : List NormalizedEvent} {tr : PipelineTrace W C S}
    (h : plannedCalls config streamName events = Program.calls (storeTrace tr)) :
    writtenBatches tr = batchesOf config events :=
  writtenBatches_of_calls h

/-! ## Reachable states -/

section Reachable

variable {config : PipelineConfig} {streamName : String} {abortsOnError : Bool}
  {outcome onClosed : ρ} {act : Answering W C S Ω} {w : Ω} {events : List NormalizedEvent}

abbrev PipelineSystem (W C S ρ Ω : Type) :=
  System PipelineCall (PipelineCall.Reply W C S) (PipelineError W C S) (SendTask ρ)
    NormalizedEvent ρ ReceiverState PipelineSummary Ω

/-- The states a run over the events can reach. -/
def ReachedBy (config : PipelineConfig) (streamName : String) (abortsOnError : Bool)
    (outcome onClosed : ρ) (act : Answering W C S Ω) (w : Ω) (events : List NormalizedEvent)
    (x : PipelineSystem W C S ρ Ω) : Prop :=
  let setup := channelSetup config streamName abortsOnError outcome onClosed act
  setup.Reaches (setup.init w (.sending events)) x

abbrev Reached (config : PipelineConfig) (streamName : String) (abortsOnError : Bool)
    (outcome onClosed : ρ) (stores : Stores W C S Ω) (w : Ω) (events : List NormalizedEvent)
    (x : PipelineSystem W C S ρ Ω) : Prop :=
  ReachedBy config streamName abortsOnError outcome onClosed (pipelineAct stores) w events x

/-- The main task no longer receives, and not because the channel was closed. -/
def failed {Call : Type} {Reply : Call → Type} {ε σ β : Type} (main : Main Call Reply ε ρ σ β) :
    Prop :=
  Setup.receiving main = false ∧ Setup.drained main = false

/-- What the producer has still to send, and what it returns. -/
structure SendInv (outcome : ρ) (events : List NormalizedEvent) (x : PipelineSystem W C S ρ Ω) :
    Prop where
  sending : ∀ rest, x.task = .running (.sending rest) → x.sent ++ rest = events
  released : ∀ r, x.task = .running (.released r) ∨ x.task = .ended (.returned r) →
    (x.sent = events ∧ r = outcome) ∨ failed x.main

theorem failed_step {x y : PipelineSystem W C S ρ Ω}
    (h : failed x.main)
    (hstep : (channelSetup config streamName abortsOnError outcome onClosed act).Step x y) :
    failed y.main := by
  cases hstep with
  | send | refused | quiet | returned | cancelled => exact h
  | receive hmain | close hmain | callLooping hmain | callClosing hmain | failLooping hmain
  | failClosing hmain | panicLooping hmain | panicClosing hmain | finish hmain =>
      rw [hmain] at h
      cases h.1
  | @join result j hmain =>
      rw [hmain] at h
      cases result with
      | ok b => cases h.2
      | error e => exact ⟨rfl, rfl⟩

theorem sendInv_step {x y : PipelineSystem W C S ρ Ω}
    (hflow : (channelSetup config streamName abortsOnError outcome onClosed act).Flow x)
    (h : SendInv outcome events x)
    (hstep : (channelSetup config streamName abortsOnError outcome onClosed act).Step x y) :
    SendInv outcome events y := by
  obtain ⟨hsending, hreleased⟩ := h
  have hkeep : ∀ r, (x.sent = events ∧ r = outcome) ∨ failed x.main →
      (x.sent = events ∧ r = outcome) ∨ failed y.main :=
    fun r => Or.imp_right fun hfailed => failed_step hfailed hstep
  cases hstep with
  | @send s s' a htask hsend hopen hroom =>
      obtain ⟨event, rest⟩ := hsend
      constructor
      · rintro rest' ⟨⟩
        rw [List.append_assoc]
        exact hsending _ htask
      · rintro r (h | h) <;> cases h
  | @refused s s' htask hrefused hclosed =>
      obtain ⟨_, event, rest⟩ := hrefused
      refine ⟨nofun, fun r _ => .inr ⟨hclosed, ?_⟩⟩
      -- the task still holds its sender, so the channel was not closed
      by_contra hdrained
      have hdropped := (hflow.all_received (Bool.eq_true_of_not_eq_false hdrained)).2
      rw [htask] at hdropped
      cases hdropped
  | @quiet s s' htask hquiet =>
      obtain ⟨⟩ := hquiet
      refine ⟨nofun, ?_⟩
      rintro r (h | h) <;> cases h
      have hall := hsending [] htask
      rw [List.append_nil] at hall
      exact .inl ⟨hall, rfl⟩
  | @returned s r htask hresult =>
      refine ⟨nofun, ?_⟩
      rintro r' (h | h) <;> cases h
      cases s with
      | sending rest => cases hresult
      | released r'' =>
          cases hresult
          exact hreleased r (.inl htask)
  | cancelled =>
      refine ⟨nofun, ?_⟩
      rintro r' (h | h) <;> cases h
  | receive | close | callLooping | callClosing | failLooping | failClosing | panicLooping
  | panicClosing | finish | join => exact ⟨hsending, fun r hr => hkeep r (hreleased r hr)⟩

theorem sendInv_reaches {x : PipelineSystem W C S ρ Ω}
    (h : ReachedBy config streamName abortsOnError outcome onClosed act w events x) :
    SendInv outcome events x := by
  induction h with
  | refl =>
      refine ⟨?_, ?_⟩
      · rintro rest ⟨⟩
        rfl
      · rintro r (h | h) <;> cases h
  | tail hreach hstep ih => exact sendInv_step (Setup.inv_reaches hreach).flow ih hstep

theorem prefix_sent {x : PipelineSystem W C S ρ Ω}
    (h : ReachedBy config streamName abortsOnError outcome onClosed act w events x) :
    x.sent <+: events := by
  induction h with
  | refl => exact List.nil_prefix
  | tail hreach hstep ih =>
      have hsend := sendInv_reaches hreach
      cases hstep with
      | send htask hstep =>
          obtain ⟨event, rest⟩ := hstep
          exact ⟨rest, by rw [List.append_assoc]; exact hsend.sending _ htask⟩
      | refused | quiet | returned | cancelled | receive | close | callLooping | callClosing
      | failLooping | failClosing | panicLooping | panicClosing | finish | join => exact ih

/-- Once the channel was closed, all events were received and the task returned what it meant to. -/
theorem received_all {x : PipelineSystem W C S ρ Ω}
    (hreach : ReachedBy config streamName abortsOnError outcome onClosed act w events x)
    (hdrained : Setup.drained x.main = true) :
    x.received = events ∧ ∀ j, x.task = .ended j → j = .returned outcome := by
  have hinv := Setup.inv_reaches hreach
  have hsend := sendInv_reaches hreach
  obtain ⟨hreceived, hdropped⟩ := hinv.flow.all_received hdrained
  rw [hreceived]
  -- nobody closed the channel early, so the task got through its events
  have hopen : ¬ failed x.main := fun h => absurd (hdrained.symm.trans h.2) nofun
  cases htask : x.task with
  | running s =>
      refine ⟨?_, fun j hj => (nomatch hj)⟩
      cases s with
      | sending rest =>
          rw [htask] at hdropped
          cases hdropped
      | released r => exact ((hsend.released r (.inl htask)).resolve_right hopen).1
  | ended j =>
      cases j with
      | cancelled =>
          obtain ⟨-, e, he | he⟩ := hinv.ending.cancelled htask <;> rw [he] at hdrained <;>
            cases hdrained
      | returned r =>
          obtain ⟨hsent, rfl⟩ := (hsend.released r (.inr htask)).resolve_right hopen
          exact ⟨hsent, fun j hj => by cases hj; rfl⟩

variable (hbatch : 0 < config.batchSize) {x : PipelineSystem W C S ρ Ω}
  (hreach : ReachedBy config streamName abortsOnError outcome onClosed act w events x)
include hbatch hreach

theorem not_panicked : x.main ≠ .panicked := by
  intro hmain
  have hruns := (Setup.inv_reaches hreach).execution.runs
  rw [hmain] at hruns
  rcases (follows_pipeline hbatch streamName x.received).runs hruns with
    ⟨_, _, _, hrest⟩ | ⟨_, _, _, _, _, _, _, _, _, _, hthrow⟩
  · exact Program.not_follows_panic hrest
  · cases hthrow

theorem done_error {e : PipelineError W C S} {j : Joined ρ}
    (hmain : x.main = .done (.error e) j) :
    ∃ a ∈ storeTrace x.trace, failureOf a.1 a.2 = some e := by
  have hruns := (Setup.inv_reaches hreach).execution.runs
  rw [hmain] at hruns
  obtain ⟨before, c, r, htr, hc, hfail, -⟩ :=
    (follows_pipeline hbatch streamName x.received).thrown hruns
  refine ⟨⟨c, r⟩, ?_, hfail⟩
  rw [htr, storeTrace, Program.issued_append, Program.issued_cons_of_planned hc]
  exact List.mem_append_right _ List.mem_cons_self

theorem done_of_failure {a : Answered (PipelineCall.Reply W C S)} (ha : a ∈ storeTrace x.trace)
    {e : PipelineError W C S} (hfail : failureOf a.1 a.2 = some e)
    {result : Except (PipelineError W C S) PipelineSummary} {j : Joined ρ}
    (hmain : x.main = .done result j) : result = .error e := by
  have hruns := (Setup.inv_reaches hreach).execution.runs
  rw [hmain] at hruns
  rcases (follows_pipeline hbatch streamName x.received).runs hruns with
    ⟨_, _, hok, _⟩ | ⟨before, c, r, e', _, htr, hc, _, hok, hfail', hthrow⟩
  · rw [hok a ha] at hfail
    cases hfail
  · rw [htr, storeTrace, Program.issued_append, Program.issued_cons_of_planned hc] at ha
    rcases List.mem_append.mp ha with ha | ha
    · rw [hok a ha] at hfail
      cases hfail
    · rw [List.mem_singleton.mp ha, hfail'] at hfail
      cases hfail
      cases result with
      | ok summary => cases hthrow
      | error e'' =>
          cases hthrow
          rfl

/-- As long as no store call failed, the calls made are the first of the planned ones. -/
theorem prefix_calls (hok : ∀ a ∈ storeTrace x.trace, failureOf a.1 a.2 = none) :
    Program.calls (storeTrace x.trace) <+: plannedCalls config streamName events := by
  have hinv := Setup.inv_reaches hreach
  have hwhole : x.received = events →
      Program.calls (storeTrace x.trace) <+: plannedCalls config streamName events := by
    intro hreceived
    have hruns := hinv.execution.runs
    rw [hreceived] at hruns
    obtain ⟨rest, hplan, -⟩ := (follows_pipeline hbatch streamName events).runs_of_ok hruns hok
    exact ⟨rest, hplan.symm⟩
  -- without a failure no run has ended with one
  have hthrown : ∀ e : PipelineError W C S, ¬ Program.Runs
      ((eventReceiverPipeline config streamName).whole x.received) x.trace (.throw e) := by
    intro e hruns
    obtain ⟨_, -, hrest⟩ :=
      (follows_pipeline hbatch streamName x.received).runs_of_ok hruns hok
    exact Program.not_follows_throw hrest
  cases hmain : x.main with
  | looping p =>
      -- only full batches so far, and those of a prefix are the first of them all
      obtain ⟨rest, hplan, -⟩ := (follows_consume hbatch streamName x.received).runs_of_ok
        (hinv.execution.loop p hmain) hok
      have hfront : x.received <+: events :=
        hinv.flow.received_of_sent.trans (prefix_sent hreach)
      have hfull : fullChunks config.batchSize (keptEvents config x.received) <+:
          batchesOf config events :=
        (prefix_fullChunks _ (hfront.filter _)).trans (List.prefix_append _ _)
      obtain ⟨more, hmore⟩ := hfull
      refine List.IsPrefix.trans ⟨rest, hplan.symm⟩
        ⟨more.flatMap (batchCalls streamName config.advanceFinalizedWatermark), ?_⟩
      rw [plannedCalls, ← hmore, List.flatMap_append]
  | closing p => exact hwhole (received_all hreach (by rw [hmain]; rfl)).1
  | joining result =>
      cases result with
      | ok summary => exact hwhole (received_all hreach (by rw [hmain]; rfl)).1
      | error e =>
          have hruns := hinv.execution.runs
          rw [hmain] at hruns
          exact absurd hruns (hthrown e)
  | done result j =>
      cases result with
      | ok summary => exact hwhole (received_all hreach (by rw [hmain]; rfl)).1
      | error e =>
          have hruns := hinv.execution.runs
          rw [hmain] at hruns
          exact absurd hruns (hthrown e)
  | panicked => exact absurd hmain (not_panicked hbatch hreach)

end Reachable

section Outcome

variable {config : PipelineConfig} {streamName : String} {abortsOnError : Bool}
  {outcome onClosed : ρ} {stores : Stores W C S Ω} {w : Ω} {events : List NormalizedEvent}

/-- The stores answered well and the channel was closed: everything is written, and the task
returned what it meant to. -/
theorem done_ok (hbatch : 0 < config.batchSize) {x : PipelineSystem W C S ρ Ω}
    (hreach : Reached config streamName abortsOnError outcome onClosed stores w events x)
    {summary : PipelineSummary} {j : Joined ρ} (hmain : x.main = .done (.ok summary) j) :
    j = .returned outcome ∧ WroteAll config streamName stores w events x.trace summary := by
  have hinv := Setup.inv_reaches hreach
  obtain ⟨hreceived, hreturned⟩ := received_all hreach (by rw [hmain]; rfl)
  have hruns := hinv.execution.runs
  rw [hmain, hreceived] at hruns
  obtain ⟨hplan, hok, hcounters⟩ := (follows_pipeline hbatch streamName events).result hruns
  have hbatches := @writtenBatches_of_plan _ _ _ config streamName _ _ hplan
  have hreplies := storeTrace_eq_replies hinv.execution.world
  have hcalls : storeTrace x.trace = replies stores w (plannedCalls config streamName events) := by
    rw [hreplies, plannedCalls, hplan]
    rfl
  refine ⟨hreturned j (hinv.ending.joined _ _ hmain), hok, ?_, ?_, hcalls, ?_⟩
  · rw [hbatches, batchesOf, flatten_chunks]
    rfl
  · intro done batch rest hsplit
    exact chunks_length hbatch (hbatches ▸ hsplit)
  · rw [← hcalls]
    exact hcounters

/-- A state that is not final can step. -/
theorem reached_step (hbatch : 0 < config.batchSize) (hcapacity : 0 < config.channelCapacity)
    {x : PipelineSystem W C S ρ Ω}
    (hreach : Reached config streamName abortsOnError outcome onClosed stores w events x) :
    (∃ result j, x.main = .done result j) ∨
      ∃ y, (pipelineSetup config streamName abortsOnError outcome onClosed stores).Step x y := by
  have hanswers : Setup.Answers
      (pipelineSetup config streamName abortsOnError outcome onClosed stores) :=
    pipelineAct_total stores
  rcases Setup.exists_step hanswers (eventProducer_lively outcome onClosed) hcapacity x with
    hdone | hpanic | hstep
  · exact .inl hdone
  · exact absurd hpanic (not_panicked hbatch hreach)
  · exact .inr hstep

/-- The final state: the error of the failed call, or else everything written. -/
theorem reached_done (hbatch : 0 < config.batchSize) {x : PipelineSystem W C S ρ Ω}
    (hreach : Reached config streamName abortsOnError outcome onClosed stores w events x)
    {result : Except (PipelineError W C S) PipelineSummary} {j : Joined ρ}
    (hmain : x.main = .done result j) :
    (∀ a ∈ storeTrace x.trace, ∀ err, failureOf a.1 a.2 = some err → result = .error err) ∧
    ((∀ a ∈ storeTrace x.trace, failureOf a.1 a.2 = none) → ∃ summary, result = .ok summary ∧
      j = .returned outcome ∧ WroteAll config streamName stores w events x.trace summary) := by
  refine ⟨fun a ha err hfail => done_of_failure hbatch hreach ha hfail hmain, fun hok => ?_⟩
  cases result with
  | ok summary =>
      obtain ⟨hj, hwrote⟩ := done_ok hbatch hreach hmain
      exact ⟨summary, rfl, hj, hwrote⟩
  | error err =>
      obtain ⟨a, ha, hfail⟩ := done_error hbatch hreach hmain
      rw [hok a ha] at hfail
      cases hfail

/-- What was written and counted depends on nothing else. -/
theorem WroteAll.unique {config' : PipelineConfig} {tr tr' : PipelineTrace W C S}
    {summary summary' : PipelineSummary}
    (h : WroteAll config streamName stores w events tr summary)
    (h' : WroteAll config' streamName stores w events tr' summary')
    (hplan : plannedCalls config streamName events = plannedCalls config' streamName events)
    (hinitial : initialCounters config events = initialCounters config' events) :
    writtenBatches tr = writtenBatches tr' ∧ summary.counters = summary'.counters := by
  constructor
  · rw [← writtenBatches_storeTrace, h.calls, hplan, ← h'.calls, writtenBatches_storeTrace]
  · rw [h.counters, h'.counters, hplan, hinitial]

end Outcome

/-- The bounded channel neither loses, duplicates nor reorders events and never gets stuck.  In
every interleaving: no reachable state but a final one is without a next step, and no run is
infinite; a failed store call is what is returned; and without one all events that are not skipped
have been written in order, in full batches but for the last, before the producer's own outcome is
returned.  Batches and counters do not depend on the interleaving or on the capacity. -/
theorem bounded_channel_pipeline (config : PipelineConfig) (hbatch : 0 < config.batchSize)
    (hcapacity : 0 < config.channelCapacity) (streamName : String)
    (outcome onClosed : Except P Unit) (stores : Stores W C S Ω) (w : Ω)
    (events : List NormalizedEvent) :
    (∀ x, Reached config streamName true outcome onClosed stores w events x →
      Acc (fun y x => (producerPipeline config streamName outcome onClosed stores).Step x y) x ∧
      ((∃ result j, x.main = .done result j) ∨
        ∃ y, (producerPipeline config streamName outcome onClosed stores).Step x y) ∧
      ∀ result j, x.main = .done result j →
        (∀ a ∈ storeTrace x.trace, ∀ err, failureOf a.1 a.2 = some err →
          producerPipelineResult result j = .error (.pipeline err)) ∧
        ((∀ a ∈ storeTrace x.trace, failureOf a.1 a.2 = none) → ∃ summary,
          WroteAll config streamName stores w events x.trace summary ∧
          (outcome = .ok () → producerPipelineResult result j = .ok summary) ∧
          ∀ err, outcome = .error err →
            producerPipelineResult result j = .error (.producer err))) ∧
    (∀ x, Reached config streamName false () () stores w events x →
      Acc (fun y x => (replayPipeline config streamName stores).Step x y) x ∧
      ((∃ result j, x.main = .done result j) ∨
        ∃ y, (replayPipeline config streamName stores).Step x y) ∧
      ∀ result j, x.main = .done result j →
        (∀ a ∈ storeTrace x.trace, ∀ err, failureOf a.1 a.2 = some err →
          replayPipelineResult result j = .error err) ∧
        ((∀ a ∈ storeTrace x.trace, failureOf a.1 a.2 = none) → ∃ summary,
          WroteAll config streamName stores w events x.trace summary ∧
          replayPipelineResult result j = .ok summary)) ∧
    (∀ (ρ : Type) (abortsOnError : Bool) (outcome onClosed : ρ) (capacity : Nat)
      (x y : PipelineSystem W C S ρ Ω) (a b : PipelineSummary) (j k : Joined ρ),
      Reached config streamName abortsOnError outcome onClosed stores w events x →
      Reached { config with channelCapacity := capacity } streamName abortsOnError outcome onClosed
        stores w events y →
      x.main = .done (.ok a) j → y.main = .done (.ok b) k →
      writtenBatches x.trace = writtenBatches y.trace ∧ a.counters = b.counters) := by
  refine ⟨fun x hreach => ⟨?_, reached_step hbatch hcapacity hreach, fun result j hmain => ?_⟩,
    fun x hreach => ⟨?_, reached_step hbatch hcapacity hreach, fun result j hmain => ?_⟩, ?_⟩
  · exact Setup.acc_step (eventProducer_bounded outcome onClosed) x
  · obtain ⟨hfailed, hok⟩ := reached_done hbatch hreach hmain
    constructor
    · intro a ha err hfail
      rw [hfailed a ha err hfail]
      rfl
    · intro hall
      obtain ⟨summary, rfl, rfl, hwrote⟩ := hok hall
      refine ⟨summary, hwrote, ?_, ?_⟩
      · rintro rfl
        rfl
      · rintro err rfl
        rfl
  · exact Setup.acc_step (eventProducer_bounded () ()) x
  · obtain ⟨hfailed, hok⟩ := reached_done hbatch hreach hmain
    constructor
    · intro a ha err hfail
      rw [hfailed a ha err hfail]
      rfl
    · intro hall
      obtain ⟨summary, rfl, rfl, hwrote⟩ := hok hall
      exact ⟨summary, hwrote, rfl⟩
  · intro ρ abortsOnError outcome onClosed capacity x y a b j k hx hy hxdone hydone
    -- the plan and the first counters do not mention the capacity
    let other : PipelineConfig := { config with channelCapacity := capacity }
    have hwrote := (@done_ok _ _ _ _ _ other _ _ _ _ _ _ _ hbatch _ hy _ _ hydone).2
    exact (done_ok hbatch hx hxdone).2.unique hwrote rfl rfl

/-- Stores that accept everything. -/
def acceptingStores : Stores Unit Unit Unit Unit
  | (), .writeBatch batch => (.ok ⟨batch.length, batch.length, 0, 0⟩, ())
  | (), .updateAfterBatch .. => (.ok (), ())
  | (), .recordSlotStates .. => (.ok (), ())
  | (), .advanceContiguousFinalized _ => (.ok .default, ())
  | (), .channelLen => ((0 : Nat), ())
  | (), .onActivity _ => ((), ())
  | (), .onProgress _ => ((), ())
  | (), .batchElapsed => ((0 : Nat), ())

theorem acceptingStores_ok (calls : List PipelineCall) :
    ∀ a ∈ replies acceptingStores () calls, failureOf a.1 a.2 = none := by
  induction calls with
  | nil => exact nofun
  | cons c calls ih =>
      intro a ha
      rcases List.mem_cons.mp ha with rfl | ha
      · cases c <;> rfl
      · exact ih a ha

/-- A channel of one, and a producer that fails once it has sent its events. -/
def capacityOne := producerPipeline (P := Unit) ⟨2, 1, none, false, true⟩ "test" (.error ())
  (.ok ()) acceptingStores

def threeSlots : List NormalizedEvent := [finalizedSlot 7 6, finalizedSlot 8 7, finalizedSlot 9 8]

/-- Three events are written in two batches before the producer's error is returned. -/
theorem bounded_channel_pipeline_capacity_one : ∃ x result j,
    Reached ⟨2, 1, none, false, true⟩ "test" true (.error () : Except Unit Unit) (.ok ())
      acceptingStores () threeSlots x ∧
    x.main = .done result j ∧
    writtenBatches x.trace = [[finalizedSlot 7 6, finalizedSlot 8 7], [finalizedSlot 9 8]] ∧
    producerPipelineResult result j = .error (.producer ()) := by
  have hcalm : ∀ y, capacityOne.Reaches (capacityOne.init () (.sending threeSlots)) y →
      y.main ≠ .panicked := fun y hy => not_panicked (by decide) hy
  have hbound : Setup.Bounded capacityOne.producer SendTask.rank := eventProducer_bounded _ _
  have hanswers : capacityOne.Answers := pipelineAct_total acceptingStores
  obtain ⟨x, result, j, hreach, hmain⟩ := Setup.exists_done hbound hanswers
    (eventProducer_lively _ _) (show 0 < capacityOne.capacity from Nat.one_pos) hcalm
  obtain ⟨-, -, hdone⟩ := (bounded_channel_pipeline (P := Unit) ⟨2, 1, none, false, true⟩
    (by decide) (by decide) "test" (.error ()) (.ok ()) acceptingStores () threeSlots).1 x hreach
  obtain ⟨-, hall⟩ := hdone result j hmain
  have hreplies := storeTrace_eq_replies (Setup.inv_reaches hreach).execution.world
  obtain ⟨summary, hwrote, -, herror⟩ := hall fun a ha =>
    acceptingStores_ok _ a (hreplies ▸ ha)
  refine ⟨x, result, j, hreach, hmain, ?_, herror () rfl⟩
  rw [← writtenBatches_storeTrace, hwrote.calls]
  rfl

end YellowstoneStream.Stream

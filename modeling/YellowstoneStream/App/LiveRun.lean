import YellowstoneStream.App.Live
import YellowstoneStream.App.Metrics
import YellowstoneStream.Stream.GrpcProducer

/-!
# Live runs

The two tasks of `run_yellowstone` with what their callbacks share: the counter of decode errors,
the published status and the metrics.  A callback is one step with the call of it.
-/

open Relation YellowstoneStream.Domain YellowstoneStream.Reasoning YellowstoneStream.Storage
open YellowstoneStream.Stream

namespace YellowstoneStream.App

abbrev GrpcSystem :=
  System PipelineCall (PostgresReply PostgresSlotStateError)
    (PipelineError PostgresWriteError PostgresCursorError PostgresSlotStateError) GrpcTask
    NormalizedEvent (Except YellowstoneGrpcError Unit) ReceiverState PipelineSummary LiveWorld

/-- What a step does beside the two tasks. -/
inductive Effect where
  | message (update : SubscribeUpdate)
  | decodeError
  | reconnect (event : YellowstoneReconnectEvent)
  | progress (summary : PipelineSummary)
  | activity (activity : PipelineActivity)

def taskEffect : GrpcTask → GrpcTask → Option Effect
  | .streaming .., .normalizing _ _ update => some (.message update)
  | .normalizing .., .streaming .. => some .decodeError
  | .failed .., .sleeping _ event => some (.reconnect event)
  | _, _ => none

def callEffect : PipelineCall → Option Effect
  | .onProgress summary => some (.progress summary)
  | .onActivity activity => some (.activity activity)
  | _ => none

def effectOf (x y : GrpcSystem) : Option Effect :=
  match y.trace.drop x.trace.length with
  | ⟨c, _⟩ :: _ => callEffect c
  | [] =>
      match x.task, y.task with
      | .running s, .running s' => taskEffect s s'
      | _, _ => none

structure LiveRun where
  system : GrpcSystem
  decodeErrors : Nat
  status : StatusSnapshot
  metrics : Metrics
  vars : CallbackVars
  /-- All updates received so far; no step reads them. -/
  updates : List SubscribeUpdate

/-- The callbacks read the clocks. -/
def LiveRun.perform (run : LiveRun) (streamName : String) (now nowUnixMs : Nat) : Effect → LiveRun
  | .message update => { run with updates := run.updates ++ [update] }
  | .decodeError => { run with decodeErrors := counterInc run.decodeErrors }
  | .reconnect event =>
      { run with
        metrics := run.metrics.incReconnectAttempts
        status := (StatusUpdate.reconnect event).apply streamName run.status }
  | .progress summary =>
      let (update, vars) := run.vars.progress summary run.decodeErrors nowUnixMs
      { run with
        metrics := run.metrics.afterLiveCall streamName (.onProgress summary)
        status := update.apply streamName run.status
        vars }
  | .activity activity =>
      let (update, vars) := run.vars.activity activity now nowUnixMs
      { run with
        metrics := run.metrics.afterLiveCall streamName (.onActivity activity)
        status := update.elim run.status fun update => update.apply streamName run.status
        vars }

def LiveRun.after (run : LiveRun) (streamName : String) (now nowUnixMs : Nat)
    (effect : Option Effect) : LiveRun :=
  effect.elim run (run.perform streamName now nowUnixMs)

/-- A stream whose provider may send any updates. -/
structure GrpcStream where
  hasher : Hasher
  crates : ProtoCrates
  cluster : String
  streamName : String

namespace GrpcStream

variable (stream : GrpcStream) (settings : LiveSettings) (cursor : Option StreamCursor)

def setup :
    Setup PipelineCall (PostgresReply PostgresSlotStateError)
      (PipelineError PostgresWriteError PostgresCursorError PostgresSlotStateError) GrpcTask
      NormalizedEvent (Except YellowstoneGrpcError Unit) ReceiverState PipelineSummary
      LiveWorld where
  worker := eventReceiverPipeline (settings.config cursor) stream.streamName
  producer := grpcProducer stream.crates stream.cluster settings.reconnect LiveWorld.Configures
  capacity := settings.channelCapacity
  act := liveAct stream.hasher
  abortsOnError := true

def Step (x y : LiveRun) : Prop :=
  (stream.setup settings cursor).Step x.system y.system ∧ ∃ now nowUnixMs,
    y = { x.after stream.streamName now nowUnixMs (effectOf x.system y.system) with
      system := y.system }

/-- The run that `run_yellowstone` begins once it has loaded cursor and frontier. -/
def start (frontier : FinalizedFrontier) (db : Db) : LiveRun where
  system := (stream.setup settings cursor).init
    ⟨db, [encodeSlot frontier.lastContiguousFinalizedSlot], 0⟩
    (.starting (.initial settings.reconnect))
  decodeErrors := 0
  status := initialStatus stream.streamName (settings.config cursor) frontier
  metrics := .new
  vars := .initial
  updates := []

end GrpcStream

/-! ## One step -/

section Perform

variable (run : LiveRun) (streamName : String) (now nowUnixMs : Nat)

theorem perform_progress_status (summary : PipelineSummary) : ∃ newBatch,
    (run.perform streamName now nowUnixMs (.progress summary)).status =
      (StatusUpdate.progress summary newBatch run.decodeErrors nowUnixMs).apply streamName
        run.status :=
  ⟨_, rfl⟩

/-- The activity callback publishes at times. -/
theorem perform_activity_status (activity : PipelineActivity) :
    (run.perform streamName now nowUnixMs (.activity activity)).status = run.status ∨
      (run.perform streamName now nowUnixMs (.activity activity)).status =
        (StatusUpdate.activity activity.slot nowUnixMs).apply streamName run.status := by
  show (run.vars.activity activity now nowUnixMs).1.elim _ _ = _ ∨
    (run.vars.activity activity now nowUnixMs).1.elim _ _ = _
  rw [CallbackVars.activity]
  split
  · exact .inl rfl
  · exact .inr rfl

end Perform

section Effects

variable {x y : GrpcSystem}

theorem effectOf_task {s s' : GrpcTask} (htrace : y.trace = x.trace) (hx : x.task = .running s)
    (hy : y.task = .running s') : effectOf x y = taskEffect s s' := by
  rw [effectOf, htrace, List.drop_length, hx, hy]

theorem effectOf_call {a : Answered (PostgresReply PostgresSlotStateError)}
    (htrace : y.trace = x.trace ++ [a]) : effectOf x y = callEffect a.1 := by
  rw [effectOf, htrace, List.drop_left]

theorem taskEffect_self (s : GrpcTask) : taskEffect s s = none := by
  cases s <;> rfl

theorem effectOf_none (htrace : y.trace = x.trace)
    (htask : y.task = x.task ∨ ∃ j, y.task = .ended j) : effectOf x y = none := by
  rw [effectOf, htrace, List.drop_length]
  rcases htask with hsame | ⟨j, hended⟩
  · rw [hsame]
    cases x.task with
    | running s => exact taskEffect_self s
    | ended j => rfl
  · rw [hended]
    cases x.task <;> rfl

end Effects

section Steps

variable {stream : GrpcStream} {settings : LiveSettings} {cursor : Option StreamCursor}
  {x y : LiveRun}

/-- The effect is that of a move of the producer or of a call, or there is none. -/
theorem GrpcStream.step_cases (h : stream.Step settings cursor x y) :
    (∃ s m s', x.system.task = .running s ∧ y.system.task = .running s' ∧
      GrpcStep stream.crates stream.cluster settings.reconnect x.system.world.Configures s m s' ∧
      y.system.sent = x.system.sent ++ m.sent ∧
      effectOf x.system y.system = taskEffect s s') ∨
    (y.system.sent = x.system.sent ∧ y.system.task = x.system.task ∧
      ∃ c, effectOf x.system y.system = callEffect c) ∨
    (y.system.sent = x.system.sent ∧ effectOf x.system y.system = none ∧
      (y.system.task = x.system.task ∨ y.system.task = .ended .cancelled ∨
        ∃ result, x.system.task = .running (.released result) ∧
          y.system.task = .ended (.returned result))) := by
  rcases h.1.task_cases with ⟨s, m, s', hx, hmove, hy, htrace, hsent⟩ |
    ⟨a, htrace, htask, hsent⟩ | ⟨htrace, hsent, htask⟩
  · exact .inl ⟨s, m, s', hx, hy, hmove, hsent, effectOf_task htrace hx hy⟩
  · exact .inr (.inl ⟨hsent, htask, a.1, effectOf_call htrace⟩)
  · refine .inr (.inr ⟨hsent, ?_, ?_⟩)
    · apply effectOf_none htrace
      rcases htask with hsame | hcancelled | ⟨_, _, -, -, hreturned⟩
      · exact .inl hsame
      · exact .inr ⟨_, hcancelled⟩
      · exact .inr ⟨_, hreturned⟩
    · refine htask.imp_right (Or.imp_right ?_)
      rintro ⟨s, result, hx, hresult, hy⟩
      cases s with
      | released result' =>
          cases hresult
          exact ⟨_, hx, hy⟩
      | _ => cases hresult

theorem GrpcStream.exists_step {y : GrpcSystem}
    (h : (stream.setup settings cursor).Step x.system y) :
    ∃ z : LiveRun, z.system = y ∧ stream.Step settings cursor x z :=
  ⟨{ x.after stream.streamName 0 0 (effectOf x.system y) with system := y }, rfl, h, 0, 0, rfl⟩

/-- Every run of the two tasks is that of a live run. -/
theorem GrpcStream.exists_run {y : GrpcSystem}
    (h : (stream.setup settings cursor).Reaches x.system y) :
    ∃ z : LiveRun, z.system = y ∧ ReflTransGen (stream.Step settings cursor) x z := by
  induction h with
  | refl => exact ⟨x, rfl, .refl⟩
  | @tail mid last _ hstep ih =>
      obtain ⟨z, rfl, hreach⟩ := ih
      obtain ⟨z', hz', hlive⟩ := GrpcStream.exists_step hstep
      exact ⟨z', hz', hreach.tail hlive⟩

end Steps

end YellowstoneStream.App

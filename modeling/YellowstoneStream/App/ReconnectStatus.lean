import YellowstoneStream.App.LiveRun
import YellowstoneStream.Reasoning.StepRun
import YellowstoneStream.Stream.TransactionUpdates

/-!
# The status while the producer is disconnected

The reconnect callback publishes that the producer reconnects, and every progress callback that it
runs, whatever connection the batch came from.
-/

open Relation YellowstoneStream.Domain YellowstoneStream.Reasoning YellowstoneStream.Storage
open YellowstoneStream.Stream

namespace YellowstoneStream.App

namespace LiveRun

/-- The producer stands between a reconnect callback and its next attempt. -/
def Asleep (x : LiveRun) : Prop :=
  ∃ backoff event, x.system.task = .running (.sleeping backoff event)

/-- What is published as running or steady is not disconnected. -/
def StatusLaw (x : LiveRun) : Prop :=
  ∀ live, x.status.live = some live →
    live.producerState = .running ∨ live.recoveryState = .steady → ¬ x.Asleep

/-- A progress callback is made while the producer sleeps. -/
def ProgressAsleep (x y : LiveRun) : Prop :=
  x.Asleep ∧ ∃ summary, effectOf x.system y.system = some (.progress summary)

/-- While the producer sleeps, the status says that it reconnects. -/
def TellsAsleep (x : LiveRun) : Prop :=
  x.Asleep → ∃ live, x.status.live = some live ∧ live.producerState = .reconnecting ∧
    live.recoveryState ≠ .steady

theorem TellsAsleep.statusLaw {x : LiveRun} (h : x.TellsAsleep) : x.StatusLaw := by
  intro live hlive hstate hasleep
  obtain ⟨live', hlive', hproducer, hrecovery⟩ := h hasleep
  rw [hlive] at hlive'
  cases hlive'
  rcases hstate with hrunning | hsteady
  · rw [hproducer] at hrunning
    cases hrunning
  · exact hrecovery hsteady

end LiveRun

section Steps

variable {stream : GrpcStream} {settings : LiveSettings} {cursor : Option StreamCursor}
  {x y : LiveRun}

/-- The live status after an activity callback says of the producer what it said before. -/
theorem tells_perform_activity (activity : PipelineActivity) (streamName : String)
    (now nowUnixMs : Nat) {live : LiveProducerStatus} (hlive : x.status.live = some live) :
    ∃ live', (x.perform streamName now nowUnixMs (.activity activity)).status.live = some live' ∧
      live'.producerState = live.producerState ∧ live'.recoveryState = live.recoveryState := by
  rcases perform_activity_status x streamName now nowUnixMs activity with hsame | hactivity
  · rw [hsame]
    exact ⟨live, hlive, rfl, rfl⟩
  · rw [hactivity]
    refine ⟨live.withEventObserved activity.slot nowUnixMs, ?_, rfl, rfl⟩
    show some ((x.status.live.getD .default).withEventObserved activity.slot nowUnixMs) = _
    rw [hlive]
    rfl

theorem tellsAsleep_step (hstep : stream.Step settings cursor x y) (h : x.TellsAsleep)
    (hquiet : ¬ LiveRun.ProgressAsleep x y) : y.TellsAsleep := by
  rintro ⟨backoff, event, hasleep⟩
  have hcases := GrpcStream.step_cases hstep
  obtain ⟨-, now, nowUnixMs, hy⟩ := hstep
  have hstatus := congrArg LiveRun.status hy
  rcases hcases with ⟨s, m, s', hx, hy', hmove, -, heffect⟩ | ⟨-, htask, c, heffect⟩ |
    ⟨-, heffect, htask⟩
  · -- only a retry goes to sleep, and it has called back
    rw [hasleep] at hy'
    cases hy'
    cases hmove with
    | @retry _ _ fromSlot =>
        rw [heffect] at hstatus
        refine ⟨_, (congrArg StatusSnapshot.live hstatus).trans rfl, ?_, ?_⟩
        · cases fromSlot <;> rfl
        · cases fromSlot <;> nofun
  · have hbefore : x.Asleep := ⟨backoff, event, htask ▸ hasleep⟩
    obtain ⟨live, hlive, hproducer, hrecovery⟩ := h hbefore
    rw [heffect] at hstatus
    cases c with
    | onProgress summary => exact absurd ⟨hbefore, summary, heffect⟩ hquiet
    | onActivity activity =>
        obtain ⟨live', hlive', hsame, hsame'⟩ :=
          tells_perform_activity activity stream.streamName now nowUnixMs hlive
        exact ⟨live', (congrArg StatusSnapshot.live hstatus).trans hlive', hsame.trans hproducer,
          hsame' ▸ hrecovery⟩
    | _ => exact ⟨live, (congrArg StatusSnapshot.live hstatus).trans hlive, hproducer, hrecovery⟩
  · rw [heffect] at hstatus
    rcases htask with hsame | hcancelled | ⟨_, -, hreturned⟩
    · obtain ⟨live, hlive, hrest⟩ := h ⟨backoff, event, hsame ▸ hasleep⟩
      exact ⟨live, (congrArg StatusSnapshot.live hstatus).trans hlive, hrest⟩
    · rw [hasleep] at hcancelled
      cases hcancelled
    · rw [hasleep] at hreturned
      cases hreturned

/-- A progress callback says that the producer runs. -/
theorem not_statusLaw_of_progressAsleep (hstep : stream.Step settings cursor x y)
    (h : LiveRun.ProgressAsleep x y) : ¬ y.StatusLaw := by
  obtain ⟨⟨backoff, event, hasleep⟩, summary, hprogress⟩ := h
  have hcases := GrpcStream.step_cases hstep
  obtain ⟨-, now, nowUnixMs, hy⟩ := hstep
  obtain ⟨newBatch, hpublished⟩ :=
    perform_progress_status x stream.streamName now nowUnixMs summary
  have hstatus := congrArg LiveRun.status hy
  rw [hprogress] at hstatus
  have hlive := congrArg StatusSnapshot.live (hstatus.trans hpublished)
  intro hlaw
  refine hlaw _ hlive (.inl ?_) ?_
  · cases newBatch <;> rfl
  · rcases hcases with ⟨s, m, s', hx, -, hmove, -, heffect⟩ | ⟨-, htask, -⟩ | ⟨-, heffect, -⟩
    · -- the producer that sleeps only wakes up
      rw [hasleep] at hx
      cases hx
      cases hmove
      rw [heffect] at hprogress
      cases hprogress
    · exact ⟨backoff, event, htask.trans hasleep⟩
    · rw [heffect] at hprogress
      cases hprogress

end Steps

/-- No published status calls a disconnected producer running or steady, exactly in those runs in
which no progress callback is made while the producer sleeps. -/
theorem status_tells_reconnecting_iff (stream : GrpcStream) (settings : LiveSettings)
    (cursor : Option StreamCursor) (frontier : FinalizedFrontier) (db : Db) (run : List LiveRun)
    (hrun : (stream.start settings cursor frontier db :: run).IsChain
      (stream.Step settings cursor)) :
    (∀ x ∈ stream.start settings cursor frontier db :: run, x.StatusLaw) ↔
      (stream.start settings cursor frontier db :: run).IsChain
        fun x y => ¬ LiveRun.ProgressAsleep x y := by
  have hstart : (stream.start settings cursor frontier db).TellsAsleep := by
    rintro ⟨backoff, event, hasleep⟩
    cases hasleep
  exact forall_law_iff (fun _ h => h.statusLaw) (fun _ _ hstep h hquiet =>
    tellsAsleep_step hstep h hquiet) (fun _ _ hstep h => not_statusLaw_of_progressAsleep hstep h)
    hstart hrun

/-! ## One update, and a connection that is lost -/

def entryStream : GrpcStream := ⟨sampleHasher, exampleCrates, "mainnet-beta", "test"⟩

def entryStart : LiveRun := entryStream.start ⟨1, 1, .default⟩ none .default .empty

def entrySetup := entryStream.setup ⟨1, 1, .default⟩ none

def firstBackoff : Backoff := ⟨1, 2 * defaultReconnectInitialDelay⟩

theorem firstBackoff_eq :
    (Backoff.initial .default).afterFailure .default 0 0 = some firstBackoff :=
  rfl

/-- What the first failed attempt is reported as. -/
def firstRetry (err : YellowstoneGrpcError) : YellowstoneReconnectEvent :=
  ⟨1, 2 * defaultReconnectInitialDelay, err.kind, err.display "", none⟩

/-- The run after a move of the producer. -/
def LiveRun.move (x : LiveRun) (task : GrpcTask) : LiveRun :=
  let system := { x.system with task := .running task }
  { x.after "test" 0 0 (effectOf x.system system) with system }

theorem entryStream_move {x : LiveRun} {s s' : GrpcTask} (hx : x.system.task = .running s)
    (hmove : GrpcStep exampleCrates "mainnet-beta" .default x.system.world.Configures s .quiet s') :
    entryStream.Step ⟨1, 1, .default⟩ none x (x.move s') :=
  ⟨.quiet hx hmove, 0, 0, rfl⟩

def firstAttempt : LiveRun := entryStart.move (.connecting (.initial .default) none)

/-- The first attempt finds no server. -/
def attemptRefused : LiveRun := firstAttempt.move (.failed (.initial .default) none .connect)

def refusedAsleep : LiveRun :=
  attemptRefused.move (.sleeping firstBackoff (firstRetry .connect))

theorem refused_attempt_tells_reconnecting : refusedAsleep.Asleep ∧ refusedAsleep.StatusLaw := by
  have hrun : [entryStart, firstAttempt, attemptRefused, refusedAsleep].IsChain
      (entryStream.Step ⟨1, 1, .default⟩ none) := by
    refine .cons_cons (entryStream_move rfl (.start _ ⟨0, List.mem_singleton_self _, rfl⟩)) ?_
    refine .cons_cons (entryStream_move rfl (.notSubscribed _ _ rfl)) ?_
    refine .cons_cons (entryStream_move rfl (.retry rfl (Nat.zero_le _) firstBackoff_eq "")) ?_
    exact .singleton _
  have hquiet : [entryStart, firstAttempt, attemptRefused, refusedAsleep].IsChain
      fun x y => ¬ LiveRun.ProgressAsleep x y := by
    refine .cons_cons ?_ (.cons_cons ?_ (.cons_cons ?_ (.singleton _)))
    all_goals
      rintro ⟨⟨backoff, event, hasleep⟩, -⟩
      cases hasleep
  have hlaw := (status_tells_reconnecting_iff entryStream _ none _ _ _ hrun).mpr hquiet
  exact ⟨⟨_, _, rfl⟩, hlaw refusedAsleep (by simp)⟩

def entryUpdate : SubscribeUpdate := ⟨[], some (.entry ⟨7, 0, 1, [], 0, 0⟩)⟩

theorem entryUpdate_normalizes : ∃ payload,
    normalizeYellowstoneProtoUpdate exampleCrates "mainnet-beta" entryUpdate =
      .ok [⟨.entry "mainnet-beta" 7 0, payload⟩] :=
  ⟨_, rfl⟩

/-- The producer has sent its event, lost the connection and called back. -/
def sentAsleep (event : NormalizedEvent) : GrpcSystem :=
  { entryStart.system with
    task := .running (.sleeping firstBackoff (firstRetry .streamClosed))
    queue := [event]
    sent := [event] }

theorem sentAsleep_reached {event : NormalizedEvent}
    (hnormalized :
      normalizeYellowstoneProtoUpdate exampleCrates "mainnet-beta" entryUpdate = .ok [event]) :
    entrySetup.Reaches entryStart.system (sentAsleep event) := by
  have hbreaks : YellowstoneGrpcError.streamClosed.breaksStream = true := rfl
  have hconnecting : entrySetup.Reaches entryStart.system _ :=
    .single (.quiet rfl (.start _ ⟨0, List.mem_singleton_self _, rfl⟩))
  have hstreaming : entrySetup.Reaches entryStart.system _ :=
    hconnecting.tail (.quiet rfl (.subscribed _ _))
  have hmessage : entrySetup.Reaches entryStart.system _ :=
    hstreaming.tail (.quiet rfl (.message _ _ entryUpdate))
  have haccepted : entrySetup.Reaches entryStart.system _ :=
    hmessage.tail (.quiet rfl (.accept _ _ hnormalized))
  have hqueued : entrySetup.Reaches entryStart.system _ :=
    haccepted.tail (.send rfl (.send _ _ _ _) rfl Nat.one_pos)
  have hsent : entrySetup.Reaches entryStart.system _ := hqueued.tail (.quiet rfl (.sent _ _))
  have hfailed : entrySetup.Reaches entryStart.system _ :=
    hsent.tail (.quiet rfl (.broken _ _ hbreaks))
  exact hfailed.tail (.quiet rfl (.retry rfl (Nat.zero_le _) firstBackoff_eq ""))

/-- The calls for one event, up to the report of its batch. -/
def writtenEntry (event : NormalizedEvent) :
    List (Answered (PostgresReply PostgresSlotStateError)) :=
  [⟨.channelLen, (0 : Nat)⟩, ⟨.onActivity ⟨7, 1, 0, 1, "entry"⟩, ()⟩,
    ⟨.writeBatch [event], .ok (Storage.writeBatch sampleHasher Db.empty.events [event]).1⟩,
    ⟨.batchElapsed, (12 : Nat)⟩, ⟨.updateAfterBatch "test" 7, .ok ()⟩]

/-- The event is drained and written before the producer wakes up. -/
theorem reported_asleep (payload : Value) : ∃ y : GrpcSystem,
    entrySetup.Reaches (sentAsleep ⟨.entry "mainnet-beta" 7 0, payload⟩) y ∧
      y.task = .running (.sleeping firstBackoff (firstRetry .streamClosed)) ∧
      ∃ summary next, y.main = .looping (.call (.onProgress summary) next) := by
  let event : NormalizedEvent := ⟨.entry "mainnet-beta" 7 0, payload⟩
  have hstart : entrySetup.Reaches (sentAsleep event) _ :=
    .single (.callLooping (r := ()) rfl (liveAct_of_storeReply trivial rfl))
  have hreceived : entrySetup.Reaches (sentAsleep event) _ := hstart.tail (.receive rfl rfl)
  have hwritten : entrySetup.Reaches (sentAsleep event) _ := hreceived.trans <|
    Setup.reaches_of_runs (writtenEntry event) rfl
      (.step (.step (.step (.step (.step (.refl _))))))
      (.cons (liveAct_of_storeReply rfl rfl) <| .cons (liveAct_of_storeReply trivial rfl) <|
        .cons (liveAct_of_storeReply trivial ⟨rfl, rfl⟩) <|
        .cons (liveAct_of_storeReply trivial rfl) <|
        .cons (liveAct_of_storeReply trivial rfl) (.nil _))
  exact ⟨_, hwritten, rfl, _, _, rfl⟩

/-- A batch is reported while the producer sleeps: it is published as running. -/
theorem drained_batch_reported_running : ¬ ∀ (stream : GrpcStream) (settings : LiveSettings)
    (cursor : Option StreamCursor) (frontier : FinalizedFrontier) (db : Db) (x : LiveRun),
    ReflTransGen (stream.Step settings cursor) (stream.start settings cursor frontier db) x →
      x.StatusLaw := by
  intro hall
  obtain ⟨payload, hnormalized⟩ := entryUpdate_normalizes
  obtain ⟨y, hreported, htask, summary, next, hmain⟩ := reported_asleep payload
  obtain ⟨x, rfl, hreach⟩ :=
    GrpcStream.exists_run ((sentAsleep_reached hnormalized).trans hreported)
  have hcall : entrySetup.Step x.system _ :=
    .callLooping hmain (liveAct_of_storeReply (c := .onProgress summary) (r := ()) trivial rfl)
  obtain ⟨z, hz, hstep⟩ := GrpcStream.exists_step hcall
  have hprogress : effectOf x.system z.system = some (.progress summary) := by
    rw [effectOf_call (congrArg System.trace hz)]
    rfl
  exact not_statusLaw_of_progressAsleep hstep ⟨⟨_, _, htask⟩, summary, hprogress⟩
    (hall _ _ _ _ _ _ (hreach.tail hstep))

end YellowstoneStream.App

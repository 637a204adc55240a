import YellowstoneStream.App.Capacity
import YellowstoneStream.App.CrashEquivalence
import YellowstoneStream.App.Startup
import YellowstoneStream.Stream.Reconnect
import YellowstoneStream.Stream.ReplayFile

/-!
# The replay process

`main` in replay mode, from the parsed arguments to the exit code.  Any statement of the pipeline
may fail, and one that is reported as failed may have been committed.  Memory never runs out.
-/

open YellowstoneStream.Domain YellowstoneStream.Reasoning YellowstoneStream.Storage
open YellowstoneStream.Stream

namespace YellowstoneStream.App

inductive PostgresInitError where
  | connect
  | migrate
  deriving DecidableEq, Repr

inductive HttpError where
  | bind
  | serve
  deriving DecidableEq, Repr

/-- The errors of a build with the live mode. -/
inductive AppRunError (ε : Type) where
  | replay (err : ReplayReadError ε)
  | postgres (err : PostgresInitError)
  | cursor (err : PostgresCursorError)
  | slotState (err : PostgresSlotStateError)
  | pipeline (err : PipelineError PostgresWriteError PostgresCursorError PostgresSlotStateError)
  | yellowstonePipeline (err : ProducerPipelineError PostgresWriteError PostgresCursorError
      PostgresSlotStateError YellowstoneGrpcError)
  | http (err : HttpError)
  | metrics

namespace AppRunError

variable {ε : Type}

def exitCode : AppRunError ε → Nat
  | .replay _ => 3
  | .postgres _ => 4
  | .cursor _ | .pipeline _ | .slotState _ => 5
  | .yellowstonePipeline _ => 5
  | .http _ => 6
  | .metrics => 8

def ofPipelineError : PipelineError PostgresWriteError PostgresCursorError Empty → AppRunError ε
  | .write err => .pipeline (.write err)
  | .cursor err => .pipeline (.cursor err)
  | .producerJoin => .pipeline .producerJoin

def ofProducerPipelineError :
    ProducerPipelineError PostgresWriteError PostgresCursorError Empty Empty → AppRunError ε
  | .pipeline err => ofPipelineError err
  | .producerJoin => .pipeline .producerJoin

end AppRunError

/-- What the process finds on its host. -/
structure ReplayHost (ε : Type) where
  hasher : Hasher
  json : JsonText
  files : Files ε
  var : String → Except VarError String
  /-- The bytes that an event takes in memory. -/
  eventSize : Nat

/-- The calls of the pipeline, each of which may fail. -/
def faultyReplayAct (hasher : Hasher) : Answering PostgresWriteError PostgresCursorError Empty Db :=
  fun depth db c r db' => ReadsDepth depth c r ∧ faultyReply hasher noopSlotStateStore db c r db'

/-- A reachable state of a run that found the cursor. -/
def ReplayJob.FaultyFrom (job : ReplayJob) (cursor : Option StreamCursor) (db : Db)
    (x : ReplaySystem) : Prop :=
  ReachedBy (job.config cursor) job.streamName true (.ok ()) (.ok ()) (faultyReplayAct job.hasher)
    db job.events x

namespace ReplayHost

variable {ε : Type} (host : ReplayHost ε)

def load (args : CliArgs) : Except ConfigError Config := do
  let config ← Config.fromEnv host.var
  config.applyOverrides args

def readEvents (config : Config) : Except (ReplayReadError ε) (List NormalizedEvent) :=
  readJsonlEvents host.json host.files config.replayPath

def job (config : Config) (events : List NormalizedEvent) : ReplayJob :=
  ⟨host.hasher, config.batchSize, config.channelCapacity, config.streamName, events⟩

/-- The pipeline panics before its first call: `mpsc::channel` above the permits of its semaphore,
or `Vec::with_capacity` of the batcher above `isize::MAX` bytes. -/
def PanicsOnStart (config : Config) : Prop :=
  maxPermits < config.channelCapacity ∨ isizeMax < config.batchSize * host.eventSize

/-- The end of `run_replay`, which serves its endpoints unless it is told to exit. -/
def finishReplay (config : Config) (served : Except HttpError Unit) :
    Except (ProducerPipelineError PostgresWriteError PostgresCursorError Empty Empty)
      PipelineSummary → Except (AppRunError ε) Unit
  | .error err => .error (.ofProducerPipelineError err)
  | .ok _ => if config.exitAfterReplay then .ok () else served.mapError .http

/-- How a `run_replay` that finds `db` may end, and what it leaves. -/
inductive RunReplay (config : Config) (db : Db) : Except (AppRunError ε) Unit → Db → Prop
  | metrics : RunReplay config db (.error .metrics) db
  | replay {err : ReplayReadError ε} (hread : host.readEvents config = .error err) :
      RunReplay config db (.error (.replay err)) db
  | postgres {events : List NormalizedEvent} (hread : host.readEvents config = .ok events)
      (err : PostgresInitError) : RunReplay config db (.error (.postgres err)) db
  | cursor {events : List NormalizedEvent} {err : PostgresCursorError}
      (hread : host.readEvents config = .ok events)
      (herr : getCursor db config.streamName = .error err ∨ err = .sqlx) :
      RunReplay config db (.error (.cursor err)) db
  | pipeline {events : List NormalizedEvent} {cursor : Option StreamCursor} {x : ReplaySystem}
      {result : Except (PipelineError PostgresWriteError PostgresCursorError Empty) PipelineSummary}
      {j : Joined (Except Empty Unit)} (hread : host.readEvents config = .ok events)
      (hcursor : getCursor db config.streamName = .ok cursor)
      (hstarts : ¬ host.PanicsOnStart config)
      (hreach : (host.job config events).FaultyFrom cursor db x)
      (hmain : x.main = .done result j) (served : Except HttpError Unit) :
      RunReplay config db (finishReplay config served (producerPipelineResult result j)) x.world

def exitCodeOf : Except (AppRunError ε) Unit → Nat
  | .ok () => 0
  | .error err => err.exitCode

/-- How `main` may exit in replay mode. -/
inductive Exits (args : CliArgs) (db : Db) : Nat → Db → Prop
  | config {err : ConfigError} (hload : host.load args = .error err) : Exits args db 2 db
  | telemetry {config : Config} (hload : host.load args = .ok config) : Exits args db 2 db
  | run {config : Config} {result : Except (AppRunError ε) Unit} {db' : Db}
      (hload : host.load args = .ok config) (hmode : config.runMode = .replay)
      (hrun : host.RunReplay config db result db') : Exits args db (exitCodeOf result) db'
  -- the exit code of a panic in `main`
  | panic {config : Config} {events : List NormalizedEvent} {cursor : Option StreamCursor}
      (hload : host.load args = .ok config) (hmode : config.runMode = .replay)
      (hread : host.readEvents config = .ok events)
      (hcursor : getCursor db config.streamName = .ok cursor)
      (hpanics : host.PanicsOnStart config) : Exits args db 101 db

end ReplayHost

/-! ## The next call of a plan -/

section Planned

variable {W C S ρ Ω : Type} {config : PipelineConfig} {streamName : String} {abortsOnError : Bool}
  {outcome onClosed : ρ} {act : Answering W C S Ω} {w : Ω} {events : List NormalizedEvent}
  {x : PipelineSystem W C S ρ Ω} {c : PipelineCall}

/-- The next store call goes on with the plan, and no store call before it failed. -/
def NextPlanned (config : PipelineConfig) (streamName : String) (events : List NormalizedEvent)
    (tr : PipelineTrace W C S) (c : PipelineCall) : Prop :=
  (∃ rest, plannedCalls config streamName events = Program.calls (storeTrace tr) ++ c :: rest) ∧
    ∀ a ∈ storeTrace tr, failureOf a.1 a.2 = none

theorem nextPlanned_looping (hbatch : 0 < config.batchSize)
    (hreach : ReachedBy config streamName abortsOnError outcome onClosed act w events x)
    {next : PipelineCall.Reply W C S c → PipelineProgram W C S ReceiverState}
    (hmain : x.main = .looping (.call c next)) (hc : c.isStore = true) :
    NextPlanned config streamName events x.trace c := by
  have hinv := Setup.inv_reaches hreach
  obtain ⟨⟨rest, hplan⟩, hok, -⟩ := (follows_consume hbatch streamName x.received).issued_call
    (hinv.execution.loop _ hmain) hc
  -- only full batches so far, and those of a prefix are the first of them all
  have hfront : x.received <+: events := hinv.flow.received_of_sent.trans (prefix_sent hreach)
  have hfull : fullChunks config.batchSize (keptEvents config x.received) <+:
      batchesOf config events :=
    (prefix_fullChunks _ (hfront.filter _)).trans (List.prefix_append _ _)
  obtain ⟨more, hmore⟩ := hfull
  refine ⟨⟨rest ++ more.flatMap (batchCalls streamName config.advanceFinalizedWatermark), ?_⟩, hok⟩
  rw [plannedCalls, ← hmore, List.flatMap_append, hplan, List.append_assoc, List.cons_append]
  rfl

theorem nextPlanned_closing (hbatch : 0 < config.batchSize)
    (hreach : ReachedBy config streamName abortsOnError outcome onClosed act w events x)
    {next : PipelineCall.Reply W C S c → PipelineProgram W C S PipelineSummary}
    (hmain : x.main = .closing (.call c next)) (hc : c.isStore = true) :
    NextPlanned config streamName events x.trace c := by
  have hruns := (Setup.inv_reaches hreach).execution.runs
  rw [hmain, (received_all hreach (by rw [hmain]; rfl)).1] at hruns
  obtain ⟨hplan, hok, -⟩ := (follows_pipeline hbatch streamName events).issued_call hruns hc
  exact ⟨hplan, hok⟩

end Planned

/-! ## Where a replay can be stopped -/

section Stopped

variable {hasher : Hasher} {config : PipelineConfig} {streamName : String}
  {events : List NormalizedEvent} {db : Db}

/-- Some first calls of the plan have taken effect: all that were made, unless the last failed. -/
def Stopped (hasher : Hasher) (config : PipelineConfig) (streamName : String)
    (events : List NormalizedEvent) (db : Db) (tr : PostgresTrace Empty) (w : Db) : Prop :=
  ∃ made, made <+: plannedCalls config streamName events ∧
    (∀ slot, .updateAfterBatch streamName slot ∈ made → slot ≤ i64Max) ∧
    w = made.foldl (applyCall hasher) db ∧
    ((∀ a ∈ storeTrace tr, failureOf a.1 a.2 = none) → made = Program.calls (storeTrace tr))

theorem stopped_start : Stopped hasher config streamName events db [] db :=
  ⟨[], List.nil_prefix, nofun, rfl, fun _ => rfl⟩

variable {w w' : Db} {tr : PostgresTrace Empty} {c : PipelineCall} {r : PostgresReply Empty c}

theorem storeTrace_snoc (hc : c.isStore = true) :
    storeTrace (tr ++ [⟨c, r⟩]) = storeTrace tr ++ [⟨c, r⟩] := by
  rw [storeTrace, Program.issued_append, Program.issued_cons_of_planned hc]
  rfl

theorem stopped_silent (hc : c.isStore = false)
    (hact : faultyReply hasher noopSlotStateStore w c r w')
    (h : Stopped hasher config streamName events db tr w) :
    Stopped hasher config streamName events db (tr ++ [⟨c, r⟩]) w' := by
  have hsame : w' = w := by
    rcases faultyReply_effect hact with hsame | ⟨r', hstore⟩
    · exact hsame
    · cases c with
      | channelLen | onActivity | onProgress | batchElapsed => exact hstore
      | writeBatch | updateAfterBatch | recordSlotStates | advanceContiguousFinalized => cases hc
  have htrace : storeTrace (tr ++ [⟨c, r⟩]) = storeTrace tr := by
    rw [storeTrace, Program.issued_append, Program.issued_cons_of_other hc]
    exact List.append_nil _
  rw [Stopped, htrace, hsame]
  exact h

/-- A cursor update that is out of range changes nothing. -/
theorem applyCall_of_not_fits (hfits : ¬ ∀ slot, c = .updateAfterBatch streamName slot →
    slot ≤ i64Max) : applyCall hasher w c = w := by
  push Not at hfits
  obtain ⟨slot, rfl, hlarge⟩ := hfits
  rw [applyCall, updateAfterBatch_of_gt w streamName hlarge]

theorem stopped_store (hc : c.isStore = true)
    (hact : faultyReply hasher noopSlotStateStore w c r w')
    (hnext : NextPlanned config streamName events tr c)
    (h : Stopped hasher config streamName events db tr w) :
    Stopped hasher config streamName events db (tr ++ [⟨c, r⟩]) w' := by
  obtain ⟨made, hmade, hfits, hworld, hcalls⟩ := h
  obtain ⟨⟨rest, hplan⟩, hok⟩ := hnext
  have hcalls := hcalls hok
  have happlied (hfit : ∀ slot, c = .updateAfterBatch streamName slot → slot ≤ i64Max)
      (heffect : w' = applyCall hasher w c) :
      Stopped hasher config streamName events db (tr ++ [⟨c, r⟩]) w' := by
    refine ⟨made ++ [c], ⟨rest, ?_⟩, fun slot hslot => ?_, ?_, fun _ => ?_⟩
    · rw [hplan, hcalls, List.append_assoc]
      rfl
    · rcases List.mem_append.mp hslot with hold | hnew
      · exact hfits slot hold
      · exact hfit slot (List.mem_singleton.mp hnew).symm
    · rw [heffect, hworld, List.foldl_append]
      rfl
    · rw [storeTrace_snoc hc, hcalls, Program.calls, Program.calls, List.map_append]
      rfl
  cases hfail : failureOf c r with
  | none =>
      have hstore := faultyReply_of_ok hact hfail
      refine happlied ?_ (applyCall_of_reply hstore)
      rintro slot rfl
      apply (updateAfterBatch_ok_iff w streamName slot).mp
      cases r with
      | ok _ => rw [show Storage.updateAfterBatch w streamName slot = (.ok (), w') from hstore]
      | error err => cases hfail
  | some err =>
      -- the failed call is the last, and has taken effect or not
      have hstays : Stopped hasher config streamName events db (tr ++ [⟨c, r⟩]) w := by
        refine ⟨made, hmade, hfits, hworld, fun hall => ?_⟩
        rw [storeTrace_snoc hc] at hall
        have hlast := hall ⟨c, r⟩ (List.mem_append_right _ List.mem_cons_self)
        cases hlast.symm.trans hfail
      rcases faultyReply_effect hact with rfl | ⟨r', hstore⟩
      · exact hstays
      · by_cases hfit : ∀ slot, c = .updateAfterBatch streamName slot → slot ≤ i64Max
        · exact happlied hfit (applyCall_of_reply hstore)
        · rw [applyCall_of_reply hstore, applyCall_of_not_fits hfit]
          exact hstays

variable {x : ReplaySystem}

theorem stopped_of_reaches (hbatch : 0 < config.batchSize)
    (hreach : ReachedBy config streamName true (.ok () : Except Empty Unit) (.ok ())
      (faultyReplayAct hasher) db events x) :
    Stopped hasher config streamName events db x.trace x.world := by
  induction hreach with
  | refl => exact stopped_start
  | tail hbefore hstep ih =>
      cases hstep with
      | @callLooping c next r w' hmain hact =>
          cases hc : c.isStore with
          | false => exact stopped_silent hc hact.2 ih
          | true => exact stopped_store hc hact.2 (nextPlanned_looping hbatch hbefore hmain hc) ih
      | @callClosing c next r w' hmain hact =>
          cases hc : c.isStore with
          | false => exact stopped_silent hc hact.2 ih
          | true => exact stopped_store hc hact.2 (nextPlanned_closing hbatch hbefore hmain hc) ih
      | _ => exact ih

end Stopped

/-! ## Where a run ends -/

section Run

variable {job : ReplayJob} {cursor : Option StreamCursor} {db : Db} {x : ReplaySystem}

/-- The tables once some batches of a run are written, and the cursor is moved for some. -/
def ReplayJob.leaves (job : ReplayJob) (cursor : Option StreamCursor) (db : Db)
    (written moved : Nat) : Db :=
  replayed job.hasher job.streamName db ((job.kept cursor).take (written * job.batchSize))
    ((job.kept cursor).take (moved * job.batchSize))

variable (hbatch : 0 < job.batchSize) (hreach : job.FaultyFrom cursor db x)
include hbatch hreach

theorem leaves_of_reaches : ∃ moved written, moved ≤ written ∧ written ≤ moved + 1 ∧
    x.world = job.leaves cursor db written moved := by
  obtain ⟨made, hmade, hfits, hworld, -⟩ :=
    stopped_of_reaches (config_batchSize_pos hbatch cursor) hreach
  obtain ⟨moved, written, hle, hone, heq⟩ :=
    @foldl_prefix_batches job.hasher job.streamName db _ _ hfits hmade
  refine ⟨moved, written, hle, hone, ?_⟩
  have htake (k : Nat) : ((batchesOf (job.config cursor) job.events).take k).flatten =
      (job.kept cursor).take (k * job.batchSize) := flatten_take_chunks hbatch _ k
  rw [hworld, heq, htake, htake, ReplayJob.leaves]

theorem completed_of_reaches {summary : PipelineSummary} {j : Joined (Except Empty Unit)}
    (hmain : x.main = .done (.ok summary) j) :
    x.world = replayed job.hasher job.streamName db (job.kept cursor) (job.kept cursor) ∧
      ∀ event ∈ job.kept cursor, event.slot ≤ i64Max := by
  obtain ⟨made, -, hfits, hworld, hcalls⟩ :=
    stopped_of_reaches (config_batchSize_pos hbatch cursor) hreach
  have hruns := (Setup.inv_reaches hreach).execution.runs
  rw [hmain, (received_all hreach (by rw [hmain]; rfl)).1] at hruns
  obtain ⟨hplan, hok, -⟩ :=
    (follows_pipeline (config_batchSize_pos hbatch cursor) job.streamName job.events).result hruns
  have hmade : made = (chunks job.batchSize (job.kept cursor)).flatMap
      (batchCalls job.streamName false) := (hcalls hok).trans hplan.symm
  have hmax : ∀ batch ∈ chunks job.batchSize (job.kept cursor), ∀ slot,
      (batch.map NormalizedEvent.slot).max? = some slot → slot ≤ i64Max := by
    intro batch hmem slot hmax
    apply hfits slot
    rw [hmade]
    exact List.mem_flatMap.mpr ⟨batch, hmem, mem_batchCalls_update.mpr hmax⟩
  constructor
  · rw [hworld, hmade, foldl_batches hmax, flatten_chunks]
  · intro event hevent
    obtain ⟨batch, hmem, hin⟩ := exists_mem_chunks job.batchSize hevent
    cases hslot : (batch.map NormalizedEvent.slot).max? with
    | none =>
        rw [max_slot_eq_none_iff.mp hslot] at hin
        exact absurd hin List.not_mem_nil
    | some slot =>
        have hle := (max_slot_eq_some_iff.mp hslot event.slot).mp ⟨event, hin, le_rfl⟩
        exact hle.trans (hmax batch hmem slot hslot)

end Run

/-! ## What an exit code tells -/

section Exit

variable {ε : Type} {host : ReplayHost ε} {args : CliArgs} {config : Config} {db : Db}

theorem batchSize_pos_of_load (hload : host.load args = .ok config) : 0 < config.batchSize := by
  obtain ⟨base, hbase, hfinal⟩ := bind_eq_ok_iff.mp hload
  have haccepted := Config.ensures_fromSource _ base hbase
  exact (haccepted.applyOverrides args config hfinal).1.batchSize.1

/-- What a run was given that came to replay. -/
structure ReplayHost.Prepared (host : ReplayHost ε) (args : CliArgs) (db : Db) (config : Config)
    (events : List NormalizedEvent) (cursor : Option StreamCursor) : Prop where
  loaded : host.load args = .ok config
  read : host.readEvents config = .ok events
  cursor : getCursor db config.streamName = .ok cursor

theorem exitCodeOf_finishReplay {served : Except HttpError Unit}
    {result : Except (PipelineError PostgresWriteError PostgresCursorError Empty) PipelineSummary}
    {j : Joined (Except Empty Unit)} {code : Nat}
    (hcode : ReplayHost.exitCodeOf (ReplayHost.finishReplay (ε := ε) config served
      (producerPipelineResult result j)) = code) :
    ((code = 0 ∨ code = 6) ∧ ∃ summary, result = .ok summary) ∨ code = 5 := by
  subst hcode
  cases result with
  | ok summary =>
      cases j with
      | returned r =>
          cases r with
          | ok _ =>
              refine .inl ⟨?_, summary, rfl⟩
              simp only [producerPipelineResult, ReplayHost.finishReplay]
              by_cases hexit : config.exitAfterReplay = true
              · rw [if_pos hexit]
                exact .inl rfl
              · rw [if_neg hexit]
                cases served with
                | ok _ => exact .inl rfl
                | error err => exact .inr rfl
          | error err => cases err
      | cancelled => exact .inr rfl
  | error err =>
      right
      cases err with
      | slotState err => cases err
      | write | cursor | producerJoin => rfl

end Exit

/-- Where a replay exits with 2, 4 or 8 it has left the database alone, and with 3 because its file
could not be read; with 101 because its batches or its channel are too large; with 5 the events were
written in whole batches up to some batch, and the cursor has moved for these or for all but the
last; with 0 or 6 all of them were, so that the tables are determined by the file and by what was
there before. -/
theorem exit_code_tells {ε : Type} (host : ReplayHost ε) (args : CliArgs) (db db' : Db) (code : Nat)
    (h : host.Exits args db code db') :
    code ∈ [0, 2, 3, 4, 5, 6, 8, 101] ∧
    (code = 2 ∨ code = 4 ∨ code = 8 → db' = db) ∧
    (code = 3 → db' = db ∧ ∃ config err, host.load args = .ok config ∧
      host.readEvents config = .error err) ∧
    (code = 101 → db' = db ∧ ∃ config events cursor, host.Prepared args db config events cursor ∧
      host.PanicsOnStart config) ∧
    (code = 5 → db' = db ∨ ∃ config events cursor moved written,
      host.Prepared args db config events cursor ∧ ¬ host.PanicsOnStart config ∧
        moved ≤ written ∧ written ≤ moved + 1 ∧
        db' = (host.job config events).leaves cursor db written moved) ∧
    (code = 0 ∨ code = 6 → ∃ config events cursor, host.Prepared args db config events cursor ∧
      ¬ host.PanicsOnStart config ∧
      db' = replayed host.hasher config.streamName db ((host.job config events).kept cursor)
        ((host.job config events).kept cursor) ∧
      ∀ event ∈ (host.job config events).kept cursor, event.slot ≤ i64Max) := by
  cases h with
  | config | telemetry => simp
  | @panic config events cursor hload _ hread hcursor hpanics =>
      refine ⟨by decide, fun _ => rfl, nofun, fun _ => ⟨rfl, config, events, cursor, ?_⟩, nofun, ?_⟩
      · exact ⟨⟨hload, hread, hcursor⟩, hpanics⟩
      · exact fun h => absurd h (by decide)
  | @run config result _ hload hmode hrun =>
      generalize hcode : ReplayHost.exitCodeOf result = code
      cases hrun with
      | metrics =>
          obtain rfl : code = 8 := hcode.symm
          simp
      | postgres =>
          obtain rfl : code = 4 := hcode.symm
          simp
      | cursor =>
          obtain rfl : code = 5 := hcode.symm
          simp
      | @replay err hread =>
          obtain rfl : code = 3 := hcode.symm
          refine ⟨by decide, fun _ => rfl, fun _ => ⟨rfl, config, err, hload, hread⟩, nofun,
            nofun, ?_⟩
          exact fun h => absurd h (by decide)
      | @pipeline events cursor x _ j hread hcursor hstarts hreach hmain served =>
          have hbatch : 0 < (host.job config events).batchSize := batchSize_pos_of_load hload
          have hprepared : host.Prepared args db config events cursor := ⟨hload, hread, hcursor⟩
          rcases exitCodeOf_finishReplay hcode with ⟨hzero, summary, rfl⟩ | rfl
          · have hleft := completed_of_reaches hbatch hreach hmain
            have hcompleted := And.intro hprepared (And.intro hstarts hleft)
            rcases hzero with rfl | rfl
            · refine ⟨by decide, fun h => absurd h (by decide), nofun, nofun, nofun, fun _ => ?_⟩
              exact ⟨config, events, cursor, hcompleted⟩
            · refine ⟨by decide, fun h => absurd h (by decide), nofun, nofun, nofun, fun _ => ?_⟩
              exact ⟨config, events, cursor, hcompleted⟩
          · obtain ⟨moved, written, hstopped⟩ := leaves_of_reaches hbatch hreach
            refine ⟨by decide, fun h => absurd h (by decide), nofun, nofun, fun _ => .inr ?_,
              fun h => absurd h (by decide)⟩
            exact ⟨config, events, cursor, moved, written, hprepared, hstarts, hstopped⟩

/-! ## A file of two lines -/

def sampleHost : ReplayHost String :=
  ⟨sampleHasher, linesJson, twoFiles, fun _ => .error .notPresent, 512⟩

def replayArgs : CliArgs :=
  { CliArgs.default with replay := some "events.jsonl", exitAfterReplay := true }

def replayConfig : Config :=
  { sampleConfig with
    yellowstoneEndpoint := none
    replayPath := "events.jsonl"
    exitAfterReplay := true }

theorem replayConfig_loaded : sampleHost.load replayArgs = .ok replayConfig := by
  decide +kernel

theorem readEvents_sample :
    sampleHost.readEvents replayConfig = .ok [deadSlotEvent, deadSlotEvent] := by
  have hopen : twoFiles.openFile "events.jsonl" =
      .ok ⟨fileBytes linesJson [(deadSlotEvent, true)] (some deadSlotEvent), none⟩ := rfl
  show readJsonlEvents linesJson twoFiles "events.jsonl" = _
  rw [readJsonlEvents_of_open hopen, readEventLines_eq_ok_iff,
    lines_fileBytes (linesJson_writes ?_)]
  · have hline : HoldsEvent (ε := String) linesJson (.ok (eventText linesJson deadSlotEvent))
        deadSlotEvent := ⟨_, rfl, parse_deadSlotLine⟩
    exact .cons hline (.cons hline .nil)
  · rintro value ⟨event, hevent, rfl⟩
    simp only [List.map_cons, List.map_nil, Option.toList_some, List.cons_append, List.nil_append,
      List.mem_cons, List.not_mem_nil, or_false, or_self] at hevent
    rw [hevent]

theorem faultyFrom_of_reachesFrom {job : ReplayJob} {cursor : Option StreamCursor} {db : Db}
    {x : ReplaySystem} (h : job.ReachesFrom cursor db x) : job.FaultyFrom cursor db x :=
  Setup.Reaches.mono (fun _ _ _ _ _ hact => ⟨hact.1, .inl hact.2⟩) h

/-- The process exits with 0 once the cursor has moved to the slot of its events. -/
theorem exit_code_tells_success : ∃ db', sampleHost.Exits replayArgs .empty 0 db' ∧
    db'.streamCursors "replay" = some ⟨1, none, none⟩ := by
  have hfits : ∀ event ∈ [deadSlotEvent, deadSlotEvent], event.slot ≤ i64Max := by decide
  obtain ⟨x, summary, j, hreach, hmain⟩ := @exists_completed
    (sampleHost.job replayConfig [deadSlotEvent, deadSlotEvent]) (by decide) (by decide) hfits none
    .empty
  have hreturned : j = .returned (.ok ()) := (received_all hreach (by rw [hmain]; rfl)).2 j
    ((Setup.inv_reaches hreach).ending.joined _ _ hmain)
  have hexits : sampleHost.Exits replayArgs .empty 0 x.world := by
    subst hreturned
    have hstarts : ¬ sampleHost.PanicsOnStart replayConfig := by
      show ¬ (maxPermits < 10000 ∨ isizeMax < 500 * 512)
      decide
    exact .run replayConfig_loaded rfl (.pipeline readEvents_sample rfl hstarts
      (faultyFrom_of_reachesFrom hreach) hmain (.ok ()))
  refine ⟨x.world, hexits, ?_⟩
  obtain ⟨-, -, -, -, -, hdone⟩ := exit_code_tells sampleHost replayArgs .empty x.world 0 hexits
  obtain ⟨config, events, cursor, hprepared, -, hworld, -⟩ := hdone (.inl rfl)
  obtain rfl : config = replayConfig := Except.ok.inj
    (hprepared.loaded.symm.trans replayConfig_loaded)
  obtain rfl : events = [deadSlotEvent, deadSlotEvent] := Except.ok.inj
    (hprepared.read.symm.trans readEvents_sample)
  obtain rfl : cursor = none := Except.ok.inj (hprepared.cursor.symm.trans rfl)
  rw [hworld]
  rfl

end YellowstoneStream.App

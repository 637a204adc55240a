import YellowstoneStream.App.Startup
import YellowstoneStream.Storage.BindParameters

/-!
# What an accepted configuration can run

A batch is one insert, so the batch size is limited by the parameters a statement may have, and the
channel by the permits of its semaphore.  The configuration is checked against neither.
-/

open YellowstoneStream.Domain YellowstoneStream.Reasoning YellowstoneStream.Storage
open YellowstoneStream.Stream

namespace YellowstoneStream.App

def isizeMax : Nat := 2 ^ 63 - 1

-- `Semaphore::MAX_PERMITS`, above which `mpsc::channel` panics
def maxPermits : Nat := usizeMax >>> 3

/-- The most events whose rows fit into one statement. -/
def maxBatchSize : Nat := maxBindParameters / 9

/-- The parameters of the insert a call issues, if it issues one. -/
def insertBinds (hasher : Hasher) (order : IterationOrder) : PipelineCall → Option Nat
  | .writeBatch batch => writeBatchBinds hasher batch
  | .recordSlotStates _ updates => recordSlotStatesBinds order updates
  | _ => none

/-- Batcher and channel are built without a panic, an event taking `eventSize` bytes, and in no run
an insert has too many parameters. -/
structure Runnable (hasher : Hasher) (eventSize : Nat) (streamName : String)
    (config : PipelineConfig) : Prop where
  batcher : (Batcher.new config.batchSize).isSome = true
  pending : config.batchSize * eventSize ≤ isizeMax
  channel : 0 < config.channelCapacity ∧ config.channelCapacity ≤ maxPermits
  inserts : ∀ (events : List NormalizedEvent) (tr : PostgresTrace PostgresSlotStateError)
    (c : PipelineCall) (next : PostgresReply PostgresSlotStateError c → PostgresProgram),
    Program.Runs ((eventReceiverPipeline config streamName).whole events) tr (.call c next) →
    ∀ order, ∀ n ∈ insertBinds hasher order c, n ≤ maxBindParameters

/-- The pipeline a configuration is run with, by `run_replay` or by `run_yellowstone`. -/
def Config.pipelineConfig (config : Config) (cursor : Option StreamCursor) : PipelineConfig :=
  match config.runMode with
  | .replay =>
      ⟨config.batchSize, config.channelCapacity, cursor.map StreamCursor.lastPersistedSlot, false,
        true⟩
  | .yellowstone => config.liveSettings.config cursor

section Pipeline

variable {hasher : Hasher} {eventSize : Nat} {streamName : String} {config : PipelineConfig}

theorem insertBinds_le (hsize : 0 < config.batchSize) (hle : config.batchSize ≤ maxBatchSize)
    {events : List NormalizedEvent} {tr : PostgresTrace PostgresSlotStateError} {c : PipelineCall}
    {next : PostgresReply PostgresSlotStateError c → PostgresProgram}
    (hrun : Program.Runs ((eventReceiverPipeline config streamName).whole events) tr (.call c next))
    {order : IterationOrder} {n : Nat} (hn : insertBinds hasher order c = some n) :
    n ≤ maxBindParameters := by
  have hstore : c.isStore = true := by cases c <;> first | rfl | cases hn
  obtain ⟨done, batch, rest, earlier, later, hbatches, hbatch, -⟩ :=
    issued_in_batch hsize hrun hstore
  have hlength : batch.length ≤ config.batchSize := (chunks_length hsize hbatches).2.1
  have hcall : c ∈ batchCalls streamName config.advanceFinalizedWatermark batch := by
    rw [hbatch]
    exact List.mem_append_right _ List.mem_cons_self
  have hmax : 9 * maxBatchSize ≤ maxBindParameters := by decide
  cases c with
  | writeBatch events =>
      -- nine parameters for each event that becomes a row
      obtain rfl : events = batch := mem_batchCalls_write hcall
      have hbinds := writeBatchBinds_le hn
      omega
  | recordSlotStates name updates =>
      -- five parameters for each distinct slot, and no event gives more than one
      have hupdates : updates = slotStates batch := (mem_batchCalls_record hcall).2.1
      have hbinds := recordSlotStatesBinds_eq hn
      have hdistinct := (List.dedup_sublist (updates.map SlotStateUpdate.slot)).length_le
      have hstates : updates.length ≤ batch.length := by
        rw [hupdates]
        exact List.length_filterMap_le _ _
      rw [List.length_map] at hdistinct
      omega
  | _ => cases hn

/-- Without a cursor a full batch of transactions comes to be written. -/
theorem full_batch_issued (hsize : 0 < config.batchSize) (hresume : config.resumeAfterSlot = none) :
    ∃ (tr : PostgresTrace PostgresSlotStateError) (next : _ → PostgresProgram),
      Program.Runs ((eventReceiverPipeline config streamName).whole
        (List.replicate config.batchSize (transfer 7))) tr
        (.call (.writeBatch (List.replicate config.batchSize (transfer 7))) next) := by
  have hkept : keptEvents config (List.replicate config.batchSize (transfer 7)) =
      List.replicate config.batchSize (transfer 7) := by
    apply List.filter_eq_self.mpr
    intro event _
    rw [hresume, shouldSkipEvent, Option.any_none, Bool.and_false]
    rfl
  have hne : List.replicate config.batchSize (transfer 7) ≠ [] :=
    List.length_pos_iff.mp (by rw [List.length_replicate]; exact hsize)
  have hbatches : batchesOf config (List.replicate config.batchSize (transfer 7)) =
      [List.replicate config.batchSize (transfer 7)] := by
    rw [batchesOf, hkept]
    exact chunks_of_length_le hsize hne (by rw [List.length_replicate])
  -- every call has a reply that is no failure, so the run gets as far as the planned write
  have hanswer : ∀ c : PipelineCall, ∃ r : PostgresReply PostgresSlotStateError c,
      failureOf c r = none := by
    intro c
    cases c with
    | writeBatch => exact ⟨.ok .default, rfl⟩
    | updateAfterBatch | recordSlotStates => exact ⟨.ok (), rfl⟩
    | advanceContiguousFinalized => exact ⟨.ok .default, rfl⟩
    | channelLen | batchElapsed => exact ⟨(0 : Nat), rfl⟩
    | onActivity | onProgress => exact ⟨(), rfl⟩
  have hfollows := follows_pipeline (W := PostgresWriteError) (C := PostgresCursorError)
    (S := PostgresSlotStateError) hsize streamName
    (List.replicate config.batchSize (transfer 7))
  rw [hbatches, List.flatMap_singleton, batchCalls] at hfollows
  obtain ⟨tr, next, hruns, -⟩ := hfollows.exists_issued hanswer (List.nil_append _).symm
  exact ⟨tr, next, hruns⟩

/-- Any larger batch would have too many parameters, and does come to be written. -/
theorem batchSize_le_of_runnable (hresume : config.resumeAfterSlot = none)
    (h : Runnable hasher eventSize streamName config) : config.batchSize ≤ maxBatchSize := by
  obtain ⟨batcher, hbatcher⟩ := Option.isSome_iff_exists.mp h.batcher
  have hsize : 0 < config.batchSize := (Batcher.new_holds hbatcher).1
  obtain ⟨tr, next, hruns⟩ := @full_batch_issued streamName _ hsize hresume
  have hne : List.replicate config.batchSize (transfer 7) ≠ [] :=
    List.length_pos_iff.mp (by rw [List.length_replicate]; exact hsize)
  have hfits : ∀ event ∈ List.replicate config.batchSize (transfer 7), event.slot ≤ i64Max := by
    intro event hevent
    rw [List.eq_of_mem_replicate hevent]
    decide
  have hbinds := h.inserts _ tr _ next hruns insertionOrder _
    (writeBatchBinds_of_convertible hasher hne hfits)
  rw [List.length_replicate] at hbinds
  exact (Nat.le_div_iff_mul_le (by decide)).mpr (by omega)

theorem runnable_of_le (hsize : 0 < config.batchSize) (hcapacity : 0 < config.channelCapacity)
    (hevent : maxBatchSize * eventSize ≤ isizeMax) (hbatch : config.batchSize ≤ maxBatchSize)
    (hchannel : config.channelCapacity ≤ maxPermits) :
    Runnable hasher eventSize streamName config where
  batcher := Option.isSome_iff_exists.mpr (Batcher.new_of_pos hsize)
  pending := (Nat.mul_le_mul_right eventSize hbatch).trans hevent
  channel := ⟨hcapacity, hchannel⟩
  inserts := fun _ _ _ _ hrun _ _ hn => insertBinds_le hsize hbatch hrun hn

end Pipeline

section PipelineConfig

variable (config : Config) (cursor : Option StreamCursor)

@[simp] theorem pipelineConfig_batchSize :
    (config.pipelineConfig cursor).batchSize = config.batchSize := by
  unfold Config.pipelineConfig
  split <;> rfl

@[simp] theorem pipelineConfig_channelCapacity :
    (config.pipelineConfig cursor).channelCapacity = config.channelCapacity := by
  unfold Config.pipelineConfig
  split <;> rfl

@[simp] theorem pipelineConfig_resumeAfterSlot :
    (config.pipelineConfig cursor).resumeAfterSlot = cursor.map StreamCursor.lastPersistedSlot := by
  unfold Config.pipelineConfig
  split <;> rfl

end PipelineConfig

/-- A configuration accepted from the sources can be run, whatever events it then receives, if and
only if its batches fit into one insert and its channel into its semaphore.  An event is taken to be
far smaller than the memory `maxBatchSize` events would have to fill. -/
theorem accepted_runnable_iff {source : ConfigSource} {config : Config}
    (hsource : Config.fromSource source = .ok config) (hasher : Hasher) {eventSize : Nat}
    (hevent : maxBatchSize * eventSize ≤ isizeMax) :
    (∀ cursor, Runnable hasher eventSize config.streamName (config.pipelineConfig cursor)) ↔
      config.batchSize ≤ maxBatchSize ∧ config.channelCapacity ≤ maxPermits := by
  have haccepted := Config.ensures_fromSource source config hsource
  constructor
  · intro h
    -- a run without a cursor skips nothing
    have hfresh := h none
    have hbatch := batchSize_le_of_runnable (by simp) hfresh
    have hchannel := hfresh.channel.2
    rw [pipelineConfig_batchSize] at hbatch
    rw [pipelineConfig_channelCapacity] at hchannel
    exact ⟨hbatch, hchannel⟩
  · rintro ⟨hbatch, hchannel⟩ cursor
    apply runnable_of_le
    · rw [pipelineConfig_batchSize]
      exact haccepted.batchSize.1
    · rw [pipelineConfig_channelCapacity]
      exact haccepted.channelCapacity.1
    · exact hevent
    · rw [pipelineConfig_batchSize]
      exact hbatch
    · rw [pipelineConfig_channelCapacity]
      exact hchannel

theorem accepted_runnable_sample :
    Runnable sampleHasher 512 "replay" (sampleConfig.pipelineConfig (some ⟨"replay", 6⟩)) :=
  (accepted_runnable_iff sampleConfig_loaded sampleHasher (by decide)).mpr (by decide) _

/-- Batches of 7282 rows of nine columns. -/
def largeBatchVar : String → Except VarError String
  | "STREAM_BATCH_SIZE" => .ok "7282"
  | _ => .error .notPresent

theorem accepted_not_runnable :
    ¬ ∀ (source : ConfigSource) (config : Config), Config.fromSource source = .ok config →
      ∀ (hasher : Hasher) (eventSize : Nat), maxBatchSize * eventSize ≤ isizeMax →
      ∀ cursor, Runnable hasher eventSize config.streamName (config.pipelineConfig cursor) := by
  intro hall
  have hload : Config.fromSource (systemEnv largeBatchVar) =
      .ok { sampleConfig with batchSize := 7282, yellowstoneEndpoint := none } := by
    decide +kernel
  have hbatch := batchSize_le_of_runnable (by simp)
    (hall _ _ hload sampleHasher 512 (by decide) none)
  exact absurd hbatch (by decide)

end YellowstoneStream.App

import YellowstoneStream.Stream.Reports
import YellowstoneStream.Stream.Reconnect

/-!
# The live status

The snapshot that `crates/app/src/http.rs` serves, and what the callbacks of `run_yellowstone` make
of it.  `gap_risk` is meant to stay once a reconnect had no start slot; a later reconnect with one
takes it away.
-/

open YellowstoneStream.Storage YellowstoneStream.Stream

namespace YellowstoneStream.App

inductive HealthState where
  | ready
  deriving DecidableEq, Repr

inductive StreamMode where
  | replay
  | yellowstone
  deriving DecidableEq, Repr

inductive LiveProducerState where
  | running
  | reconnecting
  deriving DecidableEq, Repr

inductive LiveRecoveryState where
  | steady
  | reconnecting
  | gapRisk
  deriving DecidableEq, Repr

structure LiveProducerStatus where
  producerState : LiveProducerState
  recoveryState : LiveRecoveryState
  reconnectAttempts : Nat
  lastReconnectDelayMs : Option Nat
  lastReconnectFromSlot : Option Nat
  gapRiskCount : Nat
  lastErrorKind : Option String
  lastError : Option String
  lastEventAtUnixMs : Option Nat
  lastObservedAtUnixMs : Option Nat
  lastObservedSlot : Option Nat
  lastPersistedBatchAtUnixMs : Option Nat
  secondsSinceLastEvent : Option Nat
  secondsSinceLastPersistedBatch : Option Nat
  observedToPersistedSlotLag : Option Nat
  decodeErrorsTotal : Nat
  deriving DecidableEq, Repr

def u64Max : Nat := 2 ^ 64 - 1

namespace LiveProducerStatus

def default : LiveProducerStatus :=
  ⟨.running, .steady, 0, none, none, 0, none, none, none, none, none, none, none, none, none, 0⟩

def running (live : LiveProducerStatus) : LiveProducerStatus :=
  { live with
    producerState := .running
    recoveryState := if live.recoveryState = .reconnecting then .steady else live.recoveryState }

def withReconnecting (live : LiveProducerStatus) (reconnectAttempts lastReconnectDelayMs : Nat)
    (lastErrorKind lastError : String) : LiveProducerStatus :=
  { live with
    producerState := .reconnecting
    reconnectAttempts := reconnectAttempts
    lastReconnectDelayMs := some lastReconnectDelayMs
    lastErrorKind := some lastErrorKind
    lastError := some lastError }

def withRecoveryReconnect (live : LiveProducerStatus) (fromSlot : Option Nat) :
    LiveProducerStatus :=
  if fromSlot.isSome then
    -- whatever the state was before, also `gap_risk`
    { live with lastReconnectFromSlot := fromSlot, recoveryState := .reconnecting }
  else
    { live with
      lastReconnectFromSlot := fromSlot
      recoveryState := .gapRisk
      gapRiskCount := min (live.gapRiskCount + 1) u64Max }

def withEventObservedAt (live : LiveProducerStatus) (nowUnixMs : Nat) : LiveProducerStatus :=
  { live with
    lastEventAtUnixMs := some nowUnixMs
    lastObservedAtUnixMs := some nowUnixMs
    secondsSinceLastEvent := some 0 }

def withEventObserved (live : LiveProducerStatus) (slot nowUnixMs : Nat) : LiveProducerStatus :=
  { live.withEventObservedAt nowUnixMs with lastObservedSlot := some slot }

def withBatchPersistedAt (live : LiveProducerStatus) (nowUnixMs : Nat) : LiveProducerStatus :=
  { live with
    lastPersistedBatchAtUnixMs := some nowUnixMs
    secondsSinceLastPersistedBatch := some 0 }

end LiveProducerStatus

structure StatusSnapshot where
  health : HealthState
  mode : StreamMode
  streamName : String
  lastPersistedSlot : Option Nat
  lastContiguousFinalizedSlot : Option Nat
  lastFinalizedSlot : Option Nat
  eventsSeen : Nat
  eventsSkipped : Nat
  batchesWritten : Nat
  eventsAttempted : Nat
  eventsInserted : Nat
  eventsDeduplicated : Nat
  live : Option LiveProducerStatus
  deriving DecidableEq, Repr

namespace StatusSnapshot

def fromPipelineMode (mode : StreamMode) (streamName : String) (summary : PipelineSummary) :
    StatusSnapshot where
  health := .ready
  mode := mode
  streamName := streamName
  lastPersistedSlot := summary.lastPersistedSlot
  lastContiguousFinalizedSlot := summary.lastContiguousFinalizedSlot
  lastFinalizedSlot := summary.lastFinalizedSlot
  eventsSeen := summary.eventsSeen
  eventsSkipped := summary.eventsSkipped
  batchesWritten := summary.batchesWritten
  eventsAttempted := summary.writeSummary.attempted
  eventsInserted := summary.writeSummary.inserted
  eventsDeduplicated := summary.writeSummary.deduplicated
  live := none

def withLive (status : StatusSnapshot) (live : LiveProducerStatus) : StatusSnapshot :=
  { status with live := some live }

end StatusSnapshot

/-- `initial_summary` of `run_yellowstone`. -/
def initialSummary (config : PipelineConfig) (frontier : FinalizedFrontier) : PipelineSummary :=
  config.startSummary.setFrontier frontier

def initialStatus (streamName : String) (config : PipelineConfig) (frontier : FinalizedFrontier) :
    StatusSnapshot :=
  (StatusSnapshot.fromPipelineMode .yellowstone streamName
    (initialSummary config frontier)).withLive .default

/-! ## The callbacks -/

/-- A callback that publishes, with what it was called with and what it took from the clock and the
shared counter of decode errors. -/
inductive StatusUpdate where
  | reconnect (event : YellowstoneReconnectEvent)
  | progress (summary : PipelineSummary) (newBatch : Bool) (decodeErrors nowUnixMs : Nat)
  | activity (slot nowUnixMs : Nat)
  deriving DecidableEq, Repr

namespace StatusUpdate

/-- What the callback makes of the live part it reads. -/
def updateLive (update : StatusUpdate) (live : LiveProducerStatus) : LiveProducerStatus :=
  match update with
  | .reconnect event =>
      -- `event.delay.as_millis() as u64`
      (live.withReconnecting event.retryAttempt (event.delay / nanosPerMilli % 2 ^ 64)
        event.errorKind.asStr event.errorMessage).withRecoveryReconnect event.fromSlot
  | .progress _ newBatch decodeErrors nowUnixMs =>
      let live := { live.running with decodeErrorsTotal := decodeErrors }
      if newBatch then live.withBatchPersistedAt nowUnixMs else live
  | .activity slot nowUnixMs => live.withEventObserved slot nowUnixMs

/-- The snapshot that the callback sends when it has read `status`. -/
def apply (streamName : String) (update : StatusUpdate) (status : StatusSnapshot) :
    StatusSnapshot :=
  let live := update.updateLive (status.live.getD .default)
  match update with
  | .reconnect _ | .activity .. => { status with live := some live }
  -- of what was read only the live part is kept
  | .progress summary .. =>
      (StatusSnapshot.fromPipelineMode .yellowstone streamName summary).withLive live

def isReconnect : StatusUpdate → Bool
  | .reconnect _ => true
  | .progress .. | .activity .. => false

def isProgress : StatusUpdate → Bool
  | .progress .. => true
  | .reconnect _ | .activity .. => false

/-- A reconnect of an attempt that had no start slot. -/
def withoutSlot : StatusUpdate → Bool
  | .reconnect event => event.fromSlot.isNone
  | .progress .. | .activity .. => false

theorem isReconnect_of_withoutSlot {update : StatusUpdate} (h : update.withoutSlot = true) :
    update.isReconnect = true := by
  cases update with
  | reconnect event => rfl
  | progress | activity => cases h

end StatusUpdate

/-- What the callbacks of the pipeline keep from one call to the next. -/
structure CallbackVars where
  lastBatchesWritten : Nat
  /-- In nanoseconds. -/
  lastActivityStatusSent : Option Nat

namespace CallbackVars

def initial : CallbackVars := ⟨0, none⟩

/-- The progress callback, which always publishes. -/
def progress (vars : CallbackVars) (summary : PipelineSummary) (decodeErrors nowUnixMs : Nat) :
    StatusUpdate × CallbackVars :=
  let newBatch := decide (vars.lastBatchesWritten < summary.batchesWritten)
  (.progress summary newBatch decodeErrors nowUnixMs,
    if newBatch then { vars with lastBatchesWritten := summary.batchesWritten } else vars)

/-- The activity callback, which publishes no more than once in a second. -/
def activity (vars : CallbackVars) (activity : PipelineActivity) (now nowUnixMs : Nat) :
    Option StatusUpdate × CallbackVars :=
  if vars.lastActivityStatusSent.any fun last => now - last < nanosPerSecond then (none, vars)
  else
    (some (.activity activity.slot nowUnixMs), { vars with lastActivityStatusSent := some now })

end CallbackVars

/-! ## One callback after another -/

def liveAfter (updates : List StatusUpdate) (live : LiveProducerStatus) : LiveProducerStatus :=
  updates.foldl (fun live update => update.updateLive live) live

section Sequence

variable (live : LiveProducerStatus) (updates : List StatusUpdate)

@[simp] theorem liveAfter_nil : liveAfter [] live = live := rfl

@[simp] theorem liveAfter_cons (update : StatusUpdate) :
    liveAfter (update :: updates) live = liveAfter updates (update.updateLive live) := rfl

@[simp] theorem liveAfter_append (later : List StatusUpdate) :
    liveAfter (updates ++ later) live = liveAfter later (liveAfter updates live) :=
  List.foldl_append

end Sequence

/-- How an update counts, with `saturating_add`. -/
def StatusUpdate.countGap (update : StatusUpdate) (count : Nat) : Nat :=
  if update.withoutSlot then min (count + 1) u64Max else count

theorem updateLive_gapRiskCount (update : StatusUpdate) (live : LiveProducerStatus) :
    (update.updateLive live).gapRiskCount = update.countGap live.gapRiskCount := by
  cases update with
  | reconnect event =>
      obtain ⟨retryAttempt, delay, errorKind, errorMessage, fromSlot⟩ := event
      cases fromSlot <;> rfl
  | progress summary newBatch decodeErrors now => cases newBatch <;> rfl
  | activity slot now => rfl

/-- The count is that of the reconnects without a slot, as far as it goes. -/
theorem foldl_countGap (updates : List StatusUpdate) {count : Nat} (h : count ≤ u64Max) :
    updates.foldl (fun count update => update.countGap count) count =
      min (count + updates.countP StatusUpdate.withoutSlot) u64Max := by
  induction updates generalizing count with
  | nil => exact (Nat.min_eq_left h).symm
  | cons update updates ih =>
      have hle : update.countGap count ≤ u64Max := by
        unfold StatusUpdate.countGap
        split
        · exact Nat.min_le_right _ _
        · exact h
      rw [List.foldl_cons, ih hle, StatusUpdate.countGap, List.countP_cons]
      split <;> omega

theorem liveAfter_gapRiskCount (updates : List StatusUpdate) {live : LiveProducerStatus}
    (h : live.gapRiskCount ≤ u64Max) :
    (liveAfter updates live).gapRiskCount =
      min (live.gapRiskCount + updates.countP StatusUpdate.withoutSlot) u64Max := by
  rw [← foldl_countGap updates h, liveAfter]
  exact (List.foldl_hom LiveProducerStatus.gapRiskCount
    fun live update => (updateLive_gapRiskCount update live).symm).symm

/-! ## The recovery state -/

section RecoveryState

variable {live : LiveProducerStatus}

theorem recoveryState_reconnect (event : YellowstoneReconnectEvent) (live : LiveProducerStatus) :
    ((StatusUpdate.reconnect event).updateLive live).recoveryState =
      if event.fromSlot.isSome then .reconnecting else .gapRisk := by
  obtain ⟨retryAttempt, delay, errorKind, errorMessage, fromSlot⟩ := event
  cases fromSlot <;> rfl

/-- Between reconnects only a progress report changes the state, from reconnecting to steady. -/
theorem recoveryState_of_not_reconnect {update : StatusUpdate} (h : update.isReconnect = false) :
    (update.updateLive live).recoveryState =
      if update.isProgress ∧ live.recoveryState = .reconnecting then .steady
      else live.recoveryState := by
  cases update with
  | reconnect event => cases h
  | progress summary newBatch decodeErrors now =>
      cases newBatch <;> simp [StatusUpdate.updateLive, StatusUpdate.isProgress,
        LiveProducerStatus.running, LiveProducerStatus.withBatchPersistedAt]
  | activity slot now => rfl

theorem recoveryState_after_last {later : List StatusUpdate}
    (h : ∀ update ∈ later, update.isReconnect = false) :
    (liveAfter later live).recoveryState =
      if later.any StatusUpdate.isProgress ∧ live.recoveryState = .reconnecting then .steady
      else live.recoveryState := by
  induction later generalizing live with
  | nil => simp
  | cons update later ih =>
      rw [liveAfter_cons, ih fun u hu => h u (List.mem_cons_of_mem _ hu),
        recoveryState_of_not_reconnect (h update List.mem_cons_self)]
      by_cases hprogress : update.isProgress = true
      · by_cases hstate : live.recoveryState = .reconnecting
        · simp [hprogress, hstate]
        · simp [hstate]
      · simp [hprogress]

end RecoveryState

/-- After one without a slot, the last reconnect has a slot, and progress was reported since. -/
def GapCleared (updates : List StatusUpdate) : Prop :=
  ∃ earlier event later, updates = earlier ++ .reconnect event :: later ∧
    event.fromSlot.isSome = true ∧ earlier.any StatusUpdate.withoutSlot = true ∧
    (∀ update ∈ later, update.isReconnect = false) ∧ later.any StatusUpdate.isProgress = true

/-- The last reconnect and what came before and after it. -/
theorem exists_last_reconnect {updates : List StatusUpdate}
    (h : updates.any StatusUpdate.isReconnect = true) :
    ∃ earlier event later, updates = earlier ++ .reconnect event :: later ∧
      ∀ update ∈ later, update.isReconnect = false := by
  induction updates using List.reverseRecOn with
  | nil => cases h
  | append_singleton updates update ih =>
      cases update with
      | reconnect event => exact ⟨updates, event, [], rfl, nofun⟩
      | progress | activity =>
          rw [List.any_append] at h
          obtain ⟨earlier, event, later, rfl, hlater⟩ :=
            ih (by simpa [StatusUpdate.isReconnect] using h)
          refine ⟨earlier, event, later ++ [_], by rw [List.append_assoc]; rfl, ?_⟩
          intro update hupdate
          rcases List.mem_append.mp hupdate with hupdate | hupdate
          · exact hlater update hupdate
          · rw [List.mem_singleton.mp hupdate]
            rfl

theorem steady_of_gapCleared {updates : List StatusUpdate} (h : GapCleared updates)
    (live : LiveProducerStatus) : (liveAfter updates live).recoveryState = .steady := by
  obtain ⟨earlier, event, later, rfl, hsome, -, hlater, hprogress⟩ := h
  rw [liveAfter_append, liveAfter_cons, recoveryState_after_last hlater,
    recoveryState_reconnect, if_pos hsome, if_pos ⟨hprogress, rfl⟩]

/-- A reconnect without a slot shows for as long as it has not been cleared. -/
theorem gapCleared_of_steady {updates : List StatusUpdate}
    (hgap : updates.any StatusUpdate.withoutSlot = true) {live : LiveProducerStatus}
    (hsteady : (liveAfter updates live).recoveryState = .steady) : GapCleared updates := by
  have hreconnect : updates.any StatusUpdate.isReconnect = true := by
    obtain ⟨update, hmem, hwithout⟩ := List.any_eq_true.mp hgap
    exact List.any_eq_true.mpr ⟨update, hmem, StatusUpdate.isReconnect_of_withoutSlot hwithout⟩
  obtain ⟨earlier, event, later, rfl, hlater⟩ := exists_last_reconnect hreconnect
  rw [liveAfter_append, liveAfter_cons, recoveryState_after_last hlater,
    recoveryState_reconnect] at hsteady
  cases hslot : event.fromSlot with
  | none =>
      -- the last reconnect has no slot either, and its mark stays
      simp [hslot] at hsteady
  | some slot =>
      have hsome : event.fromSlot.isSome = true := by rw [hslot]; rfl
      rw [if_pos hsome] at hsteady
      refine ⟨earlier, event, later, rfl, hsome, ?_, hlater, ?_⟩
      · -- neither the last reconnect nor what follows lacks a slot
        have hafter : later.any StatusUpdate.withoutSlot = false := by
          rw [List.any_eq_false]
          intro update hupdate hwithout
          have hother := hlater update hupdate
          rw [StatusUpdate.isReconnect_of_withoutSlot hwithout] at hother
          cases hother
        simpa [StatusUpdate.withoutSlot, hslot, hafter] using hgap
      · by_contra hprogress
        rw [if_neg fun h => hprogress h.1] at hsteady
        cases hsteady

/-- From the initial status on, the count is zero exactly while no reconnect was without a slot, and
the steady state tells so exactly where no later reconnect and progress cleared the risk. -/
theorem steady_without_gap_iff (updates : List StatusUpdate) :
    ((liveAfter updates .default).gapRiskCount = 0 ↔
      ∀ update ∈ updates, update.withoutSlot = false) ∧
    (((liveAfter updates .default).recoveryState = .steady →
      (liveAfter updates .default).gapRiskCount = 0) ↔ ¬ GapCleared updates) := by
  have hcount : (liveAfter updates .default).gapRiskCount = 0 ↔
      updates.any StatusUpdate.withoutSlot = false := by
    rw [liveAfter_gapRiskCount updates (Nat.zero_le _)]
    have hzero := List.countP_eq_zero (p := StatusUpdate.withoutSlot) (l := updates)
    rw [List.any_eq_false, ← hzero]
    show min (0 + _) u64Max = 0 ↔ _
    unfold u64Max
    omega
  refine ⟨hcount.trans ?_, ?_⟩
  · rw [List.any_eq_false]
    simp only [Bool.not_eq_true]
  · rw [hcount]
    constructor
    · -- a cleared risk is steady with a count above zero
      intro h hcleared
      have hnone := h (steady_of_gapCleared hcleared _)
      obtain ⟨earlier, event, later, rfl, -, hgap, -⟩ := hcleared
      rw [List.any_append, hgap] at hnone
      cases hnone
    · intro h hsteady
      by_contra hgap
      exact h (gapCleared_of_steady (Bool.not_eq_false _ ▸ hgap) hsteady)

def connectFailure (fromSlot : Option Nat) : StatusUpdate :=
  .reconnect ⟨1, nanosPerSecond, .connect, "failed to connect to yellowstone endpoint", fromSlot⟩

/-- A reconnect without a slot, one with a slot, and a report: steady, with one gap counted. -/
theorem steady_after_gap : ¬ ∀ updates : List StatusUpdate,
    (liveAfter updates .default).recoveryState = .steady →
      (liveAfter updates .default).gapRiskCount = 0 := by
  intro hall
  have hcount := hall [connectFailure none, connectFailure (some 10),
    .progress .default true 0 0] rfl
  exact absurd hcount (by decide)

end YellowstoneStream.App

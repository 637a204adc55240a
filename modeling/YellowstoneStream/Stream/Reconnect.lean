import Mathlib.Order.Basic
import YellowstoneStream.Domain.Event

/-!
# Errors and backoff of the Yellowstone producer

Durations are in nanoseconds, up to the largest `Duration` there is.
-/

namespace YellowstoneStream.Stream

/-! ## Errors -/

/-- The gRPC status codes. -/
inductive Code where
  | ok
  | cancelled
  | unknown
  | invalidArgument
  | deadlineExceeded
  | notFound
  | alreadyExists
  | permissionDenied
  | resourceExhausted
  | failedPrecondition
  | aborted
  | outOfRange
  | unimplemented
  | internal
  | unavailable
  | dataLoss
  | unauthenticated
  deriving DecidableEq, Repr

inductive YellowstoneGrpcError where
  | invalidConfig (message : String)
  | invalidMetadataValue
  | connect
  | subscribe (status : Code)
  | receive (status : Code)
  | normalize
  | receiverClosed
  | streamClosed
  deriving DecidableEq, Repr

inductive YellowstoneGrpcErrorKind where
  | invalidConfig
  | invalidMetadataValue
  | connect
  | subscribe
  | receive
  | normalize
  | receiverClosed
  | streamClosed
  deriving DecidableEq, Repr

def YellowstoneGrpcErrorKind.asStr : YellowstoneGrpcErrorKind → String
  | .invalidConfig => "invalid_config"
  | .invalidMetadataValue => "invalid_metadata_value"
  | .connect => "connect"
  | .subscribe => "subscribe"
  | .receive => "receive"
  | .normalize => "normalize"
  | .receiverClosed => "receiver_closed"
  | .streamClosed => "stream_closed"

/-- The `Debug` text of a code. -/
def Code.debug : Code → String
  | .ok => "Ok"
  | .cancelled => "Cancelled"
  | .unknown => "Unknown"
  | .invalidArgument => "InvalidArgument"
  | .deadlineExceeded => "DeadlineExceeded"
  | .notFound => "NotFound"
  | .alreadyExists => "AlreadyExists"
  | .permissionDenied => "PermissionDenied"
  | .resourceExhausted => "ResourceExhausted"
  | .failedPrecondition => "FailedPrecondition"
  | .aborted => "Aborted"
  | .outOfRange => "OutOfRange"
  | .unimplemented => "Unimplemented"
  | .internal => "Internal"
  | .unavailable => "Unavailable"
  | .dataLoss => "DataLoss"
  | .unauthenticated => "Unauthenticated"

namespace YellowstoneGrpcError

/-- `Display`; `inner` is the text of the error inside, where there is one. -/
def display (inner : String) : YellowstoneGrpcError → String
  | .invalidConfig message => message
  | .invalidMetadataValue => "invalid yellowstone x-token metadata: " ++ inner
  | .connect => "failed to connect to yellowstone endpoint"
  | .subscribe status => "yellowstone subscribe failed with gRPC status " ++ status.debug
  | .receive status => "yellowstone stream receive failed with gRPC status " ++ status.debug
  | .normalize => "yellowstone update normalization failed: " ++ inner
  | .receiverClosed => "yellowstone event receiver closed"
  | .streamClosed => "yellowstone stream closed by server"

def kind : YellowstoneGrpcError → YellowstoneGrpcErrorKind
  | .invalidConfig _ => .invalidConfig
  | .invalidMetadataValue => .invalidMetadataValue
  | .connect => .connect
  | .subscribe _ => .subscribe
  | .receive _ => .receive
  | .normalize => .normalize
  | .receiverClosed => .receiverClosed
  | .streamClosed => .streamClosed

def isRetryable : YellowstoneGrpcError → Bool
  | .connect => true
  | .subscribe status | .receive status =>
      !(status = .invalidArgument || status = .unauthenticated || status = .permissionDenied)
  | .invalidConfig _ | .invalidMetadataValue | .normalize | .receiverClosed => false
  | .streamClosed => true

/-- The errors an attempt can end with before its subscription is accepted. -/
def beforeStreaming : YellowstoneGrpcError → Bool
  | .invalidConfig _ | .invalidMetadataValue | .connect | .subscribe _ => true
  | .receive _ | .normalize | .receiverClosed | .streamClosed => false

/-- The errors a stream that still sends can break with. -/
def breaksStream : YellowstoneGrpcError → Bool
  | .receive _ | .streamClosed => true
  | .invalidConfig _ | .invalidMetadataValue | .connect | .subscribe _ | .normalize
  | .receiverClosed => false

end YellowstoneGrpcError

/-- What the reconnect callback is told; the slot is the one the failed attempt asked for. -/
structure YellowstoneReconnectEvent where
  retryAttempt : Nat
  delay : Nat
  errorKind : YellowstoneGrpcErrorKind
  errorMessage : String
  fromSlot : Option Nat
  deriving DecidableEq, Repr

/-! ## Backoff -/

def nanosPerMilli : Nat := 10 ^ 6
def nanosPerSecond : Nat := 10 ^ 9

def u32Max : Nat := 2 ^ 32 - 1

/-- `Duration::MAX`. -/
def durationMax : Nat := (2 ^ 64 - 1) * nanosPerSecond + (nanosPerSecond - 1)

def defaultReconnectInitialDelay : Nat := nanosPerSecond
def defaultReconnectMaxDelay : Nat := 30 * nanosPerSecond
def defaultReconnectResetAfter : Nat := 30 * nanosPerSecond

structure YellowstoneReconnectConfig where
  initialDelay : Nat
  maxDelay : Nat
  maxRetries : Option Nat
  resetAfter : Option Nat
  deriving DecidableEq, Repr

def YellowstoneReconnectConfig.default : YellowstoneReconnectConfig :=
  ⟨defaultReconnectInitialDelay, defaultReconnectMaxDelay, none, some defaultReconnectResetAfter⟩

def YellowstoneReconnectConfig.normalized (reconnect : YellowstoneReconnectConfig) :
    YellowstoneReconnectConfig :=
  let initialDelay :=
    if reconnect.initialDelay = 0 then defaultReconnectInitialDelay else reconnect.initialDelay
  { initialDelay := initialDelay
    maxDelay := max reconnect.maxDelay initialDelay
    maxRetries := reconnect.maxRetries
    resetAfter := reconnect.resetAfter }

/-- `current.as_millis() as u64`. -/
def jitterBound (current : Nat) : Nat := current / nanosPerMilli % 2 ^ 64

/-- `next_backoff_delay` when the random number is `jitter`. -/
def nextBackoffDelay (current maxDelay jitter : Nat) : Nat :=
  let base := min (2 * current) durationMax
  min (min (base + jitter * nanosPerMilli) durationMax) maxDelay

/-- The variables of the reconnect loop. -/
structure Backoff where
  retryAttempt : Nat
  delay : Nat
  deriving DecidableEq, Repr

def Backoff.initial (reconnect : YellowstoneReconnectConfig) : Backoff :=
  ⟨0, reconnect.normalized.initialDelay⟩

/-- What the loop does after a retryable error of an attempt that took `elapsed`: it goes on with
new variables, or returns the error. -/
def Backoff.afterFailure (backoff : Backoff) (reconnect : YellowstoneReconnectConfig)
    (elapsed jitter : Nat) : Option Backoff :=
  let reconnect := reconnect.normalized
  if reconnect.resetAfter.any fun grace => grace ≤ elapsed then
    -- an attempt that lasted long enough does not count as a retry
    some ⟨0, reconnect.initialDelay⟩
  else
    -- `saturating_add` on `u32`
    let retryAttempt := min (backoff.retryAttempt + 1) (2 ^ 32 - 1)
    if reconnect.maxRetries.any fun maxRetries => maxRetries < retryAttempt then none
    else some ⟨retryAttempt, nextBackoffDelay backoff.delay reconnect.maxDelay jitter⟩

section Delays

variable {current maxDelay jitter : Nat}

theorem nextBackoffDelay_ge (hmax : maxDelay ≤ durationMax) :
    min (2 * current) maxDelay ≤ nextBackoffDelay current maxDelay jitter := by
  unfold nextBackoffDelay
  dsimp only
  omega

theorem nextBackoffDelay_le (hjitter : jitter ≤ jitterBound current) :
    nextBackoffDelay current maxDelay jitter ≤ min (3 * current) maxDelay := by
  have hmillis : jitter ≤ current / nanosPerMilli := Nat.le_trans hjitter (Nat.mod_le _ _)
  have hjitter' : jitter * nanosPerMilli ≤ current :=
    Nat.le_trans (Nat.mul_le_mul_right nanosPerMilli hmillis) (Nat.div_mul_le_self _ _)
  unfold nextBackoffDelay
  dsimp only
  omega

variable (reconnect : YellowstoneReconnectConfig)

theorem normalized_initialDelay_le_maxDelay :
    reconnect.normalized.initialDelay ≤ reconnect.normalized.maxDelay := Nat.le_max_right _ _

theorem normalized_maxDelay_le (hinitial : reconnect.initialDelay ≤ durationMax)
    (hmax : reconnect.maxDelay ≤ durationMax) : reconnect.normalized.maxDelay ≤ durationMax := by
  refine Nat.max_le.mpr ⟨hmax, ?_⟩
  split
  · decide
  · exact hinitial

end Delays

section AfterFailure

variable {backoff : Backoff} {reconnect : YellowstoneReconnectConfig} {elapsed jitter : Nat}

theorem Backoff.afterFailure_of_lasted
    (h : (reconnect.resetAfter.any fun grace => grace ≤ elapsed) = true) :
    backoff.afterFailure reconnect elapsed jitter = some (.initial reconnect) := if_pos h

theorem Backoff.afterFailure_of_short
    (h : (reconnect.resetAfter.any fun grace => grace ≤ elapsed) = false) :
    backoff.afterFailure reconnect elapsed jitter =
      if reconnect.maxRetries.any fun m => m < min (backoff.retryAttempt + 1) u32Max then none
      else some ⟨min (backoff.retryAttempt + 1) u32Max,
        nextBackoffDelay backoff.delay reconnect.normalized.maxDelay jitter⟩ :=
  if_neg (by rw [Bool.not_eq_true]; exact h)

end AfterFailure

end YellowstoneStream.Stream

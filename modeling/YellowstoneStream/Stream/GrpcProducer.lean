import YellowstoneStream.Reasoning.Channel
import YellowstoneStream.Stream.Reconnect
import YellowstoneStream.Stream.YellowstoneProto

/-!
# The producer, update by update

`run_yellowstone_grpc_producer` in its reconnect loop, whatever updates the provider sends.  An
update that does not normalize is skipped, and a failed attempt is reported before the loop sleeps.
-/

open YellowstoneStream.Domain YellowstoneStream.Reasoning

namespace YellowstoneStream.Stream

inductive GrpcTask where
  | starting (backoff : Backoff)
  | connecting (backoff : Backoff) (fromSlot : Option Nat)
  | streaming (backoff : Backoff) (fromSlot : Option Nat)
  | normalizing (backoff : Backoff) (fromSlot : Option Nat) (update : SubscribeUpdate)
  | sending (backoff : Backoff) (fromSlot : Option Nat) (events : List NormalizedEvent)
  | failed (backoff : Backoff) (fromSlot : Option Nat) (err : YellowstoneGrpcError)
  | sleeping (backoff : Backoff) (event : YellowstoneReconnectEvent)
  | released (result : Except YellowstoneGrpcError Unit)

section Producer

variable (crates : ProtoCrates) (cluster : String) (reconnect : YellowstoneReconnectConfig)

/-- `configure` tells which start slots an attempt may be given. -/
inductive GrpcStep (configure : Option Nat → Prop) : GrpcTask → Move NormalizedEvent →
    GrpcTask → Prop
  | start (backoff : Backoff) {fromSlot : Option Nat} (h : configure fromSlot) :
      GrpcStep configure (.starting backoff) .quiet (.connecting backoff fromSlot)
  -- no request, no connection or no subscription
  | notSubscribed (backoff : Backoff) (fromSlot : Option Nat) {err : YellowstoneGrpcError}
      (h : err.beforeStreaming = true) :
      GrpcStep configure (.connecting backoff fromSlot) .quiet (.failed backoff fromSlot err)
  | subscribed (backoff : Backoff) (fromSlot : Option Nat) :
      GrpcStep configure (.connecting backoff fromSlot) .quiet (.streaming backoff fromSlot)
  | message (backoff : Backoff) (fromSlot : Option Nat) (update : SubscribeUpdate) :
      GrpcStep configure (.streaming backoff fromSlot) .quiet (.normalizing backoff fromSlot update)
  -- `continue`
  | skip (backoff : Backoff) (fromSlot : Option Nat) {update : SubscribeUpdate}
      {err : YellowstoneProtoNormalizeError}
      (h : normalizeYellowstoneProtoUpdate crates cluster update = .error err) :
      GrpcStep configure (.normalizing backoff fromSlot update) .quiet (.streaming backoff fromSlot)
  | accept (backoff : Backoff) (fromSlot : Option Nat) {update : SubscribeUpdate}
      {events : List NormalizedEvent}
      (h : normalizeYellowstoneProtoUpdate crates cluster update = .ok events) :
      GrpcStep configure (.normalizing backoff fromSlot update) .quiet
        (.sending backoff fromSlot events)
  | send (backoff : Backoff) (fromSlot : Option Nat) (event : NormalizedEvent)
      (events : List NormalizedEvent) :
      GrpcStep configure (.sending backoff fromSlot (event :: events)) (.send event)
        (.sending backoff fromSlot events)
  | refused (backoff : Backoff) (fromSlot : Option Nat) (event : NormalizedEvent)
      (events : List NormalizedEvent) :
      GrpcStep configure (.sending backoff fromSlot (event :: events)) .refused
        (.failed backoff fromSlot .receiverClosed)
  | sent (backoff : Backoff) (fromSlot : Option Nat) :
      GrpcStep configure (.sending backoff fromSlot []) .quiet (.streaming backoff fromSlot)
  | broken (backoff : Backoff) (fromSlot : Option Nat) {err : YellowstoneGrpcError}
      (h : err.breaksStream = true) :
      GrpcStep configure (.streaming backoff fromSlot) .quiet (.failed backoff fromSlot err)
  -- `on_reconnect(event)`, and then the sleep
  | retry {backoff next : Backoff} {fromSlot : Option Nat} {err : YellowstoneGrpcError}
      (hretryable : err.isRetryable = true) {elapsed jitter : Nat}
      (hjitter : jitter ≤ jitterBound backoff.delay)
      (h : backoff.afterFailure reconnect elapsed jitter = some next) (inner : String) :
      GrpcStep configure (.failed backoff fromSlot err) .quiet (.sleeping next
        { retryAttempt := next.retryAttempt
          delay := next.delay
          errorKind := err.kind
          errorMessage := err.display inner
          fromSlot })
  | wake (backoff : Backoff) (event : YellowstoneReconnectEvent) {fromSlot : Option Nat}
      (h : configure fromSlot) :
      GrpcStep configure (.sleeping backoff event) .quiet (.connecting backoff fromSlot)
  | exhausted {backoff : Backoff} (fromSlot : Option Nat) {err : YellowstoneGrpcError}
      (hretryable : err.isRetryable = true) {elapsed jitter : Nat}
      (h : backoff.afterFailure reconnect elapsed jitter = none) :
      GrpcStep configure (.failed backoff fromSlot err) .quiet (.released (.error err))
  | permanent (backoff : Backoff) (fromSlot : Option Nat) {err : YellowstoneGrpcError}
      (h : err.isRetryable = false) :
      GrpcStep configure (.failed backoff fromSlot err) .quiet (.released (.error err))

def grpcProducer {ω : Type} (configure : ω → Option Nat → Prop) :
    Producer GrpcTask NormalizedEvent (Except YellowstoneGrpcError Unit) ω where
  step w := GrpcStep crates cluster reconnect (configure w)
  holdsSender
    | .released _ => false
    | .starting _ | .connecting .. | .streaming .. | .normalizing .. | .sending .. | .failed ..
    | .sleeping .. => true
  result
    | .released result => some result
    | .starting _ | .connecting .. | .streaming .. | .normalizing .. | .sending .. | .failed ..
    | .sleeping .. => none
  dropped := by
    intro w s m s' hstep hs
    cases hstep <;> cases hs

end Producer

/-! ## What becomes of the updates -/

section Updates

variable (crates : ProtoCrates) (cluster : String)

/-- The events of an update; a rejected one has none. -/
def eventsOf (update : SubscribeUpdate) : List NormalizedEvent :=
  match normalizeYellowstoneProtoUpdate crates cluster update with
  | .ok events => events
  | .error _ => []

def isRejected (update : SubscribeUpdate) : Bool :=
  match normalizeYellowstoneProtoUpdate crates cluster update with
  | .ok _ => false
  | .error _ => true

/-- What is still to be sent of the update at hand. -/
def GrpcTask.unsent : GrpcTask → List NormalizedEvent
  | .normalizing _ _ update => eventsOf crates cluster update
  | .sending _ _ events => events
  | .starting _ | .connecting .. | .streaming .. | .failed .. | .sleeping .. | .released _ => []

end Updates

/-- The update that was received and not looked at yet. -/
def GrpcTask.update? : GrpcTask → Option SubscribeUpdate
  | .normalizing _ _ update => some update
  | .starting _ | .connecting .. | .streaming .. | .sending .. | .failed .. | .sleeping ..
  | .released _ => none

/-- No send was refused. -/
def GrpcTask.AllSent : GrpcTask → Prop
  | .failed _ _ err => err ≠ .receiverClosed
  | .released result => result ≠ .error .receiverClosed
  | .starting _ | .connecting .. | .streaming .. | .normalizing .. | .sending .. | .sleeping .. =>
      True

section Steps

variable {crates : ProtoCrates} {cluster : String} {reconnect : YellowstoneReconnectConfig}
  {configure : Option Nat → Prop} {task task' : GrpcTask}

theorem GrpcStep.allSent {m : Move NormalizedEvent}
    (h : GrpcStep crates cluster reconnect configure task m task') (hsent : task'.AllSent) :
    task.AllSent := by
  cases h with
  | retry hretryable =>
      rintro rfl
      cases hretryable
  | exhausted | permanent =>
      rintro rfl
      exact hsent rfl
  | _ => exact trivial

end Steps

end YellowstoneStream.Stream

import YellowstoneStream.Reasoning.Channel
import YellowstoneStream.Stream.Reconnect
import YellowstoneStream.Stream.SlotState

/-!
# The Yellowstone producer

The provider keeps a log.  A connection that asks for a slot replays the log from there on, until it
breaks and the reconnect loop opens the next one.
-/

open YellowstoneStream.Domain YellowstoneStream.Reasoning YellowstoneStream.Storage

namespace YellowstoneStream.Stream

def DataEvent (event : NormalizedEvent) : Prop := event.kind ≠ .slot

/-- The updates of the provider in their order.  All that happened in a slot comes before the event
that finalizes it. -/
structure ProviderLog where
  entry : Nat → Option NormalizedEvent
  data_first : ∀ i j data final, entry i = some data → entry j = some final → DataEvent data →
    FinalizedSlotEvent final → data.slot = final.slot → i < j
  fits : ∀ i event, entry i = some event → event.slot ≤ i64Max

/-- Where the reconnect loop stands. -/
inductive LiveTask where
  | configuring (backoff : Backoff)
  | connecting (backoff : Backoff) (fromSlot : Option Nat)
  | streaming (backoff : Backoff) (fromSlot : Option Nat) (position : Nat)
  | failed (backoff : Backoff) (err : YellowstoneGrpcError)
  | released (result : Except YellowstoneGrpcError Unit)

/-- A connection delivers an entry unless it asked for later slots. -/
def Delivers (log : ProviderLog) (fromSlot : Option Nat) (position : Nat)
    (event : NormalizedEvent) : Prop :=
  log.entry position = some event ∧ ∀ slot ∈ fromSlot, slot ≤ event.slot

/-- A step of `run_yellowstone_reconnect_loop` around `run_yellowstone_grpc_producer`; `configure`
tells which start slots the attempt may be given.  Without one the provider starts anywhere. -/
inductive LiveStep (log : ProviderLog) (reconnect : YellowstoneReconnectConfig)
    (configure : Option Nat → Prop) : LiveTask → Move NormalizedEvent → LiveTask → Prop
  | configure (backoff : Backoff) {fromSlot : Option Nat} (h : configure fromSlot) :
      LiveStep log reconnect configure (.configuring backoff) .quiet (.connecting backoff fromSlot)
  -- connecting or subscribing failed
  | notSubscribed (backoff : Backoff) (fromSlot : Option Nat) {err : YellowstoneGrpcError}
      (h : err.beforeStreaming = true) :
      LiveStep log reconnect configure (.connecting backoff fromSlot) .quiet (.failed backoff err)
  | replaying (backoff : Backoff) (slot : Nat) :
      LiveStep log reconnect configure (.connecting backoff (some slot)) .quiet
        (.streaming backoff (some slot) 0)
  | tailing (backoff : Backoff) (position : Nat) :
      LiveStep log reconnect configure (.connecting backoff none) .quiet
        (.streaming backoff none position)
  | deliver (backoff : Backoff) {fromSlot : Option Nat} {position : Nat} {event : NormalizedEvent}
      (h : Delivers log fromSlot position event) :
      LiveStep log reconnect configure (.streaming backoff fromSlot position) (.send event)
        (.streaming backoff fromSlot (position + 1))
  | refused (backoff : Backoff) {fromSlot : Option Nat} {position : Nat} {event : NormalizedEvent}
      (h : Delivers log fromSlot position event) :
      LiveStep log reconnect configure (.streaming backoff fromSlot position) .refused
        (.failed backoff .receiverClosed)
  -- an entry of an earlier slot is not delivered
  | pass (backoff : Backoff) {fromSlot : Option Nat} {position : Nat}
      (h : ∀ event, ¬ Delivers log fromSlot position event) :
      LiveStep log reconnect configure (.streaming backoff fromSlot position) .quiet
        (.streaming backoff fromSlot (position + 1))
  | broken (backoff : Backoff) (fromSlot : Option Nat) (position : Nat) {err : YellowstoneGrpcError}
      (h : err.breaksStream = true) :
      LiveStep log reconnect configure (.streaming backoff fromSlot position) .quiet
        (.failed backoff err)
  | retry {backoff next : Backoff} {err : YellowstoneGrpcError}
      (hretryable : err.isRetryable = true) {elapsed jitter : Nat}
      (hjitter : jitter ≤ jitterBound backoff.delay)
      (h : backoff.afterFailure reconnect elapsed jitter = some next) :
      LiveStep log reconnect configure (.failed backoff err) .quiet (.configuring next)
  -- more than `max_retries` attempts in a row
  | exhausted {backoff : Backoff} {err : YellowstoneGrpcError} (hretryable : err.isRetryable = true)
      {elapsed jitter : Nat} (h : backoff.afterFailure reconnect elapsed jitter = none) :
      LiveStep log reconnect configure (.failed backoff err) .quiet (.released (.error err))
  | permanent (backoff : Backoff) {err : YellowstoneGrpcError} (h : err.isRetryable = false) :
      LiveStep log reconnect configure (.failed backoff err) .quiet (.released (.error err))

def liveProducer {ω : Type} (log : ProviderLog) (reconnect : YellowstoneReconnectConfig)
    (configure : ω → Option Nat → Prop) :
    Producer LiveTask NormalizedEvent (Except YellowstoneGrpcError Unit) ω where
  step w := LiveStep log reconnect (configure w)
  holdsSender
    | .released _ => false
    | .configuring _ | .connecting .. | .streaming .. | .failed .. => true
  result
    | .released result => some result
    | .configuring _ | .connecting .. | .streaming .. | .failed .. => none
  dropped := by
    rintro _ s m s' (_ | _ | _ | _ | _ | _ | _ | _ | _ | _ | _) hs <;> cases hs

/-! ## What was sent -/

/-- In front of each finalized slot event stands all that the log has of its slot. -/
def DataBefore (log : ProviderLog) (sent : List NormalizedEvent) : Prop :=
  ∀ before final after, sent = before ++ final :: after → FinalizedSlotEvent final →
    ∀ i data, log.entry i = some data → DataEvent data → data.slot = final.slot → data ∈ before

section DataBefore

variable {log : ProviderLog} {sent : List NormalizedEvent}

theorem dataBefore_nil (log : ProviderLog) : DataBefore log [] := by
  intro before final after h
  simp at h

theorem DataBefore.mono {received : List NormalizedEvent} (h : DataBefore log sent)
    (hfront : received <+: sent) : DataBefore log received := by
  obtain ⟨rest, rfl⟩ := hfront
  intro before final after hsplit
  apply h before final (after ++ rest)
  rw [hsplit, List.append_assoc, List.cons_append]

theorem DataBefore.snoc {event : NormalizedEvent} (h : DataBefore log sent)
    (hevent : FinalizedSlotEvent event → ∀ i data, log.entry i = some data → DataEvent data →
      data.slot = event.slot → data ∈ sent) : DataBefore log (sent ++ [event]) := by
  intro before final after hsplit
  rcases List.eq_nil_or_concat after with rfl | ⟨after, last, rfl⟩
  · obtain ⟨rfl, hlast⟩ := List.append_inj' hsplit rfl
    cases hlast
    exact hevent
  · rw [List.concat_eq_append, ← List.cons_append, ← List.append_assoc] at hsplit
    exact h before final after (List.append_inj' hsplit rfl).1

end DataBefore

/-- A connection has a start slot, and sent all that lies between its start and its position. -/
def LiveTask.Replays (log : ProviderLog) (sent : List NormalizedEvent) : LiveTask → Prop
  | .connecting _ fromSlot => fromSlot ≠ none
  | .streaming _ fromSlot position => ∃ slot, fromSlot = some slot ∧
      ∀ i < position, ∀ event, log.entry i = some event → slot ≤ event.slot → event ∈ sent
  | .configuring _ | .failed .. | .released _ => True

section Replays

variable {log : ProviderLog} {reconnect : YellowstoneReconnectConfig}
  {configure : Option Nat → Prop} {sent : List NormalizedEvent} {task task' : LiveTask}

/-- Of a finalized slot the connection has sent all data: it asked for no later slot, and the data
comes first. -/
theorem replays_send {event : NormalizedEvent} (hsent : DataBefore log sent)
    (hreplays : task.Replays log sent)
    (hstep : LiveStep log reconnect configure task (.send event) task') :
    DataBefore log (sent ++ [event]) ∧ task'.Replays log (sent ++ [event]) := by
  cases hstep with
  | @deliver backoff fromSlot position event hdelivers =>
      obtain ⟨slot, rfl, hall⟩ := hreplays
      obtain ⟨hentry, hfrom⟩ := hdelivers
      constructor
      · apply hsent.snoc
        intro hfinal i data hdata hkind hslot
        have hbefore : i < position :=
          log.data_first i position data event hdata hentry hkind hfinal hslot
        apply hall i hbefore data hdata
        rw [hslot]
        exact hfrom slot rfl
      · refine ⟨slot, rfl, fun i hi other hother hle => ?_⟩
        rcases Nat.lt_succ_iff_lt_or_eq.mp hi with hi | rfl
        · exact List.mem_append_left _ (hall i hi other hother hle)
        · rw [hentry] at hother
          cases hother
          exact List.mem_append_right _ (List.mem_singleton_self _)

theorem replays_other {m : Move NormalizedEvent} (hm : ∀ event, m ≠ .send event)
    (hconfigure : ∀ fromSlot, configure fromSlot → fromSlot ≠ none)
    (hreplays : task.Replays log sent) (hstep : LiveStep log reconnect configure task m task') :
    task'.Replays log sent := by
  cases hstep with
  | configure backoff h => exact hconfigure _ h
  | notSubscribed | refused | broken | retry | exhausted | permanent => exact trivial
  | replaying backoff slot => exact ⟨slot, rfl, fun i hi => absurd hi (Nat.not_lt_zero i)⟩
  | tailing backoff position => exact absurd rfl hreplays
  | deliver backoff h => exact absurd rfl (hm _)
  | @pass backoff fromSlot position hpass =>
      obtain ⟨slot, rfl, hall⟩ := hreplays
      refine ⟨slot, rfl, fun i hi event hevent hle => ?_⟩
      rcases Nat.lt_succ_iff_lt_or_eq.mp hi with hi | rfl
      · exact hall i hi event hevent hle
      · -- an entry that was passed over has an earlier slot
        refine absurd ⟨hevent, ?_⟩ (hpass event)
        rintro _ ⟨⟩
        exact hle

end Replays

end YellowstoneStream.Stream

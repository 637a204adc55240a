import YellowstoneStream.App.ReconnectStatus

/-!
# Decode errors

An update that does not normalize is skipped and counted.  The counter is the one that the status
is told; the metric of the name is never incremented.
-/

open Relation YellowstoneStream.Domain YellowstoneStream.Reasoning YellowstoneStream.Storage
open YellowstoneStream.Stream

namespace YellowstoneStream.App

namespace LiveRun

/-- No send was refused, and the producer was not stopped in between. -/
def AllSent (x : LiveRun) : Prop :=
  match x.system.task with
  | .running s => s.AllSent
  | .ended (.returned result) => result ≠ .error .receiverClosed
  | .ended .cancelled => False

def unsent (crates : ProtoCrates) (cluster : String) (x : LiveRun) : List NormalizedEvent :=
  match x.system.task with
  | .running s => s.unsent crates cluster
  | .ended _ => []

def update? (x : LiveRun) : Option SubscribeUpdate :=
  match x.system.task with
  | .running s => s.update?
  | .ended _ => none

/-- The producer is done with all the updates it has received. -/
structure BetweenUpdates (crates : ProtoCrates) (cluster : String) (x : LiveRun) : Prop where
  allSent : x.AllSent
  unsent : x.unsent crates cluster = []
  update : x.update? = none

/-- Where each update that was received has gone. -/
structure Accounted (crates : ProtoCrates) (cluster : String) (x : LiveRun) : Prop where
  sent : x.system.sent ++ x.unsent crates cluster = x.updates.flatMap (eventsOf crates cluster)
  counted : ∃ n, x.decodeErrors = n % 2 ^ 64 ∧
    n + x.update?.toList.countP (isRejected crates cluster) =
      x.updates.countP (isRejected crates cluster)

end LiveRun

/-! ## One step -/

def received : Option Effect → List SubscribeUpdate
  | some (.message update) => [update]
  | _ => []

def errorsCounted : Option Effect → Nat
  | some .decodeError => 1
  | _ => 0

theorem decodeErrorsTotal_liveProgress (metrics : Metrics) (summary : PipelineSummary) :
    (metrics.liveProgress summary).decodeErrorsTotal = metrics.decodeErrorsTotal := by
  have hobserved : (metrics.liveProgress summary).decodeErrorsTotal =
      (metrics.observeSummary summary).decodeErrorsTotal := by
    rw [Metrics.liveProgress]
    cases summary.lastPersistedSlot <;> cases summary.lastFinalizedSlot <;> rfl
  rw [hobserved, Metrics.observeSummary]
  split <;> rfl

section Effects

variable (x : LiveRun) (streamName : String) (now nowUnixMs : Nat) (effect : Option Effect)

theorem after_updates :
    (x.after streamName now nowUnixMs effect).updates = x.updates ++ received effect := by
  cases effect with
  | none => exact (List.append_nil _).symm
  | some effect =>
      cases effect with
      | message update => rfl
      | _ => exact (List.append_nil _).symm

theorem after_decodeErrors {n : Nat} (h : x.decodeErrors = n % 2 ^ 64) :
    (x.after streamName now nowUnixMs effect).decodeErrors =
      (n + errorsCounted effect) % 2 ^ 64 := by
  cases effect with
  | none => exact h
  | some effect =>
      cases effect with
      | decodeError =>
          show (x.decodeErrors + 1) % 2 ^ 64 = _
          rw [h, Nat.mod_add_mod]
          rfl
      | _ => exact h

theorem decodeErrorsTotal_after :
    (x.after streamName now nowUnixMs effect).metrics.decodeErrorsTotal =
      x.metrics.decodeErrorsTotal := by
  cases effect with
  | none => rfl
  | some effect =>
      cases effect with
      | progress summary => exact decodeErrorsTotal_liveProgress x.metrics summary
      | _ => rfl

end Effects

theorem callEffect_quiet (c : PipelineCall) :
    received (callEffect c) = [] ∧ errorsCounted (callEffect c) = 0 := by
  cases c <;> exact ⟨rfl, rfl⟩

section Moves

variable {crates : ProtoCrates} {cluster : String} {reconnect : YellowstoneReconnectConfig}
  {configure : Option Nat → Prop} {s s' : GrpcTask} {m : Move NormalizedEvent}

/-- The events of what is received are sent or still to be sent. -/
theorem events_of_step (h : GrpcStep crates cluster reconnect configure s m s')
    (hsent : s'.AllSent) :
    m.sent ++ s'.unsent crates cluster = s.unsent crates cluster ++
      (received (taskEffect s s')).flatMap (eventsOf crates cluster) := by
  cases h with
  | message backoff fromSlot update => exact (List.append_nil _).symm
  | skip backoff fromSlot hrejected | accept backoff fromSlot hrejected =>
      show _ = eventsOf crates cluster _ ++ []
      rw [eventsOf, hrejected]
      simp [Move.sent, GrpcTask.unsent]
  | send => exact (List.append_nil _).symm
  | refused => exact absurd rfl hsent
  | _ => rfl

/-- A rejected update is counted when it is looked at. -/
theorem rejections_of_step (h : GrpcStep crates cluster reconnect configure s m s') :
    errorsCounted (taskEffect s s') + s'.update?.toList.countP (isRejected crates cluster) =
      s.update?.toList.countP (isRejected crates cluster) +
        (received (taskEffect s s')).countP (isRejected crates cluster) := by
  cases h with
  | message => rfl
  | skip backoff fromSlot hrejected | accept backoff fromSlot hrejected =>
      show _ = [_].countP _ + 0
      rw [List.countP_singleton, isRejected, hrejected]
      rfl
  | _ => rfl

end Moves

section Steps

variable {stream : GrpcStream} {settings : LiveSettings} {cursor : Option StreamCursor}
  {x y : LiveRun}

theorem accounted_of_kept {crates : ProtoCrates} {cluster : String}
    (h : x.Accounted crates cluster) (hsent : y.system.sent = x.system.sent)
    (hunsent : y.unsent crates cluster = x.unsent crates cluster)
    (hupdate : y.update? = x.update?) (hupdates : y.updates = x.updates)
    (hcount : y.decodeErrors = x.decodeErrors) : y.Accounted crates cluster := by
  obtain ⟨hevents, n, hn, hcounted⟩ := h
  refine ⟨?_, n, hcount.trans hn, ?_⟩
  · rw [hsent, hunsent, hupdates, hevents]
  · rw [hupdate, hupdates, hcounted]

theorem allSent_of_step (hstep : stream.Step settings cursor x y) (hall : y.AllSent) :
    x.AllSent := by
  rcases GrpcStream.step_cases hstep with ⟨s, m, s', hx, hy, hmove, -⟩ | ⟨-, htask, -⟩ |
    ⟨-, -, hsame | hcancelled | ⟨result, hx, hy⟩⟩
  · rw [LiveRun.AllSent, hy] at hall
    rw [LiveRun.AllSent, hx]
    exact hmove.allSent hall
  · rw [LiveRun.AllSent, htask] at hall
    exact hall
  · rw [LiveRun.AllSent, hsame] at hall
    exact hall
  · rw [LiveRun.AllSent, hcancelled] at hall
    exact hall.elim
  · rw [LiveRun.AllSent, hy] at hall
    rw [LiveRun.AllSent, hx]
    exact hall

theorem accounted_step (hstep : stream.Step settings cursor x y) (hall : y.AllSent)
    (h : x.Accounted stream.crates stream.cluster) :
    y.Accounted stream.crates stream.cluster := by
  obtain ⟨hevents, n, hn, hcounted⟩ := h
  have hcases := GrpcStream.step_cases hstep
  obtain ⟨-, now, nowUnixMs, hafter⟩ := hstep
  have hupdates := (congrArg LiveRun.updates hafter).trans (after_updates x _ _ _ _)
  have hcount := (congrArg LiveRun.decodeErrors hafter).trans (after_decodeErrors x _ _ _ _ hn)
  rcases hcases with ⟨s, m, s', hx, hy, hmove, hsent, heffect⟩ | ⟨hsent, htask, c, heffect⟩ |
    ⟨hsent, heffect, htask⟩
  · -- the producer moves on: what it received, sent and skipped balances
    rw [heffect] at hupdates hcount
    rw [LiveRun.AllSent, hy] at hall
    rw [LiveRun.unsent, hx] at hevents
    rw [LiveRun.update?, hx] at hcounted
    refine ⟨?_, _, hcount, ?_⟩
    · rw [LiveRun.unsent, hy, hsent, hupdates, List.append_assoc, events_of_step hmove hall,
        ← List.append_assoc, hevents, List.flatMap_append]
    · rw [LiveRun.update?, hy, hupdates, List.countP_append, ← hcounted, Nat.add_assoc,
        rejections_of_step hmove, Nat.add_assoc]
  · -- a call of the pipeline, whose callback counts nothing
    rw [heffect, (callEffect_quiet c).1] at hupdates
    rw [heffect, (callEffect_quiet c).2] at hcount
    refine accounted_of_kept ⟨hevents, n, hn, hcounted⟩ hsent ?_ ?_
      (hupdates.trans (List.append_nil _)) (hcount.trans hn.symm)
    · rw [LiveRun.unsent, LiveRun.unsent, htask]
    · rw [LiveRun.update?, LiveRun.update?, htask]
  · rw [heffect] at hupdates hcount
    -- a task that ends has nothing left, unless it is stopped
    have hkept : y.unsent stream.crates stream.cluster = x.unsent stream.crates stream.cluster ∧
        y.update? = x.update? := by
      rcases htask with hsame | hcancelled | ⟨result, hx, hy⟩
      · rw [LiveRun.unsent, LiveRun.unsent, LiveRun.update?, LiveRun.update?, hsame]
        exact ⟨rfl, rfl⟩
      · rw [LiveRun.AllSent, hcancelled] at hall
        exact hall.elim
      · rw [LiveRun.unsent, LiveRun.unsent, LiveRun.update?, LiveRun.update?, hx, hy]
        exact ⟨rfl, rfl⟩
    exact accounted_of_kept ⟨hevents, n, hn, hcounted⟩ hsent hkept.1 hkept.2
      (hupdates.trans (List.append_nil _)) (hcount.trans hn.symm)

/-- No callback increments the metric. -/
theorem decodeErrorsTotal_step (hstep : stream.Step settings cursor x y) :
    y.metrics.decodeErrorsTotal = x.metrics.decodeErrorsTotal := by
  obtain ⟨-, now, nowUnixMs, hafter⟩ := hstep
  rw [hafter]
  exact decodeErrorsTotal_after x _ _ _ _

end Steps

/-! ## Whole runs -/

section Runs

variable {stream : GrpcStream} {settings : LiveSettings} {cursor : Option StreamCursor}
  {frontier : FinalizedFrontier} {db : Db} {x : LiveRun}

theorem accounted_of_reaches
    (h : ReflTransGen (stream.Step settings cursor) (stream.start settings cursor frontier db) x)
    (hall : x.AllSent) : x.Accounted stream.crates stream.cluster := by
  induction h with
  | refl => exact ⟨rfl, 0, rfl, rfl⟩
  | tail _ hstep ih => exact accounted_step hstep hall (ih (allSent_of_step hstep hall))

theorem decodeErrorsTotal_of_reaches
    (h : ReflTransGen (stream.Step settings cursor) (stream.start settings cursor frontier db) x) :
    x.metrics.decodeErrorsTotal = 0 := by
  induction h with
  | refl => rfl
  | tail _ hstep ih => exact (decodeErrorsTotal_step hstep).trans ih

end Runs

/-- Every update that normalizes is sent and every other one is counted, but the metric shows the
count only as long as it is zero. -/
theorem decode_errors_rendered_iff (stream : GrpcStream) (settings : LiveSettings)
    (cursor : Option StreamCursor) (frontier : FinalizedFrontier) (db : Db) (x : LiveRun)
    (h : ReflTransGen (stream.Step settings cursor) (stream.start settings cursor frontier db) x)
    (hbetween : x.BetweenUpdates stream.crates stream.cluster) :
    x.system.sent = x.updates.flatMap (eventsOf stream.crates stream.cluster) ∧
      x.decodeErrors = x.updates.countP (isRejected stream.crates stream.cluster) % 2 ^ 64 ∧
      (x.metrics.samples.lookup "solana_stream_decode_errors_total" =
          some (x.updates.countP (isRejected stream.crates stream.cluster)) ↔
        ∀ update ∈ x.updates, isRejected stream.crates stream.cluster update = false) := by
  obtain ⟨hevents, n, hn, hcounted⟩ := accounted_of_reaches h hbetween.allSent
  rw [hbetween.unsent, List.append_nil] at hevents
  rw [hbetween.update] at hcounted
  refine ⟨hevents, hcounted ▸ hn, ?_⟩
  have hrendered : x.metrics.samples.lookup "solana_stream_decode_errors_total" = some 0 :=
    congrArg some (decodeErrorsTotal_of_reaches h)
  rw [hrendered, Option.some.injEq, eq_comm, List.countP_eq_zero]
  simp only [Bool.not_eq_true]

def emptyUpdate : SubscribeUpdate := ⟨[], none⟩

/-- An update without content has been skipped. -/
def emptyUpdateSkipped : LiveRun :=
  let connecting := entryStart.move (.connecting (.initial .default) none)
  let streaming := connecting.move (.streaming (.initial .default) none)
  let normalizing := streaming.move (.normalizing (.initial .default) none emptyUpdate)
  normalizing.move (.streaming (.initial .default) none)

theorem emptyUpdate_rejected :
    normalizeYellowstoneProtoUpdate exampleCrates "mainnet-beta" emptyUpdate =
      .error .missingUpdate :=
  rfl

theorem emptyUpdateSkipped_reached :
    ReflTransGen (entryStream.Step ⟨1, 1, .default⟩ none) entryStart emptyUpdateSkipped := by
  have hconnecting := ReflTransGen.single
    (entryStream_move (x := entryStart) rfl (.start _ ⟨0, List.mem_singleton_self _, rfl⟩))
  have hstreaming := hconnecting.tail (entryStream_move rfl (.subscribed _ _))
  have hmessage := hstreaming.tail (entryStream_move rfl (.message _ _ emptyUpdate))
  exact hmessage.tail (entryStream_move rfl (.skip _ _ emptyUpdate_rejected))

theorem emptyUpdateSkipped_between :
    emptyUpdateSkipped.BetweenUpdates exampleCrates "mainnet-beta" :=
  ⟨trivial, rfl, rfl⟩

theorem empty_update_skipped :
    emptyUpdateSkipped.system.sent = [] ∧ emptyUpdateSkipped.decodeErrors = 1 ∧
      emptyUpdateSkipped.metrics.samples.lookup "solana_stream_decode_errors_total" ≠ some 1 := by
  obtain ⟨hsent, hcount, hrendered⟩ := decode_errors_rendered_iff entryStream _ none _ _ _
    emptyUpdateSkipped_reached emptyUpdateSkipped_between
  exact ⟨hsent, hcount, fun h => nomatch hrendered.mp h emptyUpdate (List.mem_singleton_self _)⟩

/-- An update is skipped, and no metric tells of it. -/
theorem skipped_update_not_rendered : ¬ ∀ (stream : GrpcStream) (settings : LiveSettings)
    (cursor : Option StreamCursor) (frontier : FinalizedFrontier) (db : Db) (x : LiveRun),
    ReflTransGen (stream.Step settings cursor) (stream.start settings cursor frontier db) x →
      x.BetweenUpdates stream.crates stream.cluster →
      x.system.sent = x.updates.flatMap (eventsOf stream.crates stream.cluster) ∧
        x.metrics.samples.lookup "solana_stream_decode_errors_total" =
          some (x.updates.countP (isRejected stream.crates stream.cluster)) := by
  intro hall
  have hrendered := (hall entryStream _ none _ _ _ emptyUpdateSkipped_reached
    emptyUpdateSkipped_between).2
  cases hrendered

end YellowstoneStream.App

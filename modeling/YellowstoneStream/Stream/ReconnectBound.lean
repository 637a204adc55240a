import YellowstoneStream.Stream.LiveProducer

/-!
# How often the reconnect loop tries

The retry counter starts again after an attempt that took `reset_after`, and the clock runs while
the attempt is still connecting.  An endpoint that fails slowly is therefore tried forever, whatever
`max_retries` says.
-/

open Relation

namespace YellowstoneStream.Stream

/-- An attempt that ended with an error, how long it took, and the random number drawn for the delay
after it. -/
structure FailedAttempt where
  err : YellowstoneGrpcError
  elapsed : Nat
  jitter : Nat

/-- The attempt received no update: it failed while connecting or subscribing. -/
def FailedAttempt.Fruitless (attempt : FailedAttempt) : Prop :=
  attempt.err.beforeStreaming = true ∧ attempt.err.isRetryable = true

/-- The loop takes the attempt for a healthy period. -/
def FailedAttempt.resets (attempt : FailedAttempt) (reconnect : YellowstoneReconnectConfig) :
    Bool :=
  reconnect.resetAfter.any fun grace => grace ≤ attempt.elapsed

/-- Where the reconnect loop stands after the first `n` of a sequence of failing attempts. -/
def reconnectLoop (reconnect : YellowstoneReconnectConfig) (attempts : Nat → FailedAttempt) :
    Nat → LiveTask
  | 0 => .configuring (.initial reconnect)
  | n + 1 =>
      match reconnectLoop reconnect attempts n with
      | .configuring backoff =>
          if (attempts n).err.isRetryable then
            match backoff.afterFailure reconnect (attempts n).elapsed (attempts n).jitter with
            | some next => .configuring next
            | none => .released (.error (attempts n).err)
          else .released (.error (attempts n).err)
      | task => task

/-- The loop makes an attempt, at the latest the one numbered `last`, and returns its error. -/
def ReturnsBy (reconnect : YellowstoneReconnectConfig) (attempts : Nat → FailedAttempt)
    (last : Nat) : Prop :=
  ∃ n ≤ last, ∃ backoff, reconnectLoop reconnect attempts n = .configuring backoff ∧
    reconnectLoop reconnect attempts (n + 1) = .released (.error (attempts n).err)

section Loop

variable {reconnect : YellowstoneReconnectConfig} {attempts : Nat → FailedAttempt}

theorem reconnectLoop_succ {n : Nat} {backoff : Backoff}
    (hretryable : (attempts n).err.isRetryable = true)
    (h : reconnectLoop reconnect attempts n = .configuring backoff) :
    reconnectLoop reconnect attempts (n + 1) =
      match backoff.afterFailure reconnect (attempts n).elapsed (attempts n).jitter with
      | some next => .configuring next
      | none => .released (.error (attempts n).err) := by
  simp only [reconnectLoop, h, if_pos hretryable]

/-- What one attempt does to the loop: it starts the counter again, it is counted, or its error is
returned. -/
theorem reconnectLoop_succ_cases {n : Nat} {backoff : Backoff}
    (hretryable : (attempts n).err.isRetryable = true)
    (h : reconnectLoop reconnect attempts n = .configuring backoff) :
    ((attempts n).resets reconnect = true ∧
      reconnectLoop reconnect attempts (n + 1) = .configuring (.initial reconnect)) ∨
    ((attempts n).resets reconnect = false ∧
      (∀ m ∈ reconnect.maxRetries, min (backoff.retryAttempt + 1) u32Max ≤ m) ∧
      ∃ delay, reconnectLoop reconnect attempts (n + 1) =
        .configuring ⟨min (backoff.retryAttempt + 1) u32Max, delay⟩) ∨
    ((attempts n).resets reconnect = false ∧
      (∃ m ∈ reconnect.maxRetries, m < min (backoff.retryAttempt + 1) u32Max) ∧
      reconnectLoop reconnect attempts (n + 1) = .released (.error (attempts n).err)) := by
  rw [reconnectLoop_succ hretryable h]
  cases hreset : (attempts n).resets reconnect with
  | true =>
      rw [Backoff.afterFailure_of_lasted hreset]
      exact .inl ⟨rfl, rfl⟩
  | false =>
      rw [Backoff.afterFailure_of_short hreset]
      cases hretries : reconnect.maxRetries with
      | none => exact .inr (.inl ⟨rfl, nofun, _, rfl⟩)
      | some m =>
          rw [Option.any_some]
          rcases Nat.lt_or_ge m (min (backoff.retryAttempt + 1) u32Max) with hlt | hge
          · rw [if_pos (decide_eq_true hlt)]
            exact .inr (.inr ⟨rfl, ⟨m, rfl, hlt⟩, rfl⟩)
          · rw [if_neg (by rw [decide_eq_true_eq]; exact Nat.not_lt.mpr hge)]
            exact .inr (.inl ⟨rfl, by rintro _ ⟨⟩; exact hge, _, rfl⟩)

/-- Each attempt is a sequence of steps of the live producer. -/
theorem reconnectLoop_steps (log : ProviderLog) {configure : Option Nat → Prop}
    {fromSlot : Option Nat} (hconfigure : configure fromSlot) {n : Nat}
    (hfruitless : (attempts n).Fruitless)
    (hjitter : ∀ backoff, reconnectLoop reconnect attempts n = .configuring backoff →
      (attempts n).jitter ≤ jitterBound backoff.delay) :
    ReflTransGen (fun task task' => LiveStep log reconnect configure task .quiet task')
      (reconnectLoop reconnect attempts n) (reconnectLoop reconnect attempts (n + 1)) := by
  obtain ⟨hbefore, hretryable⟩ := hfruitless
  cases hloop : reconnectLoop reconnect attempts n with
  | configuring backoff =>
      rw [reconnectLoop_succ hretryable hloop]
      refine .head (.configure backoff hconfigure) (.head (.notSubscribed backoff fromSlot hbefore)
        (.single ?_))
      split
      · rename_i next hnext
        exact .retry hretryable (hjitter backoff hloop) hnext
      · rename_i hnone
        exact .exhausted hretryable hnone
  | connecting | streaming | failed | released => rw [reconnectLoop, hloop]

/-! ## The retry counter -/

variable (hfruitless : ∀ n, (attempts n).Fruitless)
include hfruitless

/-- The counter counts the attempts since the last reset. -/
theorem retryAttempt_le {n : Nat} {backoff : Backoff}
    (h : reconnectLoop reconnect attempts n = .configuring backoff) :
    backoff.retryAttempt ≤ n ∧
      ∀ i < n, (attempts i).resets reconnect = true → backoff.retryAttempt + i < n := by
  induction n generalizing backoff with
  | zero =>
      cases h
      exact ⟨le_rfl, nofun⟩
  | succ n ih =>
      cases hloop : reconnectLoop reconnect attempts n with
      | configuring before =>
          obtain ⟨hle, hresets⟩ := ih hloop
          obtain ⟨-, hnext⟩ | ⟨hreset, -, delay, hnext⟩ | ⟨-, -, hnext⟩ :=
            reconnectLoop_succ_cases (hfruitless _).2 hloop
          · cases h.symm.trans hnext
            refine ⟨Nat.zero_le _, fun i hi _ => ?_⟩
            show 0 + i < n + 1
            omega
          · cases h.symm.trans hnext
            refine ⟨?_, fun i hi hi' => ?_⟩
            · show min (before.retryAttempt + 1) u32Max ≤ n + 1
              omega
            · show min (before.retryAttempt + 1) u32Max + i < n + 1
              -- the last attempt is counted, so the resetting one came before it
              rcases Nat.lt_succ_iff_lt_or_eq.mp hi with hi | rfl
              · have hbefore := hresets i hi hi'
                omega
              · rw [hreset] at hi'
                cases hi'
          · cases h.symm.trans hnext
      | connecting | streaming | failed | released =>
          rw [reconnectLoop, hloop] at h
          cases h

variable {m : Nat} (hretries : reconnect.maxRetries = some m)
include hretries

/-- While nothing resets it, the counter is the number of attempts. -/
theorem reconnectLoop_of_no_reset (hm : m < u32Max) {n : Nat} (hn : n ≤ m)
    (h : ∀ i < n, (attempts i).resets reconnect = false) :
    ∃ delay, reconnectLoop reconnect attempts n = .configuring ⟨n, delay⟩ := by
  induction n with
  | zero => exact ⟨_, rfl⟩
  | succ n ih =>
      obtain ⟨delay, hloop⟩ := ih (by omega) fun i hi => h i (by omega)
      have hcount : min (n + 1) u32Max = n + 1 := by omega
      obtain ⟨hreset, -⟩ | ⟨-, -, delay', hnext⟩ | ⟨-, ⟨bound, hbound, hexceeds⟩, -⟩ :=
        reconnectLoop_succ_cases (hfruitless _).2 hloop
      · rw [h n (by omega)] at hreset
        cases hreset
      · rw [hcount] at hnext
        exact ⟨delay', hnext⟩
      · -- the counter exceeds the bound only after attempt `m`
        obtain rfl := Option.some.inj (hretries.symm.trans hbound)
        rw [hcount] at hexceeds
        omega

theorem returnsBy_of_no_reset (hm : m < u32Max)
    (h : ∀ i ≤ m, (attempts i).resets reconnect = false) : ReturnsBy reconnect attempts m := by
  obtain ⟨delay, hloop⟩ :=
    reconnectLoop_of_no_reset hfruitless hretries hm le_rfl fun i hi => h i (by omega)
  have hcount : min (m + 1) u32Max = m + 1 := by omega
  refine ⟨m, le_rfl, _, hloop, ?_⟩
  obtain ⟨hreset, -⟩ | ⟨-, hbound, -⟩ | ⟨-, -, hnext⟩ :=
    reconnectLoop_succ_cases (hfruitless _).2 hloop
  · rw [h m le_rfl] at hreset
    cases hreset
  · have hle : min (m + 1) u32Max ≤ m := hbound m hretries
    omega
  · exact hnext

/-- Only the last of `m + 1` attempts in a row has its error returned. -/
theorem no_reset_of_returnsBy (h : ReturnsBy reconnect attempts m) :
    m < u32Max ∧ ∀ i ≤ m, (attempts i).resets reconnect = false := by
  obtain ⟨n, hn, backoff, hloop, hreturned⟩ := h
  obtain ⟨hle, hresets⟩ := retryAttempt_le hfruitless hloop
  obtain ⟨-, hnext⟩ | ⟨-, -, delay, hnext⟩ | ⟨hreset, ⟨bound, hbound, hexceeds⟩, -⟩ :=
    reconnectLoop_succ_cases (hfruitless _).2 hloop
  · cases hreturned.symm.trans hnext
  · cases hreturned.symm.trans hnext
  · obtain rfl := Option.some.inj (hretries.symm.trans hbound)
    refine ⟨by omega, fun i hi => ?_⟩
    rcases Nat.lt_or_ge i n with hlt | hge
    · -- a reset on the way would have left the counter below the bound
      by_contra hi'
      have hbelow := hresets i hlt (by simpa using hi')
      omega
    · obtain rfl : i = n := by omega
      exact hreset

end Loop

/-- A sequence of attempts none of which receives an update ends within `max_retries` retries
exactly when none of them took `reset_after` and the counter can exceed the bound. -/
theorem fruitless_reconnects_bounded_iff (reconnect : YellowstoneReconnectConfig) (m : Nat)
    (hretries : reconnect.maxRetries = some m) (attempts : Nat → FailedAttempt)
    (hfruitless : ∀ n, (attempts n).Fruitless) :
    ReturnsBy reconnect attempts m ↔
      m < u32Max ∧ ∀ i ≤ m, (attempts i).resets reconnect = false :=
  ⟨no_reset_of_returnsBy hfruitless hretries,
    fun h => returnsBy_of_no_reset hfruitless hretries h.1 h.2⟩

/-- Attempts that all take `reset_after` go on forever, each with the initial delay. -/
theorem reconnectLoop_of_resets {reconnect : YellowstoneReconnectConfig}
    {attempts : Nat → FailedAttempt} (hfruitless : ∀ n, (attempts n).Fruitless)
    (h : ∀ n, (attempts n).resets reconnect = true) (n : Nat) :
    reconnectLoop reconnect attempts n = .configuring (.initial reconnect) := by
  induction n with
  | zero => rfl
  | succ n ih =>
      obtain ⟨-, hnext⟩ | ⟨hreset, -⟩ | ⟨hreset, -⟩ :=
        reconnectLoop_succ_cases (hfruitless n).2 ih
      · exact hnext
      · rw [h n] at hreset
        cases hreset
      · rw [h n] at hreset
        cases hreset

def retryOnce : YellowstoneReconnectConfig :=
  { YellowstoneReconnectConfig.default with maxRetries := some 1 }

def connectFailures (elapsed : Nat) (_ : Nat) : FailedAttempt := ⟨.connect, elapsed, 0⟩

theorem connectFailures_fruitless (elapsed n : Nat) :
    (connectFailures elapsed n).Fruitless := ⟨rfl, rfl⟩

theorem fruitless_reconnects_bounded_fast : ReturnsBy retryOnce (connectFailures 0) 1 :=
  (fruitless_reconnects_bounded_iff retryOnce 1 rfl (connectFailures 0)
    (connectFailures_fruitless 0)).mpr ⟨by decide, fun _ _ => rfl⟩

/-- Connecting fails after 30 seconds each time, the default of `reset_after`. -/
theorem fruitless_reconnects_unbounded : ¬ ∀ (reconnect : YellowstoneReconnectConfig) (m : Nat)
    (attempts : Nat → FailedAttempt), reconnect.maxRetries = some m →
    (∀ n, (attempts n).Fruitless) → ReturnsBy reconnect attempts m := by
  intro hall
  obtain ⟨n, -, backoff, -, hreturned⟩ :=
    hall retryOnce 1 (connectFailures (30 * nanosPerSecond)) rfl (connectFailures_fruitless _)
  rw [reconnectLoop_of_resets (connectFailures_fruitless _) fun n => rfl] at hreturned
  cases hreturned

end YellowstoneStream.Stream

import YellowstoneStream.Stream.GrpcRequest

/-!
# The reconnect loop

`run_yellowstone_reconnect_loop` with everything it calls: the attempts, the two callbacks, the
clock, and the random numbers of the backoff.
-/

namespace YellowstoneStream.Stream

/-- What the loop is given from outside, by the number of the round. -/
structure LoopCalls where
  configureAttempt : Nat → YellowstoneGrpcConfig → YellowstoneGrpcConfig
  attempt : Nat → YellowstoneGrpcConfig → Except YellowstoneGrpcError Unit
  elapsed : Nat → Nat
  -- `fastrand::u64(0..=bound)`
  fastrand : Nat → (bound : Nat) → Fin (bound + 1)
  -- the text of an error that another crate has defined
  inner : Nat → String

inductive LoopAction where
  | configureAttempt (config : YellowstoneGrpcConfig)
  | attempt (config : YellowstoneGrpcConfig)
  | onReconnect (event : YellowstoneReconnectEvent)
  | sleep (delay : Nat)
  deriving DecidableEq, Repr

/-- The loop between two rounds, or after its last one, and what it has done so far. -/
inductive LoopRun where
  | running (config : YellowstoneGrpcConfig) (backoff : Backoff) (actions : List LoopAction)
  | returned (result : Except YellowstoneGrpcError Unit) (actions : List LoopAction)

def LoopRun.actions : LoopRun → List LoopAction
  | .running _ _ actions | .returned _ actions => actions

def LoopRun.round (calls : LoopCalls) (reconnect : YellowstoneReconnectConfig) (n : Nat) :
    LoopRun → LoopRun
  | .returned result actions => .returned result actions
  | .running config backoff actions =>
      let config := calls.configureAttempt n config
      let attemptFromSlot := config.fromSlot
      let actions := actions ++ [.configureAttempt config, .attempt config]
      match calls.attempt n config with
      | .ok () => .returned (.ok ()) actions
      | .error err =>
          if !err.isRetryable then .returned (.error err) actions
          else
            let jitter := (calls.fastrand n (jitterBound backoff.delay)).val
            match backoff.afterFailure reconnect (calls.elapsed n) jitter with
            | none => .returned (.error err) actions
            | some next =>
                let event : YellowstoneReconnectEvent :=
                  { retryAttempt := next.retryAttempt
                    delay := next.delay
                    errorKind := err.kind
                    errorMessage := err.display (calls.inner n)
                    fromSlot := attemptFromSlot }
                .running config next (actions ++ [.onReconnect event, .sleep next.delay])

/-- The loop after at most `n` rounds. -/
def runReconnectLoop (calls : LoopCalls) (config : YellowstoneGrpcConfig)
    (reconnect : YellowstoneReconnectConfig) : Nat → LoopRun
  | 0 => .running config (.initial reconnect) []
  | n + 1 => (runReconnectLoop calls config reconnect n).round calls reconnect n

section Specification

variable (calls : LoopCalls) (config : YellowstoneGrpcConfig)
  (reconnect : YellowstoneReconnectConfig)

/-- The configuration of attempt `n`, when there is one. -/
def attemptConfig : Nat → YellowstoneGrpcConfig
  | 0 => calls.configureAttempt 0 config
  | n + 1 => calls.configureAttempt (n + 1) (attemptConfig n)

def outcome (n : Nat) : Except YellowstoneGrpcError Unit :=
  calls.attempt n (attemptConfig calls config n)

/-- The attempt took at least `reset_after`. -/
def Lasted (n : Nat) : Prop := ∃ grace ∈ reconnect.resetAfter, grace ≤ calls.elapsed n

/-- The attempt is number `m + 1` in a row that did not last, counted from the start or from the
last one that did. -/
def NthShort (m n : Nat) : Prop :=
  ∃ start, start + m = n ∧
    (start = 0 ∨ ∃ before, before + 1 = start ∧ Lasted calls reconnect before) ∧
    ∀ i, start ≤ i → i ≤ n → ¬Lasted calls reconnect i

/-- An attempt that the loop does not go on from, and what it returns then. -/
inductive EndsWith (n : Nat) : Except YellowstoneGrpcError Unit → Prop where
  | ok (houtcome : outcome calls config n = .ok ()) : EndsWith n (.ok ())
  | fatal {err : YellowstoneGrpcError} (houtcome : outcome calls config n = .error err)
      (hfatal : err.isRetryable = false) : EndsWith n (.error err)
  | exhausted {err : YellowstoneGrpcError} {m : Nat}
      (houtcome : outcome calls config n = .error err) (hretryable : err.isRetryable = true)
      (hretries : reconnect.maxRetries = some m) (hshort : NthShort calls reconnect m n) :
      EndsWith n (.error err)

/-- The loop goes on after each of the first `n` attempts. -/
def Continues (n : Nat) : Prop := ∀ i < n, ∀ result, ¬EndsWith calls config reconnect i result

/-- Round `n` is reached, and the loop returns in it. -/
def ReturnsAt (n : Nat) (result : Except YellowstoneGrpcError Unit) : Prop :=
  (∃ config' backoff actions,
    runReconnectLoop calls config reconnect n = .running config' backoff actions) ∧
  ∃ actions, runReconnectLoop calls config reconnect (n + 1) = .returned result actions

/-- What a round does before the next one. -/
def retryRound (event : YellowstoneReconnectEvent) (n : Nat) : List LoopAction :=
  [.configureAttempt (attemptConfig calls config n), .attempt (attemptConfig calls config n),
    .onReconnect event, .sleep event.delay]

/-- The delay before an attempt, where the loop slept one. -/
def previousDelay (events : Nat → YellowstoneReconnectEvent) : Nat → Nat
  | 0 => reconnect.normalized.initialDelay
  | n + 1 => (events n).delay

/-- The event tells of the attempt that failed, and its delay follows the backoff rule. -/
structure Reported (events : Nat → YellowstoneReconnectEvent) (n : Nat) : Prop where
  failure : ∃ err, outcome calls config n = .error err ∧ err.isRetryable = true ∧
    (events n).errorKind = err.kind ∧ (events n).errorMessage = err.display (calls.inner n)
  fromSlot : (events n).fromSlot = (attemptConfig calls config n).fromSlot
  initial_le : reconnect.normalized.initialDelay ≤ (events n).delay
  le_max : (events n).delay ≤ reconnect.normalized.maxDelay
  of_lasted : Lasted calls reconnect n → (events n).delay = reconnect.normalized.initialDelay
  of_short : ¬Lasted calls reconnect n →
    min (2 * previousDelay reconnect events n) reconnect.normalized.maxDelay ≤ (events n).delay ∧
    (events n).delay ≤ min (3 * previousDelay reconnect events n) reconnect.normalized.maxDelay

end Specification

/-! ## What a round does -/

section Rounds

variable (calls : LoopCalls) (config : YellowstoneGrpcConfig)
  (reconnect : YellowstoneReconnectConfig)

/-- The configuration the loop holds before round `n`. -/
def configBefore : Nat → YellowstoneGrpcConfig
  | 0 => config
  | n + 1 => attemptConfig calls config n

/-- The variables of the loop before round `n`, as long as it goes on. -/
def backoffBefore : Nat → Backoff
  | 0 => .initial reconnect
  | n + 1 =>
      let backoff := backoffBefore n
      (backoff.afterFailure reconnect (calls.elapsed n)
        (calls.fastrand n (jitterBound backoff.delay))).getD backoff

def errorAt (n : Nat) : YellowstoneGrpcError :=
  match outcome calls config n with
  | .error err => err
  -- an attempt that succeeds has no event, so this value is never read
  | .ok () => .streamClosed

def eventAt (n : Nat) : YellowstoneReconnectEvent where
  retryAttempt := (backoffBefore calls reconnect (n + 1)).retryAttempt
  delay := (backoffBefore calls reconnect (n + 1)).delay
  errorKind := (errorAt calls config n).kind
  errorMessage := (errorAt calls config n).display (calls.inner n)
  fromSlot := (attemptConfig calls config n).fromSlot

def retryActions (n : Nat) : List LoopAction :=
  (List.range n).flatMap fun i => retryRound calls config (eventAt calls config reconnect i) i

/-- What the loop has done when it returns in round `n`. -/
def lastActions (n : Nat) : List LoopAction :=
  retryActions calls config reconnect n ++
    [.configureAttempt (attemptConfig calls config n), .attempt (attemptConfig calls config n)]

/-- The loop before round `n`, when no earlier attempt ended it. -/
structure Standing (n : Nat) : Prop where
  run : runReconnectLoop calls config reconnect n =
    .running (configBefore calls config n) (backoffBefore calls reconnect n)
      (retryActions calls config reconnect n)
  counted : ∃ start ≤ n,
    (start = 0 ∨ ∃ before, before + 1 = start ∧ Lasted calls reconnect before) ∧
    (∀ i, start ≤ i → i < n → ¬Lasted calls reconnect i) ∧
    (backoffBefore calls reconnect n).retryAttempt = min (n - start) u32Max ∧
    ∀ m ∈ reconnect.maxRetries, n - start ≤ m
  initial_le : reconnect.normalized.initialDelay ≤ (backoffBefore calls reconnect n).delay
  le_max : (backoffBefore calls reconnect n).delay ≤ reconnect.normalized.maxDelay

theorem standing_zero : Standing calls config reconnect 0 where
  run := rfl
  counted := ⟨0, Nat.le_refl 0, .inl rfl, nofun, rfl, fun _ _ => Nat.zero_le _⟩
  initial_le := Nat.le_refl _
  le_max := normalized_initialDelay_le_maxDelay reconnect

variable {calls config reconnect} {n : Nat}

theorem attemptConfig_eq :
    calls.configureAttempt n (configBefore calls config n) = attemptConfig calls config n := by
  cases n <;> rfl

theorem previousDelay_eq :
    previousDelay reconnect (eventAt calls config reconnect) n =
      (backoffBefore calls reconnect n).delay := by
  cases n <;> rfl

theorem retryActions_succ :
    retryActions calls config reconnect (n + 1) = retryActions calls config reconnect n ++
      retryRound calls config (eventAt calls config reconnect n) n := by
  rw [retryActions, List.range_succ, List.flatMap_append, List.flatMap_singleton, retryActions]

theorem lasted_iff : Lasted calls reconnect n ↔
    (reconnect.resetAfter.any fun grace => grace ≤ calls.elapsed n) = true := by
  simp [Lasted, Option.any_eq_true]

/-- An end has the attempt's own outcome as its result. -/
theorem EndsWith.result_eq {result : Except YellowstoneGrpcError Unit}
    (h : EndsWith calls config reconnect n result) : outcome calls config n = result := by
  cases h with
  | ok houtcome | fatal houtcome | exhausted houtcome => exact houtcome

section Retry

variable {err : YellowstoneGrpcError} (hstanding : Standing calls config reconnect n)
  (houtcome : outcome calls config n = .error err) (hretryable : err.isRetryable = true)
include hstanding houtcome hretryable

theorem Standing.run_of_some {next : Backoff}
    (hnext : (backoffBefore calls reconnect n).afterFailure reconnect (calls.elapsed n)
      (calls.fastrand n (jitterBound (backoffBefore calls reconnect n).delay)) = some next) :
    backoffBefore calls reconnect (n + 1) = next ∧
      runReconnectLoop calls config reconnect (n + 1) =
        .running (configBefore calls config (n + 1)) (backoffBefore calls reconnect (n + 1))
          (retryActions calls config reconnect (n + 1)) := by
  have hbefore : backoffBefore calls reconnect (n + 1) = next := by
    rw [backoffBefore, hnext, Option.getD_some]
  have herror : errorAt calls config n = err := by rw [errorAt, houtcome]
  have hattempt : calls.attempt n (attemptConfig calls config n) = .error err := houtcome
  refine ⟨hbefore, ?_⟩
  rw [runReconnectLoop, hstanding.run, LoopRun.round]
  simp only [attemptConfig_eq, hattempt, hretryable, Bool.not_true, Bool.false_eq_true, if_false,
    hnext]
  rw [retryActions_succ, retryRound, eventAt, herror, hbefore, List.append_assoc]
  rfl

theorem Standing.run_of_none
    (hnext : (backoffBefore calls reconnect n).afterFailure reconnect (calls.elapsed n)
      (calls.fastrand n (jitterBound (backoffBefore calls reconnect n).delay)) = none) :
    runReconnectLoop calls config reconnect (n + 1) =
      .returned (.error err) (lastActions calls config reconnect n) := by
  have hattempt : calls.attempt n (attemptConfig calls config n) = .error err := houtcome
  rw [runReconnectLoop, hstanding.run, LoopRun.round]
  simp only [attemptConfig_eq, hattempt, hretryable, Bool.not_true, Bool.false_eq_true, if_false,
    hnext]
  rfl

end Retry

theorem Standing.run_of_ok (hstanding : Standing calls config reconnect n)
    (houtcome : outcome calls config n = .ok ()) :
    runReconnectLoop calls config reconnect (n + 1) =
      .returned (.ok ()) (lastActions calls config reconnect n) := by
  have hattempt : calls.attempt n (attemptConfig calls config n) = .ok () := houtcome
  rw [runReconnectLoop, hstanding.run, LoopRun.round]
  simp only [attemptConfig_eq, hattempt]
  rfl

theorem Standing.run_of_fatal {err : YellowstoneGrpcError}
    (hstanding : Standing calls config reconnect n) (houtcome : outcome calls config n = .error err)
    (hfatal : err.isRetryable = false) :
    runReconnectLoop calls config reconnect (n + 1) =
      .returned (.error err) (lastActions calls config reconnect n) := by
  have hattempt : calls.attempt n (attemptConfig calls config n) = .error err := houtcome
  rw [runReconnectLoop, hstanding.run, LoopRun.round]
  simp only [attemptConfig_eq, hattempt, hfatal, Bool.not_false, if_true]
  rfl

/-- One more attempt that did not last makes the row longer. -/
theorem shortRow_snoc {start : Nat} (hrow : ∀ i, start ≤ i → i < n → ¬Lasted calls reconnect i)
    (hshort : ¬Lasted calls reconnect n) : ∀ i, start ≤ i → i ≤ n → ¬Lasted calls reconnect i := by
  intro i hi hi'
  rcases Nat.lt_or_eq_of_le hi' with hlt | rfl
  · exact hrow i hi hlt
  · exact hshort

/-- A short failure is counted; the count passes the bound in the one after the last retry. -/
theorem Standing.exceeds_iff (hstanding : Standing calls config reconnect n)
    (hretries : ∀ m ∈ reconnect.maxRetries, m < u32Max) (hshort : ¬Lasted calls reconnect n) :
    (reconnect.maxRetries.any fun m =>
      decide (m < min ((backoffBefore calls reconnect n).retryAttempt + 1) u32Max)) = true ↔
      ∃ m ∈ reconnect.maxRetries, NthShort calls reconnect m n := by
  obtain ⟨start, hle, hstart, hrow, hcount, hbound⟩ := hstanding.counted
  have hrow' := shortRow_snoc hrow hshort
  rw [Option.any_eq_true, hcount]
  refine exists_congr fun m => and_congr_right fun hm => ?_
  have hm' := hretries m hm
  have hbound' := hbound m hm
  rw [decide_eq_true_eq]
  constructor
  · intro hexceeds
    exact ⟨start, by omega, hstart, hrow'⟩
  · rintro ⟨start', hstart', hfirst, hshorts⟩
    -- both rows end at `n` and start after the same attempt
    have hsame : start' ≤ start := by
      rcases hstart with rfl | ⟨before, hbefore, hlasted⟩
      · omega
      · by_contra hgt
        rcases hfirst with rfl | ⟨before', hbefore', hlasted'⟩
        · omega
        · exact hrow' before' (by omega) (by omega) hlasted'
    have hsame' : start ≤ start' := by
      by_contra hlt
      rcases hstart with rfl | ⟨before, hbefore, hlasted⟩
      · omega
      · exact hshorts before (by omega) (by omega) hlasted
    omega

theorem Standing.counted_of_short (hstanding : Standing calls config reconnect n)
    (hshort : ¬Lasted calls reconnect n)
    (hfew : ¬∃ m ∈ reconnect.maxRetries, NthShort calls reconnect m n) {count : Nat}
    (hcount : count = min ((backoffBefore calls reconnect n).retryAttempt + 1) u32Max) :
    ∃ start ≤ n + 1,
      (start = 0 ∨ ∃ before, before + 1 = start ∧ Lasted calls reconnect before) ∧
      (∀ i, start ≤ i → i < n + 1 → ¬Lasted calls reconnect i) ∧
      count = min (n + 1 - start) u32Max ∧ ∀ m ∈ reconnect.maxRetries, n + 1 - start ≤ m := by
  obtain ⟨start, hstart, hfirst, hrow, hbefore, hbound⟩ := hstanding.counted
  have hrow' := shortRow_snoc hrow hshort
  refine ⟨start, by omega, hfirst, fun i hi hi' => hrow' i hi (Nat.le_of_lt_succ hi'), ?_, ?_⟩
  · have hsaturate : ∀ k bound : Nat, min (min k bound + 1) bound = min (k + 1) bound := by
      omega
    rw [hcount, hbefore, hsaturate, Nat.succ_sub hstart]
  · -- at the bound, this failure would have been the last
    intro m hm
    have hm' := hbound m hm
    by_contra hgt
    exact hfew ⟨m, hm, start, by omega, hfirst, hrow'⟩

section Outcome

variable {err : YellowstoneGrpcError} (hstanding : Standing calls config reconnect n)
  (houtcome : outcome calls config n = .error err) (hretryable : err.isRetryable = true)

section Attempt

include houtcome hretryable

/-- A retryable failure ends the loop only as one too many. -/
theorem nthShort_of_endsWith {result : Except YellowstoneGrpcError Unit}
    (h : EndsWith calls config reconnect n result) :
    ∃ m ∈ reconnect.maxRetries, NthShort calls reconnect m n := by
  cases h with
  | ok hok =>
      rw [houtcome] at hok
      cases hok
  | fatal herr hfatal =>
      rw [houtcome] at herr
      cases herr
      rw [hretryable] at hfatal
      cases hfatal
  | exhausted _ _ hm hnth => exact ⟨_, hm, hnth⟩

theorem eventAt_failure : ∃ err, outcome calls config n = .error err ∧ err.isRetryable = true ∧
    (eventAt calls config reconnect n).errorKind = err.kind ∧
    (eventAt calls config reconnect n).errorMessage = err.display (calls.inner n) := by
  have herror : errorAt calls config n = err := by rw [errorAt, houtcome]
  exact ⟨err, houtcome, hretryable, by rw [eventAt, herror], by rw [eventAt, herror]⟩

end Attempt

include hstanding houtcome hretryable

/-- An attempt that lasted starts the count and the delay again. -/
theorem Standing.step_of_lasted (hlasted : Lasted calls reconnect n) :
    (∀ result, ¬EndsWith calls config reconnect n result) ∧
      Standing calls config reconnect (n + 1) ∧
      Reported calls config reconnect (eventAt calls config reconnect) n := by
  obtain ⟨hbefore, hrun⟩ := hstanding.run_of_some houtcome hretryable
    (Backoff.afterFailure_of_lasted (lasted_iff.mp hlasted))
  refine ⟨?_, ⟨hrun, ?_, ?_, ?_⟩, ?_⟩
  · intro result hends
    obtain ⟨m, -, start, hstart, -, hshort⟩ := nthShort_of_endsWith houtcome hretryable hends
    exact hshort n (by omega) (Nat.le_refl n) hlasted
  · rw [hbefore]
    refine ⟨n + 1, Nat.le_refl _, .inr ⟨n, rfl, hlasted⟩, fun i hi hi' => ?_, ?_, fun m _ => ?_⟩
    · omega
    · rw [Nat.sub_self]
      rfl
    · omega
  · rw [hbefore]
    exact Nat.le_refl _
  · rw [hbefore]
    exact normalized_initialDelay_le_maxDelay reconnect
  · have hdelay : (eventAt calls config reconnect n).delay = reconnect.normalized.initialDelay := by
      rw [eventAt, hbefore]
      rfl
    constructor
    case failure => exact eventAt_failure houtcome hretryable
    case fromSlot => rfl
    case initial_le => exact Nat.le_of_eq hdelay.symm
    case le_max =>
      rw [hdelay]
      exact normalized_initialDelay_le_maxDelay reconnect
    case of_lasted => exact fun _ => hdelay
    case of_short => exact fun hshort => absurd hlasted hshort

/-- A short failure is counted and lengthens the delay, or its error is returned. -/
theorem Standing.step_of_short (hretries : ∀ m ∈ reconnect.maxRetries, m < u32Max)
    (hmax : reconnect.normalized.maxDelay ≤ durationMax) (hshort : ¬Lasted calls reconnect n) :
    (EndsWith calls config reconnect n (.error err) ∧
      runReconnectLoop calls config reconnect (n + 1) =
        .returned (.error err) (lastActions calls config reconnect n)) ∨
    ((∀ result, ¬EndsWith calls config reconnect n result) ∧
      Standing calls config reconnect (n + 1) ∧
      Reported calls config reconnect (eventAt calls config reconnect) n) := by
  have hexceeds := hstanding.exceeds_iff hretries hshort
  have hafter : (backoffBefore calls reconnect n).afterFailure reconnect _
      (calls.fastrand n (jitterBound (backoffBefore calls reconnect n).delay)) = _ :=
    Backoff.afterFailure_of_short (Bool.not_eq_true _ ▸ mt lasted_iff.mpr hshort)
  by_cases hmany : ∃ m ∈ reconnect.maxRetries, NthShort calls reconnect m n
  · rw [if_pos (hexceeds.mpr hmany)] at hafter
    obtain ⟨m, hm, hnth⟩ := hmany
    exact .inl ⟨.exhausted houtcome hretryable hm hnth,
      hstanding.run_of_none houtcome hretryable hafter⟩
  · rw [if_neg (mt hexceeds.mp hmany)] at hafter
    obtain ⟨hbefore, hrun⟩ := hstanding.run_of_some houtcome hretryable hafter
    have hjitter := Nat.le_of_lt_succ
      (calls.fastrand n (jitterBound (backoffBefore calls reconnect n).delay)).isLt
    have hge : _ ≤ nextBackoffDelay (backoffBefore calls reconnect n).delay _
        (calls.fastrand n (jitterBound (backoffBefore calls reconnect n).delay)) :=
      nextBackoffDelay_ge hmax
    have hle : nextBackoffDelay _ reconnect.normalized.maxDelay _ ≤ _ :=
      nextBackoffDelay_le hjitter
    have hinitial := hstanding.initial_le
    have horder := normalized_initialDelay_le_maxDelay reconnect
    have hdelay : (eventAt calls config reconnect n).delay =
        nextBackoffDelay (backoffBefore calls reconnect n).delay reconnect.normalized.maxDelay
          (calls.fastrand n (jitterBound (backoffBefore calls reconnect n).delay)) := by
      rw [eventAt, hbefore]
    refine .inr ⟨?_, ⟨hrun, ?_, ?_, ?_⟩, ?_⟩
    · exact fun result hends => hmany (nthShort_of_endsWith houtcome hretryable hends)
    · rw [hbefore]
      exact hstanding.counted_of_short hshort hmany rfl
    · rw [hbefore]
      show _ ≤ nextBackoffDelay _ _ _
      omega
    · rw [hbefore]
      show nextBackoffDelay _ _ _ ≤ _
      omega
    · constructor
      case failure => exact eventAt_failure houtcome hretryable
      case fromSlot => rfl
      case initial_le => omega
      case le_max => omega
      case of_lasted => exact fun hlasted => absurd hlasted hshort
      case of_short =>
        intro _
        rw [previousDelay_eq, hdelay]
        exact ⟨hge, hle⟩

end Outcome

/-- A round that is reached ends the loop, or leads to the next one. -/
theorem Standing.step (hstanding : Standing calls config reconnect n)
    (hretries : ∀ m ∈ reconnect.maxRetries, m < u32Max)
    (hmax : reconnect.normalized.maxDelay ≤ durationMax) :
    (∃ result, EndsWith calls config reconnect n result ∧
      runReconnectLoop calls config reconnect (n + 1) =
        .returned result (lastActions calls config reconnect n)) ∨
    ((∀ result, ¬EndsWith calls config reconnect n result) ∧
      Standing calls config reconnect (n + 1) ∧
      Reported calls config reconnect (eventAt calls config reconnect) n) := by
  cases houtcome : outcome calls config n with
  | ok value => exact .inl ⟨.ok (), .ok houtcome, hstanding.run_of_ok houtcome⟩
  | error err =>
      cases hretryable : err.isRetryable with
      | false =>
          exact .inl ⟨.error err, .fatal houtcome hretryable,
            hstanding.run_of_fatal houtcome hretryable⟩
      | true =>
          by_cases hlasted : Lasted calls reconnect n
          · exact .inr (hstanding.step_of_lasted houtcome hretryable hlasted)
          · exact (hstanding.step_of_short houtcome hretryable hretries hmax hlasted).imp_left
              fun h => ⟨.error err, h⟩

section Run

variable (hretries : ∀ m ∈ reconnect.maxRetries, m < u32Max)
  (hmax : reconnect.normalized.maxDelay ≤ durationMax)
include hretries hmax

theorem standing_of_continues (h : Continues calls config reconnect n) :
    Standing calls config reconnect n ∧
      ∀ i < n, Reported calls config reconnect (eventAt calls config reconnect) i := by
  induction n with
  | zero => exact ⟨standing_zero calls config reconnect, nofun⟩
  | succ n ih =>
      obtain ⟨hstanding, hreported⟩ := ih fun i hi => h i (Nat.lt_succ_of_lt hi)
      rcases hstanding.step hretries hmax with ⟨result, hends, -⟩ | ⟨-, hnext, hlast⟩
      · exact absurd hends (h n (Nat.lt_succ_self n) result)
      · refine ⟨hnext, fun i hi => ?_⟩
        rcases Nat.lt_succ_iff_lt_or_eq.mp hi with hlt | rfl
        · exact hreported i hlt
        · exact hlast

theorem continues_of_running {config' : YellowstoneGrpcConfig} {backoff : Backoff}
    {actions : List LoopAction}
    (h : runReconnectLoop calls config reconnect n = .running config' backoff actions) :
    Continues calls config reconnect n := by
  induction n generalizing config' backoff actions with
  | zero => exact fun i hi => absurd hi (Nat.not_lt_zero i)
  | succ n ih =>
      cases hbefore : runReconnectLoop calls config reconnect n with
      | returned result actions' =>
          rw [runReconnectLoop, hbefore, LoopRun.round] at h
          cases h
      | running config'' backoff' actions' =>
          have hcontinues := ih hbefore
          obtain ⟨hstanding, -⟩ := standing_of_continues hretries hmax hcontinues
          rcases hstanding.step hretries hmax with ⟨result, -, hreturned⟩ | ⟨hends, -⟩
          · cases h.symm.trans hreturned
          · intro i hi result
            rcases Nat.lt_succ_iff_lt_or_eq.mp hi with hlt | rfl
            · exact hcontinues i hlt result
            · exact hends result

theorem returnsAt_iff (n : Nat) (result : Except YellowstoneGrpcError Unit) :
    ReturnsAt calls config reconnect n result ↔
      EndsWith calls config reconnect n result ∧ Continues calls config reconnect n := by
  constructor
  · rintro ⟨⟨_, _, _, hrunning⟩, actions, hreturned⟩
    have hcontinues := continues_of_running hretries hmax hrunning
    obtain ⟨hstanding, -⟩ := standing_of_continues hretries hmax hcontinues
    rcases hstanding.step hretries hmax with ⟨result', hends, hreturned'⟩ | ⟨-, hnext, -⟩
    · cases hreturned.symm.trans hreturned'
      exact ⟨hends, hcontinues⟩
    · cases hreturned.symm.trans hnext.run
  · rintro ⟨hends, hcontinues⟩
    obtain ⟨hstanding, -⟩ := standing_of_continues hretries hmax hcontinues
    rcases hstanding.step hretries hmax with ⟨result', hends', hreturned⟩ | ⟨hnot, -⟩
    · cases hends.result_eq.symm.trans hends'.result_eq
      exact ⟨⟨_, _, _, hstanding.run⟩, _, hreturned⟩
    · exact absurd hends (hnot result)

theorem lastActions_of_returnsAt {result : Except YellowstoneGrpcError Unit}
    (h : ReturnsAt calls config reconnect n result) :
    (runReconnectLoop calls config reconnect (n + 1)).actions =
      lastActions calls config reconnect n := by
  obtain ⟨hends, hcontinues⟩ := (returnsAt_iff hretries hmax n result).mp h
  obtain ⟨hstanding, -⟩ := standing_of_continues hretries hmax hcontinues
  rcases hstanding.step hretries hmax with ⟨_, -, hreturned⟩ | ⟨hnot, -⟩
  · rw [hreturned]
    rfl
  · exact absurd hends (hnot result)

end Run

end Rounds

/-- The loop returns in the first round whose attempt ends it, with that attempt's result: at an
`Ok`, at an error that is not retryable, or at failure number `max_retries + 1` in a row shorter
than `reset_after`.  In every round before, it configures and makes the attempt, reports it with the
slot it had, and sleeps a delay that follows the backoff rule. -/
theorem reconnect_loop_spec (calls : LoopCalls) (config : YellowstoneGrpcConfig)
    (reconnect : YellowstoneReconnectConfig) (hretries : ∀ m ∈ reconnect.maxRetries, m < u32Max)
    (hinitial : reconnect.initialDelay ≤ durationMax) (hmax : reconnect.maxDelay ≤ durationMax) :
    (∀ n result, ReturnsAt calls config reconnect n result ↔
      EndsWith calls config reconnect n result ∧ Continues calls config reconnect n) ∧
    (reconnect.maxRetries = none → ∀ n err, ReturnsAt calls config reconnect n (.error err) →
      err.isRetryable = false) ∧
    ∃ events : Nat → YellowstoneReconnectEvent, ∀ n, Continues calls config reconnect n →
      (runReconnectLoop calls config reconnect n).actions =
        (List.range n).flatMap (fun i => retryRound calls config (events i) i) ∧
      (∀ result, ReturnsAt calls config reconnect n result →
        (runReconnectLoop calls config reconnect (n + 1)).actions =
          (List.range n).flatMap (fun i => retryRound calls config (events i) i) ++
            [.configureAttempt (attemptConfig calls config n),
              .attempt (attemptConfig calls config n)]) ∧
      ∀ i < n, Reported calls config reconnect events i := by
  have hmax' := normalized_maxDelay_le reconnect hinitial hmax
  refine ⟨returnsAt_iff hretries hmax', ?_, eventAt calls config reconnect, ?_⟩
  · intro hnone n err h
    rcases ((returnsAt_iff hretries hmax' n _).mp h).1 with _ | ⟨-, hfatal⟩ | ⟨-, -, hm, -⟩
    · exact hfatal
    · rw [hnone] at hm
      cases hm
  · intro n hcontinues
    obtain ⟨hstanding, hreported⟩ := standing_of_continues hretries hmax' hcontinues
    refine ⟨?_, fun result h => lastActions_of_returnsAt hretries hmax' h, hreported⟩
    rw [hstanding.run]
    rfl

/-- The calls of the source's test: two failures, and a resume slot that moves in between. -/
def refreshingCalls : LoopCalls where
  configureAttempt n config := { config with fromSlot := if n = 0 then some 10 else some 20 }
  attempt n _ := if n < 2 then .error (.receive .unavailable) else .ok ()
  elapsed _ := 0
  fastrand _ _ := 0
  inner _ := ""

def millisecondReconnect : YellowstoneReconnectConfig :=
  ⟨nanosPerMilli, nanosPerMilli, some 3, none⟩

def liveSlots : YellowstoneGrpcConfig := .slotsOnly "https://provider.example" "mainnet-beta"

theorem reconnect_loop_succeeds_in_third :
    ReturnsAt refreshingCalls liveSlots millisecondReconnect 2 (.ok ()) := by
  have hfailure : ∀ i < 2, outcome refreshingCalls liveSlots i = .error (.receive .unavailable) :=
    fun i hi => if_pos hi
  refine ((reconnect_loop_spec refreshingCalls liveSlots millisecondReconnect (by decide)
    (by decide) (by decide)).1 2 (.ok ())).mpr ⟨.ok rfl, ?_⟩
  rintro i hi result (hok | ⟨herr, hfatal⟩ | ⟨-, -, hm, start, hstart, -⟩)
  · cases hok.symm.trans (hfailure i hi)
  · cases herr.symm.trans (hfailure i hi)
    cases hfatal
  · cases hm
    omega

end YellowstoneStream.Stream

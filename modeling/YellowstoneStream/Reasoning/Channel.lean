import Mathlib.Logic.Relation
import YellowstoneStream.Reasoning.Program

/-!
# A producer task and a consumer joined by a bounded channel

One task sends into a bounded queue; the main task receives, runs a program on each value and a
last one when the channel closes, and then joins the first.  Every interleaving is a sequence of
steps.  `sent`, `received` and `trace` record what happened; no step reads them.
-/

open Relation

namespace YellowstoneStream.Reasoning

/-- The consumer: what it runs first, on each value, and once the channel is closed. -/
structure Worker (Call : Type) (Reply : Call → Type) (ε α σ β : Type) where
  start : Program Call Reply ε σ
  body : σ → α → Program Call Reply ε σ
  finish : σ → Program Call Reply ε β

namespace Worker

variable {Call : Type} {Reply : Call → Type} {ε α σ β : Type}
  (worker : Worker Call Reply ε α σ β)

def consume (values : List α) : Program Call Reply ε σ :=
  values.foldl (fun p a => p.bind fun s => worker.body s a) worker.start

def whole (values : List α) : Program Call Reply ε β :=
  (worker.consume values).bind worker.finish

@[simp] theorem consume_nil : worker.consume [] = worker.start := rfl

@[simp] theorem consume_snoc (values : List α) (a : α) :
    worker.consume (values ++ [a]) = (worker.consume values).bind fun s => worker.body s a := by
  rw [consume, List.foldl_append]
  rfl

end Worker

/-- What the producer task does next: `refused` is a send after the receiver is gone. -/
inductive Move (α : Type) where
  | send (a : α)
  | refused
  | quiet

/-- What a move puts into the channel. -/
def Move.sent {α : Type} : Move α → List α
  | .send a => [a]
  | .refused | .quiet => []

/-- A task that gave up its sender stays without it. -/
structure Producer (π α ρ ω : Type) where
  step : ω → π → Move α → π → Prop
  holdsSender : π → Bool
  result : π → Option ρ
  dropped : ∀ w s m s', step w s m s' → holdsSender s = false →
    holdsSender s' = false ∧ ∀ a, m ≠ .send a

inductive Joined (ρ : Type) where
  | returned (r : ρ)
  | cancelled
  deriving DecidableEq, Repr

inductive Task (π ρ : Type) where
  | running (s : π)
  | ended (j : Joined ρ)

def Task.holdsSender {π α ρ ω : Type} (producer : Producer π α ρ ω) : Task π ρ → Bool
  | .running s => producer.holdsSender s
  | .ended _ => false

inductive Main (Call : Type) (Reply : Call → Type) (ε ρ σ β : Type) where
  | looping (p : Program Call Reply ε σ)
  | closing (p : Program Call Reply ε β)
  | joining (result : Except ε β)
  | panicked
  | done (result : Except ε β) (joined : Joined ρ)

structure System (Call : Type) (Reply : Call → Type) (ε π α ρ σ β ω : Type) where
  world : ω
  task : Task π ρ
  queue : List α
  main : Main Call Reply ε ρ σ β
  sent : List α
  received : List α
  trace : List (Answered Reply)

/-- `act` answers the consumer's calls; it is told the current number of queued values. -/
structure Setup (Call : Type) (Reply : Call → Type) (ε π α ρ σ β ω : Type) where
  worker : Worker Call Reply ε α σ β
  producer : Producer π α ρ ω
  capacity : Nat
  act : Nat → ω → (c : Call) → Reply c → ω → Prop
  abortsOnError : Bool

namespace Setup

variable {Call : Type} {Reply : Call → Type} {ε π α ρ σ β ω : Type}
  (setup : Setup Call Reply ε π α ρ σ β ω)

def init (w : ω) (s : π) : System Call Reply ε π α ρ σ β ω :=
  { world := w, task := .running s, queue := [], main := .looping setup.worker.start,
    sent := [], received := [], trace := [] }

def receiving : Main Call Reply ε ρ σ β → Bool
  | .looping _ | .closing _ => true
  | _ => false

inductive Step : System Call Reply ε π α ρ σ β ω → System Call Reply ε π α ρ σ β ω → Prop
  | send {x s s' a} (htask : x.task = .running s)
      (hstep : setup.producer.step x.world s (.send a) s') (hopen : receiving x.main = true)
      (hroom : x.queue.length < setup.capacity) :
      Step x { x with task := .running s', queue := x.queue ++ [a], sent := x.sent ++ [a] }
  | refused {x s s'} (htask : x.task = .running s)
      (hstep : setup.producer.step x.world s .refused s') (hclosed : receiving x.main = false) :
      Step x { x with task := .running s' }
  | quiet {x s s'} (htask : x.task = .running s)
      (hstep : setup.producer.step x.world s .quiet s') : Step x { x with task := .running s' }
  | returned {x s r} (htask : x.task = .running s) (hresult : setup.producer.result s = some r) :
      Step x { x with task := .ended (.returned r) }
  -- a consumer that failed may abort the task before it joins it
  | cancelled {x s e} (htask : x.task = .running s) (habort : setup.abortsOnError = true)
      (hmain : x.main = .joining (.error e)) : Step x { x with task := .ended .cancelled }
  | receive {x st a rest} (hmain : x.main = .looping (.pure st)) (hqueue : x.queue = a :: rest) :
      Step x { x with
        queue := rest, main := .looping (setup.worker.body st a), received := x.received ++ [a] }
  -- `recv` returns `None`: the queue is empty and no sender is left
  | close {x st} (hmain : x.main = .looping (.pure st)) (hqueue : x.queue = [])
      (hdropped : x.task.holdsSender setup.producer = false) :
      Step x { x with main := .closing (setup.worker.finish st) }
  | callLooping {x c next r w'} (hmain : x.main = .looping (.call c next))
      (hact : setup.act x.queue.length x.world c r w') :
      Step x { x with world := w', main := .looping (next r), trace := x.trace ++ [⟨c, r⟩] }
  | callClosing {x c next r w'} (hmain : x.main = .closing (.call c next))
      (hact : setup.act x.queue.length x.world c r w') :
      Step x { x with world := w', main := .closing (next r), trace := x.trace ++ [⟨c, r⟩] }
  -- a consumer that fails or panics drops the receiver with what is queued
  | failLooping {x e} (hmain : x.main = .looping (.throw e)) :
      Step x { x with queue := [], main := .joining (.error e) }
  | failClosing {x e} (hmain : x.main = .closing (.throw e)) :
      Step x { x with queue := [], main := .joining (.error e) }
  | panicLooping {x} (hmain : x.main = .looping .panic) :
      Step x { x with queue := [], main := .panicked }
  | panicClosing {x} (hmain : x.main = .closing .panic) :
      Step x { x with queue := [], main := .panicked }
  | finish {x b} (hmain : x.main = .closing (.pure b)) :
      Step x { x with main := .joining (.ok b) }
  | join {x result j} (hmain : x.main = .joining result) (htask : x.task = .ended j) :
      Step x { x with main := .done result j }

def Reaches (x y : System Call Reply ε π α ρ σ β ω) : Prop := ReflTransGen setup.Step x y

/-! ## What holds in every reachable state -/

/-- What is left of the consumer's whole program. -/
def residual : Main Call Reply ε ρ σ β → Program Call Reply ε β
  | .looping p => p.bind setup.worker.finish
  | .closing p => p
  | .joining (.ok b) => .pure b
  | .joining (.error e) => .throw e
  | .panicked => .panic
  | .done (.ok b) _ => .pure b
  | .done (.error e) _ => .throw e

/-- The channel closed: everything sent was received. -/
def drained : Main Call Reply ε ρ σ β → Bool
  | .closing _ | .joining (.ok _) | .done (.ok _) _ => true
  | _ => false

/-- Where the values are. -/
structure Flow (x : System Call Reply ε π α ρ σ β ω) : Prop where
  room : x.queue.length ≤ setup.capacity
  order : receiving x.main = true → x.sent = x.received ++ x.queue
  received_of_sent : x.received <+: x.sent
  all_received : drained x.main = true →
    x.received = x.sent ∧ x.task.holdsSender setup.producer = false

/-- What the consumer did: it runs its program on the values received, and nothing else. -/
structure Execution (w : ω) (x : System Call Reply ε π α ρ σ β ω) : Prop where
  loop : ∀ p, x.main = .looping p → Program.Runs (setup.worker.consume x.received) x.trace p
  runs : Program.Runs (setup.worker.whole x.received) x.trace (setup.residual x.main)
  world : Program.Performs (fun w c r w' => ∃ n ≤ setup.capacity, setup.act n w c r w') w x.trace
    x.world

/-- How the two tasks ended. -/
structure Ending (x : System Call Reply ε π α ρ σ β ω) : Prop where
  cancelled : x.task = .ended .cancelled → setup.abortsOnError = true ∧
    ∃ e, x.main = .joining (.error e) ∨ x.main = .done (.error e) .cancelled
  joined : ∀ result j, x.main = .done result j → x.task = .ended j

variable {setup}

/-- The world changes only in a call of the consumer, which the trace records. -/
theorem Step.world_cases {x y : System Call Reply ε π α ρ σ β ω} (h : setup.Step x y) :
    (y.world = x.world ∧ y.trace = x.trace) ∨
      ∃ c next r, setup.residual x.main = .call c next ∧
        setup.act x.queue.length x.world c r y.world ∧ y.trace = x.trace ++ [⟨c, r⟩] := by
  cases h with
  | callLooping hmain hact =>
      rw [hmain]
      exact .inr ⟨_, _, _, rfl, hact, rfl⟩
  | callClosing hmain hact =>
      rw [hmain]
      exact .inr ⟨_, _, _, rfl, hact, rfl⟩
  | _ => exact .inl ⟨rfl, rfl⟩

/-- A step is a move of the running task, or an answered call, or neither; then at most the task
ends. -/
theorem Step.task_cases {x y : System Call Reply ε π α ρ σ β ω} (h : setup.Step x y) :
    (∃ s m s', x.task = .running s ∧ setup.producer.step x.world s m s' ∧ y.task = .running s' ∧
      y.trace = x.trace ∧ y.sent = x.sent ++ m.sent) ∨
    (∃ a, y.trace = x.trace ++ [a] ∧ y.task = x.task ∧ y.sent = x.sent) ∨
    (y.trace = x.trace ∧ y.sent = x.sent ∧ (y.task = x.task ∨ y.task = .ended .cancelled ∨
      ∃ s r, x.task = .running s ∧ setup.producer.result s = some r ∧
        y.task = .ended (.returned r))) := by
  cases h with
  | send htask hstep => exact .inl ⟨_, _, _, htask, hstep, rfl, rfl, rfl⟩
  | refused htask hstep | quiet htask hstep =>
      exact .inl ⟨_, _, _, htask, hstep, rfl, rfl, (List.append_nil _).symm⟩
  | callLooping | callClosing => exact .inr (.inl ⟨_, rfl, rfl, rfl⟩)
  | returned htask hresult =>
      exact .inr (.inr ⟨rfl, rfl, .inr (.inr ⟨_, _, htask, hresult, rfl⟩)⟩)
  | cancelled => exact .inr (.inr ⟨rfl, rfl, .inr (.inl rfl)⟩)
  | _ => exact .inr (.inr ⟨rfl, rfl, .inl rfl⟩)

/-- A task that still runs when the channel is drained makes no send and takes no sender back. -/
theorem Flow.dropped {x : System Call Reply ε π α ρ σ β ω} (h : setup.Flow x)
    (hdrained : drained x.main = true) {w : ω} {s s' : π} {m : Move α}
    (htask : x.task = .running s) (hstep : setup.producer.step w s m s') :
    setup.producer.holdsSender s' = false ∧ ∀ a, m ≠ .send a := by
  have hdropped := (h.all_received hdrained).2
  rw [htask] at hdropped
  exact setup.producer.dropped _ _ _ _ hstep hdropped

theorem flow_step {x y : System Call Reply ε π α ρ σ β ω} (h : setup.Flow x)
    (hstep : setup.Step x y) : setup.Flow y := by
  have ⟨hroom, horder, hsent, hall⟩ := h
  cases hstep with
  | send htask hstep hopen hfree =>
      constructor
      · rw [List.length_append]
        exact hfree
      · intro _
        rw [horder hopen, List.append_assoc]
      · exact hsent.trans (List.prefix_append _ _)
      · -- a drained channel has no sender left that could have sent
        intro hdrained
        exact absurd rfl ((h.dropped hdrained htask hstep).2 _)
  | refused htask hstep | quiet htask hstep =>
      exact ⟨hroom, horder, hsent, fun hdrained =>
        ⟨(hall hdrained).1, (h.dropped hdrained htask hstep).1⟩⟩
  | returned htask hresult =>
      exact ⟨hroom, horder, hsent, fun hdrained => ⟨(hall hdrained).1, rfl⟩⟩
  | cancelled htask habort hmain =>
      exact ⟨hroom, horder, hsent, fun hdrained => ⟨(hall hdrained).1, rfl⟩⟩
  | receive hmain hqueue =>
      -- the oldest item moves from the queue to what has been received
      rw [hmain, hqueue] at horder
      rw [hqueue] at hroom
      have hsplit := horder rfl
      refine ⟨Nat.le_of_succ_le hroom, fun _ => ?_, ?_, fun hdrained => (nomatch hdrained)⟩
      · rw [hsplit]
        simp
      · rw [hsplit]
        exact ⟨_, List.append_assoc _ _ _⟩
  | close hmain hqueue hdropped =>
      -- the queue is empty and its sender gone, so all that was sent has been received
      rw [hmain, hqueue] at horder
      have hsplit := horder rfl
      rw [List.append_nil] at hsplit
      exact ⟨hroom, fun _ => by rw [hqueue, List.append_nil, hsplit], hsent,
        fun _ => ⟨hsplit.symm, hdropped⟩⟩
  | callLooping hmain hact =>
      rw [hmain] at horder hall
      exact ⟨hroom, horder, hsent, fun hdrained => (nomatch hdrained)⟩
  | callClosing hmain hact =>
      rw [hmain] at horder hall
      exact ⟨hroom, horder, hsent, hall⟩
  | failLooping hmain | failClosing hmain | panicLooping hmain | panicClosing hmain =>
      exact ⟨Nat.zero_le _, fun hopen => (nomatch hopen), hsent, fun hdrained => (nomatch hdrained)⟩
  | finish hmain =>
      rw [hmain] at hall
      exact ⟨hroom, fun hopen => (nomatch hopen), hsent, hall⟩
  | @join result j hmain htask =>
      refine ⟨hroom, fun hopen => (nomatch hopen), hsent, fun hdrained => ?_⟩
      rw [hmain] at hall
      cases result with
      | ok b => exact hall rfl
      | error e => cases hdrained

theorem execution_step {w : ω} {x y : System Call Reply ε π α ρ σ β ω}
    (hflow : setup.Flow x) (h : setup.Execution w x) (hstep : setup.Step x y) :
    setup.Execution w y := by
  obtain ⟨hloop, hruns, hworld⟩ := h
  cases hstep with
  | send | refused | quiet | returned | cancelled => exact ⟨hloop, hruns, hworld⟩
  | @receive st a rest hmain hqueue =>
      -- one more value extends the program that is run, not the trace
      have hbody := (hloop _ hmain).bind fun s => setup.worker.body s a
      rw [← Worker.consume_snoc] at hbody
      refine ⟨fun p hp => ?_, hbody.bind setup.worker.finish, hworld⟩
      cases hp
      exact hbody
  | close hmain hqueue hdropped =>
      rw [hmain] at hruns
      exact ⟨fun p hp => (nomatch hp), hruns, hworld⟩
  | @callLooping c next r w' hmain hact =>
      have hnext := (hloop _ hmain).snoc r
      refine ⟨fun p hp => ?_, hnext.bind setup.worker.finish,
        hworld.snoc ⟨_, hflow.room, hact⟩⟩
      cases hp
      exact hnext
  | callClosing hmain hact =>
      rw [hmain] at hruns
      exact ⟨fun p hp => (nomatch hp), hruns.snoc _, hworld.snoc ⟨_, hflow.room, hact⟩⟩
  | failLooping hmain | failClosing hmain | panicLooping hmain | panicClosing hmain
  | finish hmain =>
      rw [hmain] at hruns
      exact ⟨fun p hp => (nomatch hp), hruns, hworld⟩
  | @join result j hmain htask =>
      rw [hmain] at hruns
      refine ⟨fun p hp => (nomatch hp), ?_, hworld⟩
      cases result <;> exact hruns

theorem ending_step {x y : System Call Reply ε π α ρ σ β ω} (h : setup.Ending x)
    (hstep : setup.Step x y) : setup.Ending y := by
  obtain ⟨hcancelled, hjoined⟩ := h
  cases hstep with
  | send htask | refused htask | quiet htask | returned htask =>
      exact ⟨fun h => (nomatch h), fun result j hdone => by
        rw [hjoined result j hdone] at htask
        cases htask⟩
  | cancelled htask habort hmain =>
      refine ⟨fun _ => ⟨habort, _, .inl hmain⟩, fun result j hdone => ?_⟩
      rw [hmain] at hdone
      cases hdone
  | receive hmain | close hmain | callLooping hmain | callClosing hmain | failLooping hmain
  | failClosing hmain | panicLooping hmain | panicClosing hmain | finish hmain =>
      refine ⟨fun h => ?_, fun result j hdone => (nomatch hdone)⟩
      obtain ⟨-, e, he | he⟩ := hcancelled h
      · rw [hmain] at he
        cases he
      · rw [hmain] at he
        cases he
  | @join result j hmain htask =>
      -- only a failed consumer joins a task it has cancelled
      refine ⟨fun h => ?_, fun result' j' hdone => by cases hdone; exact htask⟩
      obtain ⟨habort, e, he | he⟩ := hcancelled h
      · rw [hmain] at he
        cases he
        rw [htask] at h
        cases h
        exact ⟨habort, e, .inr rfl⟩
      · rw [hmain] at he
        cases he

structure Inv (setup : Setup Call Reply ε π α ρ σ β ω) (w : ω)
    (x : System Call Reply ε π α ρ σ β ω) : Prop where
  flow : setup.Flow x
  execution : setup.Execution w x
  ending : setup.Ending x

theorem inv_init (w : ω) (s : π) : setup.Inv w (setup.init w s) where
  flow := ⟨Nat.zero_le _, fun _ => rfl, List.prefix_rfl, fun h => (nomatch h)⟩
  execution := by
    refine ⟨fun p hp => ?_, .refl _, .nil _⟩
    cases hp
    exact .refl _
  ending := ⟨fun h => (nomatch h), fun _ _ h => (nomatch h)⟩

theorem inv_reaches {w : ω} {s : π} {x : System Call Reply ε π α ρ σ β ω}
    (h : setup.Reaches (setup.init w s) x) : setup.Inv w x := by
  induction h with
  | refl => exact inv_init w s
  | tail _ hstep ih =>
      exact ⟨flow_step ih.flow hstep, execution_step ih.flow ih.execution hstep,
        ending_step ih.ending hstep⟩

/-- What can happen when the calls are answered in fewer ways can happen. -/
theorem Step.mono {act : Nat → ω → (c : Call) → Reply c → ω → Prop}
    (hact : ∀ n w c r w', setup.act n w c r w' → act n w c r w')
    {x y : System Call Reply ε π α ρ σ β ω} (h : setup.Step x y) :
    ({ setup with act := act } : Setup Call Reply ε π α ρ σ β ω).Step x y := by
  cases h with
  | send htask hstep hopen hroom => exact .send htask hstep hopen hroom
  | refused htask hstep hclosed => exact .refused htask hstep hclosed
  | quiet htask hstep => exact .quiet htask hstep
  | returned htask hresult => exact .returned htask hresult
  | cancelled htask habort hmain => exact .cancelled htask habort hmain
  | receive hmain hqueue => exact .receive hmain hqueue
  | close hmain hqueue hdropped => exact .close hmain hqueue hdropped
  | callLooping hmain hanswer => exact .callLooping hmain (hact _ _ _ _ _ hanswer)
  | callClosing hmain hanswer => exact .callClosing hmain (hact _ _ _ _ _ hanswer)
  | failLooping hmain => exact .failLooping hmain
  | failClosing hmain => exact .failClosing hmain
  | panicLooping hmain => exact .panicLooping hmain
  | panicClosing hmain => exact .panicClosing hmain
  | finish hmain => exact .finish hmain
  | join hmain htask => exact .join hmain htask

theorem Reaches.mono {act : Nat → ω → (c : Call) → Reply c → ω → Prop}
    (hact : ∀ n w c r w', setup.act n w c r w' → act n w c r w')
    {x y : System Call Reply ε π α ρ σ β ω} (h : setup.Reaches x y) :
    ({ setup with act := act } : Setup Call Reply ε π α ρ σ β ω).Reaches x y := by
  induction h with
  | refl => exact .refl
  | tail _ hstep ih => exact .tail ih (hstep.mono hact)

/-- How far a consumer that still receives has come: at its start, in the body for the value it
received last, or behind the loop. -/
inductive Position (setup : Setup Call Reply ε π α ρ σ β ω) (x : System Call Reply ε π α ρ σ β ω) :
    Prop
  | starting (hreceived : x.received = [])
  | handling {p : Program Call Reply ε σ} {earlier : List α} {a : α} {s : σ}
      {tr tr' : List (Answered Reply)} (hmain : x.main = .looping p)
      (hreceived : x.received = earlier ++ [a]) (htrace : x.trace = tr ++ tr')
      (hearlier : Program.Runs (setup.worker.consume earlier) tr (.pure s))
      (hbody : Program.Runs (setup.worker.body s a) tr' p)
  | ending {p : Program Call Reply ε β} {s : σ} {tr tr' : List (Answered Reply)}
      (hmain : x.main = .closing p) (htrace : x.trace = tr ++ tr')
      (hloop : Program.Runs (setup.worker.consume x.received) tr (.pure s))
      (hfinish : Program.Runs (setup.worker.finish s) tr' p)

theorem position_step {w : ω} {x y : System Call Reply ε π α ρ σ β ω}
    (hexecution : setup.Execution w x) (h : receiving x.main = true → setup.Position x)
    (hstep : setup.Step x y) : receiving y.main = true → setup.Position y := by
  intro hopen
  cases hstep with
  | send | refused | quiet | returned =>
      cases h hopen with
      | starting hreceived => exact .starting hreceived
      | handling hmain hreceived htrace hearlier hbody =>
          exact .handling hmain hreceived htrace hearlier hbody
      | ending hmain htrace hloop hfinish => exact .ending hmain htrace hloop hfinish
  | cancelled _ _ hmain =>
      have hopen : receiving x.main = true := hopen
      rw [hmain] at hopen
      cases hopen
  | receive hmain =>
      exact .handling rfl rfl (List.append_nil _).symm (hexecution.loop _ hmain) (.refl _)
  | close hmain =>
      exact .ending rfl (List.append_nil _).symm (hexecution.loop _ hmain) (.refl _)
  | callLooping hmain =>
      cases h (by rw [hmain]; rfl) with
      | starting hreceived => exact .starting hreceived
      | handling hmain' hreceived htrace hearlier hbody =>
          cases hmain.symm.trans hmain'
          refine .handling rfl hreceived ?_ hearlier (hbody.snoc _)
          rw [htrace, List.append_assoc]
      | ending hmain' => cases hmain.symm.trans hmain'
  | callClosing hmain =>
      cases h (by rw [hmain]; rfl) with
      | starting hreceived => exact .starting hreceived
      | handling hmain' => cases hmain.symm.trans hmain'
      | ending hmain' htrace hloop hfinish =>
          cases hmain.symm.trans hmain'
          refine .ending rfl ?_ hloop (hfinish.snoc _)
          rw [htrace, List.append_assoc]
  | failLooping | failClosing | panicLooping | panicClosing | finish | join => cases hopen

theorem position_of_reaches {w : ω} {s : π} {x : System Call Reply ε π α ρ σ β ω}
    (h : setup.Reaches (setup.init w s) x) : receiving x.main = true → setup.Position x := by
  induction h with
  | refl => exact fun _ => .starting rfl
  | tail hreach hstep ih => exact position_step (inv_reaches hreach).execution ih hstep

/-- The consumer works its way through a program while nothing else happens. -/
theorem reaches_of_runs {x : System Call Reply ε π α ρ σ β ω} {p q : Program Call Reply ε σ}
    (tr : List (Answered Reply)) {w : ω} (hmain : x.main = .looping p)
    (hruns : Program.Runs p tr q)
    (hworld : Program.Performs (setup.act x.queue.length) x.world tr w) :
    setup.Reaches x { x with world := w, main := .looping q, trace := x.trace ++ tr } := by
  induction hruns generalizing x with
  | refl p =>
      cases hworld
      rw [List.append_nil, ← hmain]
      exact .refl
  | @step c next r tr q hruns ih =>
      cases hworld with
      | @cons _ w' _ _ _ _ hact hrest =>
          have hcall := Step.callLooping hmain hact
          have hnext := ih (x := { x with
            world := w', main := .looping (next r), trace := x.trace ++ [⟨c, r⟩] }) rfl hrest
          rw [List.append_assoc] at hnext
          exact .head hcall hnext

/-! ## No state is stuck -/

/-- Every call is answered sooner or later. -/
def Answers (setup : Setup Call Reply ε π α ρ σ β ω) : Prop :=
  ∀ n w c, ∃ r w', setup.act n w c r w'

/-- A task that has no result can move, and one that sends can also learn that nobody receives. -/
def Lively (producer : Producer π α ρ ω) : Prop :=
  ∀ w s, (∃ r, producer.result s = some r) ∨ (∃ s', producer.step w s .quiet s') ∨
    ((∃ a s', producer.step w s (.send a) s') ∧ ∃ s', producer.step w s .refused s')

theorem exists_step (hanswers : setup.Answers) (hlively : Lively setup.producer)
    (hcapacity : 0 < setup.capacity) (x : System Call Reply ε π α ρ σ β ω) :
    (∃ result j, x.main = .done result j) ∨ x.main = .panicked ∨ ∃ y, setup.Step x y := by
  cases hmain : x.main with
  | done result j => exact .inl ⟨result, j, rfl⟩
  | panicked => exact .inr (.inl rfl)
  | joining result =>
      refine .inr (.inr ?_)
      cases htask : x.task with
      | ended j => exact ⟨_, .join hmain htask⟩
      | running s =>
          rcases hlively x.world s with ⟨r, hr⟩ | ⟨s', hquiet⟩ | ⟨-, s', hrefused⟩
          · exact ⟨_, .returned htask hr⟩
          · exact ⟨_, .quiet htask hquiet⟩
          · exact ⟨_, .refused htask hrefused (by rw [hmain]; rfl)⟩
  | closing p =>
      refine .inr (.inr ?_)
      cases p with
      | pure b => exact ⟨_, .finish hmain⟩
      | throw e => exact ⟨_, .failClosing hmain⟩
      | panic => exact ⟨_, .panicClosing hmain⟩
      | call c next =>
          obtain ⟨r, w', hact⟩ := hanswers x.queue.length x.world c
          exact ⟨_, .callClosing hmain hact⟩
  | looping p =>
      refine .inr (.inr ?_)
      cases p with
      | throw e => exact ⟨_, .failLooping hmain⟩
      | panic => exact ⟨_, .panicLooping hmain⟩
      | call c next =>
          obtain ⟨r, w', hact⟩ := hanswers x.queue.length x.world c
          exact ⟨_, .callLooping hmain hact⟩
      | pure st =>
          cases hqueue : x.queue with
          | cons a rest => exact ⟨_, .receive hmain hqueue⟩
          | nil =>
              -- the queue has room, so a producer that sends is not blocked
              cases htask : x.task with
              | ended j => exact ⟨_, .close hmain hqueue (by rw [htask]; rfl)⟩
              | running s =>
                  rcases hlively x.world s with ⟨r, hr⟩ | ⟨s', hquiet⟩ | ⟨⟨a, s', hsend⟩, -⟩
                  · exact ⟨_, .returned htask hr⟩
                  · exact ⟨_, .quiet htask hquiet⟩
                  · have hopen : receiving x.main = true := by rw [hmain]; rfl
                    exact ⟨_, .send htask hsend hopen (by rw [hqueue]; exact hcapacity)⟩

/-! ## Every run ends -/

/-- A bound on the moves a task has left. -/
structure Bounded (producer : Producer π α ρ ω) (rank : π → Nat) : Prop where
  send : ∀ w s a s', producer.step w s (.send a) s' → rank s' + 1 < rank s
  refused : ∀ w s s', producer.step w s .refused s' → rank s' < rank s
  quiet : ∀ w s s', producer.step w s .quiet s' → rank s' < rank s
  positive : ∀ s, 0 < rank s

def taskRank (rank : π → Nat) : Task π ρ → Nat
  | .running s => rank s
  | .ended _ => 0

def mainRank : Main Call Reply ε ρ σ β → Nat
  | .looping _ => 3
  | .closing _ => 2
  | .joining _ => 1
  | .panicked => 0
  | .done .. => 0

def rankOf (rank : π → Nat) (x : System Call Reply ε π α ρ σ β ω) : Nat :=
  taskRank rank x.task + x.queue.length + mainRank x.main

/-- The consumer answered one call and did nothing else. -/
def Descends (x y : System Call Reply ε π α ρ σ β ω) : Prop :=
  (∃ c next r, x.main = .looping (.call c next) ∧ y.main = .looping (next r)) ∨
  ∃ c next r, x.main = .closing (.call c next) ∧ y.main = .closing (next r)

theorem rankOf_step {rank : π → Nat} (hbound : Bounded setup.producer rank)
    {x y : System Call Reply ε π α ρ σ β ω} (hstep : setup.Step x y) :
    rankOf rank y < rankOf rank x ∨ (rankOf rank y = rankOf rank x ∧ Descends x y) := by
  cases hstep with
  | send htask hstep =>
      have h := hbound.send _ _ _ _ hstep
      left
      simp only [rankOf, htask, taskRank, List.length_append, List.length_singleton]
      omega
  | refused htask hstep =>
      have h := hbound.refused _ _ _ hstep
      left
      simp only [rankOf, htask, taskRank]
      omega
  | quiet htask hstep =>
      have h := hbound.quiet _ _ _ hstep
      left
      simp only [rankOf, htask, taskRank]
      omega
  | @returned s r htask | @cancelled s e htask =>
      have h := hbound.positive s
      left
      simp only [rankOf, htask, taskRank]
      omega
  | receive hmain hqueue =>
      left
      simp only [rankOf, hmain, hqueue, mainRank, List.length_cons]
      omega
  | callLooping hmain =>
      refine .inr ⟨?_, .inl ⟨_, _, _, hmain, rfl⟩⟩
      simp only [rankOf, hmain, mainRank]
  | callClosing hmain =>
      -- a call leaves the rank as it is; the program it belongs to gets shorter
      refine .inr ⟨?_, .inr ⟨_, _, _, hmain, rfl⟩⟩
      simp only [rankOf, hmain, mainRank]
  | close hmain | failLooping hmain | failClosing hmain | panicLooping hmain | panicClosing hmain
  | finish hmain | join hmain =>
      left
      simp only [rankOf, hmain, mainRank, List.length_nil]
      omega

section Descent

variable {rank : π → Nat} (hbound : Bounded setup.producer rank) {n : Nat}
  (hlower : ∀ y, rankOf rank y < n → Acc (fun y x => setup.Step x y) y)
include hbound hlower

theorem acc_of_descends {x : System Call Reply ε π α ρ σ β ω} (hx : rankOf rank x = n)
    (h : ∀ y, rankOf rank y = n → Descends x y → Acc (fun y x => setup.Step x y) y) :
    Acc (fun y x => setup.Step x y) x := by
  refine ⟨x, fun y hstep => ?_⟩
  rcases rankOf_step hbound hstep with hlt | ⟨heq, hdescends⟩
  · exact hlower y (hx ▸ hlt)
  · exact h y (heq.trans hx) hdescends

theorem acc_looping (p : Program Call Reply ε σ) :
    ∀ x : System Call Reply ε π α ρ σ β ω, rankOf rank x = n → x.main = .looping p →
      Acc (fun y x => setup.Step x y) x := by
  induction p with
  | call c next ih =>
      intro x hx hmain
      refine acc_of_descends hbound hlower hx fun y hy hdescends => ?_
      rcases hdescends with ⟨_, _, r, hp, hnext⟩ | ⟨_, _, _, hp, -⟩ <;>
        rw [hmain] at hp <;> cases hp
      exact ih r y hy hnext
  | _ =>
      intro x hx hmain
      refine acc_of_descends hbound hlower hx fun y hy hdescends => ?_
      rcases hdescends with ⟨_, _, _, hp, -⟩ | ⟨_, _, _, hp, -⟩ <;> rw [hmain] at hp <;> cases hp

theorem acc_closing (p : Program Call Reply ε β) :
    ∀ x : System Call Reply ε π α ρ σ β ω, rankOf rank x = n → x.main = .closing p →
      Acc (fun y x => setup.Step x y) x := by
  induction p with
  | call c next ih =>
      intro x hx hmain
      refine acc_of_descends hbound hlower hx fun y hy hdescends => ?_
      rcases hdescends with ⟨_, _, _, hp, -⟩ | ⟨_, _, r, hp, hnext⟩ <;>
        rw [hmain] at hp <;> cases hp
      exact ih r y hy hnext
  | _ =>
      intro x hx hmain
      refine acc_of_descends hbound hlower hx fun y hy hdescends => ?_
      rcases hdescends with ⟨_, _, _, hp, -⟩ | ⟨_, _, _, hp, -⟩ <;> rw [hmain] at hp <;> cases hp

end Descent

/-- No run goes on forever: between two steps that lower the rank the consumer only works its way
down one program. -/
theorem acc_step {rank : π → Nat} (hbound : Bounded setup.producer rank)
    (x : System Call Reply ε π α ρ σ β ω) : Acc (fun y x => setup.Step x y) x := by
  -- outer induction on the rank, inner one on the program that is running
  induction hn : rankOf rank x using Nat.strongRecOn generalizing x with
  | ind n ih =>
      have hlower : ∀ y, rankOf rank y < n → Acc (fun y x => setup.Step x y) y :=
        fun y hy => ih _ hy y rfl
      refine acc_of_descends hbound hlower hn fun y hy hdescends => ?_
      rcases hdescends with ⟨_, _, _, -, hp⟩ | ⟨_, _, _, -, hp⟩
      · exact acc_looping hbound hlower _ y hy hp
      · exact acc_closing hbound hlower _ y hy hp

/-- Where nothing panics, every run can be carried on to its end. -/
theorem exists_done {rank : π → Nat} (hbound : Bounded setup.producer rank)
    (hanswers : setup.Answers) (hlively : Lively setup.producer) (hcapacity : 0 < setup.capacity)
    {x : System Call Reply ε π α ρ σ β ω}
    (hcalm : ∀ y, setup.Reaches x y → y.main ≠ .panicked) :
    ∃ y result j, setup.Reaches x y ∧ y.main = .done result j := by
  induction acc_step hbound x with
  | intro x _ ih =>
      rcases exists_step hanswers hlively hcapacity x with ⟨result, j, hdone⟩ | hpanic | ⟨y, hstep⟩
      · exact ⟨x, result, j, .refl, hdone⟩
      · exact absurd hpanic (hcalm x .refl)
      · obtain ⟨z, result, j, hreach, hdone⟩ := ih y hstep fun z hz => hcalm z (.head hstep hz)
        exact ⟨z, result, j, .head hstep hreach, hdone⟩

/-- On its way a run stood at every prefix of its trace. -/
theorem exists_reaches_at {x y : System Call Reply ε π α ρ σ β ω} (h : setup.Reaches x y)
    (hx : x.trace = []) {tr : List (Answered Reply)} (hfront : tr <+: y.trace) :
    ∃ z, setup.Reaches x z ∧ z.trace = tr := by
  induction h with
  | refl =>
      rw [hx, List.prefix_nil] at hfront
      exact ⟨x, .refl, hx.trans hfront.symm⟩
  | @tail y z hreach hstep ih =>
      -- a step adds one answered call to the trace or none
      have hgrows : z.trace = y.trace ∨ ∃ a, z.trace = y.trace ++ [a] := by
        cases hstep <;> first | exact .inl rfl | exact .inr ⟨_, rfl⟩
      rcases hgrows with hsame | ⟨a, hsnoc⟩
      · exact ih (hsame ▸ hfront)
      · rw [hsnoc, List.prefix_concat_iff] at hfront
        rcases hfront with hwhole | hbefore
        · exact ⟨z, hreach.tail hstep, hsnoc.trans hwhole.symm⟩
        · exact ih hbefore

end Setup

end YellowstoneStream.Reasoning

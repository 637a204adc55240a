import Mathlib.Data.List.Induction
import YellowstoneStream.Reasoning.Channel

/-!
# Triples for programs that issue calls

A triple says of a program in a world which calls it may make where, and what holds of its result.
Errors and panics are free to happen.
-/

namespace YellowstoneStream.Reasoning

namespace Program

variable {Call : Type} {Reply : Call → Type} {ε α β ω : Type}

section Triple

variable (act : ω → (c : Call) → Reply c → ω → Prop) (allowed : ω → Call → Prop)

/-- From the world on, every call is allowed where it is made, and `post` holds of the result. -/
def Triple (post : ω → α → Prop) : Program Call Reply ε α → ω → Prop
  | .pure a, w => post w a
  | .throw _, _ => True
  | .panic, _ => True
  | .call c next, w => allowed w c ∧ ∀ r w', act w c r w' → Triple post (next r) w'

end Triple

section Rules

variable {act : ω → (c : Call) → Reply c → ω → Prop} {allowed : ω → Call → Prop}
  {post post' : ω → α → Prop} {w w' : ω}

theorem triple_request {c : Call} {f : Reply c → Program Call Reply ε α} (hc : allowed w c)
    (h : ∀ r w', act w c r w' → Triple act allowed post (f r) w') :
    Triple act allowed post ((request c).bind f) w :=
  ⟨hc, h⟩

theorem Triple.mono {p : Program Call Reply ε α} (h : Triple act allowed post p w)
    (himp : ∀ w a, post w a → post' w a) : Triple act allowed post' p w := by
  induction p generalizing w with
  | pure a => exact himp w a h
  | throw e => exact trivial
  | panic => exact trivial
  | call c next ih => exact ⟨h.1, fun r w' hact => ih r (h.2 r w' hact)⟩

theorem Triple.bind {p : Program Call Reply ε α} {f : α → Program Call Reply ε β}
    {postf : ω → β → Prop} (h : Triple act allowed post p w)
    (hf : ∀ w a, post w a → Triple act allowed postf (f a) w) :
    Triple act allowed postf (p.bind f) w := by
  induction p generalizing w with
  | pure a => exact hf w a h
  | throw e => exact trivial
  | panic => exact trivial
  | call c next ih => exact ⟨h.1, fun r w' hact => ih r (h.2 r w' hact)⟩

theorem triple_orThrow {e : Type} {wrap : e → ε} {result : Except e α}
    {f : α → Program Call Reply ε β} {postf : ω → β → Prop}
    (h : ∀ a, result = .ok a → Triple act allowed postf (f a) w) :
    Triple act allowed postf ((orThrow wrap result).bind f) w := by
  cases result with
  | ok a => exact h a rfl
  | error err => exact trivial

/-- A program that makes certain calls only keeps what each of them keeps. -/
theorem Triple.frame {quiet : Call → Prop} {inv : ω → Prop} {p : Program Call Reply ε α}
    (hkeep : ∀ w c r w', inv w → quiet c → act w c r w' → inv w')
    (hallowed : ∀ w c, quiet c → allowed w c)
    (hp : Triple (fun (_ : Unit) _ _ _ => True) (fun _ c => quiet c) (fun _ _ => True) p ())
    (h : inv w) : Triple act allowed (fun w _ => inv w) p w := by
  induction p generalizing w with
  | pure a => exact h
  | throw e => exact trivial
  | panic => exact trivial
  | call c next ih =>
      refine ⟨hallowed w c hp.1, fun r w' hact => ?_⟩
      exact ih r (hp.2 r () trivial) (hkeep w c r w' h hp.1 hact)

/-- What is left of a program satisfies the triple in the world it has come to. -/
theorem Triple.runs {p q : Program Call Reply ε α} {tr : List (Answered Reply)}
    (h : Triple act allowed post p w) (hr : Runs p tr q) (hw : Performs act w tr w') :
    Triple act allowed post q w' := by
  induction hr generalizing w with
  | refl p =>
      cases hw
      exact h
  | step hr ih =>
      cases hw with
      | cons hact hrest => exact ih (h.2 _ _ hact) hrest

end Rules

/-- A call in a trace was what its program came to. -/
theorem runs_append_cons {p q : Program Call Reply ε α} {before after : List (Answered Reply)}
    {c : Call} {r : Reply c} (h : Runs p (before ++ ⟨c, r⟩ :: after) q) :
    ∃ next, Runs p before (.call c next) ∧ Runs (next r) after q := by
  induction before generalizing p with
  | nil =>
      cases h with
      | step h => exact ⟨_, .refl _, h⟩
  | cons a before ih =>
      cases h with
      | step h =>
          obtain ⟨next, hbefore, hafter⟩ := ih h
          exact ⟨next, .step hbefore, hafter⟩

/-- Every call of a run was allowed where it was made. -/
theorem Triple.allowed_of_runs {act : ω → (c : Call) → Reply c → ω → Prop}
    {allowed : ω → Call → Prop} {post : ω → α → Prop} {w w' : ω} {p q : Program Call Reply ε α}
    {before after : List (Answered Reply)} {c : Call} {r : Reply c}
    (h : Triple act allowed post p w) (hr : Runs p (before ++ ⟨c, r⟩ :: after) q)
    (hw : Performs act w before w') : allowed w' c := by
  obtain ⟨next, hbefore, -⟩ := runs_append_cons hr
  exact (h.runs hbefore hw).1

/-- What the allowed calls keep true of the world is true after the run. -/
theorem Triple.world_of_runs {act : ω → (c : Call) → Reply c → ω → Prop}
    {allowed : ω → Call → Prop} {post : ω → α → Prop} {inv : ω → Prop} {w w' : ω}
    {p q : Program Call Reply ε α} {tr : List (Answered Reply)}
    (hstep : ∀ w c r w', inv w → allowed w c → act w c r w' → inv w')
    (h : Triple act allowed post p w) (hr : Runs p tr q) (hw : Performs act w tr w')
    (hinv : inv w) : inv w' := by
  induction hr generalizing w with
  | refl p =>
      cases hw
      exact hinv
  | step hr ih =>
      cases hw with
      | cons hact hrest => exact ih (h.2 _ _ hact) hrest (hstep _ _ _ _ hinv h.1 hact)

/-- A world that only notes down something about the calls. -/
def Logs (note : Call → List β) (w : List β) (c : Call) (_ : Reply c) (w' : List β) : Prop :=
  w' = w ++ note c

theorem performs_logs (note : Call → List β) (w : List β) (tr : List (Answered Reply)) :
    Performs (Logs note) w tr (w ++ (calls tr).flatMap note) := by
  induction tr generalizing w with
  | nil =>
      rw [calls, List.map_nil, List.flatMap_nil, List.append_nil]
      exact .nil w
  | cons a tr ih =>
      have hrest := ih (w ++ note a.1)
      rw [List.append_assoc] at hrest
      exact .cons rfl hrest

/-- A world that is the trace itself, when all replies are such. -/
def Records (replies : (c : Call) → Reply c → Prop) (w : List (Answered Reply)) (c : Call)
    (r : Reply c) (w' : List (Answered Reply)) : Prop :=
  w' = w ++ [⟨c, r⟩] ∧ replies c r

theorem performs_records {replies : (c : Call) → Reply c → Prop} {tr : List (Answered Reply)}
    (h : ∀ a ∈ tr, replies a.1 a.2) (w : List (Answered Reply)) :
    Performs (Records replies) w tr (w ++ tr) := by
  induction tr generalizing w with
  | nil =>
      rw [List.append_nil]
      exact .nil w
  | cons a tr ih =>
      have hrest := ih (fun a ha => h a (List.mem_cons_of_mem _ ha)) (w ++ [a])
      rw [List.append_assoc] at hrest
      exact .cons ⟨rfl, h a List.mem_cons_self⟩ hrest

/-- What a triple over the trace says of a run that came to its end. -/
theorem Triple.post_of_records {replies : (c : Call) → Reply c → Prop}
    {allowed : List (Answered Reply) → Call → Prop} {post : List (Answered Reply) → α → Prop}
    {p : Program Call Reply ε α} {tr : List (Answered Reply)} {a : α}
    (h : Triple (Records replies) allowed post p []) (hr : Runs p tr (.pure a))
    (hreplies : ∀ a ∈ tr, replies a.1 a.2) : post tr a :=
  h.runs hr (performs_records hreplies [])

/-- Two worlds side by side. -/
def Both {ω' : Type} (act : ω → (c : Call) → Reply c → ω → Prop)
    (act' : ω' → (c : Call) → Reply c → ω' → Prop) (w : ω × ω') (c : Call) (r : Reply c)
    (v : ω × ω') : Prop :=
  act w.1 c r v.1 ∧ act' w.2 c r v.2

theorem Performs.both {ω' : Type} {act : ω → (c : Call) → Reply c → ω → Prop}
    {act' : ω' → (c : Call) → Reply c → ω' → Prop} {w v : ω} {w' v' : ω'}
    {tr : List (Answered Reply)} (h : Performs act w tr v) (h' : Performs act' w' tr v') :
    Performs (Both act act') (w, w') tr (v, v') := by
  induction h generalizing w' with
  | nil =>
      cases h'
      exact .nil _
  | cons hact _ ih =>
      cases h' with
      | cons hact' hrest' => exact .cons ⟨hact, hact'⟩ (ih hrest')

section Stateless

variable {replies : (c : Call) → Reply c → Prop} {tr : List (Answered Reply)}

theorem performs_of_replies (h : ∀ a ∈ tr, replies a.1 a.2) :
    Performs (fun (_ : Unit) c r _ => replies c r) () tr () := by
  induction tr with
  | nil => exact .nil ()
  | cons a tr ih =>
      exact .cons (h a List.mem_cons_self) (ih fun a ha => h a (List.mem_cons_of_mem _ ha))

/-- Without a world: what the program may call when all replies are such. -/
theorem Triple.allowed_of_mem {allowed : Call → Prop} {post : Unit → α → Prop}
    {p q : Program Call Reply ε α}
    (h : Triple (fun _ c r _ => replies c r) (fun _ c => allowed c) post p ())
    (hr : Runs p tr q) (hreplies : ∀ a ∈ tr, replies a.1 a.2) {a : Answered Reply}
    (ha : a ∈ tr) : allowed a.1 := by
  obtain ⟨before, after, rfl⟩ := List.append_of_mem ha
  exact h.allowed_of_runs hr
    (performs_of_replies fun a ha => hreplies a (List.mem_append_left _ ha))

end Stateless

end Program

/-- A worker's first call is that of its start. -/
theorem Worker.exists_whole_eq_call {Call : Type} {Reply : Call → Type} {ε α σ β : Type}
    {worker : Worker Call Reply ε α σ β} {c : Call} {next : Reply c → Program Call Reply ε σ}
    (hstart : worker.start = .call c next) (values : List α) :
    ∃ rest, worker.whole values = .call c rest := by
  have hconsume : ∃ rest, worker.consume values = .call c rest := by
    induction values using List.reverseRecOn with
    | nil => exact ⟨next, hstart⟩
    | append_singleton values a ih =>
        obtain ⟨rest, hrest⟩ := ih
        rw [Worker.consume_snoc, hrest]
        exact ⟨_, rfl⟩
  obtain ⟨rest, hrest⟩ := hconsume
  rw [Worker.whole, hrest]
  exact ⟨_, rfl⟩

/-- The rule for a loop over the values received: `inv` is what start establishes and what the body
keeps, and the finish starts from. -/
theorem Worker.triple_whole {Call : Type} {Reply : Call → Type} {ε α σ β ω : Type}
    {worker : Worker Call Reply ε α σ β} {act : ω → (c : Call) → Reply c → ω → Prop}
    {allowed : ω → Call → Prop} {inv : ω → σ → Prop} {post : ω → β → Prop} {w : ω}
    (hstart : Program.Triple act allowed inv worker.start w)
    (hbody : ∀ w s a, inv w s → Program.Triple act allowed inv (worker.body s a) w)
    (hfinish : ∀ w s, inv w s → Program.Triple act allowed post (worker.finish s) w)
    (values : List α) : Program.Triple act allowed post (worker.whole values) w := by
  refine Program.Triple.bind ?_ hfinish
  induction values using List.reverseRecOn with
  | nil => exact hstart
  | append_singleton values a ih =>
      rw [Worker.consume_snoc]
      exact ih.bind fun w s hinv => hbody w s a hinv

end YellowstoneStream.Reasoning

import Mathlib.Data.List.Basic

/-!
# Programs that issue calls

A program is a tree of calls, each continued by its reply.  `Runs` performs calls one by one, so a
prefix of a run is what a crash leaves behind.  `Follows` says that a program issues the calls of a
plan in order and stops at the first reply that is a failure.
-/

namespace YellowstoneStream.Reasoning

inductive Program (Call : Type) (Reply : Call → Type) (ε α : Type) : Type where
  | pure (a : α)
  | throw (e : ε)
  | panic
  | call (c : Call) (next : Reply c → Program Call Reply ε α)

/-- A call together with its reply. -/
abbrev Answered {Call : Type} (Reply : Call → Type) := (c : Call) × Reply c

namespace Program

variable {Call : Type} {Reply : Call → Type} {ε α β : Type}

def bind : Program Call Reply ε α → (α → Program Call Reply ε β) → Program Call Reply ε β
  | .pure a, f => f a
  | .throw e, _ => .throw e
  | .panic, _ => .panic
  | .call c next, f => .call c fun r => (next r).bind f

instance : Monad (Program Call Reply ε) where
  pure := .pure
  bind := bind

def request (c : Call) : Program Call Reply ε (Reply c) := .call c .pure

/-- `result.map_err(wrap)?`. -/
def orThrow {e : Type} (wrap : e → ε) : Except e α → Program Call Reply ε α
  | .ok a => .pure a
  | .error err => .throw (wrap err)

@[simp] theorem bind_eq (p : Program Call Reply ε α) (f : α → Program Call Reply ε β) :
    p >>= f = p.bind f := rfl
@[simp] theorem pure_eq (a : α) : (Pure.pure a : Program Call Reply ε α) = .pure a := rfl
@[simp] theorem pure_bind (a : α) (f : α → Program Call Reply ε β) :
    (Program.pure a).bind f = f a := rfl
@[simp] theorem throw_bind (e : ε) (f : α → Program Call Reply ε β) :
    (Program.throw e : Program Call Reply ε α).bind f = .throw e := rfl
@[simp] theorem panic_bind (f : α → Program Call Reply ε β) :
    (Program.panic : Program Call Reply ε α).bind f = .panic := rfl
@[simp] theorem call_bind (c : Call) (next : Reply c → Program Call Reply ε α)
    (f : α → Program Call Reply ε β) :
    (Program.call c next).bind f = .call c fun r => (next r).bind f := rfl

/-! ## Runs -/

/-- The calls of the trace are answered in order, and the program becomes another one. -/
inductive Runs : Program Call Reply ε α → List (Answered Reply) → Program Call Reply ε α → Prop
  | refl (p : Program Call Reply ε α) : Runs p [] p
  | step {c : Call} {next : Reply c → Program Call Reply ε α} {r : Reply c}
      {tr : List (Answered Reply)} {q : Program Call Reply ε α} (h : Runs (next r) tr q) :
      Runs (.call c next) (⟨c, r⟩ :: tr) q

theorem Runs.append {p q s : Program Call Reply ε α} {tr tr' : List (Answered Reply)}
    (h : Runs p tr q) (h' : Runs q tr' s) : Runs p (tr ++ tr') s := by
  induction h with
  | refl p => exact h'
  | step _ ih => exact .step (ih h')

theorem Runs.snoc {p : Program Call Reply ε α} {tr : List (Answered Reply)} {c : Call}
    {next : Reply c → Program Call Reply ε α} (h : Runs p tr (.call c next)) (r : Reply c) :
    Runs p (tr ++ [⟨c, r⟩]) (next r) :=
  h.append (.step (.refl _))

theorem Runs.bind {p q : Program Call Reply ε α} {tr : List (Answered Reply)} (h : Runs p tr q)
    (f : α → Program Call Reply ε β) : Runs (p.bind f) tr (q.bind f) := by
  induction h with
  | refl p => exact .refl _
  | step _ ih => exact .step ih

/-- A run that came to a result came to one of its first part. -/
theorem Runs.of_bind {p : Program Call Reply ε α} {f : α → Program Call Reply ε β}
    {tr : List (Answered Reply)} {b : β} (h : Runs (p.bind f) tr (.pure b)) :
    ∃ a tr₁ tr₂, tr = tr₁ ++ tr₂ ∧ Runs p tr₁ (.pure a) ∧ Runs (f a) tr₂ (.pure b) := by
  induction p generalizing tr with
  | pure a => exact ⟨a, [], tr, rfl, .refl _, h⟩
  | throw e => cases h
  | panic => cases h
  | call c next ih =>
      cases h with
      | @step _ _ r _ _ h =>
          obtain ⟨a, tr₁, tr₂, rfl, hfirst, hsecond⟩ := ih r h
          exact ⟨a, ⟨c, r⟩ :: tr₁, tr₂, rfl, .step hfirst, hsecond⟩

/-- A program that calls nothing any more. -/
def Ended : Program Call Reply ε α → Prop
  | .call .. => False
  | _ => True

theorem Ended.runs {p q : Program Call Reply ε α} {tr : List (Answered Reply)} (h : p.Ended)
    (hr : Runs p tr q) : tr = [] ∧ q = p := by
  cases hr with
  | refl => exact ⟨rfl, rfl⟩
  | step => exact h.elim

/-! ## Worlds -/

section World

variable {ω : Type} (act : ω → (c : Call) → Reply c → ω → Prop)

/-- A world answers the calls of a trace and changes along it. -/
inductive Performs : ω → List (Answered Reply) → ω → Prop
  | nil (w : ω) : Performs w [] w
  | cons {w w' w'' : ω} {c : Call} {r : Reply c} {tr : List (Answered Reply)}
      (h : act w c r w') (hrest : Performs w' tr w'') : Performs w (⟨c, r⟩ :: tr) w''

variable {act}

theorem Performs.append {w w' w'' : ω} {tr tr' : List (Answered Reply)}
    (h : Performs act w tr w') (h' : Performs act w' tr' w'') : Performs act w (tr ++ tr') w'' := by
  induction h with
  | nil => exact h'
  | cons hact _ ih => exact .cons hact (ih h')

theorem performs_append_iff {w w'' : ω} {tr tr' : List (Answered Reply)} :
    Performs act w (tr ++ tr') w'' ↔ ∃ w', Performs act w tr w' ∧ Performs act w' tr' w'' := by
  constructor
  · intro h
    induction tr generalizing w with
    | nil => exact ⟨w, .nil w, h⟩
    | cons a tr ih =>
        cases h with
        | cons hact hrest =>
            obtain ⟨w', hw', htail⟩ := ih hrest
            exact ⟨w', .cons hact hw', htail⟩
  · rintro ⟨w', h, h'⟩
    exact h.append h'

theorem Performs.snoc {w w' w'' : ω} {tr : List (Answered Reply)} {c : Call} {r : Reply c}
    (h : Performs act w tr w') (hact : act w' c r w'') :
    Performs act w (tr ++ [⟨c, r⟩]) w'' :=
  h.append (.cons hact (.nil _))

/-- What every answered call keeps holds at the end of the trace. -/
theorem Performs.induction {P : ω → Prop} (hstep : ∀ w c r w', P w → act w c r w' → P w')
    {w w' : ω} {tr : List (Answered Reply)} (h : Performs act w tr w') (hw : P w) : P w' := by
  induction h with
  | nil => exact hw
  | cons hact _ ih => exact ih (hstep _ _ _ _ hw hact)

/-- The same, when only the calls that were made need to keep it. -/
theorem Performs.induction_mem {P : ω → Prop} {w w' : ω} {tr : List (Answered Reply)}
    (h : Performs act w tr w')
    (hstep : ∀ w c r w', ⟨c, r⟩ ∈ tr → P w → act w c r w' → P w') (hw : P w) : P w' := by
  induction h with
  | nil => exact hw
  | cons hact _ ih =>
      exact ih (fun w c r w' hmem => hstep w c r w' (List.mem_cons_of_mem _ hmem))
        (hstep _ _ _ _ List.mem_cons_self hw hact)

theorem Performs.mono {act' : ω → (c : Call) → Reply c → ω → Prop} {w w' : ω}
    {tr : List (Answered Reply)} (h : Performs act w tr w')
    (himp : ∀ w c r w', act w c r w' → act' w c r w') : Performs act' w tr w' := by
  induction h with
  | nil => exact .nil _
  | cons hact _ ih => exact .cons (himp _ _ _ _ hact) ih

/-- The world in which a call of the trace was answered. -/
theorem Performs.split {w w' : ω} {tr : List (Answered Reply)} (h : Performs act w tr w')
    {a : Answered Reply} (ha : a ∈ tr) :
    ∃ before after w₁ w₂, tr = before ++ a :: after ∧ Performs act w before w₁ ∧
      act w₁ a.1 a.2 w₂ ∧ Performs act w₂ after w' := by
  obtain ⟨before, after, rfl⟩ := List.append_of_mem ha
  obtain ⟨w₁, hbefore, hrest⟩ := performs_append_iff.mp h
  cases hrest with
  | cons hact hafter => exact ⟨before, after, w₁, _, rfl, hbefore, hact, hafter⟩

/-- When every call a program comes to make is answered, the program comes to its end. -/
theorem exists_ended_run {p : Program Call Reply ε α} {w : ω}
    (h : ∀ tr c next w', Runs p tr (.call c next) → Performs act w tr w' →
      ∃ r w'', act w' c r w'') :
    ∃ tr q w', Runs p tr q ∧ Performs act w tr w' ∧ q.Ended := by
  induction p generalizing w with
  | pure a => exact ⟨[], _, w, .refl _, .nil w, trivial⟩
  | throw e => exact ⟨[], _, w, .refl _, .nil w, trivial⟩
  | panic => exact ⟨[], _, w, .refl _, .nil w, trivial⟩
  | call c next ih =>
      -- the first call is answered in `w`, and what follows runs from the world it leaves
      obtain ⟨r, w₁, hact⟩ := h [] c next w (.refl _) (.nil w)
      obtain ⟨tr, q, w', hruns, hperforms, hended⟩ := ih r
        fun tr c' next' w' hruns hperforms => h _ c' next' w' (.step hruns) (.cons hact hperforms)
      exact ⟨⟨c, r⟩ :: tr, q, w', .step hruns, .cons hact hperforms, hended⟩

end World

/-! ## Plans -/

section Plan

variable (planned : Call → Bool) (failure : (c : Call) → Reply c → Option ε)

/-- The calls of a trace that a plan speaks about. -/
def issued (tr : List (Answered Reply)) : List (Answered Reply) := tr.filter fun a => planned a.1

def calls (tr : List (Answered Reply)) : List Call := tr.map Sigma.fst

/-- The planned calls are issued in order, with any others in between; a failure is thrown at once;
the result satisfies `post` of the planned calls and their replies. -/
inductive Follows : List Call → (List (Answered Reply) → α → Prop) →
    Program Call Reply ε α → Prop
  | pure {post : List (Answered Reply) → α → Prop} {a : α} (h : post [] a) :
      Follows [] post (.pure a)
  | other {plan : List Call} {post : List (Answered Reply) → α → Prop} {c : Call}
      {next : Reply c → Program Call Reply ε α} (hc : planned c = false)
      (h : ∀ r, Follows plan post (next r)) : Follows plan post (.call c next)
  | issue {plan : List Call} {post : List (Answered Reply) → α → Prop} {c : Call}
      {next : Reply c → Program Call Reply ε α} (hc : planned c = true)
      (hok : ∀ r, failure c r = none →
        Follows plan (fun tr a => post (⟨c, r⟩ :: tr) a) (next r))
      (herr : ∀ r e, failure c r = some e → next r = .throw e) :
      Follows (c :: plan) post (.call c next)

variable {planned failure}

@[simp] theorem issued_nil : issued planned ([] : List (Answered Reply)) = [] := rfl

@[simp] theorem issued_append (tr tr' : List (Answered Reply)) :
    issued planned (tr ++ tr') = issued planned tr ++ issued planned tr' :=
  List.filter_append ..

theorem issued_cons_of_planned {a : Answered Reply} (h : planned a.1 = true)
    (tr : List (Answered Reply)) : issued planned (a :: tr) = a :: issued planned tr :=
  List.filter_cons_of_pos h

theorem issued_cons_of_other {a : Answered Reply} (h : planned a.1 = false)
    (tr : List (Answered Reply)) : issued planned (a :: tr) = issued planned tr :=
  List.filter_cons_of_neg (by simp [h])

theorem Follows.mono {plan : List Call} {post post' : List (Answered Reply) → α → Prop}
    {p : Program Call Reply ε α} (h : Follows planned failure plan post p)
    (himp : ∀ tr a, post tr a → post' tr a) : Follows planned failure plan post' p := by
  induction h generalizing post' with
  | pure h => exact .pure (himp _ _ h)
  | other hc _ ih => exact .other hc fun r => ih r himp
  | issue hc _ herr ih => exact .issue hc (fun r hr => ih r hr fun tr a => himp _ a) herr

theorem Follows.bind {plan plan' : List Call} {post : List (Answered Reply) → α → Prop}
    {post' : List (Answered Reply) → β → Prop} {p : Program Call Reply ε α}
    {f : α → Program Call Reply ε β} (h : Follows planned failure plan post p)
    (hf : ∀ tr a, post tr a →
      Follows planned failure plan' (fun tr' b => post' (tr ++ tr') b) (f a)) :
    Follows planned failure (plan ++ plan') post' (p.bind f) := by
  induction h generalizing post' with
  | pure h => exact hf [] _ h
  | other hc _ ih => exact .other hc fun r => ih r hf
  | issue hc _ herr ih =>
      refine .issue hc (fun r hr => ih r hr fun tr a ha => hf _ a ha) fun r e he => ?_
      rw [herr r e he, throw_bind]

theorem Follows.of_pure {plan : List Call} {post : List (Answered Reply) → α → Prop} {a : α}
    (h : Follows planned failure plan post (.pure a)) : plan = [] ∧ post [] a := by
  cases h with
  | pure h => exact ⟨rfl, h⟩

theorem not_follows_throw {plan : List Call} {post : List (Answered Reply) → α → Prop} {e : ε} :
    ¬ Follows planned failure plan post (.throw e) := nofun

theorem not_follows_panic {plan : List Call} {post : List (Answered Reply) → α → Prop} :
    ¬ Follows planned failure plan post (.panic : Program Call Reply ε α) := nofun

/-- The two ways a run of a planned program can look: everything so far succeeded and the rest of
the plan is ahead, or the last call failed and its error was thrown. -/
theorem Follows.runs {plan : List Call} {post : List (Answered Reply) → α → Prop}
    {p q : Program Call Reply ε α} {tr : List (Answered Reply)}
    (h : Follows planned failure plan post p) (hr : Runs p tr q) :
    (∃ rest, plan = calls (issued planned tr) ++ rest ∧
      (∀ a ∈ issued planned tr, failure a.1 a.2 = none) ∧
      Follows planned failure rest (fun tr' a => post (issued planned tr ++ tr') a) q) ∨
    (∃ done c r e rest, tr = done ++ [⟨c, r⟩] ∧ planned c = true ∧
      plan = calls (issued planned done) ++ c :: rest ∧
      (∀ a ∈ issued planned done, failure a.1 a.2 = none) ∧
      failure c r = some e ∧ q = .throw e) := by
  induction hr generalizing plan post with
  | refl p => exact .inl ⟨plan, rfl, by simp, h⟩
  | @step c next r tr q hr ih =>
      cases h with
      | other hc h =>
          -- a call the plan does not speak about uses up none of it
          rcases ih (h r) with ⟨rest, hplan, hok, hrest⟩ | ⟨done, c', r', e, rest, htr, hc', h'⟩
          · refine .inl ⟨rest, ?_⟩
            rw [issued_cons_of_other hc]
            exact ⟨hplan, hok, hrest⟩
          · refine .inr ⟨⟨c, r⟩ :: done, c', r', e, rest, by rw [htr]; rfl, hc', ?_⟩
            rw [issued_cons_of_other hc]
            exact h'
      | issue hc hok herr =>
          cases hfail : failure c r with
          | some e =>
              -- the error was thrown at once, so this call is the last one
              rw [herr r e hfail] at hr
              obtain ⟨rfl, rfl⟩ := Ended.runs (p := .throw e) trivial hr
              exact .inr ⟨[], c, r, e, _, rfl, hc, rfl, by simp, hfail, rfl⟩
          | none =>
              rcases ih (hok r hfail) with
                ⟨rest, hplan, hall, hrest⟩ | ⟨done, c', r', e, rest, htr, hc', hplan, hall, h'⟩
              · refine .inl ⟨rest, ?_⟩
                rw [issued_cons_of_planned hc]
                exact ⟨by rw [hplan]; rfl, List.forall_mem_cons.mpr ⟨hfail, hall⟩, hrest⟩
              · refine .inr ⟨⟨c, r⟩ :: done, c', r', e, rest, by rw [htr]; rfl, hc', ?_⟩
                rw [issued_cons_of_planned hc]
                exact ⟨by rw [hplan]; rfl, List.forall_mem_cons.mpr ⟨hfail, hall⟩, h'⟩

/-- As long as no planned call failed, the rest of the plan is ahead. -/
theorem Follows.runs_of_ok {plan : List Call} {post : List (Answered Reply) → α → Prop}
    {p q : Program Call Reply ε α} {tr : List (Answered Reply)}
    (h : Follows planned failure plan post p) (hr : Runs p tr q)
    (hok : ∀ a ∈ issued planned tr, failure a.1 a.2 = none) :
    ∃ rest, plan = calls (issued planned tr) ++ rest ∧
      Follows planned failure rest (fun tr' a => post (issued planned tr ++ tr') a) q := by
  rcases h.runs hr with ⟨rest, hplan, -, hrest⟩ | ⟨done, c, r, e, _, rfl, hc, -, -, hfail, -⟩
  · exact ⟨rest, hplan, hrest⟩
  · have hlast := hok ⟨c, r⟩ (by
      rw [issued_append, issued_cons_of_planned hc]
      exact List.mem_append_right _ List.mem_cons_self)
    cases hlast.symm.trans hfail

/-- A planned call is issued exactly after the calls the plan puts before it. -/
theorem Follows.issued_call {plan : List Call} {post : List (Answered Reply) → α → Prop}
    {p : Program Call Reply ε α} {tr : List (Answered Reply)} {c : Call}
    {next : Reply c → Program Call Reply ε α} (h : Follows planned failure plan post p)
    (hr : Runs p tr (.call c next)) (hc : planned c = true) :
    (∃ rest, plan = calls (issued planned tr) ++ c :: rest) ∧
      (∀ a ∈ issued planned tr, failure a.1 a.2 = none) ∧
      ∀ r e, failure c r = some e → next r = .throw e := by
  rcases h.runs hr with ⟨rest, hplan, hok, hrest⟩ | ⟨_, _, _, _, _, _, _, _, _, _, hthrow⟩
  · cases hrest with
    | other hother => rw [hc] at hother; cases hother
    | issue _ _ herr => exact ⟨⟨_, hplan⟩, hok, herr⟩
  · cases hthrow

/-- Every planned call can come to be issued, when no call has to fail. -/
theorem Follows.exists_issued {plan : List Call} {post : List (Answered Reply) → α → Prop}
    {p : Program Call Reply ε α} (hanswer : ∀ c, ∃ r : Reply c, failure c r = none)
    (h : Follows planned failure plan post p) {done rest : List Call} {c : Call}
    (hplan : plan = done ++ c :: rest) :
    ∃ tr next, Runs p tr (.call c next) ∧ calls (issued planned tr) = done := by
  induction h generalizing done with
  | pure _ => exact absurd hplan (List.nil_eq_append_iff.not.mpr nofun)
  | @other plan post other next hother _ ih =>
      obtain ⟨r, -⟩ := hanswer other
      obtain ⟨tr, q, hruns, hdone⟩ := ih r hplan
      refine ⟨⟨other, r⟩ :: tr, q, .step hruns, ?_⟩
      rw [issued_cons_of_other hother]
      exact hdone
  | @issue plan post first next hfirst _ _ ih =>
      cases done with
      | nil =>
          obtain ⟨rfl, -⟩ := List.cons.inj hplan
          exact ⟨[], next, .refl _, rfl⟩
      | cons d done =>
          obtain ⟨rfl, hrest⟩ := List.cons.inj hplan
          obtain ⟨r, hr⟩ := hanswer first
          obtain ⟨tr, q, hruns, hdone⟩ := ih r hr hrest
          refine ⟨⟨first, r⟩ :: tr, q, .step hruns, ?_⟩
          rw [issued_cons_of_planned hfirst, ← hdone]
          rfl

/-- An error that ends the program is that of its last call. -/
theorem Follows.thrown {plan : List Call} {post : List (Answered Reply) → α → Prop}
    {p : Program Call Reply ε α} {tr : List (Answered Reply)} {e : ε}
    (h : Follows planned failure plan post p) (hr : Runs p tr (.throw e)) :
    ∃ done c r, tr = done ++ [⟨c, r⟩] ∧ planned c = true ∧ failure c r = some e ∧
      ∀ a ∈ issued planned done, failure a.1 a.2 = none := by
  rcases h.runs hr with ⟨_, _, _, hrest⟩ | ⟨done, c, r, e', _, htr, hc, _, hok, hfail, hthrow⟩
  · cases hrest
  · cases hthrow
    exact ⟨done, c, r, htr, hc, hfail, hok⟩

/-- A result means that the whole plan was carried out. -/
theorem Follows.result {plan : List Call} {post : List (Answered Reply) → α → Prop}
    {p : Program Call Reply ε α} {tr : List (Answered Reply)} {a : α}
    (h : Follows planned failure plan post p) (hr : Runs p tr (.pure a)) :
    plan = calls (issued planned tr) ∧ (∀ x ∈ issued planned tr, failure x.1 x.2 = none) ∧
      post (issued planned tr) a := by
  rcases h.runs hr with ⟨rest, hplan, hok, hrest⟩ | ⟨_, _, _, _, _, _, _, _, _, _, hthrow⟩
  · obtain ⟨rfl, hpost⟩ := hrest.of_pure
    rw [List.append_nil] at hplan hpost
    exact ⟨hplan, hok, hpost⟩
  · cases hthrow

end Plan

/-! ## Parts of a world -/

/-- A part of the world that some calls alone change, and that is all these calls depend on. -/
structure Part {ω : Type} (act : ω → (c : Call) → Reply c → ω → Prop) (ν : Type) where
  view : ω → ν
  own : Call → Bool
  other_keeps : ∀ w c r w', act w c r w' → own c = false → view w' = view w
  own_answers : ∀ w c r w' v, act w c r w' → own c = true → view v = view w →
    ∃ v', act v c r v' ∧ view v' = view w'

/-- What became of a part, and the answers that its calls got, is what the calls of the part alone
would have made of it. -/
theorem Performs.project {ω ν : Type} {act : ω → (c : Call) → Reply c → ω → Prop}
    (part : Part act ν) {w w' v : ω} {tr : List (Answered Reply)} (h : Performs act w tr w')
    (hview : part.view v = part.view w) :
    ∃ v', Performs act v (issued part.own tr) v' ∧ part.view v' = part.view w' := by
  induction h generalizing v with
  | nil => exact ⟨v, .nil v, hview⟩
  | @cons w w₁ w₂ c r tr hact _ ih =>
      cases hown : part.own c with
      | true =>
          obtain ⟨v₁, hv₁, hview₁⟩ := part.own_answers w c r w₁ v hact hown hview
          obtain ⟨v', hv', hlast⟩ := ih hview₁
          rw [issued_cons_of_planned hown]
          exact ⟨v', .cons hv₁ hv', hlast⟩
      | false =>
          rw [issued_cons_of_other hown]
          exact ih (hview.trans (part.other_keeps w c r w₁ hact hown).symm)

end Program

/-- Where an element of a `flatMap` comes from. -/
theorem flatMap_eq_append_cons {α β : Type} {f : α → List β} {l : List α} {xs ys : List β} {b : β}
    (h : l.flatMap f = xs ++ b :: ys) :
    ∃ done a rest earlier later, l = done ++ a :: rest ∧ f a = earlier ++ b :: later ∧
      xs = done.flatMap f ++ earlier := by
  induction l generalizing xs with
  | nil => simp at h
  | cons a l ih =>
      rw [List.flatMap_cons, List.append_eq_append_iff] at h
      rcases h with ⟨front, rfl, hrest⟩ | ⟨back, hfa, hback⟩
      · obtain ⟨done, a', rest, earlier, later, rfl, hfa', rfl⟩ := ih hrest
        exact ⟨a :: done, a', rest, earlier, later, rfl, hfa', by simp⟩
      · cases back with
        | nil =>
            -- `f a` ends where `xs` does, so `b` comes from a later element
            rw [List.append_nil] at hfa
            obtain ⟨done, a', rest, earlier, later, rfl, hfa', hnil⟩ := @ih [] hback.symm
            refine ⟨a :: done, a', rest, earlier, later, rfl, hfa', ?_⟩
            rw [List.flatMap_cons, List.append_assoc, ← hnil, List.append_nil, hfa]
        | cons b' back =>
            obtain ⟨rfl, -⟩ := List.cons.inj hback
            exact ⟨[], a, l, xs, back, rfl, hfa, rfl⟩

end YellowstoneStream.Reasoning

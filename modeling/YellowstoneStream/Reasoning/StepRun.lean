import Mathlib.Data.List.Chain

/-!
# Runs of partial steps

A system that takes a list of steps, each of which is possible in some states only.  A run is safe
when every step of it is made where it is safe.  The runs of a relation are lists of states.
-/

namespace YellowstoneStream.Reasoning

variable {σ ι : Type} {step : σ → ι → Option σ}

def runSteps (step : σ → ι → Option σ) (x : σ) (steps : List ι) : Option σ := steps.foldlM step x

def SafeRun (step : σ → ι → Option σ) (safe : σ → ι → Prop) : σ → List ι → Prop
  | _, [] => True
  | x, i :: rest => safe x i ∧ ∀ y, step x i = some y → SafeRun step safe y rest

theorem runSteps_nil {x y : σ} (h : runSteps step x [] = some y) : x = y := Option.some.inj h

theorem runSteps_cons {x z : σ} {i : ι} {rest : List ι} :
    runSteps step x (i :: rest) = some z ↔
      ∃ y, step x i = some y ∧ runSteps step y rest = some z := by
  rw [runSteps, List.foldlM_cons, Option.bind_eq_bind, Option.bind_eq_some_iff]
  rfl

theorem SafeRun.append {safe : σ → ι → Prop} {x y : σ} {before after : List ι}
    (h : SafeRun step safe x (before ++ after)) (hrun : runSteps step x before = some y) :
    SafeRun step safe x before ∧ SafeRun step safe y after := by
  induction before generalizing x with
  | nil =>
      obtain rfl := runSteps_nil hrun
      exact ⟨trivial, h⟩
  | cons i before ih =>
      obtain ⟨mid, hmid, hrest⟩ := runSteps_cons.mp hrun
      refine ⟨⟨h.1, fun y' hy' => ?_⟩, (ih (h.2 mid hmid) hrest).2⟩
      obtain rfl : mid = y' := Option.some.inj (hmid.symm.trans hy')
      exact (ih (h.2 mid hmid) hrest).1

/-- Steps that are safe in every state make a safe run. -/
theorem safeRun_of_forall {safe : σ → ι → Prop} {steps : List ι}
    (h : ∀ i ∈ steps, ∀ x, safe x i) (x : σ) : SafeRun step safe x steps := by
  induction steps generalizing x with
  | nil => exact trivial
  | cons i rest ih =>
      exact ⟨h i List.mem_cons_self x,
        fun y _ => ih (fun j hj => h j (List.mem_cons_of_mem _ hj)) y⟩

/-- The run lemma of a step lemma: an invariant, and how a state is related to the next. -/
theorem SafeRun.induction {safe : σ → ι → Prop} {inv : σ → Prop} {rel : σ → σ → Prop}
    (hstep : ∀ x i y, inv x → safe x i → step x i = some y → inv y ∧ rel x y)
    (hrefl : ∀ x, rel x x) (htrans : ∀ x y z, rel x y → rel y z → rel x z) {x y : σ}
    {steps : List ι} (h : SafeRun step safe x steps) (hrun : runSteps step x steps = some y)
    (hx : inv x) : inv y ∧ rel x y := by
  induction steps generalizing x with
  | nil =>
      obtain rfl := runSteps_nil hrun
      exact ⟨hx, hrefl x⟩
  | cons i rest ih =>
      obtain ⟨mid, hmid, hrest⟩ := runSteps_cons.mp hrun
      obtain ⟨hinv, hfirst⟩ := hstep x i mid hx h.1 hmid
      obtain ⟨hy, hsecond⟩ := ih (h.2 mid hmid) hrest hinv
      exact ⟨hy, htrans x mid y hfirst hsecond⟩

/-- The law holds all along a run exactly if none of its steps breaks it. -/
theorem forall_law_iff {rel breaks : σ → σ → Prop} {inv law : σ → Prop}
    (hinv : ∀ x, inv x → law x)
    (hstep : ∀ x y, rel x y → inv x → ¬ breaks x y → inv y)
    (hbreaks : ∀ x y, rel x y → breaks x y → ¬ law y) {x : σ} {run : List σ} (hx : inv x)
    (hrun : (x :: run).IsChain rel) :
    (∀ y ∈ x :: run, law y) ↔ (x :: run).IsChain fun x y => ¬ breaks x y := by
  induction run generalizing x with
  | nil =>
      rw [List.forall_mem_singleton]
      exact ⟨fun _ => .singleton x, fun _ => hinv x hx⟩
  | cons y run ih =>
      obtain ⟨hxy, hrest⟩ := List.isChain_cons_cons.mp hrun
      rw [List.forall_mem_cons, List.isChain_cons_cons]
      constructor
      · rintro ⟨-, hall⟩
        have hkeeps : ¬ breaks x y := fun h => hbreaks x y hxy h (hall y List.mem_cons_self)
        exact ⟨hkeeps, (ih (hstep x y hxy hx hkeeps) hrest).mp hall⟩
      · rintro ⟨hkeeps, hrun'⟩
        exact ⟨hinv x hx, (ih (hstep x y hxy hx hkeeps) hrest).mpr hrun'⟩

end YellowstoneStream.Reasoning

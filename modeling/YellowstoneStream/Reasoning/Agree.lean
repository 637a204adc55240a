import YellowstoneStream.Reasoning.Ensures

/-!
# Computations that agree

Two computations agree when they fail with the same error, or both return and what they return is
related.
-/

namespace YellowstoneStream.Reasoning

variable {ε α β γ δ : Type}

inductive Agree (R : α → β → Prop) : Except ε α → Except ε β → Prop
  | ok {a : α} {b : β} (h : R a b) : Agree R (.ok a) (.ok b)
  | error (e : ε) : Agree R (.error e) (.error e)

namespace Agree

variable {R : α → β → Prop} {S : γ → δ → Prop}

/-- One computation, whose result is used on both sides. -/
theorem same {x y : Except ε α} (h : x = y) : Agree (· = ·) x y := by
  rw [h]
  cases y with
  | ok a => exact .ok rfl
  | error e => exact .error e

theorem eq {x y : Except ε α} (h : Agree (· = ·) x y) : x = y := by
  cases h with
  | ok h => rw [h]
  | error e => rfl

theorem bind {x : Except ε α} {y : Except ε β} {f : α → Except ε γ} {g : β → Except ε δ}
    (h : Agree R x y) (hf : ∀ a b, R a b → Agree S (f a) (g b)) : Agree S (x >>= f) (y >>= g) := by
  cases h with
  | ok h => exact hf _ _ h
  | error e => exact .error e

/-- A computation that both sides share. -/
theorem shared {x y : Except ε α} {f : α → Except ε γ} {g : α → Except ε δ} (h : x = y)
    (hf : ∀ a, Agree S (f a) (g a)) : Agree S (x >>= f) (y >>= g) :=
  (same h).bind fun a _ hsame => hsame ▸ hf a

theorem check {fails fails' : Prop} [Decidable fails] [Decidable fails'] {e : ε} {x : Except ε α}
    {y : Except ε β} (hsame : fails ↔ fails') (h : ¬ fails → ¬ fails' → Agree R x y) :
    Agree R (if fails then .error e else x) (if fails' then .error e else y) := by
  by_cases hfails : fails
  · rw [if_pos hfails, if_pos (hsame.mp hfails)]
    exact .error e
  · have hfails' : ¬ fails' := fun h => hfails (hsame.mpr h)
    rw [if_neg hfails, if_neg hfails']
    exact h hfails hfails'

theorem map_eq_map_iff {f : α → γ} {g : β → γ} {x : Except ε α} {y : Except ε β} :
    x.map f = y.map g ↔ Agree (fun a b => f a = g b) x y := by
  constructor
  · intro h
    cases x with
    | ok a =>
        cases y with
        | ok b => exact .ok (Except.ok.inj h)
        | error e => cases h
    | error e =>
        cases y with
        | ok b => cases h
        | error e' =>
            cases Except.error.inj h
            exact .error e
  · intro h
    cases h with
    | ok h => exact congrArg Except.ok h
    | error e => rfl

end Agree

end YellowstoneStream.Reasoning

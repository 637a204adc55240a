import Mathlib.Algebra.BigOperators.Group.Finset.Basic
import Mathlib.Data.Fintype.Basic
import Mathlib.Logic.Relation
import YellowstoneStream.Reasoning.Program

/-!
# Programs that share a world

Any number of programs make their calls on one world, one call at a time and in any order, and each
has its own way of being answered.  A program that makes no further call may have crashed, and one
that has made none may start later.
-/

open Relation

namespace YellowstoneStream.Reasoning

/-- What has become of the programs, the calls each of them has made, and the world. -/
structure Processes (ι Call : Type) (Reply : Call → Type) (ε α ω : Type) where
  programs : ι → Program Call Reply ε α
  traces : ι → List (Answered Reply)
  world : ω

namespace Processes

variable {ι Call : Type} {Reply : Call → Type} {ε α ω : Type}

def start (programs : ι → Program Call Reply ε α) (world : ω) :
    Processes ι Call Reply ε α ω := ⟨programs, fun _ => [], world⟩

variable [DecidableEq ι] (act : ι → ω → (c : Call) → Reply c → ω → Prop)

/-- One of the programs makes a call and goes on with the reply. -/
def after (x : Processes ι Call Reply ε α ω) (i : ι) (a : Answered Reply)
    (next : Program Call Reply ε α) (world : ω) : Processes ι Call Reply ε α ω where
  programs := Function.update x.programs i next
  traces := Function.update x.traces i (x.traces i ++ [a])
  world := world

inductive Step : Processes ι Call Reply ε α ω → Processes ι Call Reply ε α ω → Prop
  | call {x : Processes ι Call Reply ε α ω} {i : ι} {c : Call}
      {next : Reply c → Program Call Reply ε α} {r : Reply c} {world : ω}
      (hnext : x.programs i = .call c next) (hact : act i x.world c r world) :
      Step x (x.after i ⟨c, r⟩ (next r) world)

def Reaches (x y : Processes ι Call Reply ε α ω) : Prop := ReflTransGen (Step act) x y

variable {act} {programs : ι → Program Call Reply ε α} {w : ω}
  {x : Processes ι Call Reply ε α ω}

section After

variable (i : ι) (a : Answered Reply) (next : Program Call Reply ε α) (world : ω)

@[simp] theorem after_world : (x.after i a next world).world = world := rfl

@[simp] theorem after_programs : (x.after i a next world).programs i = next :=
  Function.update_self ..

@[simp] theorem after_traces : (x.after i a next world).traces i = x.traces i ++ [a] :=
  Function.update_self ..

theorem after_programs_of_ne {j : ι} (h : j ≠ i) :
    (x.after i a next world).programs j = x.programs j := Function.update_of_ne h _ _

theorem after_traces_of_ne {j : ι} (h : j ≠ i) :
    (x.after i a next world).traces j = x.traces j := Function.update_of_ne h _ _

/-- A call is in the trace of a program after a step exactly if it was before, or was just made. -/
theorem mem_after_traces {j : ι} {b : Answered Reply} :
    b ∈ (x.after i a next world).traces j ↔ b ∈ x.traces j ∨ j = i ∧ b = a := by
  by_cases h : j = i
  · subst h
    rw [after_traces, List.mem_append, List.mem_singleton]
    simp only [true_and]
  · rw [after_traces_of_ne i a next world h]
    simp only [h, false_and, or_false]

/-- What is counted along traces grows by what the call counts. -/
theorem sum_after_traces [Fintype ι] {f : List (Answered Reply) → Nat} {g : Answered Reply → Nat}
    (h : ∀ tr b, f (tr ++ [b]) = f tr + g b) :
    ∑ j, f ((x.after i a next world).traces j) = ∑ j, f (x.traces j) + g a := by
  have hothers : ∑ j ∈ Finset.univ.erase i, f ((x.after i a next world).traces j) =
      ∑ j ∈ Finset.univ.erase i, f (x.traces j) := by
    refine Finset.sum_congr rfl fun j hj => ?_
    rw [after_traces_of_ne i a next world (Finset.ne_of_mem_erase hj)]
  rw [← Finset.add_sum_erase _ _ (Finset.mem_univ i), hothers, after_traces, h,
    ← Finset.add_sum_erase _ (fun j => f (x.traces j)) (Finset.mem_univ i)]
  omega

end After

/-- Each program has run as it would alone with these answers. -/
theorem runs_of_reaches (h : Reaches act (start programs w) x) (i : ι) :
    Program.Runs (programs i) (x.traces i) (x.programs i) := by
  induction h with
  | refl => exact .refl _
  | tail _ hstep ih =>
      cases hstep with
      | @call j c next r world hnext _ =>
          by_cases hij : i = j
          · subst hij
            rw [hnext] at ih
            rw [after_programs, after_traces]
            exact ih.snoc r
          · rw [after_programs_of_ne _ _ _ _ hij, after_traces_of_ne _ _ _ _ hij]
            exact ih

variable (act) in
/-- A program may make its calls while the others make none. -/
theorem reaches_of_runs {i : ι} {p q : Program Call Reply ε α} {tr : List (Answered Reply)}
    {world : ω} (hruns : Program.Runs p tr q)
    (hperforms : Program.Performs (act i) x.world tr world)
    (hp : x.programs i = p) :
    ∃ y, Reaches act x y ∧ y.programs i = q ∧ y.traces i = x.traces i ++ tr ∧ y.world = world ∧
      ∀ j, j ≠ i → y.programs j = x.programs j ∧ y.traces j = x.traces j := by
  induction hruns generalizing x with
  | refl p =>
      cases hperforms with
      | nil => exact ⟨x, .refl, hp, (List.append_nil _).symm, rfl, fun _ _ => ⟨rfl, rfl⟩⟩
  | @step c next r tr q _ ih =>
      cases hperforms with
      | @cons _ middle _ _ _ _ hact hrest =>
          obtain ⟨y, hreach, hq, htrace, hworld, hothers⟩ :=
            @ih (x.after i ⟨c, r⟩ (next r) middle) hrest (after_programs ..)
          rw [after_traces, List.append_assoc] at htrace
          refine ⟨y, .head (.call hp hact) hreach, hq, htrace, hworld, fun j hj => ?_⟩
          obtain ⟨hprogram, hsame⟩ := hothers j hj
          rw [hprogram, hsame]
          exact ⟨after_programs_of_ne _ _ _ _ hj, after_traces_of_ne _ _ _ _ hj⟩

end Processes

end YellowstoneStream.Reasoning

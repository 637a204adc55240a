import Mathlib.Data.Finset.Card
import Mathlib.Logic.Relation

/-!
# Recursive queries with `UNION ALL`

`WITH RECURSIVE q AS (base UNION ALL step)` evaluates `step` on the rows the previous round added,
keeps every row, repeats included, and stops when a round adds nothing.  The fuel bounds the number
of rounds; a query that never stops has no result at any fuel.
-/

open Relation

namespace YellowstoneStream.Reasoning

variable {α : Type}

def unionAll (step : List α → List α) : Nat → List α → Option (List α)
  | _, [] => some []
  | 0, _ :: _ => none
  | fuel + 1, row :: rows => (unionAll step fuel (step (row :: rows))).map (row :: rows ++ ·)

/-- The query stops: some round finds its working table empty. -/
def Terminates (step : List α → List α) (work : List α) : Prop :=
  ∃ fuel result, unionAll step fuel work = some result

@[simp] theorem unionAll_nil (step : List α → List α) (fuel : Nat) :
    unionAll step fuel [] = some [] := by
  cases fuel <;> rfl

theorem unionAll_succ (step : List α → List α) (fuel : Nat) {work : List α} (h : work ≠ []) :
    unionAll step (fuel + 1) work = (unionAll step fuel (step work)).map (work ++ ·) := by
  cases work with
  | nil => exact absurd rfl h
  | cons row rows => rfl

/-- More fuel does not change a result. -/
theorem unionAll_mono {step : List α → List α} {fuel fuel' : Nat} {work result : List α}
    (h : unionAll step fuel work = some result) (hle : fuel ≤ fuel') :
    unionAll step fuel' work = some result := by
  induction fuel generalizing fuel' work result with
  | zero =>
      cases work with
      | nil => simpa using h
      | cons row rows => simp [unionAll] at h
  | succ fuel ih =>
      obtain ⟨fuel', rfl⟩ : ∃ n, fuel' = n + 1 := ⟨fuel' - 1, by omega⟩
      cases work with
      | nil => simpa using h
      | cons row rows =>
          rw [unionAll, Option.map_eq_some_iff] at h ⊢
          obtain ⟨rest, hrest, rfl⟩ := h
          exact ⟨rest, ih hrest (by omega), rfl⟩

theorem unionAll_unique {step : List α → List α} {fuel fuel' : Nat} {work a b : List α}
    (ha : unionAll step fuel work = some a) (hb : unionAll step fuel' work = some b) : a = b := by
  have h := unionAll_mono ha (le_max_left fuel fuel')
  rw [unionAll_mono hb (le_max_right fuel fuel')] at h
  exact (Option.some.inj h).symm

section Reachability

/-! The rows a step adds are the successors of the working rows under `next`. -/

variable {step : List α → List α} {next : α → α → Prop}

/-- A result holds exactly the rows reachable from the base rows. -/
theorem mem_unionAll (hstep : ∀ work y, y ∈ step work ↔ ∃ x ∈ work, next x y) {fuel : Nat}
    {work result : List α} (h : unionAll step fuel work = some result) (y : α) :
    y ∈ result ↔ ∃ x ∈ work, ReflTransGen next x y := by
  induction fuel generalizing work result with
  | zero =>
      cases work with
      | nil => simp_all [unionAll]
      | cons row rows => simp [unionAll] at h
  | succ fuel ih =>
      by_cases hwork : work = []
      · subst hwork
        simp_all
      rw [unionAll_succ step fuel hwork, Option.map_eq_some_iff] at h
      obtain ⟨rest, hrest, rfl⟩ := h
      rw [List.mem_append, ih hrest]
      constructor
      · rintro (hy | ⟨x, hx, hxy⟩)
        · exact ⟨y, hy, .refl⟩
        · obtain ⟨w, hw, hwx⟩ := (hstep work x).mp hx
          exact ⟨w, hw, .head hwx hxy⟩
      · rintro ⟨x, hx, hxy⟩
        rcases hxy.cases_head with rfl | ⟨z, hxz, hzy⟩
        · exact .inl hx
        · exact .inr ⟨z, (hstep work z).mpr ⟨x, hx, hxz⟩, hzy⟩

/-- Queries over one relation, from base rows that differ in order and repetition only, stop after
equally many rounds. -/
theorem unionAll_congr {step' : List α → List α}
    (hstep : ∀ work y, y ∈ step work ↔ ∃ x ∈ work, next x y)
    (hstep' : ∀ work y, y ∈ step' work ↔ ∃ x ∈ work, next x y) {fuel : Nat}
    {work work' result : List α} (hwork : ∀ y, y ∈ work ↔ y ∈ work')
    (h : unionAll step fuel work = some result) :
    ∃ result', unionAll step' fuel work' = some result' := by
  have hempty : ∀ {l l' : List α}, (∀ y, y ∈ l ↔ y ∈ l') → l = [] → l' = [] := by
    rintro l l' hiff rfl
    exact List.eq_nil_iff_forall_not_mem.mpr fun y hy => List.not_mem_nil ((hiff y).mpr hy)
  induction fuel generalizing work work' result with
  | zero =>
      cases work with
      | nil => exact ⟨[], by rw [hempty hwork rfl, unionAll_nil]⟩
      | cons row rows => simp [unionAll] at h
  | succ fuel ih =>
      by_cases hnil : work = []
      · exact ⟨[], by rw [hempty hwork hnil, unionAll_nil]⟩
      have hnil' : work' ≠ [] := fun h' => hnil (hempty (fun y => (hwork y).symm) h')
      rw [unionAll_succ step fuel hnil, Option.map_eq_some_iff] at h
      obtain ⟨rest, hrest, -⟩ := h
      have hnext : ∀ y, y ∈ step work ↔ y ∈ step' work' := by
        intro y
        rw [hstep, hstep']
        exact exists_congr fun x => and_congr_left fun _ => hwork x
      obtain ⟨rest', hrest'⟩ := ih hnext hrest
      exact ⟨work' ++ rest', by rw [unionAll_succ step' fuel hnil', hrest', Option.map_some]⟩

/-- A query that stops has no infinite chain of successors from its base rows. -/
theorem Terminates.acc (hstep : ∀ work y, y ∈ step work ↔ ∃ x ∈ work, next x y) {work : List α}
    (h : Terminates step work) : ∀ x ∈ work, Acc (Function.swap next) x := by
  obtain ⟨fuel, result, h⟩ := h
  induction fuel generalizing work result with
  | zero =>
      cases work with
      | nil => simp
      | cons row rows => simp [unionAll] at h
  | succ fuel ih =>
      intro x hx
      rw [unionAll_succ step fuel (List.ne_nil_of_mem hx), Option.map_eq_some_iff] at h
      obtain ⟨rest, hrest, -⟩ := h
      exact ⟨x, fun y hxy => ih rest hrest y ((hstep work y).mpr ⟨x, hx, hxy⟩)⟩

theorem not_cycle_of_acc {x : α} (h : Acc (Function.swap next) x) {y : α}
    (hxy : ReflTransGen next x y) : ¬ TransGen next y y := by
  have hacc : Acc (TransGen (Function.swap next)) y := by
    apply Acc.transGen
    induction hxy with
    | refl => exact h
    | tail _ hstep ih => exact ih.inv hstep
  -- walking the cycle once more leads to an accessible row from which it starts again
  intro hcycle
  rw [← transGen_swap] at hcycle
  clear hxy
  induction hacc with
  | intro z _ ih => exact ih z hcycle hcycle

open Classical in
/-- When successors come from a finite set, the number of rows reachable from a row off every
cycle falls along each step, so only finitely many rounds find rows. -/
theorem terminates_of_acyclic (hstep : ∀ work y, y ∈ step work ↔ ∃ x ∈ work, next x y)
    (bound : Finset α) (hfinite : ∀ x y, next x y → y ∈ bound) {work : List α}
    (h : ∀ x ∈ work, ∀ y, ReflTransGen next x y → ¬ TransGen next y y) :
    Terminates step work := by
  let later (x : α) : Finset α := bound.filter fun y => TransGen next x y
  -- `y` is itself later than `x`, but off every cycle not later than itself
  have hfall : ∀ x y, next x y → ¬ TransGen next y y → (later y).card < (later x).card := by
    intro x y hxy hy
    apply Finset.card_lt_card
    rw [Finset.ssubset_iff_of_subset fun z hz => by
      rw [Finset.mem_filter] at hz ⊢
      exact ⟨hz.1, .head hxy hz.2⟩]
    exact ⟨y, Finset.mem_filter.mpr ⟨hfinite x y hxy, .single hxy⟩,
      fun hmem => hy (Finset.mem_filter.mp hmem).2⟩
  -- fewer than `n` later rows for each working row leave at most `n` rounds
  have hrounds : ∀ (n : Nat) (work : List α),
      (∀ x ∈ work, ∀ y, ReflTransGen next x y → ¬ TransGen next y y) →
      (∀ x ∈ work, (later x).card < n) → Terminates step work := by
    intro n
    induction n with
    | zero =>
        intro work _ hcard
        cases work with
        | nil => exact ⟨0, [], rfl⟩
        | cons row rows => exact absurd (hcard row List.mem_cons_self) (Nat.not_lt_zero _)
    | succ n ih =>
        intro work hacyclic hcard
        by_cases hwork : work = []
        · exact ⟨0, [], by rw [hwork, unionAll_nil]⟩
        obtain ⟨fuel, result, hresult⟩ := ih (step work)
          (fun y hy z hyz => by
            obtain ⟨x, hx, hxy⟩ := (hstep work y).mp hy
            exact hacyclic x hx z (.head hxy hyz))
          (fun y hy => by
            obtain ⟨x, hx, hxy⟩ := (hstep work y).mp hy
            have hlt := hfall x y hxy (hacyclic x hx y (.single hxy))
            have hle := hcard x hx
            omega)
        exact ⟨fuel + 1, work ++ result, by rw [unionAll_succ step fuel hwork, hresult]; rfl⟩
  refine hrounds (bound.card + 1) work h fun x _ => ?_
  exact Nat.lt_succ_of_le (Finset.card_filter_le _ _)

/-- A recursive query over a finite relation stops if and only if no cycle is reachable from its
base rows. -/
theorem terminates_iff_acyclic (hstep : ∀ work y, y ∈ step work ↔ ∃ x ∈ work, next x y)
    (bound : Finset α) (hfinite : ∀ x y, next x y → y ∈ bound) (work : List α) :
    Terminates step work ↔ ∀ x ∈ work, ∀ y, ReflTransGen next x y → ¬ TransGen next y y :=
  ⟨fun h x hx _ hxy => not_cycle_of_acc (h.acc hstep x hx) hxy,
    terminates_of_acyclic hstep bound hfinite⟩

end Reachability

end YellowstoneStream.Reasoning

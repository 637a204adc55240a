import Mathlib.Logic.Function.Basic
import YellowstoneStream.Reasoning.StepRun

/-!
# A value that several tasks replace

Each task does its operations one after another, and each operation in two steps: it reads the
shared value, and later sends what it makes of what it read.  A send undoes what others sent in
between.  What can be seen of the value through a view is kept in order as long as no send changes
that view while another task holds a reading it depends on.
-/

namespace YellowstoneStream.Reasoning

structure SharedValue (Task Op σ : Type) where
  value : σ
  ahead : Task → List Op
  reading : Task → Option (Op × σ)
  -- all operations sent, in the order of their sends
  sent : List Op

inductive HalfStep (Task : Type) where
  | read (task : Task)
  | send (task : Task)
  deriving DecidableEq, Repr

section Exec

variable {Task Op σ : Type} [DecidableEq Task] (apply : Op → σ → σ)

def SharedValue.initial (value : σ) (ahead : Task → List Op) : SharedValue Task Op σ :=
  ⟨value, ahead, fun _ => none, []⟩

def SharedValue.step (x : SharedValue Task Op σ) : HalfStep Task → Option (SharedValue Task Op σ)
  | .read task =>
      match x.reading task, x.ahead task with
      | none, op :: rest =>
          some { x with
            ahead := Function.update x.ahead task rest
            reading := Function.update x.reading task (some (op, x.value)) }
      | _, _ => none
  | .send task =>
      (x.reading task).map fun (op, old) =>
        { x with
          value := apply op old
          reading := Function.update x.reading task none
          sent := x.sent ++ [op] }

/-- All tasks are done. -/
def SharedValue.Finished (x : SharedValue Task Op σ) : Prop :=
  ∀ task, x.ahead task = [] ∧ x.reading task = none

/-- What is sent does not conflict with what any other task holds a reading for. -/
def SharedValue.Safe (conflict : Op → Op → Prop) (x : SharedValue Task Op σ) :
    HalfStep Task → Prop
  | .read _ => True
  | .send task =>
      ∀ r ∈ x.reading task, ∀ other, other ≠ task → ∀ r' ∈ x.reading other,
        ¬ conflict r.1 r'.1

variable {apply}

/-- What each half step does. -/
theorem SharedValue.step_cases {x y : SharedValue Task Op σ} {i : HalfStep Task}
    (h : x.step apply i = some y) :
    (∃ task op rest, i = .read task ∧ x.reading task = none ∧ x.ahead task = op :: rest ∧
      y = ⟨x.value, Function.update x.ahead task rest,
        Function.update x.reading task (some (op, x.value)), x.sent⟩) ∨
    (∃ task op old, i = .send task ∧ x.reading task = some (op, old) ∧
      y = ⟨apply op old, x.ahead, Function.update x.reading task none, x.sent ++ [op]⟩) := by
  cases i with
  | read task =>
      cases hreading : x.reading task with
      | some r => simp [SharedValue.step, hreading] at h
      | none =>
          cases hahead : x.ahead task with
          | nil => simp [SharedValue.step, hreading, hahead] at h
          | cons op rest =>
              refine .inl ⟨task, op, rest, rfl, hreading, hahead, ?_⟩
              simpa [SharedValue.step, hreading, hahead] using h.symm
  | send task =>
      rw [SharedValue.step, Option.map_eq_some_iff] at h
      obtain ⟨⟨op, old⟩, hreading, rfl⟩ := h
      exact .inr ⟨task, op, old, rfl, hreading, rfl⟩

end Exec

/-! ## The order of sends -/

section Order

variable {Task Op σ : Type} [DecidableEq Task] {apply : Op → σ → σ}

/-- A task's operations: those sent, the one it reads for, and those ahead. -/
def SharedValue.Keeps (owner : Op → Task) (plan : Task → List Op) (x : SharedValue Task Op σ) :
    Prop :=
  ∀ task, x.sent.filter (fun op => owner op = task) ++
    ((x.reading task).map Prod.fst).toList ++ x.ahead task = plan task

theorem SharedValue.keeps_initial (owner : Op → Task) (value : σ) (plan : Task → List Op) :
    (SharedValue.initial value plan).Keeps owner plan := fun _ => rfl

theorem SharedValue.Keeps.step {owner : Op → Task} {plan : Task → List Op}
    (howner : ∀ task, ∀ op ∈ plan task, owner op = task) {x y : SharedValue Task Op σ}
    {i : HalfStep Task} (h : x.Keeps owner plan) (hstep : x.step apply i = some y) :
    y.Keeps owner plan := by
  obtain ⟨task, op, rest, rfl, hreading, hahead, rfl⟩ | ⟨task, op, old, rfl, hreading, rfl⟩ :=
    step_cases hstep
  · -- what was ahead of the task is now between its two half steps
    intro other
    have hother := h other
    rcases eq_or_ne other task with rfl | hne
    · rw [hreading, hahead] at hother
      simpa using hother
    · simpa [Function.update_of_ne hne] using hother
  · -- and here it joins what the task has written
    have hmem : op ∈ plan task := by
      rw [← h task, hreading]
      simp
    have hop := howner task op hmem
    intro other
    have hother := h other
    rcases eq_or_ne other task with rfl | hne
    · rw [hreading] at hother
      simpa [hop] using hother
    · have hne' : owner op ≠ other := fun heq => hne (heq.symm.trans hop)
      simpa [Function.update_of_ne hne, hne'] using hother

/-- Once all is done, each task's operations were sent in their order. -/
theorem SharedValue.Keeps.finished {owner : Op → Task} {plan : Task → List Op}
    {x : SharedValue Task Op σ} (h : x.Keeps owner plan) (hfinished : x.Finished) (task : Task) :
    x.sent.filter (fun op => owner op = task) = plan task := by
  have htask := h task
  rw [(hfinished task).1, (hfinished task).2] at htask
  simpa using htask

/-- Sends only add to what was sent. -/
theorem SharedValue.sent_step {x y : SharedValue Task Op σ} {i : HalfStep Task}
    (hstep : x.step apply i = some y) : x.sent <+: y.sent := by
  obtain ⟨_, _, _, _, _, _, rfl⟩ | ⟨_, op, _, _, _, rfl⟩ := step_cases hstep
  · exact List.prefix_refl _
  · exact List.prefix_append _ _

/-- Operations that are done one after another never conflict. -/
theorem SharedValue.safeRun_sequential {conflict : Op → Op → Prop} {x : SharedValue Task Op σ}
    (hidle : ∀ task, x.reading task = none) (tasks : List Task) :
    SafeRun (SharedValue.step apply) (SharedValue.Safe conflict) x
      (tasks.flatMap fun task => [.read task, .send task]) := by
  induction tasks generalizing x with
  | nil => exact trivial
  | cons task tasks ih =>
      refine ⟨trivial, fun y hy => ?_⟩
      obtain ⟨_, op, rest, ⟨⟩, -, -, rfl⟩ | ⟨_, _, _, heq, -⟩ := step_cases hy
      · refine ⟨fun r _ other hother r' hr' => ?_, fun z hz => ih fun other => ?_⟩
        · simp only [Function.update_of_ne hother, hidle other, Option.mem_def, reduceCtorEq] at hr'
        · obtain ⟨_, _, _, heq, -⟩ | ⟨_, _, _, ⟨⟩, -, rfl⟩ := step_cases hz
          · cases heq
          · rcases eq_or_ne other task with rfl | hother
            · exact Function.update_self ..
            · simp only [Function.update_of_ne hother, hidle other]
      · cases heq

end Order

/-! ## Views -/

/-- Part of the value, how operations act on it, which of them may change it, and of which the
outcome depends on the part that was read. -/
structure View {Op σ : Type} (apply : Op → σ → σ) (ρ : Type) where
  view : σ → ρ
  act : Op → ρ → ρ
  view_apply : ∀ op value, view (apply op value) = act op (view value)
  changes : Op → Bool
  keeps : ∀ op part, changes op = false → act op part = part
  depends : Op → Bool
  forgets : ∀ op part part', depends op = false → act op part = act op part'

section View

variable {Task Op σ ρ : Type} {apply : Op → σ → σ} (V : View apply ρ)

/-- The view is what the operations sent make of it one after another, and what was read is still
current. -/
structure View.Current (start : ρ) (x : SharedValue Task Op σ) : Prop where
  value : V.view x.value = x.sent.foldl (fun part op => V.act op part) start
  reading : ∀ task, ∀ r ∈ x.reading task, V.depends r.1 = true → V.view r.2 = V.view x.value

variable {V}

theorem View.current_initial (value : σ) (plan : Task → List Op) :
    V.Current (V.view value) (SharedValue.initial value plan) := ⟨rfl, nofun⟩

variable [DecidableEq Task]

theorem View.Current.step {conflict : Op → Op → Prop}
    (hconflict : ∀ op op', V.changes op = true → V.depends op' = true → conflict op op')
    {start : ρ} {x y : SharedValue Task Op σ} {i : HalfStep Task} (h : V.Current start x)
    (hsafe : x.Safe conflict i) (hstep : x.step apply i = some y) : V.Current start y := by
  obtain ⟨task, op, rest, rfl, -, -, rfl⟩ | ⟨task, op, old, rfl, hreading, rfl⟩ :=
    SharedValue.step_cases hstep
  · refine ⟨h.value, fun other r hr hdepends => ?_⟩
    rcases eq_or_ne other task with rfl | hne
    · simp only [Function.update_self, Option.mem_some_iff] at hr
      rw [← hr]
    · simp only [Function.update_of_ne hne] at hr
      exact h.reading other r hr hdepends
  · -- what the task read is as good as what it would read now
    have hnew : V.view (apply op old) = V.act op (V.view x.value) := by
      rw [V.view_apply]
      cases hdepends : V.depends op with
      | true => rw [h.reading task (op, old) hreading hdepends]
      | false => exact V.forgets op _ _ hdepends
    refine ⟨?_, fun other r hr hdepends => ?_⟩
    · rw [List.foldl_append, ← h.value]
      exact hnew
    · rcases eq_or_ne other task with rfl | hne
      · simp only [Function.update_self, Option.mem_def, reduceCtorEq] at hr
      · simp only [Function.update_of_ne hne] at hr
        have hunchanged : V.changes op = false := by
          by_contra hchanges
          exact hsafe (op, old) hreading other hne r hr
            (hconflict op r.1 (Bool.not_eq_false _ ▸ hchanges) hdepends)
        rw [hnew, V.keeps op _ hunchanged]
        exact h.reading other r hr hdepends

/-- A part of the value that an operation either sets or leaves. -/
def View.overwriting (view : σ → ρ) (sets : Op → Option ρ)
    (h : ∀ op value, view (apply op value) = (sets op).getD (view value)) : View apply ρ where
  view := view
  act op part := (sets op).getD part
  view_apply := h
  changes op := (sets op).isSome
  keeps op part hkeeps := by
    rw [Option.not_isSome_iff_eq_none.mp (Bool.eq_false_iff.mp hkeeps), Option.getD_none]
  depends op := (sets op).isNone
  forgets op part part' hsets := by
    obtain ⟨set, hset⟩ := Option.isSome_iff_exists.mp (Option.isNone_eq_false_iff.mp hsets)
    rw [hset, Option.getD_some, Option.getD_some]

omit [DecidableEq Task] in
/-- What was set last is what is there. -/
theorem View.Current.overwritten {view : σ → ρ} {sets : Op → Option ρ}
    {hsets : ∀ op value, view (apply op value) = (sets op).getD (view value)} {start : ρ}
    {x : SharedValue Task Op σ} (h : (View.overwriting view sets hsets).Current start x) :
    view x.value = (x.sent.filterMap sets).getLastD start := by
  have hfold (ops : List Op) (part : ρ) :
      ops.foldl (fun part op => (sets op).getD part) part = (ops.filterMap sets).getLastD part := by
    induction ops generalizing part with
    | nil => rfl
    | cons op ops ih =>
        rw [List.foldl_cons, ih]
        cases hop : sets op with
        | none => rw [List.filterMap_cons_none hop, Option.getD_none]
        | some set => rw [List.filterMap_cons_some hop, Option.getD_some, List.getLastD_cons]
  exact h.value.trans (hfold x.sent start)

end View

end YellowstoneStream.Reasoning

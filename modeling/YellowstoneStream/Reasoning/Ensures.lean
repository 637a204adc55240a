import Mathlib.Data.List.Forall2
import Mathlib.Tactic.Cases

/-! Postconditions of computations that return a value or fail. -/

namespace YellowstoneStream.Reasoning

variable {ε α β : Type}

/-- What the computation returns satisfies the condition; it may also fail. -/
def Ensures (x : Except ε α) (Q : α → Prop) : Prop := ∀ a, x = .ok a → Q a

/-- A check in front of a computation passes or fails. -/
theorem check_eq_ok_iff {fails : Prop} [Decidable fails] {e : ε} {x : Except ε α} {a : α} :
    (if fails then .error e else x) = .ok a ↔ ¬ fails ∧ x = .ok a := by
  by_cases h : fails
  · rw [if_pos h]
    exact ⟨nofun, fun hpassed => absurd h hpassed.1⟩
  · rw [if_neg h]
    exact ⟨fun hok => ⟨h, hok⟩, And.right⟩

theorem ok_bind (a : α) (f : α → Except ε β) : Except.ok a >>= f = f a := rfl

theorem bind_eq_ok_iff {x : Except ε α} {f : α → Except ε β} {b : β} :
    x >>= f = .ok b ↔ ∃ a, x = .ok a ∧ f a = .ok b := by
  cases x with
  | error e => exact ⟨nofun, nofun⟩
  | ok a =>
      constructor
      · exact fun h => ⟨a, rfl, h⟩
      · rintro ⟨_, ⟨⟩, h⟩
        exact h

theorem mapError_eq_ok_iff {ε' : Type} {f : ε → ε'} {x : Except ε α} {a : α} :
    x.mapError f = .ok a ↔ x = .ok a := by
  cases x with
  | error e => exact ⟨nofun, nofun⟩
  | ok b => exact ⟨fun h => congrArg _ (Except.ok.inj h), fun h => congrArg _ (Except.ok.inj h)⟩

theorem check_bind_eq_ok_iff {x : Except ε Unit} {f : Unit → Except ε β} {b : β} :
    x >>= f = .ok b ↔ x = .ok () ∧ f () = .ok b :=
  bind_eq_ok_iff.trans ⟨fun ⟨_, h⟩ => h, fun h => ⟨(), h⟩⟩

/-- A loop that stops at the first failure returns one result for each element. -/
theorem mapM_eq_ok_iff {f : α → Except ε β} {as : List α} {bs : List β} :
    as.mapM f = .ok bs ↔ List.Forall₂ (fun a b => f a = .ok b) as bs := by
  induction as generalizing bs with
  | nil =>
      rw [List.mapM_nil, List.forall₂_nil_left_iff]
      exact ⟨fun h => (Except.ok.inj h).symm, fun h => congrArg Except.ok h.symm⟩
  | cons a as ih =>
      rw [List.mapM_cons, bind_eq_ok_iff, List.forall₂_cons_left_iff]
      constructor
      · rintro ⟨b, hb, h⟩
        obtain ⟨rest, hrest, ⟨⟩⟩ := bind_eq_ok_iff.mp h
        exact ⟨b, rest, hb, ih.mp hrest, rfl⟩
      · rintro ⟨b, rest, hb, hrest, rfl⟩
        exact ⟨b, hb, bind_eq_ok_iff.mpr ⟨rest, ih.mpr hrest, rfl⟩⟩

/-- A loop all of whose steps are partial functions with a known domain. -/
theorem mapM_eq_ok_iff_map {f : α → Except ε β} {p : α → Prop} {g : α → β} {as : List α}
    (h : ∀ a ∈ as, ∀ b, f a = .ok b ↔ p a ∧ b = g a) {bs : List β} :
    as.mapM f = .ok bs ↔ (∀ a ∈ as, p a) ∧ bs = as.map g := by
  rw [mapM_eq_ok_iff]
  constructor
  · intro hall
    induction hall with
    | nil => exact ⟨nofun, rfl⟩
    | cons hb _ ih =>
        obtain ⟨hp, rfl⟩ := (h _ List.mem_cons_self _).mp hb
        obtain ⟨hrest, rfl⟩ := ih fun a ha => h a (List.mem_cons_of_mem _ ha)
        exact ⟨List.forall_mem_cons.mpr ⟨hp, hrest⟩, rfl⟩
  · rintro ⟨hp, rfl⟩
    rw [List.forall₂_map_right_iff, List.forall₂_same]
    exact fun a ha => (h a ha _).mpr ⟨hp a ha, rfl⟩

/-- Such a loop fails with the first failure. -/
theorem mapM_eq_error_iff {f : α → Except ε β} {as : List α} {e : ε} :
    as.mapM f = .error e ↔ ∃ before a after, as = before ++ a :: after ∧
      (∀ b ∈ before, ∃ r, f b = .ok r) ∧ f a = .error e := by
  induction as with
  | nil =>
      constructor
      · nofun
      · rintro ⟨before, a, after, hnil, -⟩
        cases before <;> cases hnil
  | cons first rest ih =>
      rw [List.mapM_cons]
      cases hfirst : f first with
      | error e' =>
          constructor
          · rintro ⟨⟩
            exact ⟨[], first, rest, rfl, nofun, hfirst⟩
          · rintro ⟨before, a, after, hsplit, hbefore, herr⟩
            cases before with
            | nil =>
                cases hsplit
                rw [hfirst] at herr
                cases herr
                rfl
            | cons b before =>
                cases hsplit
                obtain ⟨r, hr⟩ := hbefore first List.mem_cons_self
                rw [hfirst] at hr
                cases hr
      | ok r =>
          have hbind : (Except.ok r >>= fun r => rest.mapM f >>= fun rs => pure (r :: rs)) =
              Except.error e ↔ rest.mapM f = .error e := by
            rw [ok_bind]
            cases rest.mapM f with
            | error e' => exact ⟨fun h => congrArg _ (Except.error.inj h), id⟩
            | ok rs => exact ⟨nofun, nofun⟩
          rw [hbind, ih]
          constructor
          · rintro ⟨before, a, after, rfl, hbefore, herr⟩
            exact ⟨first :: before, a, after, rfl,
              List.forall_mem_cons.mpr ⟨⟨r, hfirst⟩, hbefore⟩, herr⟩
          · rintro ⟨before, a, after, hsplit, hbefore, herr⟩
            cases before with
            | nil =>
                cases hsplit
                rw [hfirst] at herr
                cases herr
            | cons b before =>
                cases hsplit
                exact ⟨before, a, after, rfl, (List.forall_mem_cons.mp hbefore).2, herr⟩

theorem forM_eq_ok_iff {f : α → Except ε Unit} {as : List α} :
    forM as f = .ok () ↔ ∀ a ∈ as, f a = .ok () := by
  induction as with
  | nil => exact ⟨nofun, fun _ => rfl⟩
  | cons a as ih =>
      rw [List.forM_cons, check_bind_eq_ok_iff, List.forall_mem_cons, ← ih]

theorem exists_of_forM_eq_error {f : α → Except ε Unit} {as : List α} {e : ε}
    (h : forM as f = .error e) : ∃ a ∈ as, f a = .error e := by
  induction as with
  | nil => cases h
  | cons a as ih =>
      rw [List.forM_cons] at h
      cases hfirst : f a with
      | error e' =>
          rw [hfirst] at h
          cases h
          exact ⟨a, List.mem_cons_self, hfirst⟩
      | ok value =>
          rw [hfirst] at h
          obtain ⟨a', ha', he⟩ := ih h
          exact ⟨a', List.mem_cons_of_mem _ ha', he⟩

namespace Ensures

variable {x : Except ε α} {P Q : α → Prop}

theorem ok {a : α} (h : Q a) : Ensures (.ok a : Except ε α) Q := by
  rintro _ ⟨⟩
  exact h

theorem error (e : ε) : Ensures (.error e : Except ε α) Q := nofun

theorem trivial : Ensures x fun _ => True := fun _ _ => True.intro

theorem self : Ensures x fun a => x = .ok a := fun _ h => h

theorem mono (h : Ensures x P) (hPQ : ∀ a, P a → Q a) : Ensures x Q :=
  fun a ha => hPQ a (h a ha)

theorem bind {f : α → Except ε β} {R : β → Prop} (hx : Ensures x Q)
    (hf : ∀ a, Q a → Ensures (f a) R) : Ensures (x >>= f) R := by
  intro b hb
  cases x with
  | error e => cases hb
  | ok a => exact hf a (hx a rfl) b hb

theorem check {fails : Prop} [Decidable fails] {e : ε} (h : ¬ fails → Ensures x Q) :
    Ensures (if fails then .error e else x) Q := by
  intro a ha
  obtain ⟨hpassed, ha⟩ := check_eq_ok_iff.mp ha
  exact h hpassed a ha

/-- A fold over a nonempty list establishes what each of its steps establishes. -/
theorem foldlM_of_ne_nil {step : β → α → Except ε β} {I : β → Prop}
    (hstep : ∀ b a, Ensures (step b a) I) {as : List α} (hne : as ≠ []) (init : β) :
    Ensures (as.foldlM step init) I := by
  induction as generalizing init with
  | nil => exact absurd rfl hne
  | cons a as ih =>
      rw [List.foldlM_cons]
      refine bind (hstep init a) fun b hb => ?_
      cases as with
      | nil => exact ok hb
      | cons a' as => exact ih (List.cons_ne_nil a' as) b

end Ensures

end YellowstoneStream.Reasoning

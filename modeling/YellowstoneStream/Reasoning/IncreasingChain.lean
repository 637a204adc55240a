import Mathlib.Logic.Relation
import Mathlib.Order.Bounds.Basic

/-!
# Chains of increasing links

Links that increase and that leave each point at most once form chains.  The greatest point of a
chain is its end, and is the same seen from every point on the way.
-/

open Relation

namespace YellowstoneStream.Reasoning

variable {α : Type} {link : α → α → Prop}

/-- Reached from `anchor`, and with no link that leads on. -/
def IsChainEnd (link : α → α → Prop) (anchor last : α) : Prop :=
  ReflTransGen link anchor last ∧ ∀ next, ¬ link last next

theorem IsChainEnd.unique (huniq : Relator.RightUnique link) {anchor a b : α}
    (ha : IsChainEnd link anchor a) (hb : IsChainEnd link anchor b) : a = b := by
  rcases ReflTransGen.total_of_right_unique huniq ha.1 hb.1 with h | h
  · rcases h.cases_head with rfl | ⟨next, hnext, -⟩
    · rfl
    · exact absurd hnext (ha.2 next)
  · rcases h.cases_head with rfl | ⟨next, hnext, -⟩
    · rfl
    · exact absurd hnext (hb.2 next)

/-- Where no reached point has two links, of two reached points one leads to the other. -/
theorem total_of_unforked {anchor a b : α}
    (huniq : ∀ p x y, ReflTransGen link anchor p → link p x → link p y → x = y)
    (ha : ReflTransGen link anchor a) (hb : ReflTransGen link anchor b) :
    ReflTransGen link a b ∨ ReflTransGen link b a := by
  induction ha with
  | refl => exact .inl hb
  | @tail p x hp hlink ih =>
      rcases ih with hon | hback
      · rcases hon.cases_head with rfl | ⟨y, hy, hrest⟩
        · exact .inr (.single hlink)
        · exact .inl (huniq p x y hp hlink hy ▸ hrest)
      · exact .inr (hback.tail hlink)

variable [PartialOrder α]

theorem le_of_reaches (hlt : ∀ a b, link a b → a < b) {a b : α} (h : ReflTransGen link a b) :
    a ≤ b := by
  induction h with
  | refl => exact le_rfl
  | tail _ hlink ih => exact ih.trans (hlt _ _ hlink).le

theorem isChainEnd_of_isGreatest (hlt : ∀ a b, link a b → a < b) {anchor last : α}
    (h : IsGreatest {s | ReflTransGen link anchor s} last) : IsChainEnd link anchor last := by
  refine ⟨h.1, fun next hnext => ?_⟩
  have hle : next ≤ last := h.2 (show ReflTransGen link anchor next from h.1.tail hnext)
  exact absurd hle (hlt _ _ hnext).not_ge

/-- Whoever starts on the way comes to the same greatest point. -/
theorem isGreatest_of_reaches (huniq : Relator.RightUnique link) (hlt : ∀ a b, link a b → a < b)
    {anchor mid last : α} (hmid : ReflTransGen link anchor mid)
    (hlast : IsGreatest {s | ReflTransGen link mid s} last) :
    IsGreatest {s | ReflTransGen link anchor s} last := by
  refine ⟨hmid.trans hlast.1, fun s hs => ?_⟩
  rcases ReflTransGen.total_of_right_unique huniq hmid hs with hafter | hbefore
  · exact hlast.2 hafter
  · exact (le_of_reaches hlt hbefore).trans (le_of_reaches hlt hlast.1)

end YellowstoneStream.Reasoning

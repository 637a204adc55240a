import YellowstoneStream.Reasoning.IncreasingChain

/-!
# Walks that take the least link

From each point a greedy walk goes to the least linked one, as long as that is above it.  It ends
at the greatest of all reachable points unless some detour, which leaves it at a fork or where it
stops, climbs above it.
-/

open Relation

namespace YellowstoneStream.Reasoning

variable {α : Type} [LinearOrder α] {link : α → α → Prop}

/-- The greedy step: to the least linked point, which must lie above. -/
def LeastStep (link : α → α → Prop) (a b : α) : Prop :=
  IsLeast {c | link a c} b ∧ a < b

/-- Every point reached over a link that the greedy walk does not take is at most some point of the
walk. -/
def NoDetourAbove (link : α → α → Prop) (start : α) : Prop :=
  ∀ fork child s, ReflTransGen (LeastStep link) start fork → link fork child →
    ¬ LeastStep link fork child → ReflTransGen link child s →
    ∃ b, ReflTransGen (LeastStep link) start b ∧ s ≤ b

theorem leastStep_rightUnique : Relator.RightUnique (LeastStep link) :=
  fun _ _ _ hb hc => hb.1.unique hc.1

theorem leastStep_lt (a b : α) (h : LeastStep link a b) : a < b := h.2

theorem reaches_of_branch {a b : α} (h : ReflTransGen (LeastStep link) a b) :
    ReflTransGen link a b :=
  h.lift id fun _ _ hstep => hstep.1.1

/-- The end of a greedy walk is the greatest of its points. -/
theorem IsChainEnd.greatest_of_branch {start last : α}
    (h : IsChainEnd (LeastStep link) start last) {b : α}
    (hb : ReflTransGen (LeastStep link) start b) : b ≤ last := by
  rcases ReflTransGen.total_of_right_unique leastStep_rightUnique hb h.1 with hrest | hrest
  · exact le_of_reaches leastStep_lt hrest
  · rcases hrest.cases_head with rfl | ⟨next, hnext, -⟩
    · exact le_rfl
    · exact absurd hnext (h.2 next)

/-- A path either stays on the walk or leaves it for a detour. -/
theorem below_branch_of_noDetour {start s : α} (h : NoDetourAbove link start) {a : α}
    (ha : ReflTransGen (LeastStep link) start a) (hs : ReflTransGen link a s) :
    ∃ b, ReflTransGen (LeastStep link) start b ∧ s ≤ b := by
  induction hs using ReflTransGen.head_induction_on with
  | refl => exact ⟨s, ha, le_rfl⟩
  | @head a c hlink hrest ih =>
      by_cases hstep : LeastStep link a c
      · exact ih (ha.tail hstep)
      · exact h a c s ha hlink hstep hrest

/-- The walk ends at the greatest reachable point if and only if no detour climbs above it. -/
theorem isGreatest_end_iff {start last greatest : α}
    (hend : IsChainEnd (LeastStep link) start last)
    (hgreatest : IsGreatest {s | ReflTransGen link start s} greatest) :
    greatest = last ↔ NoDetourAbove link start := by
  constructor
  · rintro rfl fork child s hfork hlink - hs
    have hreach : ReflTransGen link start s :=
      (reaches_of_branch hfork).trans (.head hlink hs)
    exact ⟨greatest, hend.1, hgreatest.2 hreach⟩
  · intro hdetour
    obtain ⟨b, hb, hle⟩ := below_branch_of_noDetour hdetour .refl hgreatest.1
    apply le_antisymm (hle.trans (hend.greatest_of_branch hb))
    exact hgreatest.2 (show ReflTransGen link start last from reaches_of_branch hend.1)

/-- No point of the greedy walk that is linked to itself or downwards is linked upwards as well. -/
def NoLinkHidden (link : α → α → Prop) (start : α) : Prop :=
  ∀ point low high, ReflTransGen (LeastStep link) start point → link point low → low ≤ point →
    link point high → high ≤ point

/-- The end of a greedy walk is not linked upwards if and only if no such link is hidden. -/
theorem end_not_linked_up_iff {start last : α} (hend : IsChainEnd (LeastStep link) start last)
    (hleast : ∀ next, link last next → ∃ least, IsLeast {c | link last c} least) :
    (∀ next, link last next → next ≤ last) ↔ NoLinkHidden link start := by
  constructor
  · intro hstop point low high hpoint hlow hle hhigh
    -- the walk ends where a link does not lead up
    have hnone : ∀ next, ¬ LeastStep link point next := fun next hnext =>
      absurd (hnext.2.trans_le (hnext.1.2 hlow)) (not_lt_of_ge hle)
    obtain rfl := hend.unique leastStep_rightUnique ⟨hpoint, hnone⟩
    exact hstop high hhigh
  · intro hhidden next hnext
    obtain ⟨least, hmin⟩ := hleast next hnext
    rcases le_or_gt least last with hle | hgt
    · exact hhidden last least next hend.1 hmin.1 hle hnext
    · exact absurd ⟨hmin, hgt⟩ (hend.2 least)

/-- Increasing links that fork nowhere leave no detour. -/
theorem noDetourAbove_of_increasing (huniq : Relator.RightUnique link)
    (hlt : ∀ a b, link a b → a < b) (start : α) : NoDetourAbove link start := by
  intro fork child s _ hlink hstep
  refine absurd ⟨⟨hlink, fun c hc => ?_⟩, hlt _ _ hlink⟩ hstep
  rw [huniq hlink hc]

end YellowstoneStream.Reasoning

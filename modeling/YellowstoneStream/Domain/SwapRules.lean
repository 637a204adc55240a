import YellowstoneStream.Domain.Decoded

/-!
# The rules of swap inference

The comment on `infer_swap_from_balance_deltas` states four rules about accounts; the code counts
entries and never compares the amounts.  The rules are stated here over the accounts of a list, and
the lists on which the code follows them are found exactly.
-/

namespace YellowstoneStream.Domain

def changed (deltas : List TokenBalanceDelta) : List TokenBalanceDelta :=
  deltas.filter fun d => d.change ≠ 0

/-- The four rules, read over every entry of the two accounts that changes. -/
structure SwapRules (deltas : List TokenBalanceDelta) (loser gainer : String) : Prop where
  distinct : loser ≠ gainer
  accounts : ∀ account, (∃ d ∈ changed deltas, d.account = account) ↔
    account = loser ∨ account = gainer
  loses : ∀ d ∈ changed deltas, d.account = loser → 0 < d.change
  gains : ∀ d ∈ changed deltas, d.account = gainer → d.change < 0
  mints : ∀ d ∈ changed deltas, ∀ e ∈ changed deltas, d.account = loser → e.account = gainer →
    d.mint ≠ e.mint
  amounts : ∀ d ∈ changed deltas, ∀ e ∈ changed deltas, d.account = loser → e.account = gainer →
    d.change.natAbs = e.change.natAbs

def AllowsSwap (deltas : List TokenBalanceDelta) : Prop :=
  ∃ loser gainer, SwapRules deltas loser gainer

/-- The swap takes its sides from the only losing and the only gaining entry. -/
def SidesOf (deltas : List TokenBalanceDelta) (swap : DexSwap) : Prop :=
  ∃ losing gaining, (deltas.filter fun d => 0 < d.change) = [losing] ∧
    (deltas.filter fun d => d.change < 0) = [gaining] ∧
    swap.tokenIn = losing.mint ∧ swap.tokenInAmount = losing.change.natAbs ∧
    swap.tokenOut = gaining.mint ∧ swap.tokenOutAmount = gaining.change.natAbs

/-- Two entries change, one of them losing and the other gaining another mint, but they belong to
one account or move different amounts. -/
def MisjudgedPair (deltas : List TokenBalanceDelta) : Prop :=
  ∃ losing gaining, (changed deltas).Perm [losing, gaining] ∧
    0 < losing.change ∧ gaining.change < 0 ∧ losing.mint ≠ gaining.mint ∧
    (losing.account = gaining.account ∨ losing.change.natAbs ≠ gaining.change.natAbs)

/-- More than two entries change: those of one account all lose some amount, those of another one
all gain it, and no mint is on both sides. -/
def RepeatedLegs (deltas : List TokenBalanceDelta) : Prop :=
  ∃ losing gaining : List TokenBalanceDelta, ∃ loser gainer : String, ∃ amount : Int,
    (changed deltas).Perm (losing ++ gaining) ∧ 2 < losing.length + gaining.length ∧
    losing ≠ [] ∧ gaining ≠ [] ∧ loser ≠ gainer ∧ 0 < amount ∧
    (∀ d ∈ losing, d.account = loser ∧ d.change = amount) ∧
    (∀ d ∈ gaining, d.account = gainer ∧ d.change = -amount) ∧
    ∀ d ∈ losing, ∀ e ∈ gaining, d.mint ≠ e.mint

section Rules

variable {deltas : List TokenBalanceDelta} {loser gainer : String}
  {losing gaining d : TokenBalanceDelta}

theorem mem_changed : d ∈ changed deltas ↔ d ∈ deltas ∧ d.change ≠ 0 := by
  simp [changed]

theorem nonZeroDeltas_of_fits (fits : ∀ d ∈ deltas, d.FitsI64) :
    nonZeroDeltas deltas = changed deltas := by
  refine List.filter_congr fun d hd => ?_
  rw [decide_eq_decide]
  exact TokenBalanceDelta.delta_ne_zero_of_fits (fits d hd)

/-- The entries that a swap is read from, over the integers. -/
structure ChangedPair (deltas : List TokenBalanceDelta) (losing gaining : TokenBalanceDelta) :
    Prop where
  pair : (changed deltas).Perm [losing, gaining]
  loses : 0 < losing.change
  gains : gaining.change < 0
  mints : losing.mint ≠ gaining.mint

theorem changedPair_iff (fits : ∀ d ∈ deltas, d.FitsI64) :
    CleanPair deltas losing gaining ↔ ChangedPair deltas losing gaining := by
  have hnonzero := nonZeroDeltas_of_fits fits
  have fitsOf : ∀ d ∈ [losing, gaining], (changed deltas).Perm [losing, gaining] → d.FitsI64 :=
    fun d hd hperm => fits d (mem_changed.mp (hperm.mem_iff.mpr hd)).1
  constructor
  · intro h
    have hperm : (changed deltas).Perm [losing, gaining] := hnonzero ▸ h.pair
    have hl := fitsOf losing List.mem_cons_self hperm
    have hg := fitsOf gaining (List.mem_cons_of_mem _ List.mem_cons_self) hperm
    exact ⟨hperm, (TokenBalanceDelta.delta_pos_of_fits hl).mp h.loses,
      (TokenBalanceDelta.delta_neg_of_fits hg).mp h.gains, h.mints⟩
  · intro h
    have hl := fitsOf losing List.mem_cons_self h.pair
    have hg := fitsOf gaining (List.mem_cons_of_mem _ List.mem_cons_self) h.pair
    exact ⟨hnonzero.symm ▸ h.pair, (TokenBalanceDelta.delta_pos_of_fits hl).mpr h.loses,
      (TokenBalanceDelta.delta_neg_of_fits hg).mpr h.gains, h.mints⟩

theorem ChangedPair.mem_iff (h : ChangedPair deltas losing gaining) :
    d ∈ changed deltas ↔ d = losing ∨ d = gaining := by
  rw [h.pair.mem_iff, List.mem_pair]

/-- Entries that change and split into two legs, one for each account, follow the rules. -/
theorem swapRules_of_legs {ls gs : List TokenBalanceDelta} {amount : Int}
    (hperm : (changed deltas).Perm (ls ++ gs)) (hls : ls ≠ []) (hgs : gs ≠ [])
    (hne : loser ≠ gainer) (hpos : 0 < amount)
    (hlosing : ∀ d ∈ ls, d.account = loser ∧ d.change = amount)
    (hgaining : ∀ d ∈ gs, d.account = gainer ∧ d.change = -amount)
    (hmints : ∀ d ∈ ls, ∀ e ∈ gs, d.mint ≠ e.mint) : SwapRules deltas loser gainer := by
  have hmem : ∀ d, d ∈ changed deltas ↔ d ∈ ls ∨ d ∈ gs := fun d => by
    rw [hperm.mem_iff, List.mem_append]
  have ofLoser : ∀ d ∈ changed deltas, d.account = loser → d ∈ ls := by
    intro d hd hacc
    rcases (hmem d).mp hd with hin | hin
    · exact hin
    · exact absurd (hacc.symm.trans (hgaining d hin).1) hne
  have ofGainer : ∀ d ∈ changed deltas, d.account = gainer → d ∈ gs := by
    intro d hd hacc
    rcases (hmem d).mp hd with hin | hin
    · exact absurd ((hlosing d hin).1.symm.trans hacc) hne
    · exact hin
  constructor
  case distinct => exact hne
  case accounts =>
    intro account
    constructor
    · rintro ⟨d, hd, rfl⟩
      rcases (hmem d).mp hd with hin | hin
      · exact .inl (hlosing d hin).1
      · exact .inr (hgaining d hin).1
    · rintro (rfl | rfl)
      · obtain ⟨d, hd⟩ := List.exists_mem_of_ne_nil ls hls
        exact ⟨d, (hmem d).mpr (.inl hd), (hlosing d hd).1⟩
      · obtain ⟨d, hd⟩ := List.exists_mem_of_ne_nil gs hgs
        exact ⟨d, (hmem d).mpr (.inr hd), (hgaining d hd).1⟩
  case loses =>
    intro d hd hacc
    have hchange := (hlosing d (ofLoser d hd hacc)).2
    omega
  case gains =>
    intro d hd hacc
    have hchange := (hgaining d (ofGainer d hd hacc)).2
    omega
  case mints =>
    intro d hd e he hdacc heacc
    exact hmints d (ofLoser d hd hdacc) e (ofGainer e he heacc)
  case amounts =>
    intro d hd e he hdacc heacc
    have hdchange := (hlosing d (ofLoser d hd hdacc)).2
    have hechange := (hgaining e (ofGainer e he heacc)).2
    omega

theorem ChangedPair.rules (h : ChangedPair deltas losing gaining)
    (haccount : losing.account ≠ gaining.account)
    (hamount : losing.change.natAbs = gaining.change.natAbs) :
    SwapRules deltas losing.account gaining.account := by
  have hloses := h.loses
  have hgains := h.gains
  have hlegs : (changed deltas).Perm ([losing] ++ [gaining]) := h.pair
  refine swapRules_of_legs hlegs (List.cons_ne_nil _ _) (List.cons_ne_nil _ _) haccount hloses
    ?_ ?_ ?_
  · intro d hd
    rw [List.mem_singleton.mp hd]
    exact ⟨rfl, rfl⟩
  · intro d hd
    rw [List.mem_singleton.mp hd]
    exact ⟨rfl, by omega⟩
  · intro d hd e he
    rw [List.mem_singleton.mp hd, List.mem_singleton.mp he]
    exact h.mints

theorem ChangedPair.sides (h : ChangedPair deltas losing gaining) :
    (deltas.filter fun d => 0 < d.change) = [losing] ∧
      (deltas.filter fun d => d.change < 0) = [gaining] := by
  have hl := h.loses
  have hg := h.gains
  have filterChanged : ∀ p : TokenBalanceDelta → Bool, (∀ d, p d = true → d.change ≠ 0) →
      deltas.filter p = (changed deltas).filter p := by
    intro p hp
    rw [changed, List.filter_filter]
    refine List.filter_congr fun d _ => ?_
    cases hpd : p d with
    | false => rfl
    | true => simp [hp d hpd]
  constructor
  · rw [filterChanged _ fun d hd => (Int.ne_of_lt (of_decide_eq_true hd)).symm]
    refine List.perm_singleton.mp ((h.pair.filter _).trans (.of_eq ?_))
    rw [List.filter_cons_of_pos (by simpa using hl), List.filter_cons_of_neg (by simp; omega)]
    rfl
  · rw [filterChanged _ fun d hd => Int.ne_of_lt (of_decide_eq_true hd)]
    refine List.perm_singleton.mp ((h.pair.filter _).trans (.of_eq ?_))
    rw [List.filter_cons_of_neg (by simp; omega), List.filter_cons_of_pos (by simpa using hg)]
    rfl

/-- Both accounts have an entry, and the two entries are different ones of the list. -/
theorem SwapRules.legs (h : SwapRules deltas loser gainer) :
    ∃ losing gaining, losing.account = loser ∧ gaining.account = gainer ∧
      losing ∈ changed deltas ∧ gaining ∈ changed deltas ∧
      [losing, gaining].Subperm (changed deltas) := by
  obtain ⟨losing, hl, hlacc⟩ := (h.accounts loser).mpr (.inl rfl)
  obtain ⟨gaining, hg, hgacc⟩ := (h.accounts gainer).mpr (.inr rfl)
  have hne : losing ≠ gaining := by
    rintro rfl
    exact h.distinct (hlacc.symm.trans hgacc)
  refine ⟨losing, gaining, hlacc, hgacc, hl, hg, List.subperm_of_subset ?_ ?_⟩
  · simpa using hne
  · intro d hd
    rcases List.mem_pair.mp hd with rfl | rfl
    · exact hl
    · exact hg

theorem SwapRules.changedPair (h : SwapRules deltas loser gainer)
    (two : (changed deltas).length = 2) : ∃ losing gaining, ChangedPair deltas losing gaining := by
  obtain ⟨losing, gaining, hlacc, hgacc, hl, hg, hsub⟩ := h.legs
  have hperm : [losing, gaining].Perm (changed deltas) :=
    hsub.perm_of_length_le (Nat.le_of_eq two)
  exact ⟨losing, gaining, hperm.symm, h.loses losing hl hlacc, h.gains gaining hg hgacc,
    h.mints losing hl gaining hg hlacc hgacc⟩

theorem SwapRules.repeatedLegs (h : SwapRules deltas loser gainer)
    (many : 2 < (changed deltas).length) : RepeatedLegs deltas := by
  obtain ⟨l, g, hlacc, hgacc, hl, hg, _⟩ := h.legs
  have hperm := List.filter_append_perm (fun d => decide (d.account = loser)) (changed deltas)
  have memLosing : ∀ d ∈ (changed deltas).filter (fun d => decide (d.account = loser)),
      d ∈ changed deltas ∧ d.account = loser := by
    intro d hd
    simpa using hd
  have memGaining : ∀ d ∈ (changed deltas).filter (fun d => !decide (d.account = loser)),
      d ∈ changed deltas ∧ d.account = gainer := by
    intro d hd
    have hd' : d ∈ changed deltas ∧ d.account ≠ loser := by simpa using hd
    refine ⟨hd'.1, ?_⟩
    rcases (h.accounts d.account).mp ⟨d, hd'.1, rfl⟩ with hacc | hacc
    · exact absurd hacc hd'.2
    · exact hacc
  have hlpos := h.loses l hl hlacc
  refine ⟨_, _, loser, gainer, l.change, hperm.symm, ?_, ?_, ?_, h.distinct, hlpos, ?_, ?_, ?_⟩
  · rw [← List.length_append, hperm.length_eq]
    exact many
  · exact List.ne_nil_of_mem (List.mem_filter.mpr ⟨hl, by simpa using hlacc⟩)
  · have hgl : g.account ≠ loser := fun hacc => h.distinct (hacc.symm.trans hgacc)
    exact List.ne_nil_of_mem (List.mem_filter.mpr ⟨hg, by simpa using hgl⟩)
  · intro d hd
    obtain ⟨hd, hacc⟩ := memLosing d hd
    have hpos := h.loses d hd hacc
    have hdg := h.amounts d hd g hg hacc hgacc
    have hlg := h.amounts l hl g hg hlacc hgacc
    exact ⟨hacc, by omega⟩
  · intro d hd
    obtain ⟨hd, hacc⟩ := memGaining d hd
    have hneg := h.gains d hd hacc
    have hld := h.amounts l hl d hd hlacc hacc
    exact ⟨hacc, by omega⟩
  · intro d hd e he
    obtain ⟨hd, hdacc⟩ := memLosing d hd
    obtain ⟨he, heacc⟩ := memGaining e he
    exact h.mints d hd e he hdacc heacc

theorem RepeatedLegs.rules (h : RepeatedLegs deltas) :
    AllowsSwap deltas ∧ 2 < (changed deltas).length := by
  obtain ⟨ls, gs, loser, gainer, amount, hperm, hlen, hls, hgs, hne, hpos, hlosing, hgaining,
    hmints⟩ := h
  refine ⟨⟨loser, gainer,
    swapRules_of_legs hperm hls hgs hne hpos hlosing hgaining hmints⟩, ?_⟩
  rw [hperm.length_eq, List.length_append]
  exact hlen

variable {slot : Nat} {signature programId : String} {swap : DexSwap}

theorem infer_ok_iff_changedPair (fits : ∀ d ∈ deltas, d.FitsI64) :
    (∃ swap, inferSwapFromBalanceDeltas slot signature programId deltas = .ok swap) ↔
      ∃ losing gaining, ChangedPair deltas losing gaining := by
  constructor
  · rintro ⟨swap, h⟩
    obtain ⟨losing, gaining, hpair, -⟩ := infer_eq_ok h
    exact ⟨losing, gaining, (changedPair_iff fits).mp hpair⟩
  · rintro ⟨losing, gaining, h⟩
    exact ⟨_, infer_of_cleanPair ((changedPair_iff fits).mpr h)⟩

theorem sidesOf_of_infer (fits : ∀ d ∈ deltas, d.FitsI64)
    (h : inferSwapFromBalanceDeltas slot signature programId deltas = .ok swap) :
    SidesOf deltas swap := by
  obtain ⟨losing, gaining, hclean, rfl⟩ := infer_eq_ok h
  have hpair := (changedPair_iff fits).mp hclean
  have hl := mem_changed.mp (hpair.mem_iff.mpr (.inl rfl))
  have hg := mem_changed.mp (hpair.mem_iff.mpr (.inr rfl))
  refine ⟨losing, gaining, hpair.sides.1, hpair.sides.2, rfl, ?_, rfl, ?_⟩
  · exact congrArg Int.natAbs (TokenBalanceDelta.delta_toInt_of_fits (fits losing hl.1))
  · exact congrArg Int.natAbs (TokenBalanceDelta.delta_toInt_of_fits (fits gaining hg.1))

theorem MisjudgedPair.changedPair (h : MisjudgedPair deltas) :
    (∃ losing gaining, ChangedPair deltas losing gaining) ∧ ¬AllowsSwap deltas := by
  obtain ⟨losing, gaining, hperm, hloses, hgains, hmints, hbroken⟩ := h
  have hpair : ChangedPair deltas losing gaining := ⟨hperm, hloses, hgains, hmints⟩
  refine ⟨⟨losing, gaining, hpair⟩, ?_⟩
  rintro ⟨loser, gainer, hrules⟩
  have hl : losing ∈ changed deltas := hpair.mem_iff.mpr (.inl rfl)
  have hg : gaining ∈ changed deltas := hpair.mem_iff.mpr (.inr rfl)
  have hlacc : losing.account = loser := by
    rcases (hrules.accounts losing.account).mp ⟨losing, hl, rfl⟩ with hacc | hacc
    · exact hacc
    · have := hrules.gains losing hl hacc
      omega
  have hgacc : gaining.account = gainer := by
    rcases (hrules.accounts gaining.account).mp ⟨gaining, hg, rfl⟩ with hacc | hacc
    · have := hrules.loses gaining hg hacc
      omega
    · exact hacc
  rcases hbroken with hsame | hamount
  · exact hrules.distinct (hlacc.symm.trans (hsame.trans hgacc))
  · exact hamount (hrules.amounts losing hl gaining hg hlacc hgacc)

theorem allowsSwap_of_changedPair {losing gaining : TokenBalanceDelta}
    (h : ChangedPair deltas losing gaining) (clean : ¬MisjudgedPair deltas) :
    AllowsSwap deltas := by
  have hnot : ¬(losing.account = gaining.account ∨
      losing.change.natAbs ≠ gaining.change.natAbs) := fun hbroken =>
    clean ⟨losing, gaining, h.pair, h.loses, h.gains, h.mints, hbroken⟩
  rw [not_or, not_ne_iff] at hnot
  exact ⟨_, _, h.rules hnot.1 hnot.2⟩

theorem changedPair_of_allowsSwap (h : AllowsSwap deltas) (clean : ¬RepeatedLegs deltas) :
    ∃ losing gaining, ChangedPair deltas losing gaining := by
  obtain ⟨loser, gainer, hrules⟩ := h
  obtain ⟨losing, gaining, -, -, -, -, hsub⟩ := hrules.legs
  have hle : 2 ≤ (changed deltas).length := hsub.length_le
  have hge : ¬2 < (changed deltas).length := fun many => clean (hrules.repeatedLegs many)
  exact hrules.changedPair (by omega)

end Rules

/-- The code infers a swap exactly from what the rules allow, and reads it from the right entries,
exactly on the lists outside the two kinds. -/
theorem infer_follows_rules_iff (slot : Nat) (signature programId : String)
    (deltas : List TokenBalanceDelta) (fits : ∀ d ∈ deltas, d.FitsI64) :
    (((∃ swap, inferSwapFromBalanceDeltas slot signature programId deltas = .ok swap) ↔
        AllowsSwap deltas) ∧
      ∀ swap, inferSwapFromBalanceDeltas slot signature programId deltas = .ok swap →
        SidesOf deltas swap) ↔
    ¬MisjudgedPair deltas ∧ ¬RepeatedLegs deltas := by
  rw [infer_ok_iff_changedPair fits]
  constructor
  · rintro ⟨hiff, -⟩
    constructor
    · intro hmis
      exact hmis.changedPair.2 (hiff.mp hmis.changedPair.1)
    · intro hlegs
      obtain ⟨losing, gaining, hpair⟩ := hiff.mpr hlegs.rules.1
      have two := hpair.pair.length_eq
      exact absurd hlegs.rules.2 (Nat.not_lt.mpr (Nat.le_of_eq two))
  · rintro ⟨hmis, hlegs⟩
    refine ⟨⟨?_, fun h => changedPair_of_allowsSwap h hlegs⟩, fun swap h => sidesOf_of_infer fits h⟩
    rintro ⟨losing, gaining, hpair⟩
    exact allowsSwap_of_changedPair hpair hmis

theorem infer_follows_rules_of_equal_amounts :
    (∀ d ∈ [(⟨"acct-a", "mint-a", 1000, 900⟩ : TokenBalanceDelta), ⟨"acct-b", "mint-b", 500, 600⟩],
      d.FitsI64) ∧
    (((∃ swap, inferSwapFromBalanceDeltas 42 "sig-1" "program-1"
        [⟨"acct-a", "mint-a", 1000, 900⟩, ⟨"acct-b", "mint-b", 500, 600⟩] = .ok swap) ↔
        AllowsSwap [⟨"acct-a", "mint-a", 1000, 900⟩, ⟨"acct-b", "mint-b", 500, 600⟩]) ∧
      ∀ swap, inferSwapFromBalanceDeltas 42 "sig-1" "program-1"
        [⟨"acct-a", "mint-a", 1000, 900⟩, ⟨"acct-b", "mint-b", 500, 600⟩] = .ok swap →
        SidesOf [⟨"acct-a", "mint-a", 1000, 900⟩, ⟨"acct-b", "mint-b", 500, 600⟩] swap) := by
  refine ⟨by decide, (infer_follows_rules_iff 42 "sig-1" "program-1" _ (by decide)).mpr ⟨?_, ?_⟩⟩
  · rintro ⟨losing, gaining, hperm, -, -, -, hbroken⟩
    have hlist : changed [⟨"acct-a", "mint-a", 1000, 900⟩, ⟨"acct-b", "mint-b", 500, 600⟩] =
        [⟨"acct-a", "mint-a", 1000, 900⟩, ⟨"acct-b", "mint-b", 500, 600⟩] := rfl
    rw [hlist, perm_pair_iff] at hperm
    rcases hperm with heq | heq
    · cases heq
      revert hbroken
      decide
    · cases heq
      revert hbroken
      decide
  · intro hlegs
    exact absurd hlegs.rules.2 (by decide)

/-- One hundred tokens against fifty: accepted as a swap, against the fourth rule. -/
theorem infer_accepts_unequal_amounts :
    (∀ d ∈ [(⟨"acct-a", "mint-a", 1000, 900⟩ : TokenBalanceDelta), ⟨"acct-b", "mint-b", 500, 550⟩],
      d.FitsI64) ∧
    inferSwapFromBalanceDeltas 42 "sig-1" "program-1"
        [⟨"acct-a", "mint-a", 1000, 900⟩, ⟨"acct-b", "mint-b", 500, 550⟩] =
      .ok ⟨42, "sig-1", "program-1", "mint-a", 100, "mint-b", 50⟩ ∧
    ¬AllowsSwap [⟨"acct-a", "mint-a", 1000, 900⟩, ⟨"acct-b", "mint-b", 500, 550⟩] := by
  refine ⟨by decide, rfl, ?_⟩
  exact (MisjudgedPair.changedPair ⟨⟨"acct-a", "mint-a", 1000, 900⟩, ⟨"acct-b", "mint-b", 500, 550⟩,
    .refl _, by decide, by decide, by decide, .inr (by decide)⟩).2

end YellowstoneStream.Domain

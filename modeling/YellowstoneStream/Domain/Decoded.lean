import YellowstoneStream.Domain.Event
import YellowstoneStream.Reasoning.Ensures
import Mathlib.Data.List.Perm.Basic

/-!
# Decoded events

`crates/domain/src/decoded.rs`: token balance changes read from a payload, and the two-legged swap
inferred from them.  Amounts are `i64`; a difference that leaves that range wraps, as it does in a
release build.
-/

open YellowstoneStream.Reasoning

namespace YellowstoneStream.Domain

structure TokenBalanceDelta where
  account : String
  mint : String
  preAmount : Int64
  postAmount : Int64
  deriving DecidableEq, Repr

structure DexSwap where
  slot : Nat
  signature : String
  programId : String
  tokenIn : String
  tokenInAmount : Nat
  tokenOut : String
  tokenOutAmount : Nat
  deriving DecidableEq, Repr

inductive DecodeError where
  | invalidTokenBalance (account reason : String)
  | missingTokenBalances
  | ambiguousSwap (reason : String)
  deriving DecidableEq, Repr

namespace TokenBalanceDelta

def delta (d : TokenBalanceDelta) : Int64 := d.preAmount - d.postAmount

/-- The difference over the integers, which `delta` computes when it fits. -/
def change (d : TokenBalanceDelta) : Int := d.preAmount.toInt - d.postAmount.toInt

def FitsI64 (d : TokenBalanceDelta) : Prop := -2 ^ 63 ≤ d.change ∧ d.change < 2 ^ 63

instance (d : TokenBalanceDelta) : Decidable d.FitsI64 := inferInstanceAs (Decidable (_ ∧ _))

def exchanged (d : TokenBalanceDelta) : TokenBalanceDelta :=
  { d with preAmount := d.postAmount, postAmount := d.preAmount }

variable (d : TokenBalanceDelta)

@[simp] theorem exchanged_mint : d.exchanged.mint = d.mint := rfl

theorem exchanged_change : d.exchanged.change = -d.change := by
  exact (Int.neg_sub _ _).symm

theorem delta_toInt : d.delta.toInt = d.change.bmod (2 ^ 64) := Int64.toInt_sub _ _

variable {d}

theorem delta_toInt_of_fits (h : d.FitsI64) : d.delta.toInt = d.change := by
  rw [delta_toInt]
  have hlow := h.1
  have hhigh := h.2
  exact Int.bmod_eq_of_le (by omega) (by omega)

theorem delta_pos_of_fits (h : d.FitsI64) : 0 < d.delta ↔ 0 < d.change := by
  rw [Int64.lt_iff_toInt_lt, delta_toInt_of_fits h]
  rfl

theorem delta_neg_of_fits (h : d.FitsI64) : d.delta < 0 ↔ d.change < 0 := by
  rw [Int64.lt_iff_toInt_lt, delta_toInt_of_fits h]
  rfl

theorem delta_ne_zero_of_fits (h : d.FitsI64) : d.delta ≠ 0 ↔ d.change ≠ 0 := by
  rw [ne_eq, ← Int64.toInt_inj, delta_toInt_of_fits h]
  rfl

end TokenBalanceDelta

def balanceOf (account : String) (entry : Value) (field : String) : Except DecodeError Int64 :=
  match (entry.get field).bind Value.asI64 with
  | some amount => .ok amount
  | none => .error (.invalidTokenBalance account ("missing or non-numeric '" ++ field ++ "' field"))

/-- One turn of the loop over `token_balances`. -/
def tokenBalanceDelta (entry : Value) : Except DecodeError TokenBalanceDelta := do
  let account := ((entry.get "account").bind Value.asStr).getD ""
  let mint := ((entry.get "mint").bind Value.asStr).getD ""
  let preAmount ← balanceOf account entry "pre"
  let postAmount ← balanceOf account entry "post"
  pure ⟨account, mint, preAmount, postAmount⟩

def extractTokenBalanceDeltas (payload : Value) : Except DecodeError (List TokenBalanceDelta) :=
  match (payload.get "token_balances").bind Value.asArray with
  | some balances => balances.mapM tokenBalanceDelta
  | none => .error .missingTokenBalances

/-- The delta holds the two integers of the entry. -/
def ReadFrom (entry : Value) (d : TokenBalanceDelta) : Prop :=
  (entry.get "pre").bind Value.asInteger = some d.preAmount.toInt ∧
    (entry.get "post").bind Value.asInteger = some d.postAmount.toInt

theorem balanceOf_exact {account field : String} {entry : Value} {amount : Int64}
    (h : balanceOf account entry field = .ok amount) :
    (entry.get field).bind Value.asInteger = some amount.toInt := by
  unfold balanceOf at h
  split at h
  · rename_i hread
    cases h
    obtain ⟨value, hvalue, hamount⟩ := Option.bind_eq_some_iff.mp hread
    rw [hvalue]
    exact Value.asInteger_of_asI64 hamount
  · cases h

theorem tokenBalanceDelta_exact {entry : Value} {d : TokenBalanceDelta}
    (h : tokenBalanceDelta entry = .ok d) : ReadFrom entry d := by
  obtain ⟨preAmount, hpre, h⟩ := bind_eq_ok_iff.mp h
  obtain ⟨postAmount, hpost, ⟨⟩⟩ := bind_eq_ok_iff.mp h
  exact ⟨balanceOf_exact hpre, balanceOf_exact hpost⟩

theorem extractTokenBalanceDeltas_exact {payload : Value} {deltas : List TokenBalanceDelta}
    (h : extractTokenBalanceDeltas payload = .ok deltas) :
    ∃ balances, (payload.get "token_balances").bind Value.asArray = some balances ∧
      List.Forall₂ ReadFrom balances deltas := by
  unfold extractTokenBalanceDeltas at h
  split at h
  · rename_i balances hbalances
    exact ⟨balances, hbalances, (mapM_eq_ok_iff.mp h).imp fun _ _ => tokenBalanceDelta_exact⟩
  · cases h

/-- Sender and receiver, by the signs of the two differences. -/
def swapSides (a b : TokenBalanceDelta) : Option (TokenBalanceDelta × TokenBalanceDelta) :=
  if 0 < a.delta ∧ b.delta < 0 then some (a, b)
  else if a.delta < 0 ∧ 0 < b.delta then some (b, a)
  else none

def nonZeroDeltas (deltas : List TokenBalanceDelta) : List TokenBalanceDelta :=
  deltas.filter fun d => d.delta ≠ 0

def dexSwap (slot : Nat) (signature programId : String) (sender receiver : TokenBalanceDelta) :
    DexSwap :=
  { slot, signature, programId
    tokenIn := sender.mint
    tokenInAmount := sender.delta.toInt.natAbs
    tokenOut := receiver.mint
    tokenOutAmount := receiver.delta.toInt.natAbs }

def inferSwapFromBalanceDeltas (slot : Nat) (signature programId : String)
    (deltas : List TokenBalanceDelta) : Except DecodeError DexSwap :=
  match nonZeroDeltas deltas with
  | [a, b] =>
      match swapSides a b with
      | none => .error (.ambiguousSwap "deltas do not form a clean in/out pair")
      | some (sender, receiver) =>
          if sender.mint = receiver.mint then
            .error (.ambiguousSwap "sender and receiver use the same mint")
          else .ok (dexSwap slot signature programId sender receiver)
  | nonZero =>
      .error (.ambiguousSwap ("expected exactly 2 non-zero deltas, got " ++
        nonZero.length.repr))

/-! ## The accepted lists -/

/-- What a list has to offer for a swap: the entries that change, in either order. -/
structure CleanPair (deltas : List TokenBalanceDelta) (sender receiver : TokenBalanceDelta) :
    Prop where
  pair : (nonZeroDeltas deltas).Perm [sender, receiver]
  loses : 0 < sender.delta
  gains : receiver.delta < 0
  mints : sender.mint ≠ receiver.mint

theorem perm_pair_iff {α : Type} {l : List α} {a b : α} :
    l.Perm [a, b] ↔ l = [a, b] ∨ l = [b, a] := by
  constructor
  · intro h
    obtain ⟨x, y, rfl⟩ := List.length_eq_two.mp h.length_eq
    have hx : x = a ∨ x = b := by simpa using h.subset List.mem_cons_self
    rcases hx with rfl | rfl
    · have hy := List.perm_singleton.mp ((List.perm_cons x).mp h)
      exact .inl (by rw [hy])
    · have hy := List.perm_singleton.mp ((List.perm_cons x).mp (h.trans (.swap x a [])))
      exact .inr (by rw [hy])
  · rintro (rfl | rfl)
    · exact .refl _
    · exact .swap _ _ _

section Inference

variable {slot : Nat} {signature programId : String} {deltas others : List TokenBalanceDelta}
  {a b sender receiver : TokenBalanceDelta} {swap : DexSwap}

theorem swapSides_of_signs (hs : 0 < sender.delta) (hr : receiver.delta < 0) :
    swapSides sender receiver = some (sender, receiver) := if_pos ⟨hs, hr⟩

theorem swapSides_comm (a b : TokenBalanceDelta) : swapSides a b = swapSides b a := by
  unfold swapSides
  by_cases hab : 0 < a.delta ∧ b.delta < 0
  · have hba : ¬(0 < b.delta ∧ a.delta < 0) := fun h => Int64.lt_asymm hab.1 h.2
    rw [if_pos hab, if_neg hba, if_pos (And.comm.mp hab)]
  · rw [if_neg hab]
    by_cases hba : 0 < b.delta ∧ a.delta < 0
    · rw [if_pos hba, if_pos (And.comm.mp hba)]
    · rw [if_neg hba, if_neg (fun h => hba (And.comm.mp h)), if_neg (fun h => hab (And.comm.mp h))]

theorem signs_of_swapSides (h : swapSides a b = some (sender, receiver)) :
    0 < sender.delta ∧ receiver.delta < 0 ∧ (a = sender ∧ b = receiver ∨ a = receiver ∧ b = sender)
    := by
  unfold swapSides at h
  split at h
  · rename_i hsigns
    cases h
    exact ⟨hsigns.1, hsigns.2, .inl ⟨rfl, rfl⟩⟩
  · split at h
    · rename_i hsigns
      cases h
      exact ⟨hsigns.2, hsigns.1, .inr ⟨rfl, rfl⟩⟩
    · cases h

theorem infer_of_length_ne (h : (nonZeroDeltas deltas).length ≠ 2) :
    inferSwapFromBalanceDeltas slot signature programId deltas =
      .error (.ambiguousSwap ("expected exactly 2 non-zero deltas, got " ++
        (nonZeroDeltas deltas).length.repr)) := by
  unfold inferSwapFromBalanceDeltas
  split
  · rename_i heq
    exact absurd (congrArg List.length heq) h
  · rfl

theorem infer_of_pair (h : nonZeroDeltas deltas = [a, b]) :
    inferSwapFromBalanceDeltas slot signature programId deltas =
      match swapSides a b with
      | none => .error (.ambiguousSwap "deltas do not form a clean in/out pair")
      | some (sender, receiver) =>
          if sender.mint = receiver.mint then
            .error (.ambiguousSwap "sender and receiver use the same mint")
          else .ok (dexSwap slot signature programId sender receiver) := by
  rw [inferSwapFromBalanceDeltas, h]

/-- The result depends on the entries that change only, and not on their order. -/
theorem infer_congr (h : (nonZeroDeltas deltas).Perm (nonZeroDeltas others)) :
    inferSwapFromBalanceDeltas slot signature programId deltas =
      inferSwapFromBalanceDeltas slot signature programId others := by
  by_cases two : (nonZeroDeltas others).length = 2
  · obtain ⟨a, b, hothers⟩ := List.length_eq_two.mp two
    rw [infer_of_pair hothers]
    rw [hothers] at h
    rcases perm_pair_iff.mp h with hdeltas | hdeltas
    · rw [infer_of_pair hdeltas]
    · rw [infer_of_pair hdeltas, swapSides_comm]
  · rw [infer_of_length_ne two, infer_of_length_ne (h.length_eq ▸ two), h.length_eq]

theorem infer_of_cleanPair (h : CleanPair deltas sender receiver) :
    inferSwapFromBalanceDeltas slot signature programId deltas =
      .ok (dexSwap slot signature programId sender receiver) := by
  have hsides := swapSides_of_signs h.loses h.gains
  rcases perm_pair_iff.mp h.pair with hlist | hlist
  · rw [infer_of_pair hlist, hsides]
    exact if_neg h.mints
  · rw [infer_of_pair hlist, swapSides_comm, hsides]
    exact if_neg h.mints

theorem infer_eq_ok (h : inferSwapFromBalanceDeltas slot signature programId deltas = .ok swap) :
    ∃ sender receiver, CleanPair deltas sender receiver ∧
      swap = dexSwap slot signature programId sender receiver := by
  by_cases two : (nonZeroDeltas deltas).length = 2
  · obtain ⟨a, b, hlist⟩ := List.length_eq_two.mp two
    rw [infer_of_pair hlist] at h
    cases hsides : swapSides a b with
    | none =>
        rw [hsides] at h
        cases h
    | some sides =>
        obtain ⟨sender, receiver⟩ := sides
        rw [hsides] at h
        dsimp only at h
        obtain ⟨hs, hr, horder⟩ := signs_of_swapSides hsides
        by_cases hmint : sender.mint = receiver.mint
        · rw [if_pos hmint] at h
          cases h
        · rw [if_neg hmint] at h
          cases h
          refine ⟨sender, receiver, ⟨?_, hs, hr, hmint⟩, rfl⟩
          rw [hlist, perm_pair_iff]
          rcases horder with ⟨rfl, rfl⟩ | ⟨rfl, rfl⟩
          · exact .inl rfl
          · exact .inr rfl
  · rw [infer_of_length_ne two] at h
    cases h

end Inference

/-! ## Exchanging the balances -/

def DexSwap.exchanged (swap : DexSwap) : DexSwap :=
  { swap with
    tokenIn := swap.tokenOut, tokenInAmount := swap.tokenOutAmount
    tokenOut := swap.tokenIn, tokenOutAmount := swap.tokenInAmount }

section Exchange

variable {slot : Nat} {signature programId : String} {deltas : List TokenBalanceDelta}
  {a b d sender receiver : TokenBalanceDelta}

theorem exchanged_delta (d : TokenBalanceDelta) : d.exchanged.delta = -d.delta :=
  Int64.neg_sub.symm

theorem nonZeroDeltas_exchanged (deltas : List TokenBalanceDelta) :
    nonZeroDeltas (deltas.map .exchanged) = (nonZeroDeltas deltas).map .exchanged := by
  rw [nonZeroDeltas, nonZeroDeltas, List.filter_map]
  congr 1
  refine List.filter_congr fun d _ => ?_
  rw [Function.comp_apply, exchanged_delta, decide_eq_decide]
  exact Int64.neg_ne_zero

/-- The difference of the entry and that of its exchange both fit. -/
def FitsBothWays (d : TokenBalanceDelta) : Prop := d.FitsI64 ∧ d.exchanged.FitsI64

theorem exchanged_delta_toInt (h : FitsBothWays d) : d.exchanged.delta.toInt = -d.delta.toInt := by
  rw [TokenBalanceDelta.delta_toInt_of_fits h.1, TokenBalanceDelta.delta_toInt_of_fits h.2,
    TokenBalanceDelta.exchanged_change]

theorem exchanged_delta_pos (h : FitsBothWays d) : 0 < d.exchanged.delta ↔ d.delta < 0 := by
  rw [TokenBalanceDelta.delta_pos_of_fits h.2, TokenBalanceDelta.delta_neg_of_fits h.1,
    TokenBalanceDelta.exchanged_change]
  exact Int.neg_pos

theorem exchanged_delta_neg (h : FitsBothWays d) : d.exchanged.delta < 0 ↔ 0 < d.delta := by
  rw [TokenBalanceDelta.delta_neg_of_fits h.2, TokenBalanceDelta.delta_pos_of_fits h.1,
    TokenBalanceDelta.exchanged_change]
  exact Int.neg_neg_iff_pos

theorem swapSides_exchanged (ha : FitsBothWays a) (hb : FitsBothWays b) :
    swapSides a.exchanged b.exchanged =
      (swapSides a b).map fun sides => (sides.2.exchanged, sides.1.exchanged) := by
  unfold swapSides
  simp only [exchanged_delta_pos ha, exchanged_delta_neg ha, exchanged_delta_pos hb,
    exchanged_delta_neg hb]
  by_cases hab : 0 < a.delta ∧ b.delta < 0
  · have hba : ¬(a.delta < 0 ∧ 0 < b.delta) := fun h => Int64.lt_asymm hab.1 h.1
    rw [if_pos hab, if_neg hba, if_pos hab]
    rfl
  · rw [if_neg hab]
    by_cases hba : a.delta < 0 ∧ 0 < b.delta
    · rw [if_pos hba, if_neg hab, if_pos hba]
      rfl
    · rw [if_neg hba, if_neg hab, if_neg hba]
      rfl

theorem dexSwap_exchanged (hs : FitsBothWays sender) (hr : FitsBothWays receiver) :
    dexSwap slot signature programId receiver.exchanged sender.exchanged =
      (dexSwap slot signature programId sender receiver).exchanged := by
  simp only [dexSwap, DexSwap.exchanged, exchanged_delta_toInt hs, exchanged_delta_toInt hr,
    Int.natAbs_neg, TokenBalanceDelta.exchanged_mint]

theorem infer_exchanged (h : ∀ d ∈ deltas, FitsBothWays d) :
    inferSwapFromBalanceDeltas slot signature programId (deltas.map .exchanged) =
      (inferSwapFromBalanceDeltas slot signature programId deltas).map .exchanged := by
  by_cases two : (nonZeroDeltas deltas).length = 2
  · obtain ⟨a, b, hlist⟩ := List.length_eq_two.mp two
    have hmem : ∀ d ∈ [a, b], FitsBothWays d := fun d hd =>
      h d (List.mem_of_mem_filter (hlist ▸ hd))
    have ha : FitsBothWays a := hmem a List.mem_cons_self
    have hb : FitsBothWays b := hmem b (List.mem_cons_of_mem _ List.mem_cons_self)
    have hlist' : nonZeroDeltas (deltas.map .exchanged) = [a.exchanged, b.exchanged] := by
      rw [nonZeroDeltas_exchanged, hlist]
      rfl
    rw [infer_of_pair hlist, infer_of_pair hlist', swapSides_exchanged ha hb]
    cases hsides : swapSides a b with
    | none => rfl
    | some sides =>
        obtain ⟨sender, receiver⟩ := sides
        have hfits : FitsBothWays sender ∧ FitsBothWays receiver := by
          rcases (signs_of_swapSides hsides).2.2 with ⟨rfl, rfl⟩ | ⟨rfl, rfl⟩
          · exact ⟨ha, hb⟩
          · exact ⟨hb, ha⟩
        dsimp only [Option.map_some]
        by_cases hmint : sender.mint = receiver.mint
        · have hmint' : receiver.exchanged.mint = sender.exchanged.mint := hmint.symm
          rw [if_pos hmint, if_pos hmint']
          rfl
        · have hmint' : receiver.exchanged.mint ≠ sender.exchanged.mint := Ne.symm hmint
          rw [if_neg hmint, if_neg hmint', dexSwap_exchanged hfits.1 hfits.2]
          rfl
  · have two' : (nonZeroDeltas (deltas.map .exchanged)).length ≠ 2 := by
      rw [nonZeroDeltas_exchanged, List.length_map]
      exact two
    rw [infer_of_length_ne two, infer_of_length_ne two', nonZeroDeltas_exchanged, List.length_map]
    rfl

/-- Entry order and untouched accounts do not matter, and exchanging the balances of every entry
exchanges the two sides of the swap. -/
theorem infer_ignores_order_and_mirrors (slot : Nat) (signature programId : String) :
    (∀ deltas others : List TokenBalanceDelta,
      (deltas.filter fun d => d.delta ≠ 0).Perm (others.filter fun d => d.delta ≠ 0) →
      inferSwapFromBalanceDeltas slot signature programId deltas =
        inferSwapFromBalanceDeltas slot signature programId others) ∧
    (∀ deltas : List TokenBalanceDelta, (∀ d ∈ deltas, d.FitsI64 ∧ d.exchanged.FitsI64) →
      inferSwapFromBalanceDeltas slot signature programId (deltas.map .exchanged) =
        (inferSwapFromBalanceDeltas slot signature programId deltas).map .exchanged) :=
  ⟨fun _ _ h => infer_congr h, fun _ h => infer_exchanged h⟩

theorem infer_order_and_mirror_of_two :
    inferSwapFromBalanceDeltas 42 "sig-1" "program-1"
        [⟨"acct-b", "mint-b", 500, 600⟩, ⟨"acct-c", "mint-c", 7, 7⟩,
          ⟨"acct-a", "mint-a", 1000, 900⟩] =
      .ok ⟨42, "sig-1", "program-1", "mint-a", 100, "mint-b", 100⟩ ∧
    inferSwapFromBalanceDeltas 42 "sig-1" "program-1"
        [⟨"acct-a", "mint-a", 900, 1000⟩, ⟨"acct-b", "mint-b", 600, 500⟩] =
      .ok ⟨42, "sig-1", "program-1", "mint-b", 100, "mint-a", 100⟩ := by
  have hinfer : inferSwapFromBalanceDeltas 42 "sig-1" "program-1"
      [⟨"acct-a", "mint-a", 1000, 900⟩, ⟨"acct-b", "mint-b", 500, 600⟩] =
        .ok ⟨42, "sig-1", "program-1", "mint-a", 100, "mint-b", 100⟩ := rfl
  obtain ⟨order, mirror⟩ := infer_ignores_order_and_mirrors 42 "sig-1" "program-1"
  constructor
  · rw [← hinfer]
    exact order _ _ (.swap _ _ [])
  · have h := mirror [⟨"acct-a", "mint-a", 1000, 900⟩, ⟨"acct-b", "mint-b", 500, 600⟩] (by decide)
    rw [hinfer] at h
    exact h

end Exchange

end YellowstoneStream.Domain

import YellowstoneStream.Domain.SwapRules
import YellowstoneStream.Storage.Tables

/-!
# Stored swaps

`PostgresSwapWriter` of `crates/storage/src/swaps.rs`.  A number that does not fit its BIGINT column
is stored as −1.
-/

open YellowstoneStream.Domain

namespace YellowstoneStream.Storage

structure SwapRow where
  slot : Int
  signature : String
  programId : String
  tokenIn : String
  tokenInAmount : Int
  tokenOut : String
  tokenOutAmount : Int
  deriving DecidableEq, Repr

def bigintOrSentinel (n : Nat) : Int := (i64TryFrom n).getD (-1)

def swapRow (swap : DexSwap) : SwapRow where
  slot := bigintOrSentinel swap.slot
  signature := swap.signature
  programId := swap.programId
  tokenIn := swap.tokenIn
  tokenInAmount := bigintOrSentinel swap.tokenInAmount
  tokenOut := swap.tokenOut
  tokenOutAmount := bigintOrSentinel swap.tokenOutAmount

/-- The table after an insert that succeeds, and the number of rows affected. -/
def writeSwaps (table : List SwapRow) (swaps : List DexSwap) : List SwapRow × Nat :=
  if swaps.isEmpty then (table, 0) else (table ++ swaps.map swapRow, swaps.length)

theorem bigintOrSentinel_eq_iff {n : Nat} : bigintOrSentinel n = (n : Int) ↔ n ≤ i64Max := by
  rcases Nat.lt_or_ge i64Max n with h | h
  · rw [bigintOrSentinel, i64TryFrom_of_gt h, Option.getD_none]
    omega
  · rw [bigintOrSentinel, i64TryFrom_of_le h, Option.getD_some]
    exact ⟨fun _ => h, fun _ => rfl⟩

/-- The row of a swap of this slot keeps what the losing and the gaining entry say. -/
structure KeepsSwap (slot : Nat) (losing gaining : TokenBalanceDelta) (row : SwapRow) : Prop where
  slot : row.slot = slot
  tokenIn : row.tokenIn = losing.mint
  tokenInAmount : row.tokenInAmount = losing.change.natAbs
  tokenOut : row.tokenOut = gaining.mint
  tokenOutAmount : row.tokenOutAmount = gaining.change.natAbs

/-- From the payload to the table: the balances are read exactly, no difference overflows, and the
row written for an inferred swap has the sides of the losing and the gaining entry. -/
def SwapsSurvive (payload : Value) (slot : Nat) (signature programId : String) : Prop :=
  ∀ deltas, extractTokenBalanceDeltas payload = .ok deltas →
    (∃ balances, (payload.get "token_balances").bind Value.asArray = some balances ∧
      List.Forall₂ ReadFrom balances deltas) ∧
    (∀ d ∈ deltas, d.FitsI64) ∧
    ∀ swap, inferSwapFromBalanceDeltas slot signature programId deltas = .ok swap →
      ∀ table row, (writeSwaps table [swap]).1 = table ++ [row] →
        ∃ losing gaining, (deltas.filter fun d => 0 < d.change) = [losing] ∧
          (deltas.filter fun d => d.change < 0) = [gaining] ∧ KeepsSwap slot losing gaining row

/-- Every difference fits `i64`; and where the entries that change are one losing and one gaining
another mint, the slot fits BIGINT and the gain is not 2^63. -/
def Storable (payload : Value) (slot : Nat) : Prop :=
  ∀ deltas, extractTokenBalanceDeltas payload = .ok deltas →
    (∀ d ∈ deltas, d.FitsI64) ∧
    ∀ losing gaining, ChangedPair deltas losing gaining → slot ≤ i64Max ∧ gaining.change ≠ -2 ^ 63

section Survival

variable {slot : Nat} {signature programId : String} {deltas : List TokenBalanceDelta}
  {losing gaining : TokenBalanceDelta}

theorem keepsSwap_iff (fits : ∀ d ∈ deltas, d.FitsI64) (h : ChangedPair deltas losing gaining) :
    KeepsSwap slot losing gaining (swapRow (dexSwap slot signature programId losing gaining)) ↔
      slot ≤ i64Max ∧ gaining.change ≠ -2 ^ 63 := by
  have hl := fits losing (mem_changed.mp (h.mem_iff.mpr (.inl rfl))).1
  have hg := fits gaining (mem_changed.mp (h.mem_iff.mpr (.inr rfl))).1
  have hldelta := TokenBalanceDelta.delta_toInt_of_fits hl
  have hgdelta := TokenBalanceDelta.delta_toInt_of_fits hg
  have hlow := hg.1
  have hgains := h.gains
  have hhigh := hl.2
  have hloses := h.loses
  have hin : losing.change.natAbs ≤ i64Max := by
    unfold i64Max
    omega
  have hout : gaining.change.natAbs ≤ i64Max ↔ gaining.change ≠ -2 ^ 63 := by
    unfold i64Max
    omega
  constructor
  · intro hrow
    have hslot := hrow.slot
    have hamount := hrow.tokenOutAmount
    simp only [swapRow, dexSwap, hgdelta] at hslot hamount
    exact ⟨bigintOrSentinel_eq_iff.mp hslot, hout.mp (bigintOrSentinel_eq_iff.mp hamount)⟩
  · rintro ⟨hslot, hgain⟩
    constructor
    case slot => exact bigintOrSentinel_eq_iff.mpr hslot
    case tokenIn => rfl
    case tokenInAmount =>
      simp only [swapRow, dexSwap, hldelta]
      exact bigintOrSentinel_eq_iff.mpr hin
    case tokenOut => rfl
    case tokenOutAmount =>
      simp only [swapRow, dexSwap, hgdelta]
      exact bigintOrSentinel_eq_iff.mpr (hout.mpr hgain)

theorem writeSwaps_row {table : List SwapRow} {swap : DexSwap} {row : SwapRow} :
    (writeSwaps table [swap]).1 = table ++ [row] ↔ row = swapRow swap := by
  have hwritten : (writeSwaps table [swap]).1 = table ++ [swapRow swap] := rfl
  rw [hwritten, List.append_cancel_left_eq, List.cons.injEq]
  exact ⟨fun h => h.1.symm, fun h => ⟨h.symm, rfl⟩⟩

theorem swaps_survive_iff (payload : Value) (slot : Nat) (signature programId : String) :
    SwapsSurvive payload slot signature programId ↔ Storable payload slot := by
  constructor
  · intro survive deltas hextract
    obtain ⟨-, fits, stored⟩ := survive deltas hextract
    refine ⟨fits, fun losing gaining hpair => ?_⟩
    have hinfer : inferSwapFromBalanceDeltas slot signature programId deltas =
        .ok (dexSwap slot signature programId losing gaining) :=
      infer_of_cleanPair ((changedPair_iff fits).mpr hpair)
    obtain ⟨l, g, hl, hg, hkeeps⟩ := stored _ hinfer [] _ (writeSwaps_row.mpr rfl)
    rw [hpair.sides.1] at hl
    rw [hpair.sides.2] at hg
    cases hl
    cases hg
    exact (keepsSwap_iff fits hpair).mp hkeeps
  · intro storable deltas hextract
    obtain ⟨fits, hfit⟩ := storable deltas hextract
    refine ⟨extractTokenBalanceDeltas_exact hextract, fits, fun swap hinfer table row hrow => ?_⟩
    obtain ⟨losing, gaining, hclean, rfl⟩ := infer_eq_ok hinfer
    have hpair := (changedPair_iff fits).mp hclean
    rw [writeSwaps_row] at hrow
    refine ⟨losing, gaining, hpair.sides.1, hpair.sides.2, ?_⟩
    rw [hrow]
    exact (keepsSwap_iff fits hpair).mpr (hfit losing gaining hpair)

end Survival

/-- A gain of 2^63, from −1 to `i64::MAX`: inferred with its amount and stored as −1. -/
theorem swap_amount_lost_in_storage :
    extractTokenBalanceDeltas (.object [("token_balances", .array [
        .object [("account", .string "acct-a"), ("mint", .string "mint-a"),
          ("pre", .number (.posInt 1000)), ("post", .number (.posInt 900))],
        .object [("account", .string "acct-b"), ("mint", .string "mint-b"),
          ("pre", .number (.negInt (-1))), ("post", .number (.posInt 9223372036854775807))]])]) =
      .ok [⟨"acct-a", "mint-a", 1000, 900⟩, ⟨"acct-b", "mint-b", -1, 9223372036854775807⟩] ∧
    inferSwapFromBalanceDeltas 42 "sig-1" "program-1"
        [⟨"acct-a", "mint-a", 1000, 900⟩, ⟨"acct-b", "mint-b", -1, 9223372036854775807⟩] =
      .ok ⟨42, "sig-1", "program-1", "mint-a", 100, "mint-b", 9223372036854775808⟩ ∧
    (writeSwaps [] [⟨42, "sig-1", "program-1", "mint-a", 100, "mint-b", 9223372036854775808⟩]).1 =
      [⟨42, "sig-1", "program-1", "mint-a", 100, "mint-b", -1⟩] ∧
    ¬SwapsSurvive (.object [("token_balances", .array [
        .object [("account", .string "acct-a"), ("mint", .string "mint-a"),
          ("pre", .number (.posInt 1000)), ("post", .number (.posInt 900))],
        .object [("account", .string "acct-b"), ("mint", .string "mint-b"),
          ("pre", .number (.negInt (-1))), ("post", .number (.posInt 9223372036854775807))]])])
      42 "sig-1" "program-1" := by
  refine ⟨rfl, rfl, rfl, ?_⟩
  intro survive
  obtain ⟨-, -, stored⟩ := survive _ rfl
  obtain ⟨losing, gaining, -, hgaining, hkeeps⟩ := stored _ rfl [] _ (writeSwaps_row.mpr rfl)
  have hamount := hkeeps.tokenOutAmount
  have hstored : (-1 : Int) = gaining.change.natAbs := hamount
  omega

end YellowstoneStream.Storage

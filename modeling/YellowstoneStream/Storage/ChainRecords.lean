import YellowstoneStream.Reasoning.IncreasingChain
import YellowstoneStream.Storage.ChainTermination

/-!
# Recording a consistent chain

When every update names the one parent its slot has, what a table says about parents and finality
depends on the set of updates recorded in it, and on neither their order nor how they were grouped
into calls.
-/

open Relation YellowstoneStream.Reasoning

namespace YellowstoneStream.Storage

/-- Every update fits and names no parent but that of its slot. -/
def ConsistentUpdates (parentOf : Int → Option Int) (updates : List SlotStateUpdate) : Prop :=
  ∀ update ∈ updates, update.Fits ∧
    ∀ parent ∈ update.parentSlot, parentOf update.slot = some (parent : Int)

section Sets

variable (slots : SlotTable) (updates : List SlotStateUpdate)

/-- Finalized in the table or by one of the updates. -/
def Known (slot : Int) : Prop :=
  Finalized slots slot ∨ ∃ update ∈ updates, (update.slot : Int) = slot

/-- The table or one of the updates names the parent. -/
def Named (parent child : Int) : Prop :=
  (∃ row, slots.find child = some row ∧ row.parentSlot = some parent) ∨
    ∃ update ∈ updates, (update.slot : Int) = child ∧
      ∃ p ∈ update.parentSlot, (p : Int) = parent

def KnownLink (parent child : Int) : Prop :=
  Known slots updates child ∧ Named slots updates parent child

end Sets

theorem Known.mono {slots : SlotTable} {updates updates' : List SlotStateUpdate}
    (hsub : updates ⊆ updates') {slot : Int} (h : Known slots updates slot) :
    Known slots updates' slot :=
  h.imp_right fun ⟨update, hmem, heq⟩ => ⟨update, hsub hmem, heq⟩

theorem Named.mono {slots : SlotTable} {updates updates' : List SlotStateUpdate}
    (hsub : updates ⊆ updates') {parent child : Int} (h : Named slots updates parent child) :
    Named slots updates' parent child :=
  h.imp_right fun ⟨update, hmem, heq⟩ => ⟨update, hsub hmem, heq⟩

theorem KnownLink.mono {slots : SlotTable} {updates updates' : List SlotStateUpdate}
    (hsub : updates ⊆ updates') {parent child : Int} (h : KnownLink slots updates parent child) :
    KnownLink slots updates' parent child :=
  ⟨h.1.mono hsub, h.2.mono hsub⟩

/-- The table says what the old table and the updates say. -/
structure Records (slots : SlotTable) (updates : List SlotStateUpdate) (table : SlotTable) :
    Prop where
  finalized : ∀ slot, Finalized table slot ↔ Known slots updates slot
  parent : ∀ parent child,
    (∃ row, table.find child = some row ∧ row.parentSlot = some parent) ↔
      Named slots updates parent child

theorem records_nil (slots : SlotTable) : Records slots [] slots where
  finalized slot := by simp [Known]
  parent parent child := by simp [Named]

theorem Records.chainLink_iff {slots table : SlotTable} {updates : List SlotStateUpdate}
    (h : Records slots updates table) (parent child : Int) :
    ChainLink table parent child ↔ KnownLink slots updates parent child := by
  unfold KnownLink
  rw [← h.finalized, ← h.parent]
  constructor
  · rintro ⟨row, hrow, hfinalized, hparent⟩
    exact ⟨⟨row, hrow, hfinalized⟩, row, hrow, hparent⟩
  · rintro ⟨⟨row, hrow, hfinalized⟩, row', hrow', hparent⟩
    obtain rfl : row = row' := Option.some.inj (hrow.symm.trans hrow')
    exact ⟨row, hrow, hfinalized, hparent⟩

/-! ## One call -/

section Call

variable {updates : List SlotStateUpdate} {slot : Nat}

theorem mem_ownUpdates {update : SlotStateUpdate} :
    update ∈ ownUpdates updates slot ↔ update ∈ updates ∧ update.slot = slot := by
  unfold ownUpdates
  rw [List.mem_filter, decide_eq_true_eq]

theorem lastParent_eq_some {parent : Nat} (h : lastParent updates slot = some parent) :
    ∃ update ∈ updates, update.slot = slot ∧ update.parentSlot = some parent := by
  obtain ⟨update, hown, hparent⟩ := List.mem_filterMap.mp (List.mem_of_getLast? h)
  exact ⟨update, (mem_ownUpdates.mp hown).1, (mem_ownUpdates.mp hown).2, hparent⟩

theorem lastParent_eq_none (h : lastParent updates slot = none) {update : SlotStateUpdate}
    (hupdate : update ∈ updates) (hslot : update.slot = slot) : update.parentSlot = none := by
  unfold lastParent at h
  rw [List.getLast?_eq_none_iff, List.filterMap_eq_nil_iff] at h
  exact h update (mem_ownUpdates.mpr ⟨hupdate, hslot⟩)

/-- The parent a row has after a call: the last one given, or else the stored one. -/
theorem recordedRow_parent (table : SlotTable) (call : List SlotStateUpdate) (slot : Nat) :
    (recordedRow table call slot).bind SlotStateRow.parentSlot =
      ((lastParent call slot).map Int.ofNat).or
        ((table.find slot).bind SlotStateRow.parentSlot) := by
  unfold recordedRow
  cases hcombined : combinedUpdate call slot with
  | none =>
      unfold combinedUpdate at hcombined
      split at hcombined
      · rename_i hnil
        unfold lastParent
        rw [List.isEmpty_iff.mp hnil]
        rfl
      · cases hcombined
  | some combined =>
      rw [← (combinedUpdate_slot hcombined).2.1]
      cases table.find slot with
      | none => exact (Option.or_none ..).symm
      | some row => rfl

theorem recordedRow_finalized (table : SlotTable) (call : List SlotStateUpdate) (slot : Nat) :
    (recordedRow table call slot).any SlotStateRow.finalized =
      ((table.find slot).any SlotStateRow.finalized ||
        (ownUpdates call slot).any SlotStateUpdate.finalized) := by
  unfold recordedRow combinedUpdate
  by_cases hnil : (ownUpdates call slot).isEmpty
  · rw [if_pos hnil, List.isEmpty_iff.mp hnil, List.any_nil, Bool.or_false]
  · rw [if_neg hnil]
    cases table.find slot <;> rfl

theorem updatesFit_of_fits (h : ∀ update ∈ updates, update.Fits) : UpdatesFit updates := by
  intro update hupdate
  refine ⟨(h update hupdate).1, fun parent hparent => ?_⟩
  obtain ⟨given, hgiven, -, hgivenParent⟩ := lastParent_eq_some hparent
  exact (h given hgiven).2 parent hgivenParent

end Call

theorem finalized_iff_any (table : SlotTable) (slot : Int) :
    Finalized table slot ↔ (table.find slot).any SlotStateRow.finalized = true := by
  rw [Option.any_eq_true]
  rfl

/-- A recording that fits finalizes the slots of its finalized updates, and none ceases to be. -/
theorem finalized_record_iff (order : IterationOrder) (db : Db) (streamName : String)
    (updates : List SlotStateUpdate) (slot : Nat) :
    Finalized ((recordSlotStates order db streamName updates).2.streamSlots streamName) slot ↔
      Finalized (db.streamSlots streamName) slot ∨
        UpdatesFit updates ∧ ∃ update ∈ updates, update.slot = slot ∧ update.finalized = true := by
  by_cases hfit : UpdatesFit updates
  · obtain ⟨slots, hrecord, hfind, -⟩ := recordSlotStates_of_fits order db streamName hfit
    rw [hrecord, Db.setSlots_slots, finalized_iff_any, finalized_iff_any, hfind,
      recordedRow_finalized, Bool.or_eq_true, List.any_eq_true]
    simp only [hfit, true_and, mem_ownUpdates, and_assoc]
  · obtain ⟨_, hrecord⟩ := recordSlotStates_of_not_fits order db streamName hfit
    rw [hrecord]
    simp only [hfit, false_and, or_false]

section Record

variable {parentOf : Int → Option Int} {slots table table' : SlotTable}
  {updates call : List SlotStateUpdate}

theorem known_append (h : Records slots updates table) (slot : Int) :
    Known slots (updates ++ call) slot ↔
      Finalized table slot ∨ ∃ update ∈ call, (update.slot : Int) = slot := by
  rw [h.finalized]
  simp only [Known, List.mem_append, or_and_right, exists_or, or_assoc]

theorem named_append (h : Records slots updates table) (parent child : Int) :
    Named slots (updates ++ call) parent child ↔
      (∃ row, table.find child = some row ∧ row.parentSlot = some parent) ∨
        ∃ update ∈ call, (update.slot : Int) = child ∧
          ∃ p ∈ update.parentSlot, (p : Int) = parent := by
  rw [h.parent]
  simp only [Named, List.mem_append, or_and_right, exists_or, or_assoc]

/-- A call keeps out of negative keys. -/
theorem find_of_negative (hnonneg : ∀ slot ∈ table.keys, 0 ≤ slot)
    (hkeys : ∀ k ∈ table'.keys, k ∈ table.keys ∨ 0 ≤ k) {slot : Int} (hslot : slot < 0) :
    table.find slot = none ∧ table'.find slot = none := by
  rw [KeyedTable.find_eq_none_iff, KeyedTable.find_eq_none_iff]
  constructor
  · intro hmem
    have hpos := hnonneg slot hmem
    omega
  · intro hmem
    have hpos := (hkeys slot hmem).elim (hnonneg slot) id
    omega

theorem Records.record_finalized (h : Records slots updates table)
    (hnonneg : ∀ slot ∈ table.keys, 0 ≤ slot)
    (hfinal : ∀ update ∈ call, update.finalized = true)
    (hfind : ∀ slot : Nat, table'.find slot = recordedRow table call slot)
    (hkeys : ∀ k ∈ table'.keys, k ∈ table.keys ∨ 0 ≤ k) (slot : Int) :
    Finalized table' slot ↔ Known slots (updates ++ call) slot := by
  rw [known_append h, finalized_iff_any, finalized_iff_any]
  rcases lt_or_ge slot 0 with hslot | hslot
  · rw [(find_of_negative hnonneg hkeys hslot).1, (find_of_negative hnonneg hkeys hslot).2]
    refine (or_iff_left ?_).symm
    rintro ⟨update, -, hupdate⟩
    omega
  · obtain ⟨n, rfl⟩ := Int.eq_ofNat_of_zero_le hslot
    rw [hfind, recordedRow_finalized, Bool.or_eq_true, List.any_eq_true]
    refine or_congr_right ?_
    constructor
    · rintro ⟨update, hown, -⟩
      obtain ⟨hmem, heq⟩ := mem_ownUpdates.mp hown
      exact ⟨update, hmem, by omega⟩
    · rintro ⟨update, hmem, heq⟩
      exact ⟨update, mem_ownUpdates.mpr ⟨hmem, by omega⟩, hfinal update hmem⟩

theorem Records.record_parent (h : Records slots updates table)
    (hnonneg : ∀ slot ∈ table.keys, 0 ≤ slot)
    (hnamed : ∀ parent child, Named slots (updates ++ call) parent child →
      parentOf child = some parent)
    (hfind : ∀ slot : Nat, table'.find slot = recordedRow table call slot)
    (hkeys : ∀ k ∈ table'.keys, k ∈ table.keys ∨ 0 ≤ k) (parent child : Int) :
    (∃ row, table'.find child = some row ∧ row.parentSlot = some parent) ↔
      Named slots (updates ++ call) parent child := by
  rcases lt_or_ge child 0 with hslot | hslot
  · rw [named_append h, (find_of_negative hnonneg hkeys hslot).1,
      (find_of_negative hnonneg hkeys hslot).2]
    refine (or_iff_left ?_).symm
    rintro ⟨update, -, hupdate, -⟩
    omega
  · obtain ⟨n, rfl⟩ := Int.eq_ofNat_of_zero_le hslot
    rw [← Option.bind_eq_some_iff, hfind, recordedRow_parent]
    cases hlast : lastParent call n with
    | some last =>
        -- the last parent given is the one that every update and row names
        obtain ⟨update, hupdate, heq, hgiven⟩ := lastParent_eq_some hlast
        have hname : Named slots (updates ++ call) last n :=
          (named_append h _ _).mpr (.inr ⟨update, hupdate, by omega, last, hgiven, rfl⟩)
        show some (last : Int) = some parent ↔ _
        constructor
        · rintro ⟨⟩
          exact hname
        · intro hany
          rw [← hnamed _ _ hname, ← hnamed _ _ hany]
    | none =>
        -- the call names no parent for the slot, and the stored one stays
        show (table.find n).bind SlotStateRow.parentSlot = some parent ↔ _
        rw [named_append h, Option.bind_eq_some_iff]
        refine (or_iff_left ?_).symm
        rintro ⟨update, hupdate, heq, p, hp, -⟩
        rw [lastParent_eq_none hlast hupdate (by omega)] at hp
        cases hp

/-- One call adds what its updates say. -/
theorem Records.record (h : Records slots updates table)
    (hnonneg : ∀ slot ∈ table.keys, 0 ≤ slot)
    (hnamed : ∀ parent child, Named slots (updates ++ call) parent child →
      parentOf child = some parent)
    (hfinal : ∀ update ∈ call, update.finalized = true)
    (hfind : ∀ slot : Nat, table'.find slot = recordedRow table call slot)
    (hkeys : ∀ k ∈ table'.keys, k ∈ table.keys ∨ 0 ≤ k) :
    Records slots (updates ++ call) table' where
  finalized := h.record_finalized hnonneg hfinal hfind hkeys
  parent := h.record_parent hnonneg hnamed hfind hkeys

end Record

/-! ## Parents below their slots -/

def RowsBelow (table : SlotTable) : Prop :=
  ∀ slot row, table.find slot = some row → ∀ parent ∈ row.parentSlot, parent < slot

theorem RowsBelow.parentsBelow {table : SlotTable} (h : RowsBelow table) : ParentsBelow table := by
  rintro parent child ⟨row, hrow, -, hparent⟩
  exact h child row hrow parent hparent

/-- Every row's parent stands in a relation to its slot. -/
def RowParents (rel : Int → Int → Prop) (table : SlotTable) : Prop :=
  ∀ slot row, table.find slot = some row → ∀ parent ∈ row.parentSlot, rel slot parent

/-- What holds of the stored parents and of those given holds of the recorded ones. -/
theorem RowParents.record {rel : Int → Int → Prop} {table table' : SlotTable}
    {call : List SlotStateUpdate} (h : RowParents rel table)
    (hnonneg : ∀ slot ∈ table.keys, 0 ≤ slot)
    (hcall : ∀ update ∈ call, ∀ parent ∈ update.parentSlot, rel update.slot parent)
    (hfind : ∀ slot : Nat, table'.find slot = recordedRow table call slot)
    (hkeys : ∀ k ∈ table'.keys, k ∈ table.keys ∨ 0 ≤ k) : RowParents rel table' := by
  intro slot row hrow parent hparent
  rcases lt_or_ge slot 0 with hslot | hslot
  · rw [(find_of_negative hnonneg hkeys hslot).2] at hrow
    cases hrow
  · obtain ⟨n, rfl⟩ := Int.eq_ofNat_of_zero_le hslot
    have heq := recordedRow_parent table call n
    rw [← hfind, hrow, Option.bind_some, show row.parentSlot = some parent from hparent] at heq
    cases hlast : lastParent call n with
    | some last =>
        obtain ⟨update, hupdate, hslot, hgiven⟩ := lastParent_eq_some hlast
        have hrel := hcall update hupdate last hgiven
        rw [hslot] at hrel
        rw [hlast] at heq
        obtain rfl : parent = last := Option.some.inj heq
        exact hrel
    | none =>
        -- the parent is the one that was stored before
        rw [hlast] at heq
        obtain ⟨stored, hstored, hstoredParent⟩ := Option.bind_eq_some_iff.mp heq.symm
        exact h n stored hstored parent hstoredParent

theorem RowsBelow.record {parentOf : Int → Option Int} {table table' : SlotTable}
    {call : List SlotStateUpdate} (h : RowsBelow table)
    (hnonneg : ∀ slot ∈ table.keys, 0 ≤ slot)
    (hbelow : ∀ slot parent, parentOf slot = some parent → parent < slot)
    (hconsistent : ConsistentUpdates parentOf call)
    (hfind : ∀ slot : Nat, table'.find slot = recordedRow table call slot)
    (hkeys : ∀ k ∈ table'.keys, k ∈ table.keys ∨ 0 ≤ k) : RowsBelow table' := by
  have hrows : RowParents (fun slot parent => parent < slot) table := h
  exact hrows.record hnonneg (fun update hupdate parent hparent =>
    hbelow _ _ ((hconsistent update hupdate).2 parent hparent)) hfind hkeys

end YellowstoneStream.Storage

import Mathlib.Logic.Function.Basic
import YellowstoneStream.Reasoning.StepRun
import YellowstoneStream.Storage.ChainRecords

/-!
# Advances of several processes

`advance_contiguous_finalized` is two statements without a transaction: the first computes the
watermark and the head, the second stores them.  Processes that share a stream interleave these with
each other's and with recordings, so a watermark may be stored that was computed from another start
slot than the watermark it replaces.
-/

open Relation YellowstoneStream.Reasoning

namespace YellowstoneStream.Storage

/-- What a process holds between the two statements of an advance. -/
structure PendingFrontier where
  watermark : Option Int
  head : Option Int
  -- where the chain started; the process does not keep it
  seed : Option Int

structure SharedStream (Pid : Type) where
  db : Db
  pending : Pid → Option PendingFrontier

def SharedStream.initial {Pid : Type} : SharedStream Pid := ⟨.empty, fun _ => none⟩

/-- The statements that processes issue; each is atomic. -/
inductive Statement (Pid : Type) where
  | recordSlotStates (pid : Pid) (order : IterationOrder) (updates : List SlotStateUpdate)
  | selectWatermark (pid : Pid) (fuel : Nat)
  | upsertFrontier (pid : Pid)

section Exec

variable {Pid : Type} [DecidableEq Pid]

/-- None when it is not the process's turn for the statement, or its query does not stop. -/
def SharedStream.exec (streamName : String) (x : SharedStream Pid) :
    Statement Pid → Option (SharedStream Pid)
  | .recordSlotStates pid order updates =>
      match x.pending pid with
      | some _ => none
      | none => some { x with db := (recordSlotStates order x.db streamName updates).2 }
  | .selectWatermark pid fuel =>
      match x.pending pid with
      | some _ => none
      | none =>
          (selectWatermark fuel x.db streamName).map fun (watermark, head) =>
            let computed := ⟨watermark, head, chainSeed x.db streamName⟩
            { x with pending := Function.update x.pending pid (some computed) }
  | .upsertFrontier pid =>
      (x.pending pid).map fun computed =>
        let row :=
          upsertFrontier (x.db.streamCursors streamName) computed.watermark computed.head
        ⟨x.db.setCursor streamName row, Function.update x.pending pid none⟩

def SharedStream.execAll (streamName : String) (x : SharedStream Pid)
    (statements : List (Statement Pid)) : Option (SharedStream Pid) :=
  runSteps (SharedStream.exec streamName) x statements

/-- Two statements of one process with none between them are the advance of a single process. -/
theorem exec_select_upsert (streamName : String) (x : SharedStream Pid) (pid : Pid) (fuel : Nat)
    (hidle : x.pending pid = none) :
    (x.execAll streamName [.selectWatermark pid fuel, .upsertFrontier pid]).map SharedStream.db =
      (advanceContiguousFinalized fuel x.db streamName).map Prod.snd := by
  simp only [SharedStream.execAll, runSteps, List.foldlM_cons, List.foldlM_nil,
    SharedStream.exec, hidle, advanceContiguousFinalized]
  cases selectWatermark fuel x.db streamName <;> simp

/-- What each statement does. -/
theorem exec_cases {streamName : String} {x y : SharedStream Pid} {statement : Statement Pid}
    (h : x.exec streamName statement = some y) :
    (∃ pid order updates, statement = .recordSlotStates pid order updates ∧
      x.pending pid = none ∧
      y = ⟨(recordSlotStates order x.db streamName updates).2, x.pending⟩) ∨
    (∃ pid fuel watermark head, statement = .selectWatermark pid fuel ∧ x.pending pid = none ∧
      selectWatermark fuel x.db streamName = some (watermark, head) ∧
      y = ⟨x.db, Function.update x.pending pid
        (some ⟨watermark, head, chainSeed x.db streamName⟩)⟩) ∨
    (∃ pid computed, statement = .upsertFrontier pid ∧ x.pending pid = some computed ∧
      y = ⟨x.db.setCursor streamName (upsertFrontier (x.db.streamCursors streamName)
        computed.watermark computed.head), Function.update x.pending pid none⟩) := by
  cases statement with
  | recordSlotStates pid order updates =>
      cases hpending : x.pending pid with
      | some _ => simp [SharedStream.exec, hpending] at h
      | none =>
          refine .inl ⟨pid, order, updates, rfl, hpending, ?_⟩
          simpa [SharedStream.exec, hpending] using h.symm
  | selectWatermark pid fuel =>
      cases hpending : x.pending pid with
      | some _ => simp [SharedStream.exec, hpending] at h
      | none =>
          simp only [SharedStream.exec, hpending, Option.map_eq_some_iff, Prod.exists] at h
          obtain ⟨watermark, head, hselect, rfl⟩ := h
          exact .inr (.inl ⟨pid, fuel, watermark, head, rfl, hpending, hselect, rfl⟩)
  | upsertFrontier pid =>
      rw [SharedStream.exec, Option.map_eq_some_iff] at h
      obtain ⟨computed, hcomputed, rfl⟩ := h
      exact .inr (.inr ⟨pid, computed, rfl, hcomputed, rfl⟩)

end Exec

/-! ## The condition -/

/-- Every parent given is the one that the slot has. -/
def Statement.Consistent {Pid : Type} (parentOf : Int → Option Int) : Statement Pid → Prop
  | .recordSlotStates _ _ updates =>
      ∀ update ∈ updates, ∀ parent ∈ update.parentSlot, parentOf update.slot = some (parent : Int)
  | _ => True

/-- The two slots lie on one chain without forks, or the first leads nowhere above the second. -/
def JoinsAt (slots : SlotTable) (seed stored : Int) : Prop :=
  ReflTransGen (ChainLink slots) stored seed ∨
    (ReflTransGen (ChainLink slots) seed stored ∧
      ∀ parent a b, ReflTransGen (ChainLink slots) seed parent →
        ChainLink slots parent a → ChainLink slots parent b → a = b) ∨
    ∀ slot, ReflTransGen (ChainLink slots) seed slot → slot ≤ stored

section Safe

variable {Pid : Type} [DecidableEq Pid]

/-- A value is stored only where its chain's start joins the watermark it meets. -/
def SharedStream.Safe (streamName : String) (x : SharedStream Pid) : Statement Pid → Prop
  | .upsertFrontier pid =>
      ∀ computed ∈ x.pending pid, ∀ seed ∈ computed.seed, ∀ stored ∈ x.db.watermark streamName,
        JoinsAt (x.db.streamSlots streamName) seed stored
  | _ => True

def SharedStream.SafeRun (streamName : String) (x : SharedStream Pid)
    (statements : List (Statement Pid)) : Prop :=
  Reasoning.SafeRun (SharedStream.exec streamName) (SharedStream.Safe streamName) x statements

end Safe

/-- While the stored watermark is the one an advance started from, its value may be stored. -/
theorem joinsAt_self (slots : SlotTable) (slot : Int) : JoinsAt slots slot slot := .inl .refl

/-- From a start that joins the stored watermark, what lies above that is reached through it. -/
theorem JoinsAt.reaches {slots : SlotTable} (hbelow : RowsBelow slots) {seed stored slot : Int}
    (h : JoinsAt slots seed stored) (hslot : ReflTransGen (ChainLink slots) seed slot)
    (habove : stored < slot) : ReflTransGen (ChainLink slots) stored slot := by
  rcases h with hbefore | ⟨hafter, huniq⟩ | hlow
  · exact hbefore.trans hslot
  · rcases total_of_unforked huniq hafter hslot with hon | hback
    · exact hon
    · have hle := le_of_reaches hbelow.parentsBelow hback
      omega
  · have hle := hlow slot hslot
    omega

/-! ## What every statement keeps -/

/-- Rows name the parents their slots have, and a computed watermark is reached from its start. -/
structure SharedInv {Pid : Type} (parentOf : Int → Option Int) (streamName : String)
    (x : SharedStream Pid) : Prop where
  nonneg : ∀ slot ∈ (x.db.streamSlots streamName).keys, 0 ≤ slot
  parents : RowParents (fun slot parent => parentOf slot = some parent)
    (x.db.streamSlots streamName)
  computed : ∀ pid, ∀ computed ∈ x.pending pid, ∀ w ∈ computed.watermark,
    ∃ seed ∈ computed.seed, ReflTransGen (ChainLink (x.db.streamSlots streamName)) seed w

/-- What no statement undoes. -/
structure Extends {Pid : Type} (streamName : String) (x y : SharedStream Pid) : Prop where
  links : ∀ parent child, ChainLink (x.db.streamSlots streamName) parent child →
    ChainLink (y.db.streamSlots streamName) parent child
  watermark : ∀ a ∈ x.db.watermark streamName, ∃ b ∈ y.db.watermark streamName, a ≤ b

theorem Extends.refl {Pid : Type} (streamName : String) (x : SharedStream Pid) :
    Extends streamName x x :=
  ⟨fun _ _ => id, fun a ha => ⟨a, ha, le_rfl⟩⟩

theorem Extends.trans {Pid : Type} {streamName : String} {x y z : SharedStream Pid}
    (hxy : Extends streamName x y) (hyz : Extends streamName y z) : Extends streamName x z where
  links parent child h := hyz.links parent child (hxy.links parent child h)
  watermark a ha := by
    obtain ⟨b, hb, hab⟩ := hxy.watermark a ha
    obtain ⟨c, hc, hbc⟩ := hyz.watermark b hb
    exact ⟨c, hc, hab.trans hbc⟩

section Inv

variable {Pid : Type} {parentOf : Int → Option Int} {streamName : String} {x : SharedStream Pid}

theorem sharedInv_initial : SharedInv parentOf streamName (.initial : SharedStream Pid) where
  nonneg := by simp [SharedStream.initial, Db.empty, KeyedTable.empty, KeyedTable.keys]
  parents := by simp [RowParents, SharedStream.initial, Db.empty, KeyedTable.empty, KeyedTable.find]
  computed := by simp [SharedStream.initial]

theorem SharedInv.rowsBelow (hbelow : ∀ slot parent, parentOf slot = some parent → parent < slot)
    (h : SharedInv parentOf streamName x) : RowsBelow (x.db.streamSlots streamName) :=
  fun slot row hrow parent hparent => hbelow slot parent (h.parents slot row hrow parent hparent)

/-- A recorded link stays: whoever reports the slot again reports the same parent. -/
theorem chainLink_record {table table' : SlotTable} {call : List SlotStateUpdate}
    (hparents : RowParents (fun slot parent => parentOf slot = some parent) table)
    (hnonneg : ∀ slot ∈ table.keys, 0 ≤ slot)
    (hcall : ∀ update ∈ call, ∀ parent ∈ update.parentSlot,
      parentOf update.slot = some (parent : Int))
    (hfind : ∀ slot : Nat, table'.find slot = recordedRow table call slot)
    {parent child : Int} (h : ChainLink table parent child) : ChainLink table' parent child := by
  have hchild := hnonneg child h.finalized.mem_keys
  obtain ⟨row', hrow', hfinalized⟩ := finalized_recordedRow hfind hchild h.finalized
  obtain ⟨row, hrow, -, hparent⟩ := h
  refine ⟨row', hrow', hfinalized, ?_⟩
  obtain ⟨n, rfl⟩ := Int.eq_ofNat_of_zero_le hchild
  have heq := recordedRow_parent table call n
  rw [← hfind, hrow', hrow, Option.bind_some, Option.bind_some, hparent] at heq
  rw [heq]
  -- without a parent in the call the row keeps its own
  cases hlast : lastParent call n with
  | none => rfl
  | some last =>
      obtain ⟨update, hupdate, hslot, hgiven⟩ := lastParent_eq_some hlast
      have hlastParent := hcall update hupdate last hgiven
      rw [hslot, show parentOf n = some parent from hparents n row hrow parent hparent]
        at hlastParent
      exact hlastParent.symm

/-- The step lemma for recordings. -/
theorem SharedInv.record (h : SharedInv parentOf streamName x) (order : IterationOrder)
    {updates : List SlotStateUpdate}
    (hcall : ∀ update ∈ updates, ∀ parent ∈ update.parentSlot,
      parentOf update.slot = some (parent : Int)) :
    SharedInv parentOf streamName
        ⟨(recordSlotStates order x.db streamName updates).2, x.pending⟩ ∧
      Extends streamName x ⟨(recordSlotStates order x.db streamName updates).2, x.pending⟩ := by
  by_cases hfit : UpdatesFit updates
  · obtain ⟨slots, hrecord, hfind, hkeys⟩ := recordSlotStates_of_fits order x.db streamName hfit
    rw [hrecord]
    have hlinks : ∀ parent child, ChainLink (x.db.streamSlots streamName) parent child →
        ChainLink slots parent child :=
      fun parent child => chainLink_record h.parents h.nonneg hcall hfind
    refine ⟨⟨?_, ?_, ?_⟩, ⟨?_, fun a ha => ⟨a, ha, le_rfl⟩⟩⟩
    · rw [Db.setSlots_slots]
      exact fun slot hslot => (hkeys slot hslot).elim (h.nonneg slot) id
    · rw [Db.setSlots_slots]
      exact h.parents.record h.nonneg hcall hfind hkeys
    · rw [Db.setSlots_slots]
      intro pid computed hcomputed w hw
      obtain ⟨seed, hseed, hreach⟩ := h.computed pid computed hcomputed w hw
      exact ⟨seed, hseed, hreach.lift id hlinks⟩
    · rw [Db.setSlots_slots]
      exact hlinks
  · -- a call that does not fit fails before its statement
    obtain ⟨slot, hrecord⟩ := recordSlotStates_of_not_fits order x.db streamName hfit
    rw [hrecord]
    exact ⟨h, .refl streamName x⟩

variable [DecidableEq Pid]

theorem SharedInv.select (h : SharedInv parentOf streamName x) {pid : Pid} {fuel : Nat}
    {watermark head : Option Int}
    (hselect : selectWatermark fuel x.db streamName = some (watermark, head)) :
    SharedInv parentOf streamName
      ⟨x.db, Function.update x.pending pid
        (some ⟨watermark, head, chainSeed x.db streamName⟩)⟩ := by
  refine ⟨h.nonneg, h.parents, fun other computed hcomputed w hw => ?_⟩
  rcases eq_or_ne other pid with rfl | hne
  · simp only [Function.update_self, Option.mem_some_iff] at hcomputed
    subst hcomputed
    have hwatermark := (selectWatermark_spec hselect).1
    rw [show watermark = some w from hw] at hwatermark
    obtain ⟨anchor, hanchor, hreach, -⟩ := hwatermark
    exact ⟨anchor, (chainSeed_eq_some_iff x.db streamName anchor).mpr hanchor, hreach⟩
  · simp only [Function.update_of_ne hne] at hcomputed
    exact h.computed other computed hcomputed w hw

theorem SharedInv.upsert (h : SharedInv parentOf streamName x) (pid : Pid)
    (row : StreamCursorRow) :
    SharedInv parentOf streamName
      ⟨x.db.setCursor streamName row, Function.update x.pending pid none⟩ := by
  refine ⟨h.nonneg, h.parents, fun other computed hcomputed => ?_⟩
  rcases eq_or_ne other pid with rfl | hne
  · simp only [Function.update_self, Option.mem_def, reduceCtorEq] at hcomputed
  · simp only [Function.update_of_ne hne] at hcomputed
    exact h.computed other computed hcomputed

end Inv

/-- The stored watermark after the second statement. -/
theorem upsert_watermark (db : Db) (streamName : String) (watermark head : Option Int) :
    (db.setCursor streamName
        (upsertFrontier (db.streamCursors streamName) watermark head)).watermark streamName =
      greatest (db.watermark streamName) watermark := by
  rw [Db.watermark, Db.setCursor_cursor, Option.bind_some, upsertFrontier_watermark, Db.watermark]

section Steps

variable {Pid : Type} [DecidableEq Pid] {parentOf : Int → Option Int} {streamName : String}
  {x y : SharedStream Pid} {statement : Statement Pid}

/-- The step lemma: the invariant holds on, and nothing is undone. -/
theorem SharedInv.step (h : SharedInv parentOf streamName x)
    (hconsistent : statement.Consistent parentOf) (hexec : x.exec streamName statement = some y) :
    SharedInv parentOf streamName y ∧ Extends streamName x y := by
  obtain ⟨pid, order, updates, rfl, -, rfl⟩ | ⟨pid, fuel, watermark, head, rfl, -, hselect, rfl⟩ |
    ⟨pid, computed, rfl, -, rfl⟩ := exec_cases hexec
  · exact h.record order hconsistent
  · exact ⟨h.select hselect, fun _ _ => id, fun a ha => ⟨a, ha, le_rfl⟩⟩
  · refine ⟨h.upsert pid _, fun _ _ => id, fun a ha => ?_⟩
    rw [upsert_watermark]
    exact le_greatest_left _ _ a ha

/-- A safe statement leaves the watermark on its chain. -/
theorem SharedInv.step_reaches
    (hbelow : ∀ slot parent, parentOf slot = some parent → parent < slot)
    (h : SharedInv parentOf streamName x) (hsafe : x.Safe streamName statement)
    (hexec : x.exec streamName statement = some y) {a b : Int}
    (ha : x.db.watermark streamName = some a) (hb : y.db.watermark streamName = some b) :
    ReflTransGen (ChainLink (y.db.streamSlots streamName)) a b := by
  obtain ⟨pid, order, updates, rfl, -, rfl⟩ | ⟨pid, fuel, watermark, head, rfl, -, -, rfl⟩ |
    ⟨pid, computed, rfl, hcomputed, rfl⟩ := exec_cases hexec
  · rw [Db.watermark, recordSlotStates_cursors, ← Db.watermark, ha] at hb
    exact Option.some.inj hb ▸ .refl
  · rw [show x.db.watermark streamName = some b from hb] at ha
    exact Option.some.inj ha ▸ .refl
  · rw [upsert_watermark, ha] at hb
    cases hw : computed.watermark with
    | none =>
        rw [hw, greatest_none_right] at hb
        exact Option.some.inj hb ▸ .refl
    | some w =>
        rw [hw, greatest_some_some, Option.some_inj] at hb
        rcases le_or_gt w a with hle | hgt
        · rw [max_eq_left hle] at hb
          exact hb ▸ .refl
        · -- the computed value wins, and its start joins the value it replaces
          rw [max_eq_right hgt.le] at hb
          subst hb
          obtain ⟨seed, hseed, hreach⟩ := h.computed pid computed hcomputed w hw
          exact (hsafe computed hcomputed seed hseed a ha).reaches (h.rowsBelow hbelow) hreach hgt

/-- The run lemma. -/
theorem SharedInv.run (h : SharedInv parentOf streamName x) {statements : List (Statement Pid)}
    (hconsistent : ∀ statement ∈ statements, statement.Consistent parentOf)
    (hrun : x.execAll streamName statements = some y) :
    SharedInv parentOf streamName y ∧ Extends streamName x y := by
  have hsafe : Reasoning.SafeRun (SharedStream.exec streamName)
      (fun _ statement => statement.Consistent parentOf) x statements :=
    safeRun_of_forall (fun statement hmem _ => hconsistent statement hmem) x
  exact hsafe.induction (fun _ _ _ hinv hstep hexec => hinv.step hstep hexec)
    (Extends.refl streamName) (fun _ _ _ hxy hyz => hxy.trans hyz) hrun h

theorem SharedInv.run_reaches
    (hbelow : ∀ slot parent, parentOf slot = some parent → parent < slot)
    (h : SharedInv parentOf streamName x) {statements : List (Statement Pid)}
    (hconsistent : ∀ statement ∈ statements, statement.Consistent parentOf)
    (hsafe : x.SafeRun streamName statements)
    (hrun : x.execAll streamName statements = some y) {a b : Int}
    (ha : x.db.watermark streamName = some a) (hb : y.db.watermark streamName = some b) :
    ReflTransGen (ChainLink (y.db.streamSlots streamName)) a b := by
  induction statements generalizing x a with
  | nil =>
      obtain rfl := runSteps_nil hrun
      rw [ha] at hb
      exact Option.some.inj hb ▸ .refl
  | cons statement rest ih =>
      obtain ⟨mid, hstep, hrest⟩ := runSteps_cons.mp hrun
      have hconsistentRest := fun s hs => hconsistent s (List.mem_cons_of_mem _ hs)
      obtain ⟨hmid, hfirst⟩ := h.step (hconsistent statement List.mem_cons_self) hstep
      -- the first statement moves along links of its own table, which later ones keep
      obtain ⟨c, hc, -⟩ := hfirst.watermark a ha
      have hlinks := (hmid.run hconsistentRest hrest).2.links
      have hreach := h.step_reaches hbelow hsafe.1 hstep ha hc
      exact (hreach.lift id hlinks).trans
        (ih hmid hconsistentRest (hsafe.2 mid hstep) hrest hc)

/-- However the statements of any processes interleave, no later watermark is below an earlier one;
and in a part of a run whose upserts are safe, every later watermark is reached from every earlier
one along finalized links. -/
theorem interleaved_advances_contiguous
    (hbelow : ∀ slot parent, parentOf slot = some parent → parent < slot)
    (before after : List (Statement Pid))
    (hconsistent : ∀ statement ∈ before ++ after, statement.Consistent parentOf)
    (hbefore : SharedStream.initial.execAll streamName before = some x)
    (hafter : x.execAll streamName after = some y) :
    (∀ a ∈ x.db.watermark streamName, ∃ b ∈ y.db.watermark streamName, a ≤ b) ∧
      (x.SafeRun streamName after →
        ∀ a ∈ x.db.watermark streamName, ∀ b ∈ y.db.watermark streamName,
          ReflTransGen (ChainLink (y.db.streamSlots streamName)) a b) := by
  have hfirst := fun s hs => hconsistent s (List.mem_append_left after hs)
  have hsecond := fun s hs => hconsistent s (List.mem_append_right before hs)
  have hinv := (sharedInv_initial.run hfirst hbefore).1
  exact ⟨(hinv.run hsecond hafter).2.watermark, fun hsafe a ha b hb =>
    hinv.run_reaches hbelow hsecond hsafe hafter ha hb⟩

omit [DecidableEq Pid] in
/-- An advance is safe to end while the watermark is the one that its chain started at. -/
theorem safe_upsert_of_seed {pid : Pid}
    (h : ∀ computed ∈ x.pending pid, computed.seed = x.db.watermark streamName) :
    x.Safe streamName (.upsertFrontier pid) := by
  intro computed hcomputed seed hseed stored hstored
  have hsame : some seed = some stored :=
    calc some seed = computed.seed := hseed.symm
      _ = x.db.watermark streamName := h computed hcomputed
      _ = some stored := hstored
  obtain rfl := Option.some.inj hsame
  exact joinsAt_self _ _

end Steps

/-- Each slot's parent is the slot before it. -/
def slotBefore (slot : Int) : Option Int := some (slot - 1)

theorem slotBefore_below (slot parent : Int) (h : slotBefore slot = some parent) :
    parent < slot := by
  obtain rfl := Option.some.inj h
  omega

def advancedToTen : List (Statement Bool) :=
  [.recordSlotStates true insertionOrder [⟨10, some 9, true, false⟩], .selectWatermark true 2,
    .upsertFrontier true]

/-- The second process computes 10 again, and stores it while the first one holds 11. -/
def advancedToEleven : List (Statement Bool) :=
  [.selectWatermark false 2, .recordSlotStates true insertionOrder [⟨11, some 10, true, false⟩],
    .selectWatermark true 3, .upsertFrontier false, .upsertFrontier true]

theorem interleaved_advances_contiguous_eleven :
    ∃ x y, (SharedStream.initial.execAll "test" advancedToTen = some x ∧
      x.execAll "test" advancedToEleven = some y) ∧
      y.db.watermark "test" = some 11 ∧
      ReflTransGen (ChainLink (y.db.streamSlots "test")) 10 11 := by
  have hwatermarks : ((SharedStream.initial.execAll "test" advancedToTen).bind fun x =>
      (x.execAll "test" advancedToEleven).map fun y =>
        (x.db.watermark "test", y.db.watermark "test")) = some (some 10, some 11) := by decide
  simp only [Option.bind_eq_some_iff, Option.map_eq_some_iff, Prod.mk.injEq] at hwatermarks
  obtain ⟨x, hx, y, hy, hten, heleven⟩ := hwatermarks
  have hconsistent : ∀ statement ∈ advancedToTen ++ advancedToEleven,
      statement.Consistent slotBefore := by
    simp [advancedToTen, advancedToEleven, Statement.Consistent, slotBefore]
  have hsafe : x.SafeRun "test" advancedToEleven := by
    obtain rfl := Option.some.inj hx
    refine ⟨trivial, fun x₁ h₁ => ⟨trivial, fun x₂ h₂ => ⟨trivial, fun x₃ h₃ => ?_⟩⟩⟩
    obtain rfl := Option.some.inj h₁
    obtain rfl := Option.some.inj h₂
    obtain rfl := Option.some.inj h₃
    -- both chains started at 10, which is still stored when either ends
    refine ⟨safe_upsert_of_seed (by decide), fun x₄ h₄ => ⟨?_, fun _ _ => trivial⟩⟩
    obtain rfl := Option.some.inj h₄
    exact safe_upsert_of_seed (by decide)
  exact ⟨x, y, ⟨hx, hy⟩, heleven,
    (interleaved_advances_contiguous slotBefore_below advancedToTen advancedToEleven hconsistent hx
      hy).2 hsafe 10 hten 11 heleven⟩

/-- The first process finds only slot 10; before it stores that, the second one records the older
chain of 5 and stores its end 6. -/
def racedBootstrap : List (Statement Bool) :=
  [.recordSlotStates true insertionOrder [⟨10, some 9, true, false⟩], .selectWatermark true 2,
    .recordSlotStates false insertionOrder [⟨5, some 4, true, false⟩, ⟨6, some 5, true, false⟩],
    .selectWatermark false 3, .upsertFrontier false]

/-- The upsert of the first process takes the watermark from 6 to 10, over the gap between them. -/
theorem interleaved_advances_gap :
    ¬ ∀ (parentOf : Int → Option Int) (before : List (Statement Bool)) (pid : Bool)
        (x y : SharedStream Bool) (a b : Int),
      (∀ slot parent, parentOf slot = some parent → parent < slot) →
      (∀ statement ∈ before, statement.Consistent parentOf) →
      SharedStream.initial.execAll "test" before = some x →
      x.exec "test" (.upsertFrontier pid) = some y →
      x.db.watermark "test" = some a → y.db.watermark "test" = some b → a ≠ b →
      ReflTransGen (ChainLink (y.db.streamSlots "test")) a b := by
  intro hall
  have hfinal : ((SharedStream.initial.execAll "test" racedBootstrap).bind fun x =>
      (x.exec "test" (.upsertFrontier true)).map fun y =>
        (x.db.watermark "test", y.db.watermark "test",
          (y.db.streamSlots "test").find 10, (y.db.streamSlots "test").find 9)) =
      some (some 6, some 10, some ⟨10, some 9, true, false⟩, none) := by decide
  rw [Option.bind_eq_some_iff] at hfinal
  obtain ⟨x, hx, hfinal⟩ := hfinal
  rw [Option.map_eq_some_iff] at hfinal
  obtain ⟨y, hy, hfinal⟩ := hfinal
  simp only [Prod.mk.injEq] at hfinal
  obtain ⟨ha, hb, hten, hnine⟩ := hfinal
  have hconsistent : ∀ statement ∈ racedBootstrap, statement.Consistent slotBefore := by
    simp [racedBootstrap, Statement.Consistent, slotBefore]
  have hreach := hall slotBefore racedBootstrap true x y 6 10 slotBefore_below hconsistent hx hy
    ha hb (by decide)
  -- slot 10 has the parent 9, which no row has recorded
  obtain heq | ⟨parent, hparent, row, hrow, -, hlink⟩ := hreach.cases_tail
  · cases heq
  · rw [hten] at hrow
    obtain rfl := Option.some.inj hrow
    obtain rfl := Option.some.inj hlink
    obtain heq | ⟨_, -, row, hrow, -⟩ := hparent.cases_tail
    · cases heq
    · rw [hnine] at hrow
      cases hrow

end YellowstoneStream.Storage

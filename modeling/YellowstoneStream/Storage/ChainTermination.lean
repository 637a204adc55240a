import YellowstoneStream.Storage.Watermark

/-!
# When the chain query stops

The recursive query follows parent links without comparing a parent with its slot, and `UNION ALL`
keeps repeated rows, so a cycle of finalized slots above the anchor is walked forever.
-/

open Relation YellowstoneStream.Reasoning

namespace YellowstoneStream.Storage

/-- No cycle of parent links between finalized slots can be reached from the anchor. -/
def NoCycle (db : Db) (streamName : String) : Prop :=
  ∀ anchor, IsAnchor db streamName anchor →
    ∀ slot, ReflTransGen (ChainLink (db.streamSlots streamName)) anchor slot →
      ¬ TransGen (ChainLink (db.streamSlots streamName)) slot slot

/-- Every recorded parent lies below its slot. -/
def ParentsBelow (slots : SlotTable) : Prop :=
  ∀ parent child, ChainLink slots parent child → parent < child

theorem advance_eq_some_iff (db : Db) (streamName : String) :
    (∃ fuel out, advanceContiguousFinalized fuel db streamName = some out) ↔
      Terminates (chainStep (db.streamSlots streamName)) (chainSeed db streamName).toList := by
  simp only [advanceContiguousFinalized, selectWatermark, Terminates, Option.map_map,
    Option.map_eq_some_iff]
  refine exists_congr fun fuel => ⟨?_, ?_⟩
  · rintro ⟨_, chain, hchain, -⟩
    exact ⟨chain, hchain⟩
  · rintro ⟨chain, hchain⟩
    exact ⟨_, chain, hchain, rfl⟩

/-- The statement returns if and only if no cycle is reachable from the anchor, whatever slot
states and frontier are stored. -/
theorem advance_terminates_iff (db : Db) (streamName : String) :
    (∃ fuel out, advanceContiguousFinalized fuel db streamName = some out) ↔
      NoCycle db streamName := by
  rw [advance_eq_some_iff, terminates_iff_acyclic (mem_chainStep (db.streamSlots streamName))
    (finalizedSlots (db.streamSlots streamName)).toFinset]
  · simp only [Option.mem_toList, chainSeed_eq_some_iff]
    rfl
  · intro parent child hlink
    rw [List.mem_toFinset, mem_finalizedSlots]
    exact hlink.finalized

/-- The bound on the rounds does not show in the outcome. -/
theorem advance_unique {db : Db} {streamName : String} {fuel fuel' : Nat}
    {a b : Except PostgresSlotStateError FinalizedFrontier × Db}
    (ha : advanceContiguousFinalized fuel db streamName = some a)
    (hb : advanceContiguousFinalized fuel' db streamName = some b) : a = b := by
  simp only [advanceContiguousFinalized, selectWatermark, Option.map_map, Option.map_eq_some_iff]
    at ha hb
  obtain ⟨chain, hchain, rfl⟩ := ha
  obtain ⟨chain', hchain', rfl⟩ := hb
  rw [unionAll_unique hchain hchain']

/-- One call of `record_slot_states`. -/
abbrev Recording := IterationOrder × List SlotStateUpdate

def recordAll (streamName : String) (db : Db) (calls : List Recording) : Db :=
  calls.foldl (fun db call => (recordSlotStates call.1 db streamName call.2).2) db

/-- The state after the recordings, with any frontier stored. -/
def afterRecordings (streamName : String) (calls : List Recording)
    (stored : Option StreamCursorRow) : Db :=
  { recordAll streamName .empty calls with streamCursors := fun _ => stored }

/-- Whatever was recorded and whatever frontier is stored, the query reaches an empty working table
if and only if no cycle of finalized slots can be reached from its anchor. -/
theorem chain_query_terminates_iff (streamName : String) (calls : List Recording)
    (stored : Option StreamCursorRow) :
    (∃ fuel out, advanceContiguousFinalized fuel (afterRecordings streamName calls stored)
      streamName = some out) ↔ NoCycle (afterRecordings streamName calls stored) streamName :=
  advance_terminates_iff _ _

/-- A slot recorded with itself as parent is its own child: no number of rounds is enough. -/
theorem chain_query_not_total :
    ¬ ∀ (streamName : String) (calls : List Recording) (stored : Option StreamCursorRow),
      (∀ call ∈ calls, ∀ update ∈ call.2, update.Fits) →
      ∃ fuel out, advanceContiguousFinalized fuel (afterRecordings streamName calls stored)
        streamName = some out := by
  intro hall
  have hstops := hall "test" [(insertionOrder, [⟨5, some 5, true, false⟩])] none (by
    intro call hcall update hupdate
    rw [List.mem_singleton.mp hcall] at hupdate
    rw [List.mem_singleton.mp hupdate]
    exact ⟨by decide, by decide⟩)
  rw [advance_terminates_iff, NoCycle] at hstops
  have hlink : ChainLink ((afterRecordings "test"
      [(insertionOrder, [⟨5, some 5, true, false⟩])] none).streamSlots "test") 5 5 :=
    ⟨⟨5, some 5, true, false⟩, rfl, rfl, rfl⟩
  refine hstops 5 ?_ 5 .refl (.single hlink)
  rw [← chainSeed_eq_some_iff]
  rfl

theorem noCycle_of_parentsBelow {db : Db} {streamName : String}
    (h : ParentsBelow (db.streamSlots streamName)) : NoCycle db streamName := by
  have hlt : ∀ a b, TransGen (ChainLink (db.streamSlots streamName)) a b → a < b := by
    intro a b hab
    induction hab with
    | single hlink => exact h _ _ hlink
    | tail _ hlink ih => exact ih.trans (h _ _ hlink)
  intro _ _ slot _ hcycle
  exact lt_irrefl slot (hlt slot slot hcycle)

end YellowstoneStream.Storage

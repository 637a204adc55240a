import YellowstoneStream.Reasoning.GreedyWalk
import YellowstoneStream.Storage.ChainTermination

/-!
# The watermark walk in memory

`slots::advance`, which the pipeline tests use in place of the recursive query.  It follows the
least child of each slot and stops at one that is not above it; the query follows every child.
-/

open Relation YellowstoneStream.Reasoning

namespace YellowstoneStream.Storage

/-- The `and_modify` branch of `FinalizedMap::insert`. -/
def mergeParent : MergeRule (Prod.fst : Nat × Option Nat → Nat) where
  merge existing new := (existing.1, if new.2.isSome then new.2 else existing.2)
  key_merge _ _ := rfl

/-- Finalized slots with their parents. -/
structure FinalizedMap where
  parents : KeyedTable (Prod.fst : Nat × Option Nat → Nat)

namespace FinalizedMap

def new : FinalizedMap := ⟨.empty⟩

def insert (map : FinalizedMap) (slot : Nat) (parentSlot : Option Nat) : FinalizedMap :=
  ⟨map.parents.upsert mergeParent (slot, parentSlot)⟩

def fromIter (entries : List (Nat × Option Nat)) : FinalizedMap :=
  entries.foldl (fun map entry => map.insert entry.1 entry.2) new

def minFinalized (map : FinalizedMap) : Option Nat := map.parents.keys.min?

/-- What `advance` collects for the slot in its `children`. -/
def children (map : FinalizedMap) (slot : Nat) : List Nat :=
  (map.parents.rows.filter fun entry => entry.2 == some slot).map Prod.fst

theorem mem_children {map : FinalizedMap} {slot child : Nat} :
    child ∈ map.children slot ↔ (child, some slot) ∈ map.parents.rows := by
  simp [children]

theorem mem_keys_of_mem_children {map : FinalizedMap} {slot child : Nat}
    (h : child ∈ map.children slot) : child ∈ map.parents.keys :=
  List.mem_map_of_mem (mem_children.mp h)

/-- A round of the loop leaves fewer slots above the head. -/
theorem slots_above_lt {slots : List Nat} {head child : Nat} (hmem : child ∈ slots)
    (habove : ¬ child ≤ head) :
    (slots.filter fun slot => child < slot).length <
      (slots.filter fun slot => head < slot).length := by
  have hsub : slots.filter (fun slot => child < slot) =
      (slots.filter fun slot => head < slot).filter fun slot => child < slot := by
    rw [List.filter_filter]
    apply List.filter_congr
    intro slot _
    rw [Bool.eq_iff_iff, Bool.and_eq_true, decide_eq_true_eq, decide_eq_true_eq]
    omega
  rw [hsub, List.length_filter_lt_length_iff_exists]
  refine ⟨child, List.mem_filter.mpr ⟨hmem, ?_⟩, ?_⟩
  · rw [decide_eq_true_eq]
    omega
  · simp

/-- The loop of `advance`. -/
def walk (map : FinalizedMap) (head : Nat) : Nat :=
  match _h : (map.children head).min? with
  | none => head
  | some child => if child ≤ head then head else map.walk child
termination_by (map.parents.keys.filter fun slot => head < slot).length
decreasing_by
  exact slots_above_lt (mem_keys_of_mem_children (List.min?_eq_some_iff.mp _h).1) ‹_›

end FinalizedMap

def advance (anchor : Option Nat) (finalized : FinalizedMap) : Option Nat :=
  (anchor.or finalized.minFinalized).map finalized.walk

/-- The anchor after `FakeSlotStateStore::advance_contiguous_finalized`. -/
def fakeAdvance (anchor : Option Nat) (finalized : FinalizedMap) : Option Nat :=
  match advance anchor finalized with
  | none => anchor
  | some watermark => some ((anchor.map (max · watermark)).getD watermark)

/-! ## The walk is greedy -/

namespace FinalizedMap

def Link (map : FinalizedMap) (parent child : Nat) : Prop :=
  (child, some parent) ∈ map.parents.rows

theorem children_min?_eq_some_iff (map : FinalizedMap) (slot child : Nat) :
    (map.children slot).min? = some child ↔ IsLeast {c | map.Link slot c} child := by
  rw [List.min?_eq_some_iff, IsLeast, mem_lowerBounds]
  simp only [mem_children, Set.mem_ofPred_eq, Link]

theorem walk_of_none {map : FinalizedMap} {head : Nat} (h : (map.children head).min? = none) :
    map.walk head = head := by
  rw [walk]
  split
  · rfl
  · rename_i child hchild
    rw [h] at hchild
    cases hchild

theorem walk_of_some {map : FinalizedMap} {head child : Nat}
    (h : (map.children head).min? = some child) :
    map.walk head = if child ≤ head then head else map.walk child := by
  rw [walk]
  split
  · rename_i hnone
    rw [h] at hnone
    cases hnone
  · rename_i child' hchild
    obtain rfl := Option.some.inj (h.symm.trans hchild)
    rfl

theorem walk_isChainEnd (map : FinalizedMap) (head : Nat) :
    IsChainEnd (LeastStep map.Link) head (map.walk head) := by
  induction head using walk.induct map with
  | case1 head hnone =>
      rw [walk_of_none hnone]
      refine ⟨.refl, fun next hnext => ?_⟩
      have hmem : next ∈ map.children head := mem_children.mpr hnext.1.1
      rw [List.min?_eq_none_iff.mp hnone] at hmem
      exact List.not_mem_nil hmem
  | case2 head child hchild hle =>
      rw [walk_of_some hchild, if_pos hle]
      refine ⟨.refl, fun next hnext => ?_⟩
      -- the least child is the only candidate, and it does not lie above
      obtain rfl := ((children_min?_eq_some_iff map head child).mp hchild).unique hnext.1
      exact absurd hnext.2 (Nat.not_lt.mpr hle)
  | case3 head child hchild hle ih =>
      have hstep : LeastStep map.Link head child :=
        ⟨(children_min?_eq_some_iff map head child).mp hchild, Nat.lt_of_not_le hle⟩
      rw [walk_of_some hchild, if_neg hle]
      exact ⟨.head hstep ih.1, ih.2⟩

theorem le_walk (map : FinalizedMap) (head : Nat) : head ≤ map.walk head :=
  (map.walk_isChainEnd head).greatest_of_branch .refl

end FinalizedMap

/-- The maximum with the anchor changes nothing. -/
theorem fakeAdvance_eq_advance (anchor : Option Nat) (map : FinalizedMap) :
    fakeAdvance anchor map = advance anchor map := by
  cases anchor with
  | none =>
      unfold fakeAdvance
      cases advance none map <;> rfl
  | some anchor =>
      show some (max anchor (map.walk anchor)) = some (map.walk anchor)
      rw [Nat.max_eq_right (map.le_walk anchor)]

/-! ## The same rows in the table -/

/-- The finalized rows of the stream are those of the map, and the watermark is the anchor. -/
structure SameRows (map : FinalizedMap) (anchor : Option Nat) (db : Db) (streamName : String) :
    Prop where
  watermark : db.watermark streamName = anchor.map Int.ofNat
  rows : ∀ slot parent, (∃ row, (db.streamSlots streamName).find slot = some row ∧
      row.finalized = true ∧ row.parentSlot = parent) ↔
    ∃ entry ∈ map.parents.rows, (entry.1 : Int) = slot ∧ entry.2.map Int.ofNat = parent

section SameRows

variable {map : FinalizedMap} {anchor : Option Nat} {db : Db} {streamName : String}
  (h : SameRows map anchor db streamName)
include h

theorem SameRows.finalized_iff (slot : Int) :
    Finalized (db.streamSlots streamName) slot ↔ ∃ n ∈ map.parents.keys, (n : Int) = slot := by
  have hrows : Finalized (db.streamSlots streamName) slot ↔
      ∃ parent row, (db.streamSlots streamName).find slot = some row ∧ row.finalized = true ∧
        row.parentSlot = parent := by
    rw [exists_comm]
    simp only [exists_and_left, exists_eq', and_true]
    rfl
  rw [hrows]
  simp only [h.rows, KeyedTable.keys, List.mem_map]
  constructor
  · rintro ⟨parent, entry, hentry, hslot, -⟩
    exact ⟨entry.1, ⟨entry, hentry, rfl⟩, hslot⟩
  · rintro ⟨_, ⟨entry, hentry, rfl⟩, hslot⟩
    exact ⟨_, entry, hentry, hslot, rfl⟩

theorem SameRows.chainLink_iff (parent : Nat) (child : Int) :
    ChainLink (db.streamSlots streamName) parent child ↔
      ∃ n : Nat, (n : Int) = child ∧ map.Link parent n := by
  unfold ChainLink
  rw [h.rows]
  constructor
  · rintro ⟨⟨slot, given⟩, hentry, hslot, hparent⟩
    obtain ⟨p, rfl, hp⟩ := Option.map_eq_some_iff.mp hparent
    obtain rfl : p = parent := Int.ofNat.inj hp
    exact ⟨slot, hslot, hentry⟩
  · rintro ⟨n, hchild, hlink⟩
    exact ⟨(n, some parent), hlink, hchild, rfl⟩

theorem SameRows.reaches_iff (start : Nat) (slot : Int) :
    ReflTransGen (ChainLink (db.streamSlots streamName)) start slot ↔
      ∃ n : Nat, (n : Int) = slot ∧ ReflTransGen map.Link start n := by
  constructor
  · intro hreach
    induction hreach with
    | refl => exact ⟨start, rfl, .refl⟩
    | tail _ hlink ih =>
        obtain ⟨mid, rfl, hmid⟩ := ih
        obtain ⟨n, rfl, hchild⟩ := (h.chainLink_iff mid _).mp hlink
        exact ⟨n, rfl, hmid.tail hchild⟩
  · rintro ⟨n, rfl, hreach⟩
    induction hreach with
    | refl => exact .refl
    | tail _ hlink ih => exact ih.tail ((h.chainLink_iff _ _).mpr ⟨_, rfl, hlink⟩)

theorem SameRows.isAnchor_iff (slot : Int) :
    IsAnchor db streamName slot ↔
      ∃ n ∈ anchor.or map.minFinalized, (n : Int) = slot := by
  unfold IsAnchor
  rw [h.watermark]
  cases anchor with
  | some anchor =>
      show slot = (anchor : Int) ↔ ∃ n ∈ some anchor, (n : Int) = slot
      simp [eq_comm]
  | none =>
      show IsLeast {s | Finalized _ s} slot ↔ ∃ n ∈ map.parents.keys.min?, (n : Int) = slot
      simp only [IsLeast, mem_lowerBounds, Set.mem_ofPred_eq, h.finalized_iff,
        Option.mem_def, List.min?_eq_some_iff]
      constructor
      · rintro ⟨⟨n, hn, rfl⟩, hleast⟩
        exact ⟨n, ⟨hn, fun m hm => Int.ofNat_le.mp (hleast m ⟨m, hm, rfl⟩)⟩, rfl⟩
      · rintro ⟨n, ⟨hn, hleast⟩, rfl⟩
        refine ⟨⟨n, hn, rfl⟩, ?_⟩
        rintro _ ⟨m, hm, rfl⟩
        exact Int.ofNat_le.mpr (hleast m hm)

/-- What the query finds, in terms of the map. -/
theorem SameRows.isWatermark {watermark : Option Int} (hw : IsWatermark db streamName watermark)
    {seed : Nat} (hseed : seed ∈ anchor.or map.minFinalized) :
    ∃ greatest : Nat, watermark = some (greatest : Int) ∧
      IsGreatest {s | ReflTransGen map.Link seed s} greatest := by
  cases watermark with
  | none => exact absurd ((h.isAnchor_iff seed).mpr ⟨seed, hseed, rfl⟩) (hw seed)
  | some w =>
      obtain ⟨start, hstart, hgreatest⟩ := hw
      obtain ⟨n, hn, rfl⟩ := (h.isAnchor_iff start).mp hstart
      obtain rfl : n = seed := Option.some.inj (hn.symm.trans hseed)
      obtain ⟨greatest, rfl, hreach⟩ := (h.reaches_iff n w).mp hgreatest.1
      refine ⟨greatest, rfl, hreach, fun s hs => ?_⟩
      exact Int.ofNat_le.mp (hgreatest.2 ((h.reaches_iff n s).mpr ⟨s, rfl, hs⟩))

end SameRows

/-- The two walks store the same watermark if and only if, from the slot they start at, no detour
off the branch of least children climbs above the branch. -/
theorem watermark_walks_agree_iff (map : FinalizedMap) (anchor : Option Nat) (db : Db)
    (streamName : String) (h : SameRows map anchor db streamName) (fuel : Nat)
    (result : Except PostgresSlotStateError FinalizedFrontier) (db' : Db)
    (hadvance : advanceContiguousFinalized fuel db streamName = some (result, db')) :
    db'.watermark streamName = (fakeAdvance anchor map).map Int.ofNat ↔
      ∀ seed ∈ anchor.or map.minFinalized, NoDetourAbove map.Link seed := by
  obtain ⟨watermark, head, hwatermark, -, -, -, -, hstored, -⟩ := advance_effect hadvance
  rw [hstored, fakeAdvance_eq_advance, advance]
  cases hseed : anchor.or map.minFinalized with
  | none =>
      -- nothing is finalized, and neither walk starts
      refine iff_of_true ?_ nofun
      cases watermark with
      | none => rfl
      | some w =>
          obtain ⟨start, hstart, -⟩ := hwatermark
          obtain ⟨n, hn, -⟩ := (h.isAnchor_iff start).mp hstart
          rw [hseed] at hn
          cases hn
  | some seed =>
      obtain ⟨greatest, rfl, hgreatest⟩ := h.isWatermark hwatermark hseed
      have hend := isGreatest_end_iff (map.walk_isChainEnd seed) hgreatest
      show some (greatest : Int) = some (map.walk seed : Int) ↔ _
      simp only [Option.some_inj, Int.natCast_inj, hend, Option.mem_def, forall_eq']

/-! ## Every map has its table -/

def FinalizedMap.toSlots (map : FinalizedMap) : SlotTable where
  rows := map.parents.rows.map fun entry => ⟨entry.1, entry.2.map Int.ofNat, true, false⟩
  unique := by
    have hkeys := map.parents.unique.map (f := fun n : Nat => (n : Int))
      fun _ _ h => Int.ofNat.inj h
    rw [List.map_map] at hkeys ⊢
    exact hkeys

def FinalizedMap.toDb (map : FinalizedMap) (anchor : Option Nat) (streamName : String) : Db :=
  (Db.empty.setSlots streamName map.toSlots).setCursor streamName
    ⟨0, anchor.map Int.ofNat, anchor.map Int.ofNat⟩

theorem sameRows_toDb (map : FinalizedMap) (anchor : Option Nat) (streamName : String) :
    SameRows map anchor (map.toDb anchor streamName) streamName where
  watermark := by
    rw [Db.watermark, FinalizedMap.toDb, Db.setCursor_cursor]
    rfl
  rows slot parent := by
    rw [FinalizedMap.toDb, Db.setCursor_slots, Db.setSlots_slots]
    simp only [KeyedTable.find_eq_some_iff, FinalizedMap.toSlots, List.mem_map]
    constructor
    · rintro ⟨_, ⟨⟨entry, hentry, rfl⟩, hslot⟩, -, hparent⟩
      exact ⟨entry, hentry, hslot, hparent⟩
    · rintro ⟨entry, hentry, hslot, hparent⟩
      exact ⟨_, ⟨⟨entry, hentry, rfl⟩, hslot⟩, rfl, hparent⟩

def chainOfTwo : FinalizedMap := .fromIter [(11, some 10), (12, some 11)]

theorem chainOfTwo_link {a b : Nat} (h : chainOfTwo.Link a b) : b = a + 1 := by
  rcases List.mem_pair.mp (show (b, some a) ∈ [(11, some 10), (12, some 11)] from h) with h | h <;>
    cases h <;> rfl

theorem watermark_walks_agree_chain :
    (fakeAdvance (some 10) chainOfTwo).map Int.ofNat = some 12 := by
  have huniq : Relator.RightUnique chainOfTwo.Link := fun _ _ _ hb hc =>
    (chainOfTwo_link hb).trans (chainOfTwo_link hc).symm
  have hlt : ∀ a b, chainOfTwo.Link a b → a < b := fun a b hlink =>
    chainOfTwo_link hlink ▸ Nat.lt_succ_self a
  have hagree := (watermark_walks_agree_iff chainOfTwo (some 10) _ "test"
    (sameRows_toDb chainOfTwo (some 10) "test") 3 _ _ rfl).mpr
    fun seed _ => noDetourAbove_of_increasing huniq hlt seed
  rw [← hagree]
  decide

/-- Two slots with one parent: the walk in memory stays on the lower branch. -/
def forked : FinalizedMap := .fromIter [(11, some 10), (12, some 10), (14, some 12)]

theorem watermark_walks_disagree : ¬ ∀ (map : FinalizedMap) (anchor : Option Nat) (db : Db)
    (streamName : String), SameRows map anchor db streamName → ∀ fuel result db',
    advanceContiguousFinalized fuel db streamName = some (result, db') →
    db'.watermark streamName = (fakeAdvance anchor map).map Int.ofNat := by
  intro hall
  have hstored := hall forked (some 10) _ "test" (sameRows_toDb forked (some 10) "test") 3 _ _ rfl
  have hstep : LeastStep forked.Link 10 11 :=
    ⟨(forked.children_min?_eq_some_iff 10 11).mp (by decide), by decide⟩
  have hstop : ∀ next, ¬ LeastStep forked.Link 11 next := fun next hnext =>
    List.not_mem_nil (show next ∈ forked.children 11 from
      FinalizedMap.mem_children.mpr hnext.1.1)
  have hbranch : forked.walk 10 = 11 :=
    (forked.walk_isChainEnd 10).unique leastStep_rightUnique ⟨.single hstep, hstop⟩
  rw [fakeAdvance_eq_advance, show advance (some 10) forked = some (forked.walk 10) from rfl,
    hbranch] at hstored
  exact absurd hstored (by decide)

/-! ## Where the walk stops -/

namespace FinalizedMap

variable {map other : FinalizedMap}

/-- The slot is above its parent. -/
def LinkUp (map : FinalizedMap) (parent slot : Nat) : Prop := map.Link parent slot ∧ parent < slot

theorem exists_least_child {slot child : Nat} (h : map.Link slot child) :
    ∃ least, IsLeast {c | map.Link slot c} least := by
  have hne : map.children slot ≠ [] := List.ne_nil_of_mem (mem_children.mpr h)
  obtain ⟨least, hleast⟩ := Option.isSome_iff_exists.mp (List.isSome_min?_of_ne_nil hne)
  exact ⟨least, (map.children_min?_eq_some_iff slot least).mp hleast⟩

theorem walk_reached (map : FinalizedMap) (seed : Nat) :
    ReflTransGen map.LinkUp seed (map.walk seed) :=
  (map.walk_isChainEnd seed).1.lift id fun _ _ hstep => ⟨hstep.1.1, hstep.2⟩

theorem minFinalized_eq_some_iff {seed : Nat} :
    map.minFinalized = some seed ↔ IsLeast {slot | slot ∈ map.parents.keys} seed := by
  rw [minFinalized, List.min?_eq_some_iff, IsLeast, mem_lowerBounds]
  rfl

theorem minFinalized_eq_none_iff : map.minFinalized = none ↔ map.parents.rows = [] := by
  rw [minFinalized, List.min?_eq_none_iff, KeyedTable.keys, List.map_eq_nil_iff]

/-! The order in which the entries come does not matter. -/

variable (hperm : other.parents.rows.Perm map.parents.rows)
include hperm

theorem walk_of_perm (seed : Nat) : other.walk seed = map.walk seed := by
  have hlink : other.Link = map.Link := by
    funext parent slot
    exact propext hperm.mem_iff
  have hend := other.walk_isChainEnd seed
  rw [hlink] at hend
  exact hend.unique leastStep_rightUnique (map.walk_isChainEnd seed)

theorem minFinalized_of_perm : other.minFinalized = map.minFinalized := by
  apply Option.ext
  intro seed
  rw [minFinalized_eq_some_iff, minFinalized_eq_some_iff]
  have hkeys : ∀ slot, slot ∈ other.parents.keys ↔ slot ∈ map.parents.keys := fun slot =>
    (hperm.map Prod.fst).mem_iff
  simp only [hkeys]

theorem advance_of_perm (anchor : Option Nat) : advance anchor other = advance anchor map := by
  rw [advance, advance, minFinalized_of_perm hperm]
  exact congrArg (Option.map · _) (funext (walk_of_perm hperm))

end FinalizedMap

/-- The walk has no result only without anchor and slots; otherwise it ends at a slot reached from
its start over increasing links, whatever the order of the entries.  No slot above the end has it as
its parent if and only if the branch of least children has no slot that is the parent both of a slot
above it and of one that is not. -/
theorem advance_stops_at_gap_iff (anchor : Option Nat) (finalized : FinalizedMap) :
    (advance anchor finalized = none ↔ anchor = none ∧ finalized.parents.rows = []) ∧
    (∀ other : FinalizedMap, other.parents.rows.Perm finalized.parents.rows →
      advance anchor other = advance anchor finalized) ∧
    (∀ head, advance anchor finalized = some head → ∃ seed,
      (anchor = some seed ∨
        (anchor = none ∧ IsLeast {slot | slot ∈ finalized.parents.keys} seed)) ∧
      ReflTransGen finalized.LinkUp seed head) ∧
    ((∀ head, advance anchor finalized = some head →
        ∀ slot, finalized.Link head slot → slot ≤ head) ↔
      ∀ seed ∈ anchor.or finalized.minFinalized, NoLinkHidden finalized.Link seed) := by
  refine ⟨?_, fun other hperm => FinalizedMap.advance_of_perm hperm anchor, fun head hhead => ?_,
    ?_⟩
  · rw [advance, Option.map_eq_none_iff, Option.or_eq_none_iff,
      FinalizedMap.minFinalized_eq_none_iff]
  · obtain ⟨seed, hseed, rfl⟩ := Option.map_eq_some_iff.mp hhead
    refine ⟨seed, ?_, finalized.walk_reached seed⟩
    rw [← FinalizedMap.minFinalized_eq_some_iff, ← Option.or_eq_some_iff]
    exact hseed
  · unfold advance
    cases hseed : anchor.or finalized.minFinalized with
    | none => exact iff_of_true nofun nofun
    | some seed =>
        have hend := end_not_linked_up_iff (finalized.walk_isChainEnd seed)
          fun next hnext => FinalizedMap.exists_least_child hnext
        simp only [Option.map_some, Option.some_inj, forall_eq', Option.mem_def, hend]

/-- The child below its parent hides the one above it. -/
def hiddenChild : FinalizedMap := .fromIter [(5, some 10), (11, some 10)]

theorem advance_stops_short : ¬ ∀ (anchor : Option Nat) (finalized : FinalizedMap) (head : Nat),
    advance anchor finalized = some head → ∀ slot, finalized.Link head slot → slot ≤ head := by
  intro hall
  have hwalk : hiddenChild.walk 10 = 10 :=
    (FinalizedMap.walk_of_some (by decide : (hiddenChild.children 10).min? = some 5)).trans
      (if_pos (by decide))
  have hlink : hiddenChild.Link 10 11 := FinalizedMap.mem_children.mp (by decide)
  exact absurd (hall (some 10) hiddenChild 10 (congrArg some hwalk) 11 hlink) (by decide)

end YellowstoneStream.Storage

import YellowstoneStream.Reasoning.OrderedQuery
import YellowstoneStream.Storage.Cursor
import YellowstoneStream.Storage.EventWriter
import YellowstoneStream.Storage.Swaps

/-!
# The queries of the consumer API

`crates/storage/src/api.rs`.  Recent events are ordered by slot, signature and event id, so that no
two of them compare equal; recent swaps by slot and signature alone.  The time columns
`inserted_at` and `inferred_at` are left out, as from the tables.
-/

open YellowstoneStream.Domain YellowstoneStream.Reasoning

namespace YellowstoneStream.Storage

/-- How the database orders texts: only equal ones compare equal, as in every deterministic
collation. -/
structure Collation where
  order : RowOrder String
  eq_of_compare : ∀ a b, order.compare a b = .eq → a = b

structure RecentEvent where
  eventId : String
  slot : Int
  eventType : String
  signature : Option String
  programId : Option String
  payload : Value

def RecentEvent.fromRow (row : EventRow) : RecentEvent :=
  ⟨row.eventId, row.slot, row.eventType, row.signature, row.programId, row.payload⟩

/-- `limit.clamp(1, 1_000)`. -/
def clampLimit (limit : Int) : Int := max 1 (min limit 1000)

/-- `WHERE ($1::text IS NULL OR column = $1)`. -/
def matching {α : Type} (column : α → String) (wanted : Option String) (rows : List α) : List α :=
  rows.filter fun row => wanted.all fun text => column row = text

section Queries

variable (collation : Collation)

/-- `ORDER BY slot DESC, signature DESC NULLS LAST, event_id DESC`. -/
def recentEventsOrder : RowOrder RecentEvent :=
  (RowOrder.ints.desc.on RecentEvent.slot).andThen
    ((collation.order.desc.nullsLast.on RecentEvent.signature).andThen
      (collation.order.desc.on RecentEvent.eventId))

/-- The rows that an events query is about. -/
def selectedEvents (eventType : Option String) (rows : List EventRow) : List RecentEvent :=
  (matching EventRow.eventType eventType rows).map RecentEvent.fromRow

/-- What the database may answer. -/
def RecentEvents (events : EventTable) (eventType : Option String) (limit : Int)
    (page : List RecentEvent) : Prop :=
  (recentEventsOrder collation).Answers (clampLimit limit).toNat
    (selectedEvents eventType events.rows) page

def recentEvents (events : EventTable) (eventType : Option String) (limit : Int) :
    List RecentEvent :=
  (recentEventsOrder collation).top (clampLimit limit).toNat
    (selectedEvents eventType events.rows)

/-- `ORDER BY slot DESC, signature DESC`. -/
def recentSwapsOrder : RowOrder SwapRow :=
  (RowOrder.ints.desc.on SwapRow.slot).andThen (collation.order.desc.on SwapRow.signature)

/-- Its columns alone. -/
def swapPositions : RowOrder (Int × String) :=
  (RowOrder.ints.desc.on Prod.fst).andThen (collation.order.desc.on Prod.snd)

/-- The query may answer with any arrangement of swaps with one slot and signature. -/
def RecentSwaps (table : List SwapRow) (programId : Option String) (limit : Int)
    (page : List SwapRow) : Prop :=
  (recentSwapsOrder collation).Answers (clampLimit limit).toNat
    (matching SwapRow.programId programId table) page

end Queries

structure StreamLag where
  streamName : String
  lastPersistedSlot : Option Int
  lastContiguousFinalizedSlot : Option Int
  lastFinalizedSlot : Option Int
  deriving DecidableEq, Repr

def streamLag (db : Db) (streamName : String) : StreamLag :=
  match db.streamCursors streamName with
  | some row =>
      ⟨streamName, some row.lastPersistedSlot, row.lastContiguousFinalizedSlot,
        row.lastFinalizedSlot⟩
  | none => ⟨streamName, some 0, none, none⟩

/-! ## The limit -/

theorem clampLimit_clampLimit (limit : Int) : clampLimit (clampLimit limit) = clampLimit limit := by
  unfold clampLimit
  omega

theorem clampLimit_pos (limit : Int) : 0 < (clampLimit limit).toNat := by
  unfold clampLimit
  omega

/-! ## Recent events -/

section Events

variable {collation : Collation} {events : EventTable} {eventType : Option String} {limit : Int}

theorem mem_matching {α : Type} {column : α → String} {wanted : Option String} {rows : List α}
    {row : α} : row ∈ matching column wanted rows ↔
      row ∈ rows ∧ ∀ text ∈ wanted, column row = text := by
  rw [matching, List.mem_filter]
  cases wanted <;> simp

theorem mem_selectedEvents {rows : List EventRow} {event : RecentEvent} :
    event ∈ selectedEvents eventType rows ↔
      ∃ row ∈ rows, (∀ text ∈ eventType, row.eventType = text) ∧ .fromRow row = event := by
  simp only [selectedEvents, List.mem_map, mem_matching, and_assoc]

theorem selectedEvents_append (rows added : List EventRow) :
    selectedEvents eventType (rows ++ added) =
      selectedEvents eventType rows ++ selectedEvents eventType added := by
  rw [selectedEvents, matching, List.filter_append, List.map_append]
  rfl

/-- The event id separates events that agree in all else. -/
theorem selectedEvents_separates :
    (recentEventsOrder collation).Separates (selectedEvents eventType events.rows) := by
  intro a ha b hb heq
  obtain ⟨row, hrow, -, rfl⟩ := mem_selectedEvents.mp ha
  obtain ⟨row', hrow', -, rfl⟩ := mem_selectedEvents.mp hb
  have hid : row.eventId = row'.eventId := by
    unfold recentEventsOrder at heq
    rw [RowOrder.andThen_eq_iff, RowOrder.andThen_eq_iff] at heq
    exact (collation.eq_of_compare _ _ heq.2.2).symm
  rw [List.inj_on_of_nodup_map events.unique hrow hrow' hid]

/-- The database has no choice in what to answer. -/
theorem recentEvents_iff {page : List RecentEvent} :
    RecentEvents collation events eventType limit page ↔
      page = recentEvents collation events eventType limit := by
  constructor
  · intro h
    exact RowOrder.Answers.eq_top selectedEvents_separates h
  · rintro rfl
    exact RowOrder.answers_top

/-- Rows are answered in the same way however they came to lie in the table. -/
theorem recentEvents_of_perm {others : EventTable} (h : events.rows.Perm others.rows) :
    recentEvents collation events eventType limit =
      recentEvents collation others eventType limit :=
  RowOrder.top_of_perm selectedEvents_separates ((h.filter _).map _)

theorem slot_le_of_le {a b : RecentEvent} (h : (recentEventsOrder collation).le a b) :
    b.slot ≤ a.slot := by
  by_contra hlt
  have hcompare : (recentEventsOrder collation).compare a b = .gt := by
    have hslots : Ord.compare b.slot a.slot = .gt := compare_gt_iff_gt.mpr (Int.not_le.mp hlt)
    show (Ord.compare b.slot a.slot).then _ = _
    rw [hslots]
    rfl
  unfold RowOrder.le at h
  rw [hcompare] at h
  cases h

/-- Where an event matches, the page has a first event, with its slot or a later one. -/
theorem exists_first {event : RecentEvent} (h : event ∈ selectedEvents eventType events.rows) :
    ∃ first, (recentEvents collation events eventType limit).head? = some first ∧
      event.slot ≤ first.slot := by
  cases hpage : recentEvents collation events eventType limit with
  | nil =>
      have hlength := @RowOrder.length_top _ (recentEventsOrder collation)
        (clampLimit limit).toNat (selectedEvents eventType events.rows)
      have hpos := clampLimit_pos limit
      have hrows := List.length_pos_of_mem h
      rw [show (recentEventsOrder collation).top _ _ = [] from hpage, List.length_nil] at hlength
      omega
  | cons first page =>
      refine ⟨first, rfl, ?_⟩
      by_cases hevent : event = first
      · rw [hevent]
      · exact slot_le_of_le (RowOrder.le_of_head (congrArg List.head? hpage) h hevent)

end Events

/-! ## Recent swaps -/

def SwapRow.position (row : SwapRow) : Int × String := (row.slot, row.signature)

section Swaps

variable {collation : Collation}

theorem eq_of_swapPositions {a b : Int × String}
    (h : (swapPositions collation).compare a b = .eq) : a = b := by
  rw [swapPositions, RowOrder.andThen_eq_iff] at h
  exact Prod.ext (compare_eq_iff_eq.mp h.1).symm (collation.eq_of_compare _ _ h.2).symm

theorem le_of_position_eq {a b : SwapRow} (h : a.position = b.position) :
    (recentSwapsOrder collation).le a b := by
  show (swapPositions collation).le a.position b.position
  rw [h]
  exact refl_of (swapPositions collation).le _

/-- The database may choose among swaps of one transaction, but in the order of slots and signatures
it has no choice, and only of the last transaction on the page it may leave out a swap. -/
theorem recent_swaps_transactions (collation : Collation) (table : List SwapRow)
    (programId : Option String) (limit : Int) (page : List SwapRow)
    (h : RecentSwaps collation table programId limit page) :
    page.map SwapRow.position = (swapPositions collation).top (clampLimit limit).toNat
      ((matching SwapRow.programId programId table).map SwapRow.position) ∧
    ∀ swap ∈ page, (∀ last ∈ page.getLast?, last.position ≠ swap.position) →
      (page.filter fun row => row.position = swap.position).Perm
        ((matching SwapRow.programId programId table).filter fun row =>
          row.position = swap.position) := by
  have hkeys : ((swapPositions collation).on SwapRow.position).Answers (clampLimit limit).toNat
      (matching SwapRow.programId programId table) page := h
  constructor
  · refine hkeys.map_key.eq_top fun a _ b _ => ?_
    exact eq_of_swapPositions
  · intro swap hswap hlast
    exact hkeys.filter_perm (fun a b => eq_of_swapPositions) (List.mem_map_of_mem hswap) hlast

/-- The order of code points, which is that of the bytes in UTF-8. -/
def codePointCollation : Collation where
  order := ⟨Ord.compare, inferInstance⟩
  eq_of_compare _ _ := Std.LawfulEqCmp.eq_of_compare

/-- One swap of slot 9 and two of a transaction in slot 7, of which the page holds one. -/
theorem recent_swaps_transactions_last : ∃ page : List SwapRow, page.length = 2 ∧
    (page.filter fun row => row.position = (9, "b")).Perm
      [⟨9, "b", "program", "mint-a", 1, "mint-b", 2⟩] := by
  let first : SwapRow := ⟨9, "b", "program", "mint-a", 1, "mint-b", 2⟩
  let second : SwapRow := ⟨7, "a", "program", "mint-a", 3, "mint-b", 4⟩
  let third : SwapRow := ⟨7, "a", "program", "mint-a", 5, "mint-b", 6⟩
  have hsorted : [first, second, third].Pairwise (recentSwapsOrder codePointCollation).le := by
    have htie : (recentSwapsOrder codePointCollation).le second third := le_of_position_eq rfl
    simp only [List.pairwise_cons, List.forall_mem_cons]
    exact ⟨⟨rfl, rfl, nofun⟩, ⟨htie, nofun⟩, nofun, .nil⟩
  have hpage : RecentSwaps codePointCollation [first, second, third] none 2 [first, second] :=
    ⟨_, .refl _, hsorted, rfl⟩
  refine ⟨[first, second], rfl, ?_⟩
  exact (recent_swaps_transactions codePointCollation _ none 2 _ hpage).2 first
    List.mem_cons_self (by decide)

end Swaps

end YellowstoneStream.Storage

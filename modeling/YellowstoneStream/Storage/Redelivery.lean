import Mathlib.Data.List.Induction
import YellowstoneStream.Storage.EventWriter

/-!
# At-least-once delivery

Batches may be cut anywhere and delivered again; the events table ends up the same, because each
event id keeps the first row written under it.
-/

open YellowstoneStream.Domain YellowstoneStream.Reasoning

namespace YellowstoneStream.Storage

/-- The calls deliver the events in order, with any earlier batch written again at any time. -/
inductive Delivered : List NormalizedEvent → List (List NormalizedEvent) → Prop where
  | nil : Delivered [] []
  | write {events calls} (h : Delivered events calls) (batch : List NormalizedEvent) :
      Delivered (events ++ batch) (calls ++ [batch])
  | again {events calls} (h : Delivered events calls) (batch : List NormalizedEvent)
      (hbatch : batch ∈ calls) : Delivered events (calls ++ [batch])

def writeAll (hasher : Hasher) (table : EventTable) :
    List (List NormalizedEvent) → List WriteSummary × EventTable
  | [] => ([], table)
  | batch :: calls =>
      let (summary, table') := writeBatch hasher table batch
      let (summaries, last) := writeAll hasher table' calls
      (summary :: summaries, last)

def insertedTotal (summaries : List WriteSummary) : Nat :=
  (summaries.map WriteSummary.inserted).sum

/-- The row of the first event of the sequence that converts and has the given id. -/
def firstRow (hasher : Hasher) (events : List NormalizedEvent) (id : String) : Option EventRow :=
  events.findSome? fun event => if event.eventId hasher = id then rowOf hasher event else none

variable {hasher : Hasher}

theorem firstRow_eq_find (events : List NormalizedEvent) (id : String) :
    firstRow hasher events id =
      (events.filterMap (rowOf hasher)).find? fun row => row.eventId = id := by
  induction events with
  | nil => rfl
  | cons event events ih =>
      rw [firstRow, List.findSome?_cons, List.filterMap_cons]
      rw [firstRow] at ih
      cases hrow : rowOf hasher event with
      | none => simpa using ih
      | some row =>
          rw [List.find?_cons, (eventId_of_rowOf hrow).1]
          by_cases hid : event.eventId hasher = id <;> simp [hid, ih]

theorem Delivered.subset {events : List NormalizedEvent} {calls : List (List NormalizedEvent)}
    (h : Delivered events calls) : ∀ batch ∈ calls, ∀ event ∈ batch, event ∈ events := by
  induction h with
  | nil => simp
  | write _ batch ih =>
      intro b hb event hevent
      rcases List.mem_append.mp hb with hb | hb
      · exact List.mem_append_left _ (ih b hb event hevent)
      · exact List.mem_append_right _ (List.mem_singleton.mp hb ▸ hevent)
  | again _ batch hbatch ih =>
      intro b hb event hevent
      rcases List.mem_append.mp hb with hb | hb
      · exact ih b hb event hevent
      · exact ih batch hbatch event (List.mem_singleton.mp hb ▸ hevent)

theorem writeAll_append (table : EventTable) (a b : List (List NormalizedEvent)) :
    (writeAll hasher table (a ++ b)).2 =
      (writeAll hasher (writeAll hasher table a).2 b).2 := by
  induction a generalizing table with
  | nil => rfl
  | cons batch a ih => exact ih _

/-- Writing a batch whose ids are all stored changes nothing. -/
theorem writeBatch_of_stored {table : EventTable} {batch : List NormalizedEvent}
    (h : ∀ event ∈ batch, (rowOf hasher event).isSome → event.eventId hasher ∈ table.keys) :
    (writeBatch hasher table batch).2 = table := by
  rw [writeBatch_table]
  apply KeyedTable.insertAllNew_of_subset
  intro row hrow
  obtain ⟨event, hevent, hconv⟩ := List.mem_filterMap.mp hrow
  rw [(eventId_of_rowOf hconv).1]
  exact h event hevent (by rw [hconv]; rfl)

/-- Neither the cutting nor the redeliveries can be seen in the table. -/
theorem Delivered.table {events : List NormalizedEvent} {calls : List (List NormalizedEvent)}
    (h : Delivered events calls) (table : EventTable) :
    (writeAll hasher table calls).2 = table.insertAllNew (events.filterMap (rowOf hasher)) := by
  induction h with
  | nil => rfl
  | write h batch ih =>
      rw [writeAll_append, ih, List.filterMap_append, KeyedTable.insertAllNew_append]
      exact writeBatch_table _ _
  | again h batch hbatch ih =>
      rw [writeAll_append, ih]
      -- the batch was written before, so all its ids are stored
      apply writeBatch_of_stored
      intro event hevent hconv
      rw [KeyedTable.mem_keys_insertAllNew]
      obtain ⟨row, hrow⟩ := Option.isSome_iff_exists.mp hconv
      refine .inr (List.mem_map.mpr ⟨row, List.mem_filterMap.mpr ⟨event, ?_, hrow⟩, ?_⟩)
      · exact h.subset batch hbatch event hevent
      · exact (eventId_of_rowOf hrow).1

/-! ## Distinct events are kept apart -/

/-- Every stored row was written for one of the given identities. -/
def WrittenFor (hasher : Hasher) (identities : Set EventIdentity) (table : EventTable) : Prop :=
  ∀ row ∈ table.rows, ∃ identity ∈ identities,
    row.eventId = identity.eventId hasher ∧ row.identity = identity.toValue

theorem writtenFor_insertAllNew {identities : Set EventIdentity} {table : EventTable}
    (htable : WrittenFor hasher identities table) {events : List NormalizedEvent}
    (hevents : ∀ event ∈ events, event.identity ∈ identities) :
    WrittenFor hasher identities (table.insertAllNew (events.filterMap (rowOf hasher))) := by
  intro row hrow
  have hfind := (KeyedTable.find_eq_some_iff _ row.eventId row).mpr ⟨hrow, rfl⟩
  rw [KeyedTable.find_insertAllNew, Option.or_eq_some_iff] at hfind
  rcases hfind with hstored | ⟨-, hnew⟩
  · exact htable row ((KeyedTable.find_eq_some_iff _ _ _).mp hstored).1
  · obtain ⟨event, hevent, hconv⟩ := List.mem_filterMap.mp (List.mem_of_find?_eq_some hnew)
    exact ⟨event.identity, hevents event hevent, eventId_of_rowOf hconv⟩

theorem delivered_flatten (calls : List (List NormalizedEvent)) :
    Delivered calls.flatten calls := by
  induction calls using List.reverseRecOn with
  | nil => exact .nil
  | append_singleton calls batch ih =>
      rw [List.flatten_append, List.flatten_singleton]
      exact .write ih batch

/-- Canonical keys are injective, so without a digest collision on the identities involved no two
of them share an event id, and after any calls every convertible event is stored under its own
identity: the conflict clause drops repetitions only. -/
theorem distinct_identities_kept (hasher : Hasher) (identities : Set EventIdentity)
    (hhash : hasher.CollisionFree identities) :
    Function.Injective EventIdentity.canonicalKey ∧
    Set.InjOn (EventIdentity.eventId hasher) identities ∧
    ∀ (start : EventTable) (calls : List (List NormalizedEvent)),
      WrittenFor hasher identities start →
      (∀ batch ∈ calls, ∀ event ∈ batch, event.identity ∈ identities) →
      ∀ batch ∈ calls, ∀ event ∈ batch, event.slot ≤ i64Max →
        ∃ row, (writeAll hasher start calls).2.find (event.eventId hasher) = some row ∧
          row.identity = event.identity.toValue := by
  refine ⟨canonicalKey_injective, hhash.eventId_injOn, ?_⟩
  intro start calls hstart hcalls batch hbatch event hevent hfits
  have hflat : ∀ event ∈ calls.flatten, event.identity ∈ identities := by
    intro event hevent
    obtain ⟨batch, hbatch, hmem⟩ := List.mem_flatten.mp hevent
    exact hcalls batch hbatch event hmem
  have hmem : event ∈ calls.flatten := List.mem_flatten.mpr ⟨batch, hbatch, hevent⟩
  rw [(delivered_flatten calls).table start]
  have hkey := @mem_keys_of_written hasher start _ _ hmem hfits
  obtain ⟨row, hrow⟩ := (KeyedTable.mem_keys_iff _ _).mp hkey
  obtain ⟨hrowmem, hid⟩ := (KeyedTable.find_eq_some_iff _ _ _).mp hrow
  obtain ⟨identity, hidentity, hid', hvalue⟩ :=
    writtenFor_insertAllNew hstart hflat row hrowmem
  -- the row found may have been written for another event, but never for another identity
  have hsame : identity = event.identity :=
    hhash.eventId_injOn hidentity (hflat event hmem) (hid'.symm.trans hid)
  exact ⟨row, hrow, by rw [hvalue, hsame]⟩

def hexText (bytes : List UInt8) : String := String.ofList
  (bytes.flatMap fun b => [Nat.digitChar (b.toNat / 16), Nat.digitChar (b.toNat % 16)])

-- the comparison of core, whatever other instances are in scope
instance byteArrayDecidableEq : DecidableEq ByteArray := ByteArray.instDecidableEq

/-- SHA-256 on the keys of two identities, whose digests are given, and the hex text of any. -/
def pairHasher (a b : EventIdentity) (digestA digestB : List UInt8) : Hasher where
  sha256 bytes :=
    if bytes = a.canonicalKey.toUTF8 then digestA
    else if bytes = b.canonicalKey.toUTF8 then digestB
    else []
  hexEncode := hexText

section PairHasher

variable {a b : EventIdentity} {digestA digestB : List UInt8}

theorem pairHasher_left : a.digest (pairHasher a b digestA digestB) = digestA := by
  simp only [EventIdentity.digest, pairHasher, if_true]

theorem pairHasher_right (hne : a ≠ b) : b.digest (pairHasher a b digestA digestB) = digestB := by
  have hkeys : b.canonicalKey.toUTF8 ≠ a.canonicalKey.toUTF8 := by
    intro h
    exact hne (canonicalKey_injective (String.toByteArray_inj.mp h)).symm
  simp only [EventIdentity.digest, pairHasher, if_neg hkeys, if_true]

theorem pairHasher_collisionFree (hne : a ≠ b) (hhex : hexText digestA ≠ hexText digestB) :
    (pairHasher a b digestA digestB).CollisionFree {a, b} where
  sha256 := by
    have hdigest : digestA ≠ digestB := fun h => hhex (congrArg hexText h)
    rintro x (rfl | rfl) y (rfl | rfl) h
    · rfl
    · rw [pairHasher_left, pairHasher_right hne] at h
      exact absurd h hdigest
    · rw [pairHasher_left, pairHasher_right hne] at h
      exact absurd h.symm hdigest
    · rfl
  hexEncode := by
    have htext : (pairHasher a b digestA digestB).hexEncode
        (a.digest (pairHasher a b digestA digestB)) ≠
          (pairHasher a b digestA digestB).hexEncode
            (b.digest (pairHasher a b digestA digestB)) := by
      rw [pairHasher_left, pairHasher_right hne]
      exact hhex
    rintro _ ⟨x, rfl | rfl, rfl⟩ _ ⟨y, rfl | rfl, rfl⟩ h
    · rfl
    · exact absurd h htext
    · exact absurd h.symm htext
    · rfl

end PairHasher

/-- The account update of the source's test, without a transaction signature and with an empty
one. -/
def missingSignature : NormalizedEvent :=
  ⟨.account "mainnet-beta" 42 "account-1" 100 none false, .null⟩

def emptySignature : NormalizedEvent :=
  ⟨.account "mainnet-beta" 42 "account-1" 100 (some "") false, .null⟩

def sampleHasher : Hasher :=
  pairHasher missingSignature.identity emptySignature.identity
    [57, 48, 82, 168, 85, 9, 92, 255, 9, 147, 66, 33, 194, 84, 107, 84, 137, 33, 93, 150, 126, 116,
      148, 156, 174, 170, 90, 63, 149, 238, 103, 101]
    [135, 198, 89, 118, 240, 249, 241, 125, 91, 102, 76, 200, 162, 101, 97, 215, 214, 104, 214, 245,
      252, 103, 110, 145, 38, 171, 113, 239, 76, 99, 74, 37]

theorem sampleHasher_collisionFree :
    sampleHasher.CollisionFree {missingSignature.identity, emptySignature.identity} :=
  pairHasher_collisionFree (by decide) (by decide)

theorem distinct_identities_kept_missing_or_empty :
    missingSignature.eventId sampleHasher ≠ emptySignature.eventId sampleHasher ∧
    ∃ row,
      (writeAll sampleHasher .empty [[missingSignature, emptySignature]]).2.find
        (emptySignature.eventId sampleHasher) = some row ∧
      row.identity = emptySignature.identity.toValue := by
  obtain ⟨-, hinj, hkept⟩ := distinct_identities_kept sampleHasher
    {missingSignature.identity, emptySignature.identity} sampleHasher_collisionFree
  constructor
  · intro h
    exact absurd (hinj (.inl rfl) (.inr rfl) h) (by decide)
  · apply hkept .empty [[missingSignature, emptySignature]] (fun _ h => absurd h List.not_mem_nil)
      _ [missingSignature, emptySignature] (.head _) emptySignature (.tail _ (.head _)) (by decide)
    intro batch hbatch event hevent
    rw [List.mem_singleton.mp hbatch] at hevent
    simp only [List.mem_cons, List.not_mem_nil, or_false] at hevent
    rcases hevent with rfl | rfl
    · exact .inl rfl
    · exact .inr rfl

/-! ## The table under redelivery -/

theorem writeBatch_rows_length_le (table : EventTable) (batch : List NormalizedEvent) :
    table.rows.length ≤ (writeBatch hasher table batch).2.rows.length := by
  obtain ⟨added, hadded⟩ := table.insertAllNew_rows (batch.filterMap (rowOf hasher))
  rw [writeBatch_table, hadded, List.length_append]
  omega

theorem insertedTotal_eq (table : EventTable) (calls : List (List NormalizedEvent)) :
    table.rows.length + insertedTotal (writeAll hasher table calls).1 =
      (writeAll hasher table calls).2.rows.length := by
  induction calls generalizing table with
  | nil => rfl
  | cons batch calls ih =>
      have hlast := ih (writeBatch hasher table batch).2
      have hle := @writeBatch_rows_length_le hasher table batch
      have hinserted := @writeBatch_inserted hasher table batch
      simp only [insertedTotal, writeAll, List.map_cons, List.sum_cons] at hlast ⊢
      omega

/-- Idempotent persistence.  However the sequence is cut into calls and whichever batches are
delivered again, the table is extended, for each id not stored before, by exactly one row, that of
the first convertible event with the id; every other way of delivering the same events leaves the
same table; the inserted counts add up to the rows added; and a batch whose ids are all stored
changes nothing and reports no insertion. -/
theorem persistence_idempotent (hasher : Hasher) (start : EventTable)
    (events : List NormalizedEvent) (calls : List (List NormalizedEvent))
    (h : Delivered events calls) :
    (∃ added,
      (writeAll hasher start calls).2.rows = start.rows ++ added ∧
      (added.map EventRow.eventId).Nodup ∧
      (∀ row ∈ added, row.eventId ∉ start.keys) ∧
      (∀ id, id ∉ start.keys →
        added.find? (fun row => row.eventId = id) = firstRow hasher events id) ∧
      insertedTotal (writeAll hasher start calls).1 = added.length) ∧
    (∀ calls', Delivered events calls' →
      (writeAll hasher start calls').2 = (writeAll hasher start calls).2) ∧
    (∀ (table : EventTable) (batch : List NormalizedEvent),
      (∀ event ∈ batch, (rowOf hasher event).isSome → event.eventId hasher ∈ table.keys) →
      (writeBatch hasher table batch).2 = table ∧
        (writeBatch hasher table batch).1.inserted = 0) := by
  refine ⟨?_, fun calls' h' => (h'.table start).trans (h.table start).symm, ?_⟩
  · obtain ⟨added, hadded⟩ := start.insertAllNew_rows (events.filterMap (rowOf hasher))
    have hunique := (start.insertAllNew (events.filterMap (rowOf hasher))).unique
    rw [hadded, List.map_append, List.nodup_append] at hunique
    obtain ⟨-, hnodup, hdisjoint⟩ := hunique
    refine ⟨added, by rw [h.table, hadded], hnodup, ?_, ?_, ?_⟩
    · intro row hrow hstored
      exact hdisjoint _ hstored _ (List.mem_map_of_mem hrow) rfl
    · -- a row with a new id is found behind all the old ones
      intro id hid
      have hfind := start.find_insertAllNew (events.filterMap (rowOf hasher)) id
      rw [(start.find_eq_none_iff id).mpr hid, Option.none_or, ← firstRow_eq_find] at hfind
      rw [← hfind, KeyedTable.find, hadded, List.find?_append]
      have hnone : (start.rows.find? fun row => row.eventId = id) = none :=
        (start.find_eq_none_iff id).mpr hid
      rw [hnone, Option.none_or]
    · -- each call reports by how much it lengthened the table
      have hcount := @insertedTotal_eq hasher start calls
      rw [h.table, hadded, List.length_append] at hcount
      omega
  · intro table batch hstored
    have htable := writeBatch_of_stored hstored
    exact ⟨htable, by rw [writeBatch_inserted, htable, Nat.sub_self]⟩

theorem persistence_idempotent_twice_delivered :
    (writeAll sampleHasher .empty [[missingSignature], [missingSignature]]).2 =
      (writeAll sampleHasher .empty [[missingSignature]]).2 := by
  have h : Delivered ([] ++ [missingSignature]) ([] ++ [[missingSignature]]) :=
    .write .nil [missingSignature]
  exact (persistence_idempotent sampleHasher .empty _ _ h).2.1 _
    (.again h [missingSignature] List.mem_cons_self)

end YellowstoneStream.Storage

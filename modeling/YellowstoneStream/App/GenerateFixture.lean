import YellowstoneStream.App.CrashEquivalence
import YellowstoneStream.Stream.ReplayFile

/-!
# Generated fixtures

The program of `crates/app/src/bin/generate_fixture.rs` writes a replay file of any length.  It is
read back as it was generated, and whether a replay of it survives crashes depends on how the slots
meet the batches.
-/

open YellowstoneStream.Domain YellowstoneStream.Reasoning YellowstoneStream.Storage
open YellowstoneStream.Stream

namespace YellowstoneStream.App

/-- Every batch boundary lies between two slots. -/
def SlotsUnsplit (batchSize : Nat) (events : List NormalizedEvent) : Prop :=
  ∀ batches : Nat, ∀ later ∈ events.drop (batches * batchSize),
    ∀ earlier ∈ events.take (batches * batchSize), earlier.slot < later.slot

section Unsplit

variable {batchSize : Nat} {events rest : List NormalizedEvent}

theorem SlotsUnsplit.behind (h : SlotsUnsplit batchSize events) (front batches : Nat)
    {earlier later : NormalizedEvent}
    (hlater : later ∈ (events.drop (front * batchSize)).drop (batches * batchSize))
    (hearlier : earlier ∈ (events.drop (front * batchSize)).take (batches * batchSize)) :
    earlier.slot < later.slot := by
  rw [List.drop_drop, ← Nat.add_mul] at hlater
  refine h (front + batches) later hlater earlier ?_
  rw [Nat.add_mul, List.take_add]
  exact List.mem_append_right _ hearlier

/-- What reruns may have left to do are then the events behind some batches. -/
theorem SlotsUnsplit.remaining (h : SlotsUnsplit batchSize events)
    (hrest : Remaining batchSize events rest) :
    ∃ front, rest = events.drop (front * batchSize) := by
  induction hrest with
  | whole => exact ⟨0, by rw [Nat.zero_mul, List.drop_zero]⟩
  | cut _ batches ih =>
      obtain ⟨front, rfl⟩ := ih
      refine ⟨front + batches, ?_⟩
      have hbehind {earlier later : NormalizedEvent} := @h.behind _ _ front batches earlier later
      rw [Nat.add_mul, ← List.drop_drop]
      generalize events.drop (front * batchSize) = rest at hbehind ⊢
      -- the filter drops what was taken, and nothing behind it
      have htaken : beyond (rest.take (batches * batchSize)) (rest.take (batches * batchSize)) =
          [] := by
        refine List.filter_eq_nil_iff.mpr fun event hevent hall => ?_
        have hself := List.all_eq_true.mp hall event hevent
        exact absurd (of_decide_eq_true hself) (Nat.lt_irrefl _)
      have hbehind : beyond (rest.take (batches * batchSize)) (rest.drop (batches * batchSize)) =
          rest.drop (batches * batchSize) := by
        refine List.filter_eq_self.mpr fun later hlater => ?_
        exact List.all_eq_true.mpr fun earlier hearlier => decide_eq_true (hbehind hlater hearlier)
      calc beyond (rest.take (batches * batchSize)) rest
          = beyond (rest.take (batches * batchSize))
              (rest.take (batches * batchSize) ++ rest.drop (batches * batchSize)) := by
            rw [List.take_append_drop]
        _ = rest.drop (batches * batchSize) := by
            rw [beyond, List.filter_append, ← beyond, ← beyond, htaken, hbehind, List.nil_append]

/-- Where no event is repeated, a boundary is safe exactly between two slots. -/
theorem cutSafe_iff_slotsUnsplit (hdistinct : (events.map NormalizedEvent.identity).Nodup) :
    CutSafe batchSize events ↔ SlotsUnsplit batchSize events := by
  constructor
  · intro h batches later hlater earlier hearlier
    by_contra hle
    obtain ⟨same, hsame, hidentity⟩ :=
      h events .whole batches later hlater earlier hearlier (Nat.le_of_not_lt hle)
    rw [← List.take_append_drop (batches * batchSize) events, List.map_append,
      List.nodup_append] at hdistinct
    exact hdistinct.2.2 _ (List.mem_map_of_mem hsame) _ (List.mem_map_of_mem hlater) hidentity
  · intro h rest hrest batches later hlater earlier hearlier hle
    obtain ⟨front, rfl⟩ := h.remaining hrest
    exact absurd (h.behind front batches hlater hearlier) (Nat.not_lt.mpr hle)

end Unsplit

/-! ## The generator -/

/-- `format!` in hexadecimal, with zeros up to the width. -/
def hexPadded (width value : Nat) : String :=
  let digits := Nat.toDigits 16 value
  .ofList (List.replicate (width - digits.length) '0' ++ digits)

def programIds : List String :=
  ["11111111111111111111111111111111", "TokenkegQfeZyiNwAJbNbGKPFXCWuBvf9Ss623VQ5DA",
    "ATokenGPvbdGVxr1b2hvZbsiqW5xWH25efTNsLJA8knL"]

structure FixtureArgs where
  count : Nat
  output : String
  eventsPerSlot : Nat
  deriving DecidableEq, Repr

def fixtureIdentity (eventsPerSlot i : Nat) : EventIdentity :=
  let slot := i / eventsPerSlot + 1
  let signature := "sig-" ++ hexPadded 16 slot ++ "-" ++ hexPadded 8 i
  let index := i % eventsPerSlot
  match i % 4 with
  | 0 => .transaction "mainnet-beta" slot signature index
  | 1 =>
      .instruction "mainnet-beta" slot signature index (index % 16) none
        (programIds.get ⟨i % programIds.length, Nat.mod_lt i (by decide)⟩)
  | 2 =>
      .account "mainnet-beta" slot ("acct-" ++ hexPadded 16 slot ++ "-" ++ hexPadded 4 index) index
        (some signature) false
  | _ =>
      if index = eventsPerSlot - 1 then .slot "mainnet-beta" slot .finalized
      else .transaction "mainnet-beta" slot signature index

def fixtureEvent (eventsPerSlot i : Nat) : NormalizedEvent :=
  ⟨fixtureIdentity eventsPerSlot i, .object [("index", .number (.posInt i))]⟩

/-- One duplicate: the event at the second place is put at the first. -/
def duplicateEvent (events : List NormalizedEvent) (picks : Nat × Nat) : List NormalizedEvent :=
  (events[picks.2]?.map fun event => events.set picks.1 event).getD events

/-- The events of `main`, with the places that were picked at random for the duplicates.  Without
events in a slot its division panics. -/
def fixtureEvents (args : FixtureArgs) (picks : List (Nat × Nat)) :
    Option (List NormalizedEvent) :=
  if args.eventsPerSlot = 0 ∧ 0 < args.count then none
  else some (picks.foldl duplicateEvent
    ((List.range args.count).map (fixtureEvent args.eventsPerSlot)))

/-- What `main` writes of them. -/
def fixtureBytes (json : JsonText) (events : List NormalizedEvent) : List UInt8 :=
  events.flatMap fun event => Lines.writeLine (eventText json event, false)

/-! ## The events -/

section Events

variable {args : FixtureArgs} {eventsPerSlot i : Nat} {events : List NormalizedEvent}
  {picks : List (Nat × Nat)}

theorem fixtureEvents_eq_some_iff : fixtureEvents args picks = some events ↔
    (args.count = 0 ∨ 0 < args.eventsPerSlot) ∧ picks.foldl duplicateEvent
      ((List.range args.count).map (fixtureEvent args.eventsPerSlot)) = events := by
  unfold fixtureEvents
  split
  · rename_i hpanic
    exact ⟨nofun, fun h => by omega⟩
  · rename_i hruns
    rw [Option.some_inj]
    exact ⟨fun h => ⟨by omega, h⟩, And.right⟩

/-- Duplicates are copies of generated events. -/
theorem exists_of_mem_fixtureEvents (h : fixtureEvents args picks = some events)
    {event : NormalizedEvent} (hevent : event ∈ events) :
    ∃ i < args.count, event = fixtureEvent args.eventsPerSlot i := by
  obtain ⟨-, rfl⟩ := fixtureEvents_eq_some_iff.mp h
  clear h
  induction picks using List.reverseRecOn generalizing event with
  | nil =>
      obtain ⟨i, hi, rfl⟩ := List.mem_map.mp hevent
      exact ⟨i, List.mem_range.mp hi, rfl⟩
  | append_singleton picks pick ih =>
      rw [List.foldl_append, List.foldl_cons, List.foldl_nil, duplicateEvent] at hevent
      cases hsource : (picks.foldl duplicateEvent
        ((List.range args.count).map (fixtureEvent args.eventsPerSlot)))[pick.2]? with
      | none =>
          rw [hsource] at hevent
          exact ih hevent
      | some source =>
          rw [hsource] at hevent
          rcases List.mem_or_eq_of_mem_set hevent with hmem | rfl
          · exact ih hmem
          · exact ih (List.mem_of_getElem? hsource)

theorem not_isBlank_append {c : Char} {text : String} (hspace : Text.isWhitespace c = false)
    (hmem : c ∈ text.toList) (rest : String) : Text.isBlank (text ++ rest) = false :=
  Text.not_isBlank (by rw [String.toList_append]; exact List.mem_append_left _ hmem) hspace

theorem fixtureIdentity_valid : (fixtureIdentity eventsPerSlot i).validate = .ok () := by
  have hcluster : Text.isBlank "mainnet-beta" = false := by decide
  have hsignature : Text.isBlank ("sig-" ++ hexPadded 16 (i / eventsPerSlot + 1) ++ "-" ++
      hexPadded 8 i) = false := by
    rw [String.append_assoc, String.append_assoc]
    exact not_isBlank_append (c := '-') (by decide) (by decide) _
  have haccount : Text.isBlank ("acct-" ++ hexPadded 16 (i / eventsPerSlot + 1) ++ "-" ++
      hexPadded 4 (i % eventsPerSlot)) = false := by
    rw [String.append_assoc, String.append_assoc]
    exact not_isBlank_append (c := '-') (by decide) (by decide) _
  have hprograms : ∀ programId ∈ programIds, Text.isBlank programId = false := by decide
  rw [EventIdentity.validate_ok_iff]
  unfold fixtureIdentity
  dsimp only
  split
  · simp [EventIdentity.textFields, hcluster, hsignature]
  · have hprogram := hprograms _ (List.get_mem programIds
      ⟨i % programIds.length, Nat.mod_lt i (by decide)⟩)
    simpa [EventIdentity.textFields, hcluster, hsignature] using hprogram
  · simp [EventIdentity.textFields, hcluster, hsignature, haccount]
  · split
    · simp [EventIdentity.textFields, hcluster]
    · simp [EventIdentity.textFields, hcluster, hsignature]

theorem fixtureIdentity_inRange (hi : i + 1 < 2 ^ 64) :
    (fixtureIdentity eventsPerSlot i).InRange := by
  have hslot : i / eventsPerSlot + 1 < 2 ^ 64 := by
    have hle := Nat.div_le_self i eventsPerSlot
    omega
  have hindex : i % eventsPerSlot < 2 ^ 64 := by
    have hle := Nat.mod_le i eventsPerSlot
    omega
  unfold fixtureIdentity
  dsimp only
  split
  · exact ⟨hslot, hindex⟩
  · exact ⟨hslot, hindex, (Nat.mod_lt _ (by decide)).trans (by decide), nofun⟩
  · exact ⟨hslot, hindex⟩
  · split
    · exact hslot
    · exact ⟨hslot, hindex⟩

theorem fixtureEvent_wellFormed (hi : i + 1 < 2 ^ 64) :
    (fixtureEvent eventsPerSlot i).WellFormed where
  valid := fixtureIdentity_valid
  inRange := fixtureIdentity_inRange hi
  ordered := ⟨List.pairwise_singleton _ _, trivial, trivial⟩

/-- The number of an event in its slot. -/
def indexInSlot (eventsPerSlot : Nat) : EventIdentity → Nat
  | .transaction _ _ _ index | .instruction _ _ _ index .. | .account _ _ _ index .. => index
  | .block .. | .entry .. | .slot .. => eventsPerSlot - 1

theorem fixtureIdentity_place : (fixtureIdentity eventsPerSlot i).slotNumber =
      i / eventsPerSlot + 1 ∧
    indexInSlot eventsPerSlot (fixtureIdentity eventsPerSlot i) = i % eventsPerSlot := by
  unfold fixtureIdentity
  dsimp only
  split
  · exact ⟨rfl, rfl⟩
  · exact ⟨rfl, rfl⟩
  · exact ⟨rfl, rfl⟩
  · split
    · rename_i hlast
      exact ⟨rfl, hlast.symm⟩
    · exact ⟨rfl, rfl⟩

theorem fixtureEvent_slot : (fixtureEvent eventsPerSlot i).slot = i / eventsPerSlot + 1 :=
  fixtureIdentity_place.1

/-- The slot and the number in it tell the events apart. -/
theorem fixtureIdentity_injective : Function.Injective (fixtureIdentity eventsPerSlot) := by
  intro i j hsame
  obtain ⟨hslot, hindex⟩ := @fixtureIdentity_place eventsPerSlot i
  obtain ⟨hslot', hindex'⟩ := @fixtureIdentity_place eventsPerSlot j
  rw [hsame, hslot'] at hslot
  rw [hsame, hindex'] at hindex
  rw [← Nat.div_add_mod i eventsPerSlot, ← Nat.div_add_mod j eventsPerSlot, ← hindex,
    Nat.succ_injective hslot]

end Events

/-! ## The file -/

/-- A replay reads from the file what was generated, whatever was picked for the duplicates. -/
theorem generated_fixture_is_read {ε : Type} (json : JsonText) (files : Files ε)
    (args : FixtureArgs) (picks : List (Nat × Nat)) (events : List NormalizedEvent)
    (hevents : fixtureEvents args picks = some events) (hcount : args.count < 2 ^ 64)
    (hwrites : Writes json {value | ∃ event ∈ events, event.toValue = value})
    (hopen : files.openFile args.output = .ok ⟨fixtureBytes json events, none⟩) :
    readJsonlEvents json files args.output = .ok events := by
  have hall : (events.map fun event => (event, false)).map Prod.fst ++ none.toList = events := by
    rw [List.map_map, Option.toList_none, List.append_nil]
    exact List.map_id events
  have hbytes : fixtureBytes json events =
      fileBytes json (events.map fun event => (event, false)) none := by
    rw [fileBytes, List.map_map, Option.map_none, Option.map_none, Option.getD_none,
      List.append_nil, List.flatMap_map]
    rfl
  rw [hbytes] at hopen
  have hread := written_events_are_read_back json files args.output _ none
    (fun event hevent => ?_) (by rwa [hall]) hopen
  · rwa [hall] at hread
  · rw [hall] at hevent
    obtain ⟨i, hi, rfl⟩ := exists_of_mem_fixtureEvents hevents hevent
    exact fixtureEvent_wellFormed (by omega)

/-- The lines of the first two events of a fixture. -/
def transactionLine : String :=
  "\x7b\"identity\":\x7b\"kind\":\"transaction\",\"cluster\":\"mainnet-beta\",\"slot\":1," ++
    "\"signature\":\"sig-0000000000000001-00000000\",\"index\":0\x7d," ++
      "\"payload\":\x7b\"index\":0\x7d\x7d"

def instructionLine : String :=
  "\x7b\"identity\":\x7b\"kind\":\"instruction\",\"cluster\":\"mainnet-beta\",\"slot\":1," ++
    "\"signature\":\"sig-0000000000000001-00000001\",\"transaction_index\":1," ++
      "\"instruction_index\":1,\"inner_instruction_index\":null," ++
        "\"program_id\":\"TokenkegQfeZyiNwAJbNbGKPFXCWuBvf9Ss623VQ5DA\"\x7d," ++
          "\"payload\":\x7b\"index\":1\x7d\x7d"

theorem lines_unbroken : Lines.Unbroken transactionLine ∧ Lines.Unbroken instructionLine := by
  constructor
  · refine .append (.append ?_ ?_) ?_ <;> simp [Lines.Unbroken]
  · refine .append (.append (.append (.append ?_ ?_) ?_) ?_) ?_ <;> simp [Lines.Unbroken]

theorem lines_colon : ':' ∈ transactionLine.toList ∧ ':' ∈ instructionLine.toList := by
  unfold transactionLine instructionLine
  simp only [String.toList_append]
  exact ⟨List.mem_append_right _ (by simp), List.mem_append_right _ (by simp)⟩

/-- What `serde_json` makes of these lines. -/
def fixtureJson : JsonText where
  fromStr text :=
    if text = transactionLine then some (fixtureEvent 2 0).toValue
    else if text = instructionLine then some (fixtureEvent 2 1).toValue
    else none
  toStr value :=
    match value.get "payload" with
    | some (.object [("index", .number (.posInt 0))]) => transactionLine
    | _ => instructionLine
  message _ := "expected value at line 1 column 1"

/-- The third event was replaced by the first one. -/
def duplicatedFixture : List NormalizedEvent :=
  [fixtureEvent 2 0, fixtureEvent 2 1, fixtureEvent 2 0]

theorem fixtureJson_toStr {value : Value}
    (h : value ∈ {value | ∃ event ∈ duplicatedFixture, event.toValue = value}) :
    (fixtureJson.toStr value = transactionLine ∧ value = (fixtureEvent 2 0).toValue) ∨
      (fixtureJson.toStr value = instructionLine ∧ value = (fixtureEvent 2 1).toValue) := by
  obtain ⟨event, hevent, rfl⟩ := h
  have hcases : event = fixtureEvent 2 0 ∨ event = fixtureEvent 2 1 := by
    simpa [duplicatedFixture, or_comm, or_assoc] using hevent
  rcases hcases with rfl | rfl
  · exact .inl ⟨rfl, rfl⟩
  · exact .inr ⟨rfl, rfl⟩

theorem fixtureJson_writes :
    Writes fixtureJson {value | ∃ event ∈ duplicatedFixture, event.toValue = value} where
  fromStr value hvalue := by
    rcases fixtureJson_toStr hvalue with ⟨htext, rfl⟩ | ⟨htext, rfl⟩
    · rw [htext]
      dsimp only [fixtureJson]
      rw [if_pos rfl]
    · rw [htext]
      have hother : instructionLine ≠ transactionLine := by decide +kernel
      dsimp only [fixtureJson]
      rw [if_neg hother, if_pos rfl]
  unbroken value hvalue := by
    rcases fixtureJson_toStr hvalue with ⟨htext, -⟩ | ⟨htext, -⟩
    · rw [htext]
      exact lines_unbroken.1
    · rw [htext]
      exact lines_unbroken.2
  notBlank value hvalue := by
    rcases fixtureJson_toStr hvalue with ⟨htext, -⟩ | ⟨htext, -⟩
    · rw [htext]
      exact Text.not_isBlank lines_colon.1 (by decide)
    · rw [htext]
      exact Text.not_isBlank lines_colon.2 (by decide)

theorem generated_fixture_is_read_duplicate : readJsonlEvents fixtureJson
    ⟨fun _ => .ok ⟨fixtureBytes fixtureJson duplicatedFixture, none⟩,
      "stream did not contain valid UTF-8", id⟩
      "fixtures/synthetic.jsonl" = .ok duplicatedFixture :=
  generated_fixture_is_read fixtureJson _ ⟨3, "fixtures/synthetic.jsonl", 2⟩ [(2, 0)] _ rfl
    (by decide) fixtureJson_writes rfl

/-! ## Crashes -/

section Crashes

variable {batchSize count eventsPerSlot : Nat}

/-- The slots of generated events depend on their places only. -/
theorem slotsUnsplit_fixture : SlotsUnsplit batchSize
      ((List.range count).map (fixtureEvent eventsPerSlot)) ↔
    ∀ batches i j, i < batches * batchSize → batches * batchSize ≤ j → j < count →
      i / eventsPerSlot < j / eventsPerSlot := by
  constructor
  · intro h batches i j hi hj hcount
    have hslots := h batches (fixtureEvent eventsPerSlot j) ?_ (fixtureEvent eventsPerSlot i) ?_
    · rw [fixtureEvent_slot, fixtureEvent_slot] at hslots
      omega
    · rw [List.mem_drop_iff_getElem]
      refine ⟨j - batches * batchSize, ?_, ?_⟩
      · rw [List.length_map, List.length_range]
        omega
      · simp only [List.getElem_map, List.getElem_range]
        rw [Nat.add_sub_cancel' hj]
    · rw [List.mem_take_iff_getElem]
      refine ⟨i, ?_, ?_⟩
      · rw [List.length_map, List.length_range]
        omega
      · simp only [List.getElem_map, List.getElem_range]
  · intro h batches later hlater earlier hearlier
    obtain ⟨j, hj, rfl⟩ := List.mem_drop_iff_getElem.mp hlater
    obtain ⟨i, hi, rfl⟩ := List.mem_take_iff_getElem.mp hearlier
    rw [List.length_map, List.length_range] at hi hj
    simp only [List.getElem_map, List.getElem_range, fixtureEvent_slot]
    have hslots := h batches i (batches * batchSize + j) (by omega) (by omega) (by omega)
    omega

/-- A boundary splits a slot unless all batches are whole numbers of slots. -/
theorem slotsUnsplit_fixture_iff (hpos : 0 < eventsPerSlot) : SlotsUnsplit batchSize
      ((List.range count).map (fixtureEvent eventsPerSlot)) ↔
    eventsPerSlot ∣ batchSize ∨ count ≤ batchSize := by
  rw [slotsUnsplit_fixture]
  constructor
  · intro h
    by_contra hsplit
    obtain ⟨hdvd, hlt⟩ := not_or.mp hsplit
    cases batchSize with
    | zero => exact hdvd (Nat.dvd_zero _)
    | succ size =>
        -- the first batch ends within a slot
        have hslots := h 1 size (size + 1) (by omega) (by omega) (by omega)
        rw [Nat.succ_div_of_not_dvd hdvd] at hslots
        exact Nat.lt_irrefl _ hslots
  · rintro (⟨slots, rfl⟩ | hle) batches i j hi hj hcount
    · rw [Nat.mul_left_comm] at hi hj
      calc i / eventsPerSlot < batches * slots :=
            (Nat.div_lt_iff_lt_mul hpos).mpr (by rwa [Nat.mul_comm])
        _ ≤ j / eventsPerSlot := (Nat.le_div_iff_mul_le hpos).mpr (by rwa [Nat.mul_comm])
    · cases batches with
      | zero => omega
      | succ batches =>
          rw [Nat.add_mul] at hj
          omega

end Crashes

/-- A replay of a generated file without duplicates survives crashes without a trace exactly where
its batches are whole numbers of slots, or there is one batch only. -/
theorem generated_fixture_crashes_iff (job : ReplayJob) (args : FixtureArgs)
    (hevents : fixtureEvents args [] = some job.events) (hbatch : 0 < job.batchSize)
    (hcapacity : 0 < job.channelCapacity) (hcount : args.count ≤ i64Max)
    (hhash : job.hasher.CollisionFree
      {identity | ∃ event ∈ job.events, event.identity = identity}) :
    job.CrashesLeaveNoTrace ↔
      args.eventsPerSlot ∣ job.batchSize ∨ args.count ≤ job.batchSize := by
  have hfits : ∀ event ∈ job.events, event.slot ≤ i64Max := by
    intro event hevent
    obtain ⟨i, hi, rfl⟩ := exists_of_mem_fixtureEvents hevents hevent
    have hle := Nat.div_le_self i args.eventsPerSlot
    rw [fixtureEvent_slot]
    omega
  obtain ⟨hruns, hall⟩ := fixtureEvents_eq_some_iff.mp hevents
  have hall : (List.range args.count).map (fixtureEvent args.eventsPerSlot) = job.events := hall
  have hdistinct : (job.events.map NormalizedEvent.identity).Nodup := by
    rw [← hall, List.map_map]
    exact List.Nodup.map fixtureIdentity_injective List.nodup_range
  rw [crashes_leave_no_trace_iff job hbatch hcapacity hfits hhash,
    cutSafe_iff_slotsUnsplit hdistinct, ← hall]
  rcases hruns with hnone | hpos
  · rw [hnone, slotsUnsplit_fixture]
    exact iff_of_true (fun _ _ _ _ _ hj => absurd hj (Nat.not_lt_zero _)) (.inr (Nat.zero_le _))
  · exact slotsUnsplit_fixture_iff hpos

/-- Two events of one slot. -/
def twoEventsJob (batchSize : Nat) : ReplayJob where
  hasher := pairHasher (fixtureIdentity 2 0) (fixtureIdentity 2 1)
    [251, 15, 103, 45, 53, 50, 122, 207, 88, 61, 83, 171, 142, 255, 226, 39, 195, 240, 202, 102,
      186, 106, 52, 165, 129, 142, 107, 101, 246, 142, 64, 95]
    [18, 214, 61, 237, 176, 179, 30, 55, 130, 150, 57, 166, 54, 216, 70, 183, 219, 40, 237, 39, 75,
      219, 227, 166, 241, 12, 117, 103, 205, 176, 221, 125]
  batchSize := batchSize
  channelCapacity := 1
  streamName := "test"
  events := [fixtureEvent 2 0, fixtureEvent 2 1]

theorem twoEventsJob_collisionFree (batchSize : Nat) :
    (twoEventsJob batchSize).hasher.CollisionFree
      {identity | ∃ event ∈ (twoEventsJob batchSize).events, event.identity = identity} := by
  have hsame : {identity | ∃ event ∈ (twoEventsJob batchSize).events, event.identity = identity} =
      {fixtureIdentity 2 0, fixtureIdentity 2 1} := by
    ext identity
    show (∃ event ∈ [fixtureEvent 2 0, fixtureEvent 2 1], event.identity = identity) ↔ _
    simp [eq_comm, fixtureEvent]
  rw [hsame]
  exact pairHasher_collisionFree (fixtureIdentity_injective.ne Nat.zero_ne_one) (by decide)

/-- A batch for each of them splits their slot. -/
theorem generated_fixture_crashes_iff_split : ¬ (twoEventsJob 1).CrashesLeaveNoTrace := by
  rw [generated_fixture_crashes_iff (twoEventsJob 1) ⟨2, "fixtures/synthetic.jsonl", 2⟩ rfl
    (by decide) (by decide) (by decide) (twoEventsJob_collisionFree 1)]
  decide

end YellowstoneStream.App

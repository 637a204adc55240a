import Mathlib.Data.List.Nodup
import YellowstoneStream.Domain.EventKey
import YellowstoneStream.Reasoning.Base58
import YellowstoneStream.Stream.YellowstoneProto

/-!
# Transaction updates

Which transaction updates are accepted, and the events an accepted one becomes: the transaction, its
instructions, and the inner instructions of its groups.
-/

open YellowstoneStream.Domain YellowstoneStream.Reasoning

namespace YellowstoneStream.Stream

/-- What the code relies on of `bs58::encode`. -/
structure LawfulBs58 (encode : Bytes → String) : Prop where
  encode_nil : encode [] = ""
  nonblank : ∀ bytes, bytes ≠ [] → Text.isBlank (encode bytes) = false

def messageOf (info : SubscribeUpdateTransactionInfo) : Option Message :=
  info.transaction.bind ConfirmedTransaction.message

/-- The keys of the message, and behind them the loaded addresses. -/
def accountKeyBytes (info : SubscribeUpdateTransactionInfo) : List Bytes :=
  ((messageOf info).map Message.accountKeys).getD [] ++
    (info.statusMeta.map TransactionStatusMeta.loadedWritableAddresses).getD [] ++
    (info.statusMeta.map TransactionStatusMeta.loadedReadonlyAddresses).getD []

def innerGroups (info : SubscribeUpdateTransactionInfo) : List InnerInstructions :=
  (info.statusMeta.map TransactionStatusMeta.innerInstructions).getD []

def PointsToKey (info : SubscribeUpdateTransactionInfo) (programIdIndex : Nat) : Prop :=
  ∃ key, (accountKeyBytes info)[programIdIndex]? = some key ∧ key ≠ []

/-- The update has all that its events need, in range. -/
structure Normalizable (cluster : String) (info : SubscribeUpdateTransactionInfo) : Prop where
  cluster : Text.isBlank cluster = false
  signature : info.signature ≠ []
  instructions : ∀ message, messageOf info = some message →
    ∀ index instruction, message.instructions[index]? = some instruction →
      index ≤ u16Max ∧ PointsToKey info instruction.programIdIndex
  innerInstructions : ∀ message, messageOf info = some message →
    ∀ group ∈ innerGroups info, group.index ≤ u16Max ∧
      ∀ index instruction, group.instructions[index]? = some instruction →
        index ≤ u16Max ∧ PointsToKey info instruction.programIdIndex

section Events

variable (crates : ProtoCrates) (cluster : String) (slot : Nat)
  (info : SubscribeUpdateTransactionInfo)

def programIdOf (programIdIndex : Nat) : String :=
  ((accountKeyBytes info)[programIdIndex]?.map crates.bs58Encode).getD ""

def transactionEvent (filters : List String) : NormalizedEvent :=
  ⟨.transaction cluster slot (crates.bs58Encode info.signature) info.index,
    transactionPayload filters info⟩

def instructionEvent (instructionIndex : Nat) (innerInstructionIndex : Option Nat)
    (instruction : CompiledInstruction) : NormalizedEvent :=
  let programId := programIdOf crates info instruction.programIdIndex
  ⟨.instruction cluster slot (crates.bs58Encode info.signature) info.index instructionIndex
    innerInstructionIndex programId, instructionPayload crates instruction programId⟩

def innerGroupEvents (group : InnerInstructions) : List NormalizedEvent :=
  group.instructions.zipIdx.map fun (instruction, innerIndex) =>
    instructionEvent crates cluster slot info group.index (some innerIndex)
      instruction.compiled

def instructionEvents : List NormalizedEvent :=
  match messageOf info with
  | none => []
  | some message =>
      (message.instructions.zipIdx.map fun (instruction, index) =>
        instructionEvent crates cluster slot info index none instruction) ++
      (innerGroups info).flatMap (innerGroupEvents crates cluster slot info)

end Events

/-! ## One instruction -/

section Instructions

variable {crates : ProtoCrates} {cluster : String} {slot : Nat}
  {info : SubscribeUpdateTransactionInfo} {result : NormalizedEvent}

/-- The context of an update's instructions. -/
def contextOf (crates : ProtoCrates) (cluster : String) (slot : Nat)
    (info : SubscribeUpdateTransactionInfo) : InstructionNormalizeContext :=
  { cluster, slot
    signature := crates.bs58Encode info.signature
    transactionIndex := info.index
    accountKeys := instructionAccountKeys crates info }

theorem instructionAccountKeys_eq (crates : ProtoCrates) (info : SubscribeUpdateTransactionInfo) :
    instructionAccountKeys crates info = (accountKeyBytes info).map crates.bs58Encode := by
  rw [instructionAccountKeys, accountKeyBytes, messageOf]
  cases info.transaction.bind ConfirmedTransaction.message <;> cases info.statusMeta <;> simp

theorem pointsToKey_iff (lawful : LawfulBs58 crates.bs58Encode) {index : Nat} :
    PointsToKey info index ↔ ∃ programId,
      (instructionAccountKeys crates info)[index]? = some programId ∧
        Text.isBlank programId = false := by
  rw [instructionAccountKeys_eq, PointsToKey]
  simp only [List.getElem?_map, Option.map_eq_some_iff]
  constructor
  · rintro ⟨key, hkey, hne⟩
    exact ⟨_, ⟨key, hkey, rfl⟩, lawful.nonblank key hne⟩
  · rintro ⟨_, ⟨key, hkey, rfl⟩, hblank⟩
    refine ⟨key, hkey, ?_⟩
    rintro rfl
    rw [lawful.encode_nil] at hblank
    exact absurd hblank (by decide)

theorem programIdOf_eq {index : Nat} {programId : String}
    (h : (instructionAccountKeys crates info)[index]? = some programId) :
    programIdOf crates info index = programId := by
  rw [instructionAccountKeys_eq, List.getElem?_map] at h
  rw [programIdOf, h, Option.getD_some]

/-- Without metadata there are no groups. -/
theorem normalizeProtoInstructions_eq :
    normalizeProtoInstructions crates cluster slot (crates.bs58Encode info.signature) info =
      match messageOf info with
      | none => .ok []
      | some message => (do
          let events ← topLevelLoop crates (contextOf crates cluster slot info) message
          let inner ← (innerGroups info).mapM
            (normalizeInnerGroup crates (contextOf crates cluster slot info))
          pure (events ++ inner.flatten)) := by
  rw [normalizeProtoInstructions, messageOf, innerGroups]
  cases info.transaction.bind ConfirmedTransaction.message with
  | none => rfl
  | some message =>
      cases info.statusMeta with
      | none =>
          simp only [Option.map_none, Option.getD_none, List.mapM_nil, pure_bind, List.flatten_nil,
            List.append_nil]
          rfl
      | some statusMeta => rfl

variable (lawful : LawfulBs58 crates.bs58Encode) (hcluster : Text.isBlank cluster = false)
  (hsignature : info.signature ≠ [])
include lawful hcluster hsignature

theorem normalizeCompiledInstruction_ok_iff {index : Nat} {innerIndex : Option Nat}
    {instruction : CompiledInstruction} :
    normalizeCompiledInstruction crates (contextOf crates cluster slot info) index innerIndex
        instruction = .ok result ↔
      PointsToKey info instruction.programIdIndex ∧
        result = instructionEvent crates cluster slot info index innerIndex instruction := by
  rw [normalizeCompiledInstruction, bind_eq_ok_iff, pointsToKey_iff lawful]
  simp only [mapError_eq_ok_iff, normalizeYellowstoneEvent, normalizeInstruction_ok_iff,
    programIdAt_ok_iff]
  constructor
  · rintro ⟨programId, hprogram, ⟨-, -, hblank⟩, rfl⟩
    refine ⟨⟨programId, hprogram, hblank⟩, ?_⟩
    rw [instructionEvent, programIdOf_eq hprogram]
    rfl
  · rintro ⟨⟨programId, hprogram, hblank⟩, rfl⟩
    refine ⟨programId, hprogram, ⟨hcluster, lawful.nonblank _ hsignature, hblank⟩, ?_⟩
    rw [instructionEvent, programIdOf_eq hprogram]
    rfl

theorem checkedInstruction_ok_iff (field : String) (place : Nat → Nat × Option Nat) {n : Nat}
    {instruction : CompiledInstruction} :
    (do
      let index ← checkedU16 field n
      normalizeCompiledInstruction crates (contextOf crates cluster slot info) (place index).1
        (place index).2 instruction) = .ok result ↔
      (n ≤ u16Max ∧ PointsToKey info instruction.programIdIndex) ∧
        result = instructionEvent crates cluster slot info (place n).1 (place n).2 instruction := by
  rw [bind_eq_ok_iff]
  simp only [checkedU16_ok_iff,
    normalizeCompiledInstruction_ok_iff lawful hcluster hsignature]
  constructor
  · rintro ⟨_, ⟨hindex, rfl⟩, hkey, rfl⟩
    exact ⟨⟨hindex, hkey⟩, rfl⟩
  · rintro ⟨⟨hindex, hkey⟩, rfl⟩
    exact ⟨n, ⟨hindex, rfl⟩, hkey, rfl⟩

/-- Both loops over instructions: `place` puts the position where the identity has it. -/
theorem instructionLoop_ok_iff {α : Type} (field : String) (place : Nat → Nat × Option Nat)
    (compiled : α → CompiledInstruction) {instructions : List α} {events : List NormalizedEvent} :
    (instructions.zipIdx.mapM fun entry => do
      let index ← checkedU16 field entry.2
      normalizeCompiledInstruction crates (contextOf crates cluster slot info) (place index).1
        (place index).2 (compiled entry.1)) = .ok events ↔
      (∀ index instruction, instructions[index]? = some instruction →
        index ≤ u16Max ∧ PointsToKey info (compiled instruction).programIdIndex) ∧
      events = instructions.zipIdx.map fun entry =>
        instructionEvent crates cluster slot info (place entry.2).1 (place entry.2).2
          (compiled entry.1) := by
  rw [mapM_eq_ok_iff_map fun entry _ _ =>
    checkedInstruction_ok_iff lawful hcluster hsignature field place]
  refine and_congr_left fun _ => ?_
  simp only [Prod.forall, List.mk_mem_zipIdx_iff_getElem?]
  exact forall_comm

theorem normalizeInnerGroup_ok_iff {group : InnerInstructions} {events : List NormalizedEvent} :
    normalizeInnerGroup crates (contextOf crates cluster slot info) group = .ok events ↔
      (group.index ≤ u16Max ∧ ∀ index instruction, group.instructions[index]? = some instruction →
        index ≤ u16Max ∧ PointsToKey info instruction.programIdIndex) ∧
      events = innerGroupEvents crates cluster slot info group := by
  rw [normalizeInnerGroup, bind_eq_ok_iff]
  simp only [checkedU16_ok_iff]
  constructor
  · rintro ⟨_, ⟨hgroup, rfl⟩, h⟩
    obtain ⟨hall, rfl⟩ := (instructionLoop_ok_iff lawful hcluster hsignature
      "inner_instruction_index" (fun innerIndex => (group.index, some innerIndex))
      InnerInstruction.compiled).mp h
    exact ⟨⟨hgroup, hall⟩, rfl⟩
  · rintro ⟨⟨hgroup, hall⟩, rfl⟩
    exact ⟨group.index, ⟨hgroup, rfl⟩, (instructionLoop_ok_iff lawful hcluster hsignature
      "inner_instruction_index" (fun innerIndex => (group.index, some innerIndex))
      InnerInstruction.compiled).mpr ⟨hall, rfl⟩⟩

theorem topLevel_ok_iff {message : Message} {events : List NormalizedEvent} :
    topLevelLoop crates (contextOf crates cluster slot info) message = .ok events ↔
      (∀ index instruction, message.instructions[index]? = some instruction →
        index ≤ u16Max ∧ PointsToKey info instruction.programIdIndex) ∧
      events = message.instructions.zipIdx.map fun (instruction, index) =>
        instructionEvent crates cluster slot info index none instruction :=
  instructionLoop_ok_iff lawful hcluster hsignature "instruction_index"
    (fun index => (index, none)) id

theorem innerLoop_ok_iff {events : List (List NormalizedEvent)} :
    (innerGroups info).mapM (normalizeInnerGroup crates (contextOf crates cluster slot info)) =
        .ok events ↔
      (∀ group ∈ innerGroups info, group.index ≤ u16Max ∧
        ∀ index instruction, group.instructions[index]? = some instruction →
          index ≤ u16Max ∧ PointsToKey info instruction.programIdIndex) ∧
      events = (innerGroups info).map (innerGroupEvents crates cluster slot info) :=
  mapM_eq_ok_iff_map fun _ _ _ => normalizeInnerGroup_ok_iff lawful hcluster hsignature

theorem normalizeProtoInstructions_ok_iff {events : List NormalizedEvent} :
    normalizeProtoInstructions crates cluster slot (crates.bs58Encode info.signature) info =
        .ok events ↔
      (∀ message, messageOf info = some message →
        (∀ index instruction, message.instructions[index]? = some instruction →
          index ≤ u16Max ∧ PointsToKey info instruction.programIdIndex) ∧
        ∀ group ∈ innerGroups info, group.index ≤ u16Max ∧
          ∀ index instruction, group.instructions[index]? = some instruction →
            index ≤ u16Max ∧ PointsToKey info instruction.programIdIndex) ∧
      events = instructionEvents crates cluster slot info := by
  rw [normalizeProtoInstructions_eq, instructionEvents]
  cases hmessage : messageOf info with
  | none => exact ⟨fun h => ⟨nofun, (Except.ok.inj h).symm⟩, fun h => congrArg _ h.2.symm⟩
  | some message =>
      simp only [bind_eq_ok_iff, topLevel_ok_iff lawful hcluster hsignature,
        innerLoop_ok_iff lawful hcluster hsignature, Option.some.injEq, forall_eq']
      constructor
      · rintro ⟨_, ⟨htop, rfl⟩, _, ⟨hinner, rfl⟩, ⟨⟩⟩
        exact ⟨⟨htop, hinner⟩, rfl⟩
      · rintro ⟨⟨htop, hinner⟩, rfl⟩
        exact ⟨_, ⟨htop, rfl⟩, _, ⟨hinner, rfl⟩, rfl⟩

end Instructions

/-! ## The whole update -/

section Update

variable {crates : ProtoCrates} {cluster : String} {slot : Nat} {filters : List String}
  {info : SubscribeUpdateTransactionInfo} {events : List NormalizedEvent}

theorem encodeSignature_ok_iff {field signature : String} {value : Bytes} :
    encodeSignature crates field value = .ok signature ↔
      value ≠ [] ∧ signature = crates.bs58Encode value := by
  rw [encodeSignature, encodeNonEmptyBytes, check_eq_ok_iff, List.isEmpty_iff]
  exact and_congr_right fun _ => ⟨fun h => (Except.ok.inj h).symm, fun h => congrArg _ h.symm⟩

theorem transactionUpdate_ok_iff (lawful : LawfulBs58 crates.bs58Encode) :
    normalizeYellowstoneProtoUpdate crates cluster
        ⟨filters, some (.transaction ⟨some info, slot⟩)⟩ = .ok events ↔
      Normalizable cluster info ∧
        events = transactionEvent crates cluster slot info filters ::
          instructionEvents crates cluster slot info := by
  simp only [normalizeYellowstoneProtoUpdate, normalizeProtoTransaction, bind_eq_ok_iff,
    encodeSignature_ok_iff, mapError_eq_ok_iff, normalizeYellowstoneEvent,
    normalizeTransaction_ok_iff]
  constructor
  · rintro ⟨_, ⟨hsignature, rfl⟩, _, ⟨⟨hcluster, -⟩, rfl⟩, _, hinstructions, ⟨⟩⟩
    obtain ⟨hall, rfl⟩ :=
      (normalizeProtoInstructions_ok_iff lawful hcluster hsignature).mp hinstructions
    exact ⟨⟨hcluster, hsignature, fun message h => (hall message h).1,
      fun message h => (hall message h).2⟩, rfl⟩
  · rintro ⟨⟨hcluster, hsignature, htop, hinner⟩, rfl⟩
    have hinstructions : normalizeProtoInstructions crates cluster slot _ info = .ok _ :=
      (normalizeProtoInstructions_ok_iff lawful hcluster hsignature).mpr
        ⟨fun message h => ⟨htop message h, hinner message h⟩, rfl⟩
    exact ⟨_, ⟨hsignature, rfl⟩, _, ⟨⟨hcluster, lawful.nonblank _ hsignature⟩, rfl⟩, _,
      hinstructions, rfl⟩

end Update

/-! ## Distinct identities -/

/-- Where an event stands in its update: an instruction by its indices. -/
def positionOf : EventIdentity → Option (Nat × Option Nat)
  | .instruction _ _ _ _ instructionIndex innerIndex _ => some (instructionIndex, innerIndex)
  | _ => none

theorem nodup_map_zipIdx {α β : Type} (l : List α) (place : Nat → β)
    (hplace : Function.Injective place) : (l.zipIdx.map fun entry => place entry.2).Nodup := by
  have hsnd : (l.zipIdx.map Prod.snd).Nodup := by
    rw [List.zipIdx_map_snd]
    exact List.nodup_range'
  have hmap := hsnd.map hplace
  rw [List.map_map] at hmap
  exact hmap

section Identities

variable (crates : ProtoCrates) (cluster : String) (slot : Nat)
  (info : SubscribeUpdateTransactionInfo)

theorem innerGroupPositions (group : InnerInstructions) :
    (innerGroupEvents crates cluster slot info group).map (fun event => positionOf event.identity) =
      group.instructions.zipIdx.map fun entry => some (group.index, some entry.2) := by
  rw [innerGroupEvents, List.map_map]
  rfl

/-- Inner instructions of different groups differ in the first index, those of one group in the
second, and a top-level instruction has no second. -/
theorem nodup_instructionPositions
    (hgroups : ((innerGroups info).map InnerInstructions.index).Nodup) :
    ((instructionEvents crates cluster slot info).map
      fun event => positionOf event.identity).Nodup := by
  rw [instructionEvents]
  cases messageOf info with
  | none => exact List.nodup_nil
  | some message =>
      simp only [List.map_append, List.map_flatMap, innerGroupPositions, List.map_map]
      rw [List.nodup_append]
      refine ⟨nodup_map_zipIdx message.instructions (fun index => some (index, none)) ?_,
        ?_, ?_⟩
      · intro a b h
        cases h
        rfl
      · rw [List.Nodup, List.pairwise_flatMap]
        constructor
        · intro group _
          refine nodup_map_zipIdx group.instructions
            (fun index => some (group.index, some index)) ?_
          intro a b h
          cases h
          rfl
        · refine (List.pairwise_map.mp hgroups).imp ?_
          intro first second hne x hx y hy hxy
          obtain ⟨_, -, rfl⟩ := List.mem_map.mp hx
          obtain ⟨_, -, rfl⟩ := List.mem_map.mp hy
          exact hne (congrArg Prod.fst (Option.some.inj hxy))
      · intro x hx y hy hxy
        obtain ⟨_, -, rfl⟩ := List.mem_map.mp hx
        obtain ⟨_, -, hy⟩ := List.mem_flatMap.mp hy
        obtain ⟨_, -, rfl⟩ := List.mem_map.mp hy
        cases congrArg Prod.snd (Option.some.inj hxy)

theorem nodup_identities (filters : List String)
    (hgroups : ((innerGroups info).map InnerInstructions.index).Nodup) :
    ((transactionEvent crates cluster slot info filters ::
      instructionEvents crates cluster slot info).map NormalizedEvent.identity).Nodup := by
  rw [List.map_cons, List.nodup_cons]
  constructor
  · intro hmem
    have hposition := List.mem_map_of_mem (f := positionOf) hmem
    rw [List.map_map] at hposition
    obtain ⟨event, hevent, hnone⟩ := List.mem_map.mp hposition
    rw [instructionEvents] at hevent
    cases hmessage : messageOf info with
    | none => simp [hmessage] at hevent
    | some message =>
        rw [hmessage] at hevent
        rcases List.mem_append.mp hevent with htop | hinner
        · obtain ⟨_, -, rfl⟩ := List.mem_map.mp htop
          cases hnone
        · obtain ⟨group, -, hinner⟩ := List.mem_flatMap.mp hinner
          obtain ⟨_, -, rfl⟩ := List.mem_map.mp hinner
          cases hnone
  · refine List.Nodup.of_map positionOf ?_
    rw [List.map_map]
    exact nodup_instructionPositions crates cluster slot info hgroups

end Identities

/-- An update is normalized exactly if it has all that its events need; the events are those of
the transaction and of each instruction in order, and they differ in identity and key as long as
the groups of inner instructions differ in index. -/
theorem transaction_update_spec (crates : ProtoCrates) (lawful : LawfulBs58 crates.bs58Encode)
    (cluster : String) (filters : List String) (slot : Nat)
    (info : SubscribeUpdateTransactionInfo) :
    ((∃ events, normalizeYellowstoneProtoUpdate crates cluster
        ⟨filters, some (.transaction ⟨some info, slot⟩)⟩ = .ok events) ↔
      Normalizable cluster info) ∧
    ∀ events, normalizeYellowstoneProtoUpdate crates cluster
        ⟨filters, some (.transaction ⟨some info, slot⟩)⟩ = .ok events →
      events = transactionEvent crates cluster slot info filters ::
        instructionEvents crates cluster slot info ∧
      (((innerGroups info).map InnerInstructions.index).Nodup →
        (events.map NormalizedEvent.identity).Nodup ∧
          (events.map fun event => event.identity.canonicalKey).Nodup) := by
  constructor
  · constructor
    · rintro ⟨events, h⟩
      exact ((transactionUpdate_ok_iff lawful).mp h).1
    · intro h
      exact ⟨_, (transactionUpdate_ok_iff lawful).mpr ⟨h, rfl⟩⟩
  · intro events h
    obtain ⟨-, rfl⟩ := (transactionUpdate_ok_iff lawful).mp h
    refine ⟨rfl, fun hgroups => ?_⟩
    have hidentities := nodup_identities crates cluster slot info filters hgroups
    refine ⟨hidentities, ?_⟩
    have hkeys := hidentities.map canonicalKey_injective
    rw [List.map_map] at hkeys
    exact hkeys

/-! A transaction with an instruction and an inner one, with the encoder of the crate. -/

def exampleCrates : ProtoCrates where
  bs58Encode := Base58.encode
  slotStatusTryFrom _ := none

def exampleTransaction : SubscribeUpdateTransactionInfo where
  signature := List.replicate 64 9
  isVote := false
  transaction := some ⟨some
    { accountKeys := [List.replicate 32 7]
      instructions := [⟨0, [0], [1, 2]⟩] }⟩
  statusMeta := some
    { innerInstructions := [⟨0, [⟨0, [0], [3, 4]⟩]⟩]
      loadedWritableAddresses := []
      loadedReadonlyAddresses := [] }
  index := 5

theorem lawful_base58 : LawfulBs58 Base58.encode := ⟨Base58.encode_nil, Base58.encode_nonblank⟩

theorem pointsToKey_exampleTransaction : PointsToKey exampleTransaction 0 :=
  ⟨List.replicate 32 7, rfl, by decide⟩

theorem normalizable_exampleTransaction : Normalizable "mainnet-beta" exampleTransaction where
  cluster := by decide
  signature := by decide
  instructions message hmessage index instruction h := by
    cases hmessage
    cases index with
    | zero =>
        cases h
        exact ⟨by decide, pointsToKey_exampleTransaction⟩
    | succ index => cases h
  innerInstructions message _ group hgroup := by
    obtain rfl := List.mem_singleton.mp hgroup
    refine ⟨by decide, fun index instruction h => ?_⟩
    cases index with
    | zero =>
        cases h
        exact ⟨by decide, pointsToKey_exampleTransaction⟩
    | succ index => cases h

theorem transaction_update_spec_example :
    ∃ events, normalizeYellowstoneProtoUpdate exampleCrates "mainnet-beta"
        ⟨["transactions"], some (.transaction ⟨some exampleTransaction, 42⟩)⟩ = .ok events ∧
      events.length = 3 ∧ (events.map NormalizedEvent.identity).Nodup := by
  have hspec := transaction_update_spec exampleCrates lawful_base58 "mainnet-beta"
    ["transactions"] 42 exampleTransaction
  obtain ⟨events, hevents⟩ := hspec.1.mpr normalizable_exampleTransaction
  obtain ⟨rfl, hdistinct⟩ := hspec.2 events hevents
  exact ⟨_, hevents, rfl, (hdistinct (by decide)).1⟩

end YellowstoneStream.Stream

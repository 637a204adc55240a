import YellowstoneStream.Stream.Yellowstone

/-!
# Normalizing protobuf updates

The module `proto` of `crates/stream/src/yellowstone.rs`: one `SubscribeUpdate` becomes a list of
normalized events.  The messages have the fields that are read (`statusMeta` is the field `meta`);
bytes are lists.
-/

open YellowstoneStream.Domain YellowstoneStream.Reasoning

namespace YellowstoneStream.Stream

abbrev Bytes := List UInt8

/-! ## Messages -/

structure SubscribeUpdateAccountInfo where
  pubkey : Bytes
  lamports : Nat
  owner : Bytes
  executable : Bool
  rentEpoch : Nat
  data : Bytes
  writeVersion : Nat
  txnSignature : Option Bytes

structure SubscribeUpdateAccount where
  account : Option SubscribeUpdateAccountInfo
  slot : Nat
  isStartup : Bool

structure SubscribeUpdateSlot where
  slot : Nat
  parent : Option Nat
  status : Int
  deadError : Option String

structure CompiledInstruction where
  programIdIndex : Nat
  accounts : Bytes
  data : Bytes

structure InnerInstruction where
  programIdIndex : Nat
  accounts : Bytes
  data : Bytes

def InnerInstruction.compiled (instruction : InnerInstruction) : CompiledInstruction where
  programIdIndex := instruction.programIdIndex
  accounts := instruction.accounts
  data := instruction.data

structure InnerInstructions where
  index : Nat
  instructions : List InnerInstruction

structure Message where
  accountKeys : List Bytes
  instructions : List CompiledInstruction

structure ConfirmedTransaction where
  message : Option Message

structure TransactionStatusMeta where
  innerInstructions : List InnerInstructions
  loadedWritableAddresses : List Bytes
  loadedReadonlyAddresses : List Bytes

structure SubscribeUpdateTransactionInfo where
  signature : Bytes
  isVote : Bool
  transaction : Option ConfirmedTransaction
  statusMeta : Option TransactionStatusMeta
  index : Nat

structure SubscribeUpdateTransaction where
  transaction : Option SubscribeUpdateTransactionInfo
  slot : Nat

structure SubscribeUpdateBlock where
  slot : Nat
  blockhash : String
  parentSlot : Nat
  parentBlockhash : String
  executedTransactionCount : Nat
  updatedAccountCount : Nat
  entriesCount : Nat

structure SubscribeUpdateEntry where
  slot : Nat
  index : Nat
  numHashes : Nat
  hash : Bytes
  executedTransactionCount : Nat
  startingTransactionIndex : Nat

inductive UpdateOneof where
  | account (update : SubscribeUpdateAccount)
  | slot (update : SubscribeUpdateSlot)
  | transaction (update : SubscribeUpdateTransaction)
  | transactionStatus
  | block (update : SubscribeUpdateBlock)
  | ping
  | pong
  | blockMeta
  | entry (update : SubscribeUpdateEntry)

structure SubscribeUpdate where
  filters : List String
  updateOneof : Option UpdateOneof

/-- The generated enumeration; the code tells apart four of its values. -/
inductive ProtoSlotStatus where
  | slotProcessed
  | slotConfirmed
  | slotFinalized
  | slotDead
  | other (asStrName : String)
  deriving DecidableEq, Repr

/-- What normalization takes from other crates: `bs58::encode` and the generated conversion of a
slot status. -/
structure ProtoCrates where
  bs58Encode : Bytes → String
  slotStatusTryFrom : Int → Option ProtoSlotStatus

/-! ## Errors -/

inductive YellowstoneProtoNormalizeError where
  | missingUpdate
  | missingNestedField (field : String)
  | missingBytes (field : String)
  | indexOutOfRange (field : String) (value : Nat)
  | programIdIndexOutOfRange (index accountKeysLen : Nat)
  | unknownProtoSlotStatus (status : Int)
  | unsupportedProtoSlotStatus (status : String)
  | normalize (err : YellowstoneNormalizeError)
  deriving DecidableEq, Repr

def YellowstoneProtoNormalizeError.display : YellowstoneProtoNormalizeError → String
  | .missingUpdate => "yellowstone update is missing update_oneof"
  | .missingNestedField field => "yellowstone nested field " ++ field ++ " is required"
  | .missingBytes field => "yellowstone byte field " ++ field ++ " is required"
  | .indexOutOfRange field value =>
      "yellowstone index field " ++ field ++ " value " ++ toString value ++ " does not fit u16"
  | .programIdIndexOutOfRange index accountKeysLen =>
      "yellowstone program_id_index " ++ toString index ++ " is outside account key len " ++
        toString accountKeysLen
  | .unknownProtoSlotStatus status => "unknown yellowstone proto slot status " ++ toString status
  | .unsupportedProtoSlotStatus status => "unsupported yellowstone proto slot status " ++ status
  | .normalize err => "yellowstone normalize failed: " ++ err.display

/-! ## Normalization -/

def u16Max : Nat := 2 ^ 16 - 1

def checkedU16 (field : String) (value : Nat) : Except YellowstoneProtoNormalizeError Nat :=
  if u16Max < value then .error (.indexOutOfRange field value) else .ok value

def programIdAt (index : Nat) (accountKeys : List String) :
    Except YellowstoneProtoNormalizeError String :=
  match accountKeys[index]? with
  | some key => .ok key
  | none => .error (.programIdIndexOutOfRange index accountKeys.length)

theorem checkedU16_ok_iff {field : String} {value n : Nat} :
    checkedU16 field value = .ok n ↔ value ≤ u16Max ∧ n = value := by
  rw [checkedU16, check_eq_ok_iff, Nat.not_lt]
  exact and_congr_right fun _ => ⟨fun h => (Except.ok.inj h).symm, fun h => congrArg _ h.symm⟩

theorem programIdAt_ok_iff {index : Nat} {keys : List String} {programId : String} :
    programIdAt index keys = .ok programId ↔ keys[index]? = some programId := by
  rw [programIdAt]
  cases keys[index]? with
  | none => exact ⟨nofun, nofun⟩
  | some key => rw [Except.ok.injEq, Option.some.injEq]

def jsonNumber (n : Nat) : Value := .number (.posInt n)
def jsonStrings (values : List String) : Value := .array (values.map .string)
def jsonOption {α : Type} (toValue : α → Value) (value : Option α) : Value :=
  (value.map toValue).getD .null

section Crates

variable (crates : ProtoCrates)

def encodeNonEmptyBytes (field : String) (value : Bytes) :
    Except YellowstoneProtoNormalizeError String :=
  if value.isEmpty then .error (.missingBytes field) else .ok (crates.bs58Encode value)

def encodeSignature (field : String) (value : Bytes) :
    Except YellowstoneProtoNormalizeError String := encodeNonEmptyBytes crates field value

def encodePubkey (field : String) (value : Bytes) :
    Except YellowstoneProtoNormalizeError String := encodeNonEmptyBytes crates field value

def encodeOptionalPubkey (field : String) (value : Bytes) :
    Except YellowstoneProtoNormalizeError (Option String) :=
  if value.isEmpty then .ok none else (encodePubkey crates field value).map some

def protoSlotStatus (status : Int) : Except YellowstoneProtoNormalizeError String :=
  match crates.slotStatusTryFrom status with
  | some .slotProcessed => .ok "processed"
  | some .slotConfirmed => .ok "confirmed"
  | some .slotFinalized => .ok "finalized"
  | some .slotDead => .ok "dead"
  | some (.other asStrName) => .error (.unsupportedProtoSlotStatus asStrName)
  | none => .error (.unknownProtoSlotStatus status)

def normalizeProtoAccount (cluster : String) (filters : List String)
    (update : SubscribeUpdateAccount) : Except YellowstoneProtoNormalizeError NormalizedEvent :=
  match update.account with
  | none => .error (.missingNestedField "account.account")
  | some account => do
      let pubkey ← encodePubkey crates "account.pubkey" account.pubkey
      let owner ← encodeOptionalPubkey crates "account.owner" account.owner
      let txnSignature ←
        account.txnSignature.mapM (encodeSignature crates "account.txn_signature")
      (normalizeYellowstoneEvent cluster (.account
        { slot := update.slot
          account := pubkey
          writeVersion := account.writeVersion
          txnSignature
          isStartup := update.isStartup
          payload := .object [("source", .string "yellowstone_proto"),
            ("filters", jsonStrings filters), ("lamports", jsonNumber account.lamports),
            ("owner", jsonOption .string owner), ("executable", .bool account.executable),
            ("rent_epoch", jsonNumber account.rentEpoch),
            ("data_len", jsonNumber account.data.length)] })).mapError .normalize

def normalizeProtoSlot (cluster : String) (filters : List String) (update : SubscribeUpdateSlot) :
    Except YellowstoneProtoNormalizeError NormalizedEvent := do
  let status ← protoSlotStatus crates update.status
  (normalizeYellowstoneEvent cluster (.slot
    { slot := update.slot
      status
      payload := .object [("source", .string "yellowstone_proto"),
        ("filters", jsonStrings filters), ("parent", jsonOption jsonNumber update.parent),
        ("dead_error", jsonOption .string update.deadError)] })).mapError .normalize

structure InstructionNormalizeContext where
  cluster : String
  slot : Nat
  signature : String
  transactionIndex : Nat
  accountKeys : List String

def instructionAccountKeys (info : SubscribeUpdateTransactionInfo) : List String :=
  let messageKeys := ((info.transaction.bind ConfirmedTransaction.message).map fun message =>
    message.accountKeys.map crates.bs58Encode).getD []
  match info.statusMeta with
  | none => messageKeys
  | some statusMeta =>
      messageKeys ++ statusMeta.loadedWritableAddresses.map crates.bs58Encode ++
        statusMeta.loadedReadonlyAddresses.map crates.bs58Encode

def instructionPayload (instruction : CompiledInstruction) (programId : String) : Value :=
  .object [("source", .string "yellowstone_proto"),
    ("program_id_index", jsonNumber instruction.programIdIndex),
    ("program_id", .string programId),
    ("accounts", .array (instruction.accounts.map fun account => jsonNumber account.toNat)),
    ("data", .string (crates.bs58Encode instruction.data))]

def normalizeCompiledInstruction (context : InstructionNormalizeContext) (instructionIndex : Nat)
    (innerInstructionIndex : Option Nat) (instruction : CompiledInstruction) :
    Except YellowstoneProtoNormalizeError NormalizedEvent := do
  let programId ← programIdAt instruction.programIdIndex context.accountKeys
  (normalizeYellowstoneEvent context.cluster (.instruction
    { slot := context.slot
      signature := context.signature
      transactionIndex := context.transactionIndex
      instructionIndex
      innerInstructionIndex
      programId
      payload := instructionPayload crates instruction programId })).mapError .normalize

def normalizeInnerInstruction (context : InstructionNormalizeContext)
    (instructionIndex innerInstructionIndex : Nat) (instruction : InnerInstruction) :
    Except YellowstoneProtoNormalizeError NormalizedEvent :=
  normalizeCompiledInstruction crates context instructionIndex (some innerInstructionIndex)
    instruction.compiled

/-- The loop over the instructions of the message. -/
def topLevelLoop (context : InstructionNormalizeContext) (message : Message) :
    Except YellowstoneProtoNormalizeError (List NormalizedEvent) :=
  message.instructions.zipIdx.mapM fun (instruction, index) => do
    let index ← checkedU16 "instruction_index" index
    normalizeCompiledInstruction crates context index none instruction

/-- One turn of the loop over `meta.inner_instructions`. -/
def normalizeInnerGroup (context : InstructionNormalizeContext) (innerGroup : InnerInstructions) :
    Except YellowstoneProtoNormalizeError (List NormalizedEvent) := do
  let instructionIndex ← checkedU16 "instruction_index" innerGroup.index
  innerGroup.instructions.zipIdx.mapM fun (instruction, innerIndex) => do
    let innerIndex ← checkedU16 "inner_instruction_index" innerIndex
    normalizeInnerInstruction crates context instructionIndex innerIndex instruction

def normalizeProtoInstructions (cluster : String) (slot : Nat) (signature : String)
    (info : SubscribeUpdateTransactionInfo) :
    Except YellowstoneProtoNormalizeError (List NormalizedEvent) :=
  match info.transaction.bind ConfirmedTransaction.message with
  | none => .ok []
  | some message => do
      let context : InstructionNormalizeContext :=
        { cluster, slot, signature
          transactionIndex := info.index
          accountKeys := instructionAccountKeys crates info }
      let events ← topLevelLoop crates context message
      match info.statusMeta with
      | none => pure events
      | some statusMeta => do
          let inner ← statusMeta.innerInstructions.mapM (normalizeInnerGroup crates context)
          pure (events ++ inner.flatten)

def transactionPayload (filters : List String) (info : SubscribeUpdateTransactionInfo) : Value :=
  .object [("source", .string "yellowstone_proto"), ("filters", jsonStrings filters),
    ("is_vote", .bool info.isVote)]

def normalizeProtoTransaction (cluster : String) (filters : List String)
    (update : SubscribeUpdateTransaction) :
    Except YellowstoneProtoNormalizeError (List NormalizedEvent) :=
  match update.transaction with
  | none => .error (.missingNestedField "transaction.transaction")
  | some info => do
      let signature ← encodeSignature crates "transaction.signature" info.signature
      let event ← (normalizeYellowstoneEvent cluster (.transaction
        { slot := update.slot
          signature
          index := info.index
          payload := transactionPayload filters info })).mapError .normalize
      let instructions ← normalizeProtoInstructions crates cluster update.slot signature info
      pure (event :: instructions)

def normalizeProtoBlock (cluster : String) (filters : List String) (update : SubscribeUpdateBlock) :
    Except YellowstoneProtoNormalizeError NormalizedEvent :=
  (normalizeYellowstoneEvent cluster (.block
    { slot := update.slot
      blockhash := update.blockhash
      payload := .object [("source", .string "yellowstone_proto"),
        ("filters", jsonStrings filters), ("parent_slot", jsonNumber update.parentSlot),
        ("parent_blockhash", .string update.parentBlockhash),
        ("executed_transaction_count", jsonNumber update.executedTransactionCount),
        ("updated_account_count", jsonNumber update.updatedAccountCount),
        ("entries_count", jsonNumber update.entriesCount)] })).mapError .normalize

def normalizeProtoEntry (cluster : String) (filters : List String) (update : SubscribeUpdateEntry) :
    Except YellowstoneProtoNormalizeError NormalizedEvent :=
  (normalizeYellowstoneEvent cluster (.entry
    { slot := update.slot
      index := update.index
      payload := .object [("source", .string "yellowstone_proto"),
        ("filters", jsonStrings filters), ("num_hashes", jsonNumber update.numHashes),
        ("hash", .string (crates.bs58Encode update.hash)),
        ("executed_transaction_count", jsonNumber update.executedTransactionCount),
        ("starting_transaction_index", jsonNumber update.startingTransactionIndex)]
      })).mapError .normalize

def normalizeYellowstoneProtoUpdate (cluster : String) (update : SubscribeUpdate) :
    Except YellowstoneProtoNormalizeError (List NormalizedEvent) :=
  match update.updateOneof with
  | none => .error .missingUpdate
  | some (.account account) =>
      (normalizeProtoAccount crates cluster update.filters account).map fun event => [event]
  | some (.slot slot) =>
      (normalizeProtoSlot crates cluster update.filters slot).map fun event => [event]
  | some (.transaction transaction) =>
      normalizeProtoTransaction crates cluster update.filters transaction
  | some (.block block) =>
      (normalizeProtoBlock cluster update.filters block).map fun event => [event]
  | some (.entry entry) =>
      (normalizeProtoEntry crates cluster update.filters entry).map fun event => [event]
  | some .ping | some .pong | some .blockMeta | some .transactionStatus => .ok []

end Crates

end YellowstoneStream.Stream

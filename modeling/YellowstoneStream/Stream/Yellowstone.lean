import YellowstoneStream.Domain.Validation

/-!
# Normalizing Yellowstone events

The upper half of `crates/stream/src/yellowstone.rs`: an event of the provider's stream becomes a
`NormalizedEvent`, or is rejected for a field it lacks.
-/

open YellowstoneStream.Domain YellowstoneStream.Reasoning

namespace YellowstoneStream.Stream

structure YellowstoneTransaction where
  slot : Nat
  signature : String
  index : Nat
  payload : Value

structure YellowstoneAccountUpdate where
  slot : Nat
  account : String
  writeVersion : Nat
  txnSignature : Option String
  isStartup : Bool
  payload : Value

structure YellowstoneInstruction where
  slot : Nat
  signature : String
  transactionIndex : Nat
  instructionIndex : Nat
  innerInstructionIndex : Option Nat
  programId : String
  payload : Value

structure YellowstoneSlotUpdate where
  slot : Nat
  status : String
  payload : Value

structure YellowstoneBlock where
  slot : Nat
  blockhash : String
  payload : Value

structure YellowstoneEntry where
  slot : Nat
  index : Nat
  payload : Value

inductive YellowstoneEvent where
  | account (event : YellowstoneAccountUpdate)
  | block (event : YellowstoneBlock)
  | entry (event : YellowstoneEntry)
  | instruction (event : YellowstoneInstruction)
  | slot (event : YellowstoneSlotUpdate)
  | transaction (event : YellowstoneTransaction)

inductive YellowstoneNormalizeError where
  | missingField (field : String)
  | unsupportedSlotStatus (status : String)
  | invalidIdentity (err : EventIdentityError)
  deriving DecidableEq, Repr

def YellowstoneNormalizeError.display : YellowstoneNormalizeError → String
  | .missingField field => "yellowstone field " ++ field ++ " is required"
  | .unsupportedSlotStatus status => "unsupported yellowstone slot status " ++ status
  | .invalidIdentity err => "invalid normalized event identity: " ++ err.display

def requireNonEmpty (field value : String) : Except YellowstoneNormalizeError Unit :=
  if Text.isBlank value then .error (.missingField field) else .ok ()

def requireNonEmptyIfPresent (field : String) : Option String →
    Except YellowstoneNormalizeError Unit
  | some value => requireNonEmpty field value
  | none => .ok ()

def parseSlotStatus : String → Except YellowstoneNormalizeError SlotStatus
  | "processed" => .ok .processed
  | "confirmed" => .ok .confirmed
  | "finalized" => .ok .finalized
  | "dead" => .ok .dead
  | value => .error (.unsupportedSlotStatus value)

def buildEvent (identity : EventIdentity) (payload : Value) :
    Except YellowstoneNormalizeError NormalizedEvent := do
  identity.validate.mapError .invalidIdentity
  pure ⟨identity, payload⟩

def normalizeTransaction (cluster : String) (event : YellowstoneTransaction) :
    Except YellowstoneNormalizeError NormalizedEvent := do
  requireNonEmpty "signature" event.signature
  buildEvent (.transaction cluster event.slot event.signature event.index) event.payload

def normalizeAccountUpdate (cluster : String) (event : YellowstoneAccountUpdate) :
    Except YellowstoneNormalizeError NormalizedEvent := do
  requireNonEmpty "account" event.account
  requireNonEmptyIfPresent "txn_signature" event.txnSignature
  buildEvent (.account cluster event.slot event.account event.writeVersion event.txnSignature
    event.isStartup) event.payload

def normalizeInstruction (cluster : String) (event : YellowstoneInstruction) :
    Except YellowstoneNormalizeError NormalizedEvent := do
  requireNonEmpty "signature" event.signature
  requireNonEmpty "program_id" event.programId
  buildEvent (.instruction cluster event.slot event.signature event.transactionIndex
    event.instructionIndex event.innerInstructionIndex event.programId) event.payload

def normalizeSlotUpdate (cluster : String) (event : YellowstoneSlotUpdate) :
    Except YellowstoneNormalizeError NormalizedEvent := do
  let status ← parseSlotStatus event.status
  buildEvent (.slot cluster event.slot status) event.payload

def normalizeBlock (cluster : String) (event : YellowstoneBlock) :
    Except YellowstoneNormalizeError NormalizedEvent := do
  requireNonEmpty "blockhash" event.blockhash
  buildEvent (.block cluster event.slot event.blockhash) event.payload

def normalizeEntry (cluster : String) (event : YellowstoneEntry) :
    Except YellowstoneNormalizeError NormalizedEvent :=
  buildEvent (.entry cluster event.slot event.index) event.payload

def normalizeYellowstoneEvent (cluster : String) :
    YellowstoneEvent → Except YellowstoneNormalizeError NormalizedEvent
  | .account event => normalizeAccountUpdate cluster event
  | .block event => normalizeBlock cluster event
  | .entry event => normalizeEntry cluster event
  | .instruction event => normalizeInstruction cluster event
  | .slot event => normalizeSlotUpdate cluster event
  | .transaction event => normalizeTransaction cluster event

section Specs

variable {field value cluster : String} {identity : EventIdentity} {payload : Value}
  {result : NormalizedEvent}

theorem requireNonEmpty_ok_iff :
    requireNonEmpty field value = .ok () ↔ Text.isBlank value = false := by
  rw [requireNonEmpty, check_eq_ok_iff, Bool.not_eq_true]
  exact and_iff_left rfl

theorem buildEvent_ok_iff :
    buildEvent identity payload = .ok result ↔
      (∀ field ∈ identity.textFields, Text.isBlank field.2 = false) ∧
        result = ⟨identity, payload⟩ := by
  rw [← EventIdentity.validate_ok_iff, buildEvent]
  cases identity.validate with
  | error err => exact ⟨nofun, nofun⟩
  | ok value => exact ⟨fun h => ⟨rfl, (Except.ok.inj h).symm⟩, fun h => congrArg Except.ok h.2.symm⟩

theorem normalizeTransaction_ok_iff {event : YellowstoneTransaction} :
    normalizeTransaction cluster event = .ok result ↔
      (Text.isBlank cluster = false ∧ Text.isBlank event.signature = false) ∧
        result = ⟨.transaction cluster event.slot event.signature event.index, event.payload⟩ := by
  rw [normalizeTransaction, check_bind_eq_ok_iff, requireNonEmpty_ok_iff, buildEvent_ok_iff]
  constructor
  · rintro ⟨hsignature, hfields, hresult⟩
    exact ⟨⟨hfields ("cluster", cluster) List.mem_cons_self, hsignature⟩, hresult⟩
  · rintro ⟨⟨hcluster, hsignature⟩, hresult⟩
    refine ⟨hsignature, ?_, hresult⟩
    rw [EventIdentity.textFields, List.forall_mem_cons, List.forall_mem_singleton]
    exact ⟨hcluster, hsignature⟩

theorem normalizeInstruction_ok_iff {event : YellowstoneInstruction} :
    normalizeInstruction cluster event = .ok result ↔
      (Text.isBlank cluster = false ∧ Text.isBlank event.signature = false ∧
        Text.isBlank event.programId = false) ∧
        result = ⟨.instruction cluster event.slot event.signature event.transactionIndex
          event.instructionIndex event.innerInstructionIndex event.programId, event.payload⟩ := by
  rw [normalizeInstruction, check_bind_eq_ok_iff, requireNonEmpty_ok_iff, check_bind_eq_ok_iff,
    requireNonEmpty_ok_iff, buildEvent_ok_iff]
  constructor
  · rintro ⟨hsignature, hprogram, hfields, hresult⟩
    exact ⟨⟨hfields ("cluster", cluster) List.mem_cons_self, hsignature, hprogram⟩, hresult⟩
  · rintro ⟨⟨hcluster, hsignature, hprogram⟩, hresult⟩
    refine ⟨hsignature, hprogram, ?_, hresult⟩
    rw [EventIdentity.textFields, List.forall_mem_cons, List.forall_mem_cons,
      List.forall_mem_singleton]
    exact ⟨hcluster, hsignature, hprogram⟩

end Specs

/-- Whatever the event, what is returned passes the identity's own checks. -/
theorem normalizeYellowstoneEvent_valid {cluster : String} {event : YellowstoneEvent}
    {result : NormalizedEvent} (h : normalizeYellowstoneEvent cluster event = .ok result) :
    result.identity.validate = .ok () := by
  have hbuilt : ∀ {identity : EventIdentity} {payload : Value},
      buildEvent identity payload = .ok result → result.identity.validate = .ok () := by
    intro identity payload hbuild
    obtain ⟨hfields, rfl⟩ := buildEvent_ok_iff.mp hbuild
    exact identity.validate_ok_iff.mpr hfields
  cases event with
  | account event =>
      obtain ⟨_, -, h⟩ := bind_eq_ok_iff.mp h
      obtain ⟨_, -, h⟩ := bind_eq_ok_iff.mp h
      exact hbuilt h
  | instruction event =>
      obtain ⟨_, -, h⟩ := bind_eq_ok_iff.mp h
      obtain ⟨_, -, h⟩ := bind_eq_ok_iff.mp h
      exact hbuilt h
  | entry event => exact hbuilt h
  | block event | slot event | transaction event =>
      obtain ⟨_, -, h⟩ := bind_eq_ok_iff.mp h
      exact hbuilt h

end YellowstoneStream.Stream

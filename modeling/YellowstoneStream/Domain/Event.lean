import Mathlib.Algebra.Order.Ring.Nat
import Mathlib.Data.List.Basic

/-!
# Normalized events

The event model of `crates/domain/src/event.rs`: typed identities, their canonical key and the
versioned event id.  Unsigned integers of the source are natural numbers; the bounds that matter
(BIGINT columns) are checked where the source checks them.
-/

namespace YellowstoneStream.Domain

/-- `serde_json::Number`; a float is kept as its bit pattern, which nothing inspects. -/
inductive Number where
  | posInt (n : Nat)
  | negInt (i : Int)
  | float (bits : UInt64)
  deriving DecidableEq, Repr

/-- `serde_json::Value`. -/
inductive Value where
  | null
  | bool (b : Bool)
  | number (n : Number)
  | string (s : String)
  | array (values : List Value)
  | object (fields : List (String × Value))
  deriving Repr

def Value.get (value : Value) (key : String) : Option Value :=
  match value with
  | .object fields => fields.lookup key
  | _ => none

-- a negative number or a float has no `u64` value, not even when it is whole
def Value.asU64 : Value → Option Nat
  | .number (.posInt n) => some n
  | _ => none

-- a negative number is held as an `i64`, so its test never fails there
def Value.asI64 : Value → Option Int64
  | .number (.posInt n) => if n < 2 ^ 63 then some (.ofNat n) else none
  | .number (.negInt i) => if -2 ^ 63 ≤ i ∧ i < 0 then some (.ofInt i) else none
  | _ => none

/-- The integer a value stands for, of any size. -/
def Value.asInteger : Value → Option Int
  | .number (.posInt n) => some n
  | .number (.negInt i) => some i
  | _ => none

theorem Value.asInteger_of_asI64 {value : Value} {x : Int64} (h : value.asI64 = some x) :
    value.asInteger = some x.toInt := by
  unfold Value.asI64 at h
  split at h
  · split at h
    · cases h
      rw [Int64.toInt_ofNat_of_lt ‹_›]
      rfl
    · cases h
  · split at h
    · cases h
      rw [Int64.toInt_ofInt_of_le (by omega) (by omega)]
      rfl
    · cases h
  · cases h

def Value.asStr : Value → Option String
  | .string s => some s
  | _ => none

def Value.asArray : Value → Option (List Value)
  | .array values => some values
  | _ => none

def eventIdentityVersion : Nat := 1

inductive EventKind where
  | account
  | block
  | entry
  | instruction
  | slot
  | transaction
  deriving DecidableEq, Repr

def EventKind.asStr : EventKind → String
  | .account => "account"
  | .block => "block"
  | .entry => "entry"
  | .instruction => "instruction"
  | .slot => "slot"
  | .transaction => "transaction"

inductive SlotStatus where
  | processed
  | confirmed
  | finalized
  | dead
  deriving DecidableEq, Repr

def SlotStatus.asStr : SlotStatus → String
  | .processed => "processed"
  | .confirmed => "confirmed"
  | .finalized => "finalized"
  | .dead => "dead"

inductive EventIdentity where
  | account (cluster : String) (slot : Nat) (account : String) (writeVersion : Nat)
      (txnSignature : Option String) (isStartup : Bool)
  | block (cluster : String) (slot : Nat) (blockhash : String)
  | entry (cluster : String) (slot : Nat) (index : Nat)
  | instruction (cluster : String) (slot : Nat) (signature : String) (transactionIndex : Nat)
      (instructionIndex : Nat) (innerInstructionIndex : Option Nat) (programId : String)
  | slot (cluster : String) (slot : Nat) (status : SlotStatus)
  | transaction (cluster : String) (slot : Nat) (signature : String) (index : Nat)
  deriving DecidableEq, Repr

namespace EventIdentity

def kind : EventIdentity → EventKind
  | .account .. => .account
  | .block .. => .block
  | .entry .. => .entry
  | .instruction .. => .instruction
  | .slot .. => .slot
  | .transaction .. => .transaction

/-- The `slot()` accessor; every kind carries one. -/
def slotNumber : EventIdentity → Nat
  | .account _ slotNo .. => slotNo
  | .block _ slotNo _ => slotNo
  | .entry _ slotNo _ => slotNo
  | .instruction _ slotNo .. => slotNo
  | .slot _ slotNo _ => slotNo
  | .transaction _ slotNo .. => slotNo

def signature : EventIdentity → Option String
  | .account _ _ _ _ txnSignature _ => txnSignature
  | .instruction _ _ signature .. => some signature
  | .transaction _ _ signature _ => some signature
  | .block .. | .entry .. | .slot .. => none

def programId : EventIdentity → Option String
  | .instruction _ _ _ _ _ _ programId => some programId
  | .account .. | .block .. | .entry .. | .slot .. | .transaction .. => none

def accountKey : EventIdentity → Option String
  | .account _ _ key .. => some key
  | .block .. | .entry .. | .instruction .. | .slot .. | .transaction .. => none

end EventIdentity

/-- `str::replace` with a character pattern. -/
def replaceChar (pattern : Char) (replacement value : String) : String :=
  String.ofList (value.toList.flatMap fun c => if c = pattern then replacement.toList else [c])

-- the backslashes go first, so those of the later passes are not doubled
def escapeKeyValue (value : String) : String :=
  replaceChar '=' "\\=" (replaceChar '|' "\\|" (replaceChar '\\' "\\\\" value))

def encodeOptional : Option String → String
  | some value => "some:" ++ escapeKeyValue value
  | none => "none"

def encodeInnerIndex : Option Nat → String
  | some index => index.repr
  | none => "<none>"

def EventIdentity.canonicalKey : EventIdentity → String
  | .account cluster slotNo pubkey writeVersion txnSignature isStartup =>
      "v=" ++ eventIdentityVersion.repr ++ "|kind=account|cluster=" ++ escapeKeyValue cluster ++
      "|slot=" ++ slotNo.repr ++ "|account=" ++ escapeKeyValue pubkey ++
      "|write_version=" ++ writeVersion.repr ++ "|txn_signature=" ++ encodeOptional txnSignature ++
      "|is_startup=" ++ toString isStartup
  | .block cluster slotNo blockhash =>
      "v=" ++ eventIdentityVersion.repr ++ "|kind=block|cluster=" ++ escapeKeyValue cluster ++
      "|slot=" ++ slotNo.repr ++ "|blockhash=" ++ escapeKeyValue blockhash
  | .entry cluster slotNo index =>
      "v=" ++ eventIdentityVersion.repr ++ "|kind=entry|cluster=" ++ escapeKeyValue cluster ++
      "|slot=" ++ slotNo.repr ++ "|index=" ++ index.repr
  | .instruction cluster slotNo signature transactionIndex instructionIndex innerInstructionIndex
      programId =>
      "v=" ++ eventIdentityVersion.repr ++ "|kind=instruction|cluster=" ++ escapeKeyValue cluster ++
      "|slot=" ++ slotNo.repr ++ "|signature=" ++ escapeKeyValue signature ++
      "|transaction_index=" ++ transactionIndex.repr ++
      "|instruction_index=" ++ instructionIndex.repr ++
      "|inner_instruction_index=" ++ encodeInnerIndex innerInstructionIndex ++
      "|program_id=" ++ escapeKeyValue programId
  | .slot cluster slotNo status =>
      "v=" ++ eventIdentityVersion.repr ++ "|kind=slot|cluster=" ++ escapeKeyValue cluster ++
      "|slot=" ++ slotNo.repr ++ "|status=" ++ status.asStr
  | .transaction cluster slotNo signature index =>
      "v=" ++ eventIdentityVersion.repr ++ "|kind=transaction|cluster=" ++ escapeKeyValue cluster ++
      "|slot=" ++ slotNo.repr ++ "|signature=" ++ escapeKeyValue signature ++
      "|index=" ++ index.repr

/-- The two functions `event_id` takes from other crates: `sha2`'s SHA-256 of a byte string and
`hex::encode` of the digest. -/
structure Hasher where
  sha256 : ByteArray → List UInt8
  hexEncode : List UInt8 → String

def EventIdentity.eventId (hasher : Hasher) (identity : EventIdentity) : String :=
  "v" ++ eventIdentityVersion.repr ++ ":" ++
    hasher.hexEncode (hasher.sha256 identity.canonicalKey.toUTF8)

/-- `serde_json::to_value` of an identity: an object tagged with its kind, in snake case. -/
def EventIdentity.toValue : EventIdentity → Value
  | .account cluster slotNo pubkey writeVersion txnSignature isStartup =>
      .object [("kind", .string "account"), ("cluster", .string cluster),
        ("slot", .number (.posInt slotNo)), ("account", .string pubkey),
        ("write_version", .number (.posInt writeVersion)),
        ("txn_signature", (txnSignature.map Value.string).getD .null),
        ("is_startup", .bool isStartup)]
  | .block cluster slotNo blockhash =>
      .object [("kind", .string "block"), ("cluster", .string cluster),
        ("slot", .number (.posInt slotNo)), ("blockhash", .string blockhash)]
  | .entry cluster slotNo index =>
      .object [("kind", .string "entry"), ("cluster", .string cluster),
        ("slot", .number (.posInt slotNo)), ("index", .number (.posInt index))]
  | .instruction cluster slotNo signature transactionIndex instructionIndex innerInstructionIndex
      programId =>
      .object [("kind", .string "instruction"), ("cluster", .string cluster),
        ("slot", .number (.posInt slotNo)), ("signature", .string signature),
        ("transaction_index", .number (.posInt transactionIndex)),
        ("instruction_index", .number (.posInt instructionIndex)),
        ("inner_instruction_index",
          (innerInstructionIndex.map fun index => Value.number (.posInt index)).getD .null),
        ("program_id", .string programId)]
  | .slot cluster slotNo status =>
      .object [("kind", .string "slot"), ("cluster", .string cluster),
        ("slot", .number (.posInt slotNo)), ("status", .string status.asStr)]
  | .transaction cluster slotNo signature index =>
      .object [("kind", .string "transaction"), ("cluster", .string cluster),
        ("slot", .number (.posInt slotNo)), ("signature", .string signature),
        ("index", .number (.posInt index))]

structure NormalizedEvent where
  identity : EventIdentity
  payload : Value
  deriving Repr

namespace NormalizedEvent

def eventId (hasher : Hasher) (event : NormalizedEvent) : String := event.identity.eventId hasher
def identityVersion (_ : NormalizedEvent) : Nat := eventIdentityVersion
def kind (event : NormalizedEvent) : EventKind := event.identity.kind
def slot (event : NormalizedEvent) : Nat := event.identity.slotNumber
def signature (event : NormalizedEvent) : Option String := event.identity.signature
def programId (event : NormalizedEvent) : Option String := event.identity.programId
def account (event : NormalizedEvent) : Option String := event.identity.accountKey

end NormalizedEvent

end YellowstoneStream.Domain

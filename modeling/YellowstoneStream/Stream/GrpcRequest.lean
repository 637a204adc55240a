import YellowstoneStream.Reasoning.Ensures
import YellowstoneStream.Reasoning.Text
import YellowstoneStream.Stream.Reconnect

/-!
# The subscribe request

A request is built only from a configuration that passes its checks, and then has a filter.
-/

open YellowstoneStream.Reasoning

namespace YellowstoneStream.Stream

inductive YellowstoneCommitment where
  | processed
  | confirmed
  | finalized
  deriving DecidableEq, Repr

def defaultFilterName : String := "default"

structure YellowstoneGrpcConfig where
  endpoint : String
  xToken : Option String
  cluster : String
  commitment : YellowstoneCommitment
  fromSlot : Option Nat
  filterName : String
  subscribeSlots : Bool
  subscribeTransactions : Bool
  subscribeBlocks : Bool
  subscribeEntries : Bool
  transactionAccountInclude : List String
  transactionAccountExclude : List String
  transactionAccountRequired : List String
  deriving DecidableEq, Repr

structure SubscribeRequestFilterSlots where
  filterByCommitment : Option Bool
  interslotUpdates : Option Bool
  deriving DecidableEq, Repr

structure SubscribeRequestFilterTransactions where
  vote : Option Bool
  failed : Option Bool
  signature : Option String
  accountInclude : List String
  accountExclude : List String
  accountRequired : List String
  deriving DecidableEq, Repr

structure SubscribeRequestFilterBlocks where
  accountInclude : List String
  includeTransactions : Option Bool
  includeAccounts : Option Bool
  includeEntries : Option Bool
  deriving DecidableEq, Repr

structure SubscribeRequestFilterEntry where
  deriving DecidableEq, Repr

/-- The fields the producer fills in, each map of filters as a list by name. -/
structure SubscribeRequest where
  slots : List (String × SubscribeRequestFilterSlots)
  transactions : List (String × SubscribeRequestFilterTransactions)
  blocks : List (String × SubscribeRequestFilterBlocks)
  entry : List (String × SubscribeRequestFilterEntry)
  commitment : Option YellowstoneCommitment
  fromSlot : Option Nat
  deriving DecidableEq, Repr

def SubscribeRequest.HasFilter (request : SubscribeRequest) : Prop :=
  request.slots ≠ [] ∨ request.transactions ≠ [] ∨ request.blocks ≠ [] ∨ request.entry ≠ []

namespace YellowstoneGrpcConfig

def slotsOnly (endpoint cluster : String) : YellowstoneGrpcConfig where
  endpoint := endpoint
  xToken := none
  cluster := cluster
  commitment := .confirmed
  fromSlot := none
  filterName := defaultFilterName
  subscribeSlots := true
  subscribeTransactions := false
  subscribeBlocks := false
  subscribeEntries := false
  transactionAccountInclude := []
  transactionAccountExclude := []
  transactionAccountRequired := []

def validate (config : YellowstoneGrpcConfig) : Except YellowstoneGrpcError Unit :=
  if Text.isBlank config.endpoint then
    .error (.invalidConfig "yellowstone endpoint must not be empty")
  else if Text.isBlank config.cluster then
    .error (.invalidConfig "yellowstone cluster must not be empty")
  else if Text.isBlank config.filterName then
    .error (.invalidConfig "yellowstone filter name must not be empty")
  else if !(config.subscribeSlots || config.subscribeTransactions || config.subscribeBlocks ||
      config.subscribeEntries) then
    .error (.invalidConfig "at least one yellowstone subscription filter must be enabled")
  else .ok ()

/-- A map with the filter under the name of the configuration, if it is enabled. -/
def filterMap {α : Type} (config : YellowstoneGrpcConfig) (enabled : Bool) (filter : α) :
    List (String × α) :=
  if enabled then [(config.filterName, filter)] else []

def subscribeRequest (config : YellowstoneGrpcConfig) :
    Except YellowstoneGrpcError SubscribeRequest := do
  config.validate
  return {
    slots := config.filterMap config.subscribeSlots
      { filterByCommitment := some false, interslotUpdates := some false }
    transactions := config.filterMap config.subscribeTransactions
      { vote := some false, failed := none, signature := none
        accountInclude := config.transactionAccountInclude
        accountExclude := config.transactionAccountExclude
        accountRequired := config.transactionAccountRequired }
    blocks := config.filterMap config.subscribeBlocks
      { accountInclude := [], includeTransactions := some false
        includeAccounts := some false, includeEntries := some false }
    entry := config.filterMap config.subscribeEntries {}
    commitment := some config.commitment
    fromSlot := config.fromSlot }

/-- What `validate` checks. -/
structure Valid (config : YellowstoneGrpcConfig) : Prop where
  endpoint : Text.isBlank config.endpoint = false
  cluster : Text.isBlank config.cluster = false
  filterName : Text.isBlank config.filterName = false
  subscribes : config.subscribeSlots = true ∨ config.subscribeTransactions = true ∨
    config.subscribeBlocks = true ∨ config.subscribeEntries = true

variable {config : YellowstoneGrpcConfig}

theorem validate_ok_iff : config.validate = .ok () ↔ config.Valid := by
  simp only [validate, check_eq_ok_iff, Bool.not_eq_true, Bool.not_eq_true', Bool.not_eq_false,
    Bool.or_eq_true, or_assoc, and_true]
  constructor
  · rintro ⟨hendpoint, hcluster, hname, hsubscribes⟩
    exact ⟨hendpoint, hcluster, hname, hsubscribes⟩
  · rintro ⟨hendpoint, hcluster, hname, hsubscribes⟩
    exact ⟨hendpoint, hcluster, hname, hsubscribes⟩

theorem filterMap_ne_nil {α : Type} {enabled : Bool} (h : enabled = true) (filter : α) :
    config.filterMap enabled filter ≠ [] := by
  rw [filterMap, if_pos h]
  exact List.cons_ne_nil _ _

/-- A request is built from every valid configuration, asks for its slot and has a filter. -/
theorem subscribeRequest_of_valid (h : config.Valid) :
    ∃ request, config.subscribeRequest = .ok request ∧ request.fromSlot = config.fromSlot ∧
      request.HasFilter := by
  unfold subscribeRequest
  rw [validate_ok_iff.mpr h]
  refine ⟨_, rfl, rfl, ?_⟩
  rcases h.subscribes with hslots | htransactions | hblocks | hentries
  · exact .inl (filterMap_ne_nil hslots _)
  · exact .inr (.inl (filterMap_ne_nil htransactions _))
  · exact .inr (.inr (.inl (filterMap_ne_nil hblocks _)))
  · exact .inr (.inr (.inr (filterMap_ne_nil hentries _)))

end YellowstoneGrpcConfig

end YellowstoneStream.Stream

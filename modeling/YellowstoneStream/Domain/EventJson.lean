import Mathlib.Data.String.Basic
import YellowstoneStream.Domain.EventKey
import YellowstoneStream.Domain.Validation
import YellowstoneStream.Reasoning.OrderedEntries

/-!
# Events in JSON

What serde derives for the types of `event.rs`, and `parse_normalized_event` over it.  A value that
is read has its entries in the order of the text, repeated ones too; a payload is kept the way
`serde_json` keeps a map, in the order of the keys.
-/

open YellowstoneStream.Reasoning

namespace YellowstoneStream.Domain

/-! ## Values -/

mutual
/-- A value as `serde_json::Value` holds it. -/
def Value.collect : Value → Value
  | .array values => .array (Value.collectValues values)
  | .object entries => .object (orderedEntries (Value.collectEntries entries))
  | .null => .null
  | .bool b => .bool b
  | .number n => .number n
  | .string s => .string s

def Value.collectValues : List Value → List Value
  | [] => []
  | value :: rest => value.collect :: Value.collectValues rest

def Value.collectEntries : List (String × Value) → List (String × Value)
  | [] => []
  | (key, value) :: rest => (key, value.collect) :: Value.collectEntries rest
end

mutual
/-- All objects in the value have ascending keys. -/
def Value.Ordered : Value → Prop
  | .array values => Value.OrderedValues values
  | .object entries => IsOrdered entries ∧ Value.OrderedEntries entries
  | .null | .bool _ | .number _ | .string _ => True

def Value.OrderedValues : List Value → Prop
  | [] => True
  | value :: rest => value.Ordered ∧ Value.OrderedValues rest

def Value.OrderedEntries : List (String × Value) → Prop
  | [] => True
  | (_, value) :: rest => value.Ordered ∧ Value.OrderedEntries rest
end

theorem Value.orderedEntries_iff {entries : List (String × Value)} :
    Value.OrderedEntries entries ↔ ∀ entry ∈ entries, entry.2.Ordered := by
  induction entries with
  | nil => exact ⟨fun _ => nofun, fun _ => True.intro⟩
  | cons entry entries ih =>
      rw [Value.OrderedEntries, List.forall_mem_cons, ih]

mutual
theorem Value.collect_of_ordered : {value : Value} → value.Ordered → value.collect = value
  | .array values, h => by
      rw [Value.Ordered] at h
      rw [Value.collect, Value.collectValues_of_ordered h]
  | .object entries, h => by
      rw [Value.Ordered] at h
      rw [Value.collect, Value.collectEntries_of_ordered h.2, orderedEntries_of_isOrdered h.1]
  | .null, _ | .bool _, _ | .number _, _ | .string _, _ => rfl

theorem Value.collectValues_of_ordered :
    {values : List Value} → Value.OrderedValues values → Value.collectValues values = values
  | [], _ => rfl
  | value :: rest, h => by
      rw [Value.OrderedValues] at h
      rw [Value.collectValues, Value.collect_of_ordered h.1, Value.collectValues_of_ordered h.2]

theorem Value.collectEntries_of_ordered : {entries : List (String × Value)} →
    Value.OrderedEntries entries → Value.collectEntries entries = entries
  | [], _ => rfl
  | (key, value) :: rest, h => by
      rw [Value.OrderedEntries] at h
      rw [Value.collectEntries, Value.collect_of_ordered h.1, Value.collectEntries_of_ordered h.2]
end

mutual
theorem Value.ordered_collect : (value : Value) → value.collect.Ordered
  | .array values => Value.orderedValues_collect values
  | .object entries => by
      rw [Value.collect, Value.Ordered, Value.orderedEntries_iff]
      have hall := Value.orderedEntries_iff.mp (Value.orderedEntries_collect entries)
      exact ⟨isOrdered_orderedEntries _, fun e he => hall e (mem_of_mem_orderedEntries he)⟩
  | .null | .bool _ | .number _ | .string _ => True.intro

theorem Value.orderedValues_collect : (values : List Value) →
    Value.OrderedValues (Value.collectValues values)
  | [] => True.intro
  | value :: rest => ⟨Value.ordered_collect value, Value.orderedValues_collect rest⟩

theorem Value.orderedEntries_collect : (entries : List (String × Value)) →
    Value.OrderedEntries (Value.collectEntries entries)
  | [] => True.intro
  | (_, value) :: rest => ⟨Value.ordered_collect value, Value.orderedEntries_collect rest⟩
end

/-! ## Fields -/

/-- The value of a field if it is given; to give it twice is an error. -/
def fieldOf (entries : List (String × Value)) (name : String) : Option (Option Value) :=
  match entries.filter fun entry => entry.1 = name with
  | [] => some none
  | [entry] => some (some entry.2)
  | _ => none

/-- The fields of a structure, by name or in their order. -/
def structFields (names : List String) : Value → Option (List (Option Value))
  | .object entries => names.mapM (fieldOf entries)
  | .array values => if values.length = names.length then some (values.map some) else none
  | _ => none

section Readers

variable {α : Type} (read : Value → Option α)

def requiredField (field : Option Value) : Option α := field >>= read

def optionalField : Option Value → Option (Option α)
  | none | some .null => some none
  | some value => (read value).map some

end Readers

def Value.asBool : Value → Option Bool
  | .bool b => some b
  | _ => none

/-- A number that fits in an unsigned integer of so many bits. -/
def Value.asUnsigned (bits : Nat) : Value → Option Nat
  | .number (.posInt n) => if n < 2 ^ bits then some n else none
  | _ => none

def EventKind.ofStr : String → Option EventKind
  | "account" => some .account
  | "block" => some .block
  | "entry" => some .entry
  | "instruction" => some .instruction
  | "slot" => some .slot
  | "transaction" => some .transaction
  | _ => none

def SlotStatus.ofStr : String → Option SlotStatus
  | "processed" => some .processed
  | "confirmed" => some .confirmed
  | "finalized" => some .finalized
  | "dead" => some .dead
  | _ => none

-- a unit variant may also be written as an object without content
def SlotStatus.fromValue : Value → Option SlotStatus
  | .string text | .object [(text, .null)] | .object [(text, .object [])] => SlotStatus.ofStr text
  | _ => none

def EventKind.fieldNames : EventKind → List String
  | .account => ["cluster", "slot", "account", "write_version", "txn_signature", "is_startup"]
  | .block => ["cluster", "slot", "blockhash"]
  | .entry => ["cluster", "slot", "index"]
  | .instruction => ["cluster", "slot", "signature", "transaction_index", "instruction_index",
      "inner_instruction_index", "program_id"]
  | .slot => ["cluster", "slot", "status"]
  | .transaction => ["cluster", "slot", "signature", "index"]

def EventIdentity.ofFields (kind : EventKind) (fields : List (Option Value)) :
    Option EventIdentity :=
  match kind, fields with
  | .account, [cluster, slotNo, pubkey, writeVersion, txnSignature, isStartup] => do
      return .account (← requiredField Value.asStr cluster)
        (← requiredField (Value.asUnsigned 64) slotNo) (← requiredField Value.asStr pubkey)
        (← requiredField (Value.asUnsigned 64) writeVersion)
        (← optionalField Value.asStr txnSignature) (← requiredField Value.asBool isStartup)
  | .block, [cluster, slotNo, blockhash] => do
      return .block (← requiredField Value.asStr cluster)
        (← requiredField (Value.asUnsigned 64) slotNo) (← requiredField Value.asStr blockhash)
  | .entry, [cluster, slotNo, index] => do
      return .entry (← requiredField Value.asStr cluster)
        (← requiredField (Value.asUnsigned 64) slotNo)
        (← requiredField (Value.asUnsigned 64) index)
  | .instruction, [cluster, slotNo, signature, transactionIndex, instructionIndex,
      innerInstructionIndex, programId] => do
      return .instruction (← requiredField Value.asStr cluster)
        (← requiredField (Value.asUnsigned 64) slotNo) (← requiredField Value.asStr signature)
        (← requiredField (Value.asUnsigned 64) transactionIndex)
        (← requiredField (Value.asUnsigned 16) instructionIndex)
        (← optionalField (Value.asUnsigned 16) innerInstructionIndex)
        (← requiredField Value.asStr programId)
  | .slot, [cluster, slotNo, status] => do
      return .slot (← requiredField Value.asStr cluster)
        (← requiredField (Value.asUnsigned 64) slotNo)
        (← requiredField SlotStatus.fromValue status)
  | .transaction, [cluster, slotNo, signature, index] => do
      return .transaction (← requiredField Value.asStr cluster)
        (← requiredField (Value.asUnsigned 64) slotNo) (← requiredField Value.asStr signature)
        (← requiredField (Value.asUnsigned 64) index)
  | _, _ => none

/-- The tag stands among the entries of an object or in front of the items of an array. -/
def EventIdentity.fromValue : Value → Option EventIdentity
  | .object entries => do
      let tag ← fieldOf entries "kind"
      let kind ← requiredField (fun tag => tag.asStr >>= EventKind.ofStr) tag
      EventIdentity.ofFields kind (← structFields kind.fieldNames (.object entries))
  | .array (tag :: values) => do
      let kind ← tag.asStr >>= EventKind.ofStr
      EventIdentity.ofFields kind (← structFields kind.fieldNames (.array values))
  | _ => none

def NormalizedEvent.fromValue (value : Value) : Option NormalizedEvent := do
  match ← structFields ["identity", "payload"] value with
  | [identity, payload] =>
      return ⟨← requiredField EventIdentity.fromValue identity,
        ← requiredField (fun payload => some payload.collect) payload⟩
  | _ => none

/-- `serde_json::to_value` of an event. -/
def NormalizedEvent.toValue (event : NormalizedEvent) : Value :=
  .object [("identity", event.identity.toValue), ("payload", event.payload)]

def NormalizedEvent.validate (event : NormalizedEvent) : Except EventIdentityError Unit :=
  event.identity.validate

/-! ## Lines -/

/-- `serde_json` between texts and values. -/
structure JsonText where
  fromStr : String → Option Value
  toStr : Value → String
  /-- What is reported of a text that is not JSON or has not the form of an event. -/
  message : String → String

inductive NormalizedEventParseError where
  | emptyLine
  | invalidJson (message : String)
  | invalidIdentity (err : EventIdentityError)
  deriving DecidableEq, Repr

def NormalizedEventParseError.display : NormalizedEventParseError → String
  | .emptyLine => "event line must not be empty"
  | .invalidJson message => "invalid event json: " ++ message
  | .invalidIdentity err => "invalid event identity: " ++ err.display

def parseNormalizedEvent (json : JsonText) (line : String) :
    Except NormalizedEventParseError NormalizedEvent := do
  if Text.isBlank line then .error .emptyLine else
  let event ← ((json.fromStr line >>= NormalizedEvent.fromValue).map Except.ok).getD
    (.error (.invalidJson (json.message line)))
  event.validate.mapError .invalidIdentity
  return event

/-! ## What is read -/

/-- The bounds of the source's unsigned integers. -/
def EventIdentity.InRange : EventIdentity → Prop
  | .account _ slotNo _ writeVersion _ _ => slotNo < 2 ^ 64 ∧ writeVersion < 2 ^ 64
  | .block _ slotNo _ | .slot _ slotNo _ => slotNo < 2 ^ 64
  | .entry _ slotNo index | .transaction _ slotNo _ index => slotNo < 2 ^ 64 ∧ index < 2 ^ 64
  | .instruction _ slotNo _ transactionIndex instructionIndex innerInstructionIndex _ =>
      slotNo < 2 ^ 64 ∧ transactionIndex < 2 ^ 64 ∧ instructionIndex < 2 ^ 16 ∧
        ∀ index ∈ innerInstructionIndex, index < 2 ^ 16

theorem Value.asUnsigned_posInt {bits n : Nat} (h : n < 2 ^ bits) :
    Value.asUnsigned bits (.number (.posInt n)) = some n := if_pos h

theorem Value.lt_of_asUnsigned {bits n : Nat} {value : Value}
    (h : value.asUnsigned bits = some n) : n < 2 ^ bits := by
  unfold Value.asUnsigned at h
  split at h
  · split at h
    · cases h
      assumption
    · cases h
  · cases h

theorem lt_of_requiredField {bits n : Nat} {field : Option Value}
    (h : requiredField (Value.asUnsigned bits) field = some n) : n < 2 ^ bits := by
  obtain ⟨value, -, hvalue⟩ := Option.bind_eq_some_iff.mp h
  exact Value.lt_of_asUnsigned hvalue

theorem lt_of_optionalField {bits : Nat} {field : Option Value} {found : Option Nat}
    (h : optionalField (Value.asUnsigned bits) field = some found) : ∀ n ∈ found, n < 2 ^ bits := by
  unfold optionalField at h
  split at h
  · cases h
    exact nofun
  · cases h
    exact nofun
  · obtain ⟨n, hn, rfl⟩ := Option.map_eq_some_iff.mp h
    rintro _ ⟨⟩
    exact Value.lt_of_asUnsigned hn

theorem EventKind.ofStr_asStr (kind : EventKind) : EventKind.ofStr kind.asStr = some kind := by
  cases kind <;> rfl

theorem SlotStatus.ofStr_asStr (status : SlotStatus) :
    SlotStatus.ofStr status.asStr = some status := by
  cases status <;> rfl

namespace EventIdentity

theorem inRange_ofFields {kind : EventKind} {fields : List (Option Value)}
    {identity : EventIdentity} (h : ofFields kind fields = some identity) : identity.InRange := by
  unfold ofFields at h
  split at h
  all_goals
    simp only [Option.bind_eq_bind, Option.bind_eq_some_iff, Option.pure_def, Option.some.injEq,
      reduceCtorEq] at h
  · obtain ⟨_, -, _, hslot, _, -, _, hversion, _, -, _, -, rfl⟩ := h
    exact ⟨lt_of_requiredField hslot, lt_of_requiredField hversion⟩
  · obtain ⟨_, -, _, hslot, _, -, rfl⟩ := h
    exact lt_of_requiredField hslot
  · obtain ⟨_, -, _, hslot, _, hindex, rfl⟩ := h
    exact ⟨lt_of_requiredField hslot, lt_of_requiredField hindex⟩
  · obtain ⟨_, -, _, hslot, _, -, _, htransaction, _, hindex, _, hinner, _, -, rfl⟩ := h
    exact ⟨lt_of_requiredField hslot, lt_of_requiredField htransaction,
      lt_of_requiredField hindex, lt_of_optionalField hinner⟩
  · obtain ⟨_, -, _, hslot, _, -, rfl⟩ := h
    exact lt_of_requiredField hslot
  · obtain ⟨_, -, _, hslot, _, -, _, hindex, rfl⟩ := h
    exact ⟨lt_of_requiredField hslot, lt_of_requiredField hindex⟩

theorem inRange_of_fromValue {value : Value} {identity : EventIdentity}
    (h : fromValue value = some identity) : identity.InRange := by
  unfold fromValue at h
  split at h
  · obtain ⟨_, -, h⟩ := Option.bind_eq_some_iff.mp h
    obtain ⟨_, -, h⟩ := Option.bind_eq_some_iff.mp h
    obtain ⟨_, -, h⟩ := Option.bind_eq_some_iff.mp h
    exact inRange_ofFields h
  · obtain ⟨_, -, h⟩ := Option.bind_eq_some_iff.mp h
    obtain ⟨_, -, h⟩ := Option.bind_eq_some_iff.mp h
    exact inRange_ofFields h
  · cases h

end EventIdentity

/-! ## Reading what is written -/

/-- A field that is left out is read as one that is null. -/
def present : Option Value → Option Value
  | some .null => none
  | field => field

section Present

variable {α : Type} {read : Value → Option α}

theorem requiredField_present (hnull : read .null = none) (field : Option Value) :
    requiredField read (present field) = requiredField read field := by
  unfold present
  split
  · exact hnull.symm
  · rfl

theorem eq_of_present {field : Option Value} {text : String}
    (h : present field = some (.string text)) : field = some (.string text) := by
  unfold present at h
  split at h
  · cases h
  · exact h

theorem optionalField_present (field : Option Value) :
    optionalField read (present field) = optionalField read field := by
  unfold present
  split <;> rfl

theorem requiredField_some (value : Value) : requiredField read (some value) = read value := rfl

theorem optionalField_getD_string (text : Option String) :
    optionalField Value.asStr (some ((text.map Value.string).getD .null)) = some text := by
  cases text <;> rfl

theorem optionalField_getD_unsigned {bits : Nat} {index : Option Nat}
    (h : ∀ n ∈ index, n < 2 ^ bits) : optionalField (Value.asUnsigned bits)
      (some ((index.map fun n => Value.number (.posInt n)).getD .null)) = some index := by
  cases index with
  | none => rfl
  | some n =>
      show (Value.asUnsigned bits (.number (.posInt n))).map some = _
      rw [Value.asUnsigned_posInt (h n rfl)]
      rfl

end Present

section Keys

variable {entries : List (String × Value)} {name : String}

theorem filter_of_key_not_mem (h : name ∉ entries.map Prod.fst) :
    entries.filter (fun entry => entry.1 = name) = [] := by
  rw [List.filter_eq_nil_iff]
  intro entry hentry hname
  rw [decide_eq_true_eq] at hname
  exact h (List.mem_map.mpr ⟨entry, hentry, hname⟩)

theorem filter_of_key_nodup (hnodup : (entries.map Prod.fst).Nodup) {entry : String × Value}
    (h : entry ∈ entries) : entries.filter (fun e => e.1 = entry.1) = [entry] := by
  obtain ⟨before, after, rfl⟩ := List.append_of_mem h
  rw [List.map_append, List.map_cons, List.perm_middle.nodup_iff, List.nodup_cons,
    List.mem_append, not_or] at hnodup
  obtain ⟨⟨hbefore, hafter⟩, -⟩ := hnodup
  rw [List.filter_append, filter_of_key_not_mem hbefore, List.filter_cons_of_pos (by simp),
    filter_of_key_not_mem hafter]
  rfl

theorem filter_of_perm {kept others : List (String × Value)}
    (hperm : entries.Perm (kept ++ others)) (h : name ∉ others.map Prod.fst) :
    (entries.filter fun entry => entry.1 = name).Perm
      (kept.filter fun entry => entry.1 = name) := by
  have hboth := hperm.filter fun entry => entry.1 = name
  rwa [List.filter_append, filter_of_key_not_mem h, List.append_nil] at hboth

theorem fieldOf_of_perm {kept others : List (String × Value)}
    (hperm : entries.Perm (kept ++ others)) (hnodup : (kept.map Prod.fst).Nodup)
    {entry : String × Value} (hentry : entry ∈ kept) (h : entry.1 ∉ others.map Prod.fst) :
    fieldOf entries entry.1 = some (some entry.2) := by
  have hfilter := filter_of_perm hperm h
  rw [filter_of_key_nodup hnodup hentry, List.perm_singleton] at hfilter
  rw [fieldOf, hfilter]

end Keys

theorem exists_mapM {α β γ : Type} {f : α → Option β} {g : α → γ} {k : β → γ} {as : List α}
    (h : ∀ a ∈ as, ∃ b, f a = some b ∧ k b = g a) :
    ∃ bs, as.mapM f = some bs ∧ bs.map k = as.map g := by
  induction as with
  | nil => exact ⟨[], rfl, rfl⟩
  | cons a as ih =>
      obtain ⟨⟨b, hb, hk⟩, hrest⟩ := List.forall_mem_cons.mp h
      obtain ⟨bs, hbs, hall⟩ := ih hrest
      refine ⟨b :: bs, ?_, ?_⟩
      · rw [List.mapM_cons, hb, hbs]
        rfl
      · rw [List.map_cons, List.map_cons, hk, hall]

namespace EventIdentity

/-- The entries of the object that an identity is written as. -/
def toEntries (identity : EventIdentity) : List (String × Value) :=
  match identity.toValue with
  | .object entries => entries
  | _ => []

theorem toValue_eq (identity : EventIdentity) : identity.toValue = .object identity.toEntries := by
  cases identity <;> rfl

theorem toEntries_eq (identity : EventIdentity) :
    identity.toEntries = ("kind", .string identity.kind.asStr) :: identity.toEntries.tail := by
  cases identity <;> rfl

theorem keys_toEntries (identity : EventIdentity) :
    identity.toEntries.tail.map Prod.fst = identity.kind.fieldNames := by
  cases identity <;> rfl

theorem keys_nodup (identity : EventIdentity) : (identity.toEntries.map Prod.fst).Nodup := by
  rw [toEntries_eq, List.map_cons, keys_toEntries]
  cases identity.kind <;> decide

theorem ofFields_toEntries {identity : EventIdentity} (h : identity.InRange) :
    ofFields identity.kind (identity.toEntries.tail.map fun entry => some entry.2) =
      some identity := by
  cases identity <;> simp only [InRange] at h
  all_goals
    simp only [ofFields, toEntries, toValue, kind, List.tail_cons, List.map_cons, List.map_nil,
      requiredField_some, Value.asStr, Value.asBool, SlotStatus.fromValue,
      SlotStatus.ofStr_asStr, Option.bind_eq_bind, Option.bind_some, Option.pure_def,
      optionalField_getD_string, Value.asUnsigned_posInt, h]
  case instruction =>
    rw [optionalField_getD_unsigned h.2.2.2]
    rfl

theorem ofFields_present (kind : EventKind) (fields : List (Option Value)) :
    ofFields kind (fields.map present) = ofFields kind fields := by
  have hstr := @requiredField_present _ Value.asStr rfl
  have hbool := @requiredField_present _ Value.asBool rfl
  have hstatus := @requiredField_present _ SlotStatus.fromValue rfl
  have hunsigned (bits : Nat) := @requiredField_present _ (Value.asUnsigned bits) rfl
  -- seven fields are the most that a kind has
  rcases fields with
    _ | ⟨a, _ | ⟨b, _ | ⟨c, _ | ⟨d, _ | ⟨e, _ | ⟨f, _ | ⟨g, _ | ⟨i, rest⟩⟩⟩⟩⟩⟩⟩⟩ <;>
    cases kind <;>
    simp only [List.map_cons, List.map_nil, ofFields, hstr, hbool, hstatus, hunsigned,
      optionalField_present]

/-- The entries give an identity: its fields stand in any order, those without a value may be left
out, and there may be entries that it has no field for. -/
def GivenBy (identity : EventIdentity) (entries : List (String × Value)) : Prop :=
  ∃ kept others, entries.Perm (kept ++ others) ∧ kept.Sublist identity.toEntries ∧
    (∀ entry ∈ identity.toEntries, entry ∈ kept ∨ entry.2 = .null) ∧
    ∀ name ∈ others.map Prod.fst, name ∉ identity.toEntries.map Prod.fst

theorem givenBy_toEntries (identity : EventIdentity) : identity.GivenBy identity.toEntries :=
  ⟨identity.toEntries, [], by rw [List.append_nil], .refl _, fun _ h => .inl h, nofun⟩

theorem fieldOf_of_givenBy {identity : EventIdentity} {entries : List (String × Value)}
    (h : identity.GivenBy entries) {entry : String × Value} (hentry : entry ∈ identity.toEntries) :
    ∃ given, fieldOf entries entry.1 = some given ∧ present given = present (some entry.2) := by
  obtain ⟨kept, others, hperm, hkept, hnull, hothers⟩ := h
  have hname : entry.1 ∉ others.map Prod.fst := fun hname =>
    hothers entry.1 hname (List.mem_map.mpr ⟨entry, hentry, rfl⟩)
  by_cases hmem : entry ∈ kept
  · have hnodup : (kept.map Prod.fst).Nodup := identity.keys_nodup.sublist (hkept.map _)
    exact ⟨some entry.2, fieldOf_of_perm hperm hnodup hmem hname, rfl⟩
  · -- an entry of this name in `kept` would be another one of the same name
    have hout : entry.1 ∉ kept.map Prod.fst := by
      intro hin
      obtain ⟨e, he, hsame⟩ := List.mem_map.mp hin
      have honly := filter_of_key_nodup identity.keys_nodup hentry
      have hfound : e ∈ identity.toEntries.filter fun e => e.1 = entry.1 :=
        List.mem_filter.mpr ⟨hkept.subset he, decide_eq_true hsame⟩
      rw [honly, List.mem_singleton] at hfound
      exact hmem (hfound ▸ he)
    have hfilter := filter_of_perm hperm hname
    rw [filter_of_key_not_mem hout, List.perm_nil] at hfilter
    have hvalue := (hnull entry hentry).resolve_left hmem
    exact ⟨none, by rw [fieldOf, hfilter], by rw [hvalue]; rfl⟩

/-- An identity in range is read from all entries that give it. -/
theorem fromValue_of_givenBy {identity : EventIdentity} {entries : List (String × Value)}
    (hrange : identity.InRange) (h : identity.GivenBy entries) :
    fromValue (.object entries) = some identity := by
  have htag : fieldOf entries "kind" = some (some (.string identity.kind.asStr)) := by
    obtain ⟨tag, htag, hpresent⟩ := fieldOf_of_givenBy h
      (show ("kind", .string identity.kind.asStr) ∈ identity.toEntries by
        rw [toEntries_eq]; exact List.mem_cons_self)
    rw [htag, eq_of_present hpresent]
  have hfields : ∃ fields, identity.kind.fieldNames.mapM (fieldOf entries) = some fields ∧
      fields.map present =
        (identity.toEntries.tail.map fun entry => some entry.2).map present := by
    rw [← keys_toEntries, List.mapM_map, List.map_map]
    exact exists_mapM fun entry hentry => fieldOf_of_givenBy h (List.mem_of_mem_tail hentry)
  obtain ⟨fields, hfields, hpresent⟩ := hfields
  have hidentity : ofFields identity.kind fields = some identity := by
    rw [← ofFields_present, hpresent, ofFields_present, ofFields_toEntries hrange]
  simp only [fromValue, htag, requiredField_some, Value.asStr, Option.bind_eq_bind,
    Option.bind_some, EventKind.ofStr_asStr, structFields, hfields, hidentity]

theorem fromValue_toValue {identity : EventIdentity} (h : identity.InRange) :
    fromValue identity.toValue = some identity := by
  rw [toValue_eq, fromValue_of_givenBy h identity.givenBy_toEntries]

end EventIdentity

/-! ## Accepted lines -/

/-- What `parse_normalized_event` promises of an event. -/
structure NormalizedEvent.WellFormed (event : NormalizedEvent) : Prop where
  valid : event.validate = .ok ()
  inRange : event.identity.InRange
  ordered : event.payload.Ordered

/-- The entries give an event: those of its identity and its payload, which may hold its objects in
another order, among others that it has no field for. -/
def NormalizedEvent.GivenBy (event : NormalizedEvent) (entries : List (String × Value)) : Prop :=
  ∃ identity payload others, event.identity.GivenBy identity ∧ payload.collect = event.payload ∧
    entries.Perm ([("identity", .object identity), ("payload", payload)] ++ others) ∧
    ∀ name ∈ others.map Prod.fst, name ∉ ["identity", "payload"]

namespace NormalizedEvent

variable {event : NormalizedEvent}

theorem fromValue_of_givenBy {entries : List (String × Value)} (hrange : event.identity.InRange)
    (h : event.GivenBy entries) : fromValue (.object entries) = some event := by
  obtain ⟨identity, payload, others, hidentity, hpayload, hperm, hothers⟩ := h
  have hfield (entry : String × Value)
      (hentry : entry ∈ [("identity", Value.object identity), ("payload", payload)]) :
      fieldOf entries entry.1 = some (some entry.2) :=
    fieldOf_of_perm hperm (by simp) hentry fun hname =>
      hothers entry.1 hname (List.mem_map.mpr ⟨entry, hentry, rfl⟩)
  have hfirst := hfield _ List.mem_cons_self
  have hsecond := hfield _ (List.mem_cons_of_mem _ List.mem_cons_self)
  have hread := EventIdentity.fromValue_of_givenBy hrange hidentity
  simp only [fromValue, structFields, List.mapM_cons, List.mapM_nil, hfirst, hsecond,
    Option.bind_eq_bind, Option.bind_some, Option.pure_def, requiredField_some, hread, hpayload]

theorem givenBy_toValue (h : event.payload.Ordered) :
    ∃ entries, event.toValue = .object entries ∧ event.GivenBy entries :=
  ⟨_, rfl, event.identity.toEntries, event.payload, [], event.identity.givenBy_toEntries,
    Value.collect_of_ordered h, by rw [EventIdentity.toValue_eq]; rfl, nofun⟩

theorem inRange_and_ordered_of_fromValue {value : Value} (h : fromValue value = some event) :
    event.identity.InRange ∧ event.payload.Ordered := by
  unfold fromValue at h
  obtain ⟨fields, -, h⟩ := Option.bind_eq_some_iff.mp h
  split at h
  · obtain ⟨identity, hidentity, h⟩ := Option.bind_eq_some_iff.mp h
    obtain ⟨payload, hpayload, ⟨⟩⟩ := Option.bind_eq_some_iff.mp h
    obtain ⟨_, -, hidentity⟩ := Option.bind_eq_some_iff.mp hidentity
    obtain ⟨value, -, ⟨⟩⟩ := Option.bind_eq_some_iff.mp hpayload
    exact ⟨EventIdentity.inRange_of_fromValue hidentity, Value.ordered_collect value⟩
  · cases h

end NormalizedEvent

section Parse

variable {json : JsonText} {line : String} {event : NormalizedEvent}

theorem parseNormalizedEvent_eq_ok_iff : parseNormalizedEvent json line = .ok event ↔
    Text.isBlank line = false ∧ event.validate = .ok () ∧
      ∃ value, json.fromStr line = some value ∧ NormalizedEvent.fromValue value = some event := by
  rw [parseNormalizedEvent, check_eq_ok_iff, Bool.not_eq_true]
  refine and_congr_right fun _ => ?_
  rw [← Option.bind_eq_some_iff]
  cases hread : json.fromStr line >>= NormalizedEvent.fromValue with
  | none =>
      rw [show (json.fromStr line).bind NormalizedEvent.fromValue = none from hread]
      exact ⟨nofun, nofun⟩
  | some found =>
      rw [show (json.fromStr line).bind NormalizedEvent.fromValue = some found from hread]
      show (found.validate.mapError _ >>= fun _ => .ok found) = .ok event ↔ _
      rw [check_bind_eq_ok_iff, mapError_eq_ok_iff]
      constructor
      · rintro ⟨hvalid, ⟨⟩⟩
        exact ⟨hvalid, rfl⟩
      · rintro ⟨hvalid, ⟨⟩⟩
        exact ⟨hvalid, rfl⟩

theorem wellFormed_of_parse (h : parseNormalizedEvent json line = .ok event) :
    event.WellFormed := by
  obtain ⟨-, hvalid, value, -, hvalue⟩ := parseNormalizedEvent_eq_ok_iff.mp h
  obtain ⟨hrange, hordered⟩ := NormalizedEvent.inRange_and_ordered_of_fromValue hvalue
  exact ⟨hvalid, hrange, hordered⟩

theorem parse_of_givenBy (hwell : event.WellFormed) (hblank : Text.isBlank line = false)
    {entries : List (String × Value)} (hjson : json.fromStr line = some (.object entries))
    (hgiven : event.GivenBy entries) : parseNormalizedEvent json line = .ok event :=
  parseNormalizedEvent_eq_ok_iff.mpr ⟨hblank, hwell.valid, _, hjson,
    NormalizedEvent.fromValue_of_givenBy hwell.inRange hgiven⟩

end Parse

/-- An event is read from a line only if it passes its checks, is in range and has an ordered
payload; and then every other line that gives the same event, in whatever order and with whatever
else, is read as that event. -/
theorem accepted_event_has_one_reading (json : JsonText) (line : String) (event : NormalizedEvent)
    (h : parseNormalizedEvent json line = .ok event) :
    event.WellFormed ∧ ∀ other entries, json.fromStr other = some (.object entries) →
      Text.isBlank other = false → event.GivenBy entries →
      parseNormalizedEvent json other = .ok event := by
  have hwell := wellFormed_of_parse h
  exact ⟨hwell, fun other entries hjson hblank => parse_of_givenBy hwell hblank hjson⟩

def deadSlotLine : String :=
  "\x7b\"identity\":\x7b\"kind\":\"slot\",\"cluster\":\"test\",\"slot\":1," ++
    "\"status\":\"dead\"\x7d,\"payload\":1\x7d"

/-- The same event from the end to the front, with a field that events do not have. -/
def reversedLine : String :=
  "\x7b\"source\":0,\"payload\":1," ++
    "\"identity\":\x7b\"status\":\"dead\",\"slot\":1,\"cluster\":\"test\",\"kind\":\"slot\"\x7d\x7d"

def deadSlotEvent : NormalizedEvent := ⟨.slot "test" 1 .dead, .number (.posInt 1)⟩

def reversedEntries : List (String × Value) :=
  [("source", .number (.posInt 0)), ("payload", deadSlotEvent.payload),
    ("identity", .object deadSlotEvent.identity.toEntries.reverse)]

/-- What `serde_json` makes of the two lines. -/
def linesJson : JsonText where
  fromStr text :=
    if text = deadSlotLine then some deadSlotEvent.toValue
    else if text = reversedLine then some (.object reversedEntries)
    else none
  toStr _ := deadSlotLine
  message _ := "expected ident at line 1 column 2"

theorem deadSlotLine_notBlank : Text.isBlank deadSlotLine = false := by
  refine Text.not_isBlank (c := ':') ?_ (by decide)
  unfold deadSlotLine
  rw [String.toList_append]
  simp

theorem reversedLine_notBlank : Text.isBlank reversedLine = false := by
  refine Text.not_isBlank (c := ':') ?_ (by decide)
  unfold reversedLine
  rw [String.toList_append]
  simp

theorem reversedLine_ne : reversedLine ≠ deadSlotLine := by
  refine mt (congrArg String.toList) ?_
  unfold reversedLine deadSlotLine
  rw [String.toList_append, String.toList_append]
  simp

theorem deadSlotEvent_wellFormed : deadSlotEvent.WellFormed where
  valid := by decide
  inRange := show 1 < 2 ^ 64 by decide
  ordered := True.intro

theorem linesJson_deadSlotLine : linesJson.fromStr deadSlotLine = some deadSlotEvent.toValue := by
  dsimp only [linesJson]
  rw [if_pos rfl]

theorem linesJson_reversedLine :
    linesJson.fromStr reversedLine = some (.object reversedEntries) := by
  dsimp only [linesJson]
  rw [if_neg reversedLine_ne, if_pos rfl]

theorem parse_deadSlotLine :
    parseNormalizedEvent linesJson deadSlotLine = .ok deadSlotEvent := by
  obtain ⟨entries, hentries, hgiven⟩ :=
    NormalizedEvent.givenBy_toValue deadSlotEvent_wellFormed.ordered
  refine parse_of_givenBy deadSlotEvent_wellFormed deadSlotLine_notBlank ?_ hgiven
  rw [linesJson_deadSlotLine, hentries]

theorem accepted_event_has_one_reading_reversed :
    parseNormalizedEvent linesJson reversedLine = .ok deadSlotEvent := by
  have hidentity : deadSlotEvent.identity.GivenBy deadSlotEvent.identity.toEntries.reverse := by
    refine ⟨deadSlotEvent.identity.toEntries, [], ?_, .refl _, fun _ h => .inl h, nofun⟩
    rw [List.append_nil]
    exact List.reverse_perm _
  have hgiven : deadSlotEvent.GivenBy reversedEntries :=
    ⟨_, deadSlotEvent.payload, [("source", .number (.posInt 0))], hidentity, rfl,
      List.reverse_perm [("identity", _), ("payload", _), ("source", _)], by simp⟩
  exact (accepted_event_has_one_reading linesJson deadSlotLine deadSlotEvent
    parse_deadSlotLine).2 reversedLine reversedEntries linesJson_reversedLine reversedLine_notBlank
      hgiven

end YellowstoneStream.Domain
